import ECE385.Slc3.Image
import ECE385.Slc3.Instructions
import Mathlib.Order.WellFounded

/-!
# The multiplier program of the image

Words `49` to `73`.  `R1` is the first operand, shifted left once a turn, `R2` the second one, `R3`
the mask of bit 7, `R4` counts the turns and `R5` is the total.  The total is doubled in each turn,
and negated in the first one, since bit 7 of the operand has the weight `-128`.
-/

namespace ECE385.Slc3

open Clocked Isa Arch Encode

/-! ### The sum -/

/-- `R1` in turn `i`. -/
def shifted (x : BitVec 10) : ℕ → BitVec 16
  | 0 => x.setWidth 16
  | i + 1 => shifted x i + shifted x i

/-- `R5` after the addition of turn `i`. -/
def added (x y : BitVec 10) (i : ℕ) (r5 : BitVec 16) : BitVec 16 :=
  if 0x0080#16 &&& shifted x i ≠ 0#16 then r5 + r5 + y.setWidth 16 else r5 + r5

/-- `R5` before turn `i`. -/
def total (x y : BitVec 10) : ℕ → BitVec 16
  | 0 => 0#16
  | i + 1 => if i = 0 then ~~~added x y i (total x y i) + 1#16 else added x y i (total x y i)

/-- What the display shows for the operands `x` and `y`. -/
def product (x y : BitVec 10) : BitVec 16 := BitVec.ofInt 16 ((x.setWidth 8).toInt * y.toNat)

theorem added_eq_mul (x y : BitVec 10) (i : ℕ) (r5 : BitVec 16) :
    added x y i (r5 * y.setWidth 16) = added x 1#10 i r5 * y.setWidth 16 := by
  rw [added, added, apply_ite (· * y.setWidth 16), BitVec.add_mul, BitVec.add_mul,
    show (1#10).setWidth 16 = 1#16 from rfl, BitVec.one_mul]

/-- The total is a multiple of the second operand. -/
theorem total_eq_mul (x y : BitVec 10) (i : ℕ) :
    total x y i = total x 1#10 i * y.setWidth 16 := by
  induction i with
  | zero => exact (BitVec.zero_mul).symm
  | succ i ih =>
    rw [total, total, ih, added_eq_mul, apply_ite (· * y.setWidth 16), ← BitVec.neg_eq_not_add,
      ← BitVec.neg_eq_not_add, BitVec.neg_mul]

theorem total_eight (x y : BitVec 10) : total x y 8 = product x y := by
  have hall : ∀ x : BitVec 10, total x 1#10 8 = BitVec.ofInt 16 (x.setWidth 8).toInt := by
    decide +kernel
  rw [total_eq_mul, hall, product, BitVec.ofInt_mul, BitVec.ofInt_natCast, BitVec.ofNat_toNat]

/-! ### The program -/

/-- Words `49` to `73` are in the memory. -/
def HasMultiplier (mem : BitVec 8 → BitVec 16) : Prop :=
  ∀ p, 49 ≤ p → p ≤ 73 → mem (BitVec.ofNat 8 p) = programWords.getD p 0#16

/-- The program at `p`. -/
structure Executes (p : ℕ) (a : Arch) : Prop where
  pc : a.pc = BitVec.ofNat 16 p
  words : HasMultiplier a.mem

/-- Once `R0` is clear and the mask is in `R3`. -/
structure Ready (p : ℕ) (a : Arch) : Prop extends Executes p a where
  r0 : a.r R0 = 0#16
  r3 : a.r R3 = 0x0080#16

/-- In the loop. -/
structure Loop (p : ℕ) (y : BitVec 10) (r1 r4 r5 : BitVec 16) (a : Arch) : Prop
    extends Ready p a where
  r1 : a.r R1 = r1
  r2 : a.r R2 = y.setWidth 16
  r4 : a.r R4 = r4
  r5 : a.r R5 = r5

/-- What holds at the words of the loop in turn `i`. -/
inductive Turn (x y : BitVec 10) (i : ℕ) : ℕ → Arch → Prop
  | w58 {a : Arch} : Loop 58 y (shifted x i) (BitVec.ofNat 16 i) (total x y i) a → Turn x y i 58 a
  | w59 {a : Arch} : Loop 59 y (shifted x i) (BitVec.ofNat 16 i) (total x y i + total x y i) a →
    Turn x y i 59 a
  | w60 {a : Arch} : Loop 60 y (shifted x i) (BitVec.ofNat 16 i) (total x y i + total x y i) a →
    a.cc = sign (0x0080#16 &&& shifted x i) → Turn x y i 60 a
  | w61 {a : Arch} : Loop 61 y (shifted x i) (BitVec.ofNat 16 i) (total x y i + total x y i) a →
    0x0080#16 &&& shifted x i ≠ 0#16 → Turn x y i 61 a
  | w62 {a : Arch} : Loop 62 y (shifted x i) (BitVec.ofNat 16 i) (added x y i (total x y i)) a →
    Turn x y i 62 a
  | w63 {a : Arch} : Loop 63 y (shifted x i) (BitVec.ofNat 16 i) (added x y i (total x y i)) a →
    a.cc = sign (BitVec.ofNat 16 i) → Turn x y i 63 a
  | w64 {a : Arch} : Loop 64 y (shifted x i) (BitVec.ofNat 16 i) (added x y i (total x y i)) a →
    i = 0 → Turn x y i 64 a
  | w65 {a : Arch} : Loop 65 y (shifted x i) (BitVec.ofNat 16 i) (~~~added x y i (total x y i)) a →
    i = 0 → Turn x y i 65 a
  | w66 {a : Arch} : Loop 66 y (shifted x i) (BitVec.ofNat 16 i) (total x y (i + 1)) a →
    Turn x y i 66 a
  | w67 {a : Arch} : Loop 67 y (shifted x i) (BitVec.ofNat 16 (i + 1)) (total x y (i + 1)) a →
    Turn x y i 67 a
  | w68 {a : Arch} :
    Loop 68 y (shifted x (i + 1)) (BitVec.ofNat 16 (i + 1)) (total x y (i + 1)) a →
    Turn x y i 68 a
  | w69 {a : Arch} :
    Loop 69 y (shifted x (i + 1)) (BitVec.ofNat 16 (i + 1)) (total x y (i + 1)) a →
    a.cc = sign (BitVec.ofNat 16 (i + 1) + 0xFFF8#16) → Turn x y i 69 a

/-- **What holds at each word.**  `X` holds of the first operand once it has been read, and `Y` of
both; `k` bounds the instructions to the last checkpoint. -/
inductive Assertion (X : BitVec 10 → Prop) (Y : BitVec 10 → BitVec 10 → Prop) : ℕ → Arch → Prop
  | w49 {a : Arch} : Executes 49 a → Assertion X Y 106 a
  | w50 {a : Arch} : Executes 50 a → a.r R0 = 0#16 → Assertion X Y 105 a
  | w51 {a : Arch} : Executes 51 a → a.r R0 = 0#16 → a.r R7 = 51#16 → Assertion X Y 104 a
  | w52 {a : Arch} : Ready 52 a → Assertion X Y 103 a
  | w53 {a : Arch} : Ready 53 a → a.r R4 = 0#16 → Assertion X Y 102 a
  | w54 {a : Arch} : Ready 54 a → a.r R4 = 0#16 → a.r R5 = 0#16 → Assertion X Y 101 a
  | w55 {a : Arch} : Ready 55 a → a.r R4 = 0#16 → a.r R5 = 0#16 → Assertion X Y 100 a
  | w56 {a : Arch} {x : BitVec 10} : Ready 56 a → a.r R4 = 0#16 → a.r R5 = 0#16 → X x →
    a.r R1 = x.setWidth 16 → Assertion X Y 99 a
  | w57 {a : Arch} {x : BitVec 10} : Ready 57 a → a.r R4 = 0#16 → a.r R5 = 0#16 → X x →
    a.r R1 = x.setWidth 16 → Assertion X Y 98 a
  /-- `d` turns come after this one. -/
  | turn {a : Arch} {x y : BitVec 10} {i d p : ℕ} : Y x y → i + d = 7 → Turn x y i p a →
    Assertion X Y (12 * d + 71 - p) a
  | w70 {a : Arch} {x y : BitVec 10} : Y x y → Ready 70 a → Encode.nzp &&& a.cc ≠ 0#3 →
    a.r R5 = product x y → Assertion X Y 1 a
  | w71 {a : Arch} {x y : BitVec 10} : Y x y → Ready 71 a → Encode.nzp &&& a.cc ≠ 0#3 →
    a.hexData = product x y → Assertion X Y 0 a
  | w72 {a : Arch} : Ready 72 a → Encode.nzp &&& a.cc ≠ 0#3 → Assertion X Y 104 a

/-- The words at which the program reads or shows something. -/
def IsPort (q : BitVec 16) : Prop := q ∈ [55#16, 57#16, 71#16]

instance : DecidablePred IsPort := fun q => inferInstanceAs (Decidable (q ∈ _))

/-! ### One instruction -/

section Steps

variable {x y : BitVec 10} {p i : ℕ} {r1 r4 r5 : BitVec 16} {a : Arch} {s : BitVec 10 × BitVec 10}

theorem Executes.fetches (h : Executes p a) (h49 : 49 ≤ p) (h72 : p ≤ 73) :
    a.Fetches (programWords.getD p 0#16) := by
  refine ⟨?_, ?_⟩
  · rw [h.pc]
    exact ofNat_ne_ones (by omega)
  · rw [h.pc, word_ofNat, h.words p h49 h72]

theorem Executes.advance (h : Executes p a) : Executes (p + 1) a.advance :=
  ⟨by rw [BitVec.ofNat_add, ← h.pc]; rfl, h.words⟩

theorem Executes.write (h : Executes p a) (d : BitVec 3) (v : BitVec 16) :
    Executes p (a.write d v) := ⟨h.pc, h.words⟩

theorem Ready.advance (h : Ready p a) : Ready (p + 1) a.advance :=
  ⟨h.toExecutes.advance, h.r0, h.r3⟩

/-- The program writes neither `R0` nor `R3` any more. -/
theorem Ready.write (h : Ready p a) {d : BitVec 3} (hd : d ≠ R0 ∧ d ≠ R3) (v : BitVec 16) :
    Ready p (a.write d v) where
  toExecutes := h.toExecutes.write d v
  r0 := (if_neg hd.1).trans h.r0
  r3 := (if_neg hd.2).trans h.r3

/-- The next word, with a result in `R7`. -/
theorem Loop.next (h : Loop p y r1 r4 r5 a) (v : BitVec 16) :
    Loop (p + 1) y r1 r4 r5 (a.advance.write R7 v) :=
  ⟨h.toReady.advance.write (by decide) v, h.r1, h.r2, h.r4, h.r5⟩

theorem Loop.next_r1 (h : Loop p y r1 r4 r5 a) (v : BitVec 16) :
    Loop (p + 1) y v r4 r5 (a.advance.write R1 v) :=
  ⟨h.toReady.advance.write (by decide) v, rfl, h.r2, h.r4, h.r5⟩

theorem Loop.next_r4 (h : Loop p y r1 r4 r5 a) (v : BitVec 16) :
    Loop (p + 1) y r1 v r5 (a.advance.write R4 v) :=
  ⟨h.toReady.advance.write (by decide) v, h.r1, h.r2, rfl, h.r5⟩

theorem Loop.next_r5 (h : Loop p y r1 r4 r5 a) (v : BitVec 16) :
    Loop (p + 1) y r1 r4 v (a.advance.write R5 v) :=
  ⟨h.toReady.advance.write (by decide) v, h.r1, h.r2, h.r4, rfl⟩

theorem Loop.advance (h : Loop p y r1 r4 r5 a) : Loop (p + 1) y r1 r4 r5 a.advance :=
  ⟨h.toReady.advance, h.r1, h.r2, h.r4, h.r5⟩

/-- A branch taken. -/
theorem Loop.goto (h : Loop p y r1 r4 r5 a) {q : ℕ} {m : BitVec 16}
    (hq : BitVec.ofNat 16 p + 1#16 + m = BitVec.ofNat 16 q) :
    Loop q y r1 r4 r5 { a with pc := a.pc + 1#16 + m } :=
  ⟨⟨⟨h.pc ▸ hq, h.words⟩, h.r0, h.r3⟩, h.r1, h.r2, h.r4, h.r5⟩

theorem sign_zero_iff (v : BitVec 16) : z &&& sign v ≠ 0#3 ↔ v = 0#16 := by
  rw [sign]
  split_ifs with hneg hzero
  · refine iff_of_false (by decide) ?_
    rintro rfl
    exact absurd hneg (by decide)
  · exact iff_of_true (by decide) hzero
  · exact iff_of_false (by decide) hzero

/-- The tests of the counter. -/
theorem p_and_sign : ∀ i < 8, Encode.p &&& sign (BitVec.ofNat 16 i) ≠ 0#3 ↔ i ≠ 0 := by
  decide

theorem n_and_sign_count : ∀ i < 8,
    n &&& sign (BitVec.ofNat 16 (i + 1) + 0xFFF8#16) ≠ 0#3 ↔ i ≠ 7 := by
  decide

/-- **One instruction in a turn.** -/
theorem Turn.step (h : Turn x y i p a) (hi : i < 8) (s : BitVec 10 × BitVec 10) :
    (∃ q, p < q ∧ q ≤ 69 ∧ Turn x y i q (a.cycle s)) ∨
      p = 69 ∧ i ≠ 7 ∧ Turn x y (i + 1) 58 (a.cycle s) ∨
      p = 69 ∧ i = 7 ∧ Ready 70 (a.cycle s) ∧ Encode.nzp &&& (a.cycle s).cc ≠ 0#3 ∧
        (a.cycle s).r R5 = total x y 8 := by
  cases h with
  | w58 h =>
    rw [cycle_add (d := R5) (s := R5) (t := R5) (h.fetches (by decide) (by decide))
      (by decide +kernel), h.r5]
    exact .inl ⟨59, by decide, by decide, .w59 (h.next_r5 _)⟩
  | w59 h =>
    rw [cycle_and (d := R7) (s := R3) (t := R1) (h.fetches (by decide) (by decide))
      (by decide +kernel), h.r3, h.r1]
    exact .inl ⟨60, by decide, by decide, .w60 (h.next _) (write_cc _ _ _)⟩
  | w60 h hcc =>
    rw [cycle_br (d := z) (m := 1#16) (h.fetches (by decide) (by decide)) (by decide +kernel)]
    split_ifs with htest
    all_goals rw [hcc] at htest
    · -- the bit is clear
      have hclear := (sign_zero_iff _).mp htest
      refine .inl ⟨62, by decide, by decide, .w62 ?_⟩
      rw [added, if_neg (not_not.mpr hclear)]
      exact h.goto (q := 62) (m := 1#16) (by decide)
    · have hset := mt (sign_zero_iff _).mpr htest
      exact .inl ⟨61, by decide, by decide, .w61 h.advance hset⟩
  | w61 h hset =>
    rw [cycle_add (d := R5) (s := R5) (t := R2) (h.fetches (by decide) (by decide))
      (by decide +kernel), h.r5, h.r2]
    refine .inl ⟨62, by decide, by decide, .w62 ?_⟩
    rw [added, if_pos hset]
    exact h.next_r5 _
  | w62 h =>
    rw [cycle_addi (d := R4) (s := R4) (m := 0#16) (h.fetches (by decide) (by decide))
      (by decide +kernel), h.r4, BitVec.add_zero]
    exact .inl ⟨63, by decide, by decide, .w63 (h.next_r4 _) (write_cc _ _ _)⟩
  | w63 h hcc =>
    rw [cycle_br (d := Encode.p) (m := 2#16) (h.fetches (by decide) (by decide))
      (by decide +kernel)]
    split_ifs with htest
    all_goals rw [hcc] at htest
    · have hi0 := (p_and_sign i hi).mp htest
      refine .inl ⟨66, by decide, by decide, .w66 ?_⟩
      rw [total, if_neg hi0]
      exact h.goto (q := 66) (m := 2#16) (by decide)
    · have hi0 := not_not.mp (mt (p_and_sign i hi).mpr htest)
      exact .inl ⟨64, by decide, by decide, .w64 h.advance hi0⟩
  | w64 h hi0 =>
    rw [cycle_not (d := R5) (s := R5) (h.fetches (by decide) (by decide)) (by decide +kernel),
      h.r5]
    exact .inl ⟨65, by decide, by decide, .w65 (h.next_r5 _) hi0⟩
  | w65 h hi0 =>
    rw [cycle_addi (d := R5) (s := R5) (m := 1#16) (h.fetches (by decide) (by decide))
      (by decide +kernel), h.r5]
    refine .inl ⟨66, by decide, by decide, .w66 ?_⟩
    rw [total, if_pos hi0]
    exact h.next_r5 _
  | w66 h =>
    rw [cycle_addi (d := R4) (s := R4) (m := 1#16) (h.fetches (by decide) (by decide))
      (by decide +kernel), h.r4, ← BitVec.ofNat_add]
    exact .inl ⟨67, by decide, by decide, .w67 (h.next_r4 _)⟩
  | w67 h =>
    rw [cycle_add (d := R1) (s := R1) (t := R1) (h.fetches (by decide) (by decide))
      (by decide +kernel), h.r1]
    exact .inl ⟨68, by decide, by decide, .w68 (h.next_r1 _)⟩
  | w68 h =>
    rw [cycle_addi (d := R7) (s := R4) (m := 0xFFF8#16) (h.fetches (by decide) (by decide))
      (by decide +kernel), h.r4]
    exact .inl ⟨69, by decide, by decide, .w69 (h.next _) (write_cc _ _ _)⟩
  | w69 h hcc =>
    rw [cycle_br (d := n) (m := 0xFFF4#16) (h.fetches (by decide) (by decide))
      (by decide +kernel)]
    split_ifs with htest
    all_goals rw [hcc] at htest
    · exact .inr (.inl ⟨rfl, (n_and_sign_count i hi).mp htest,
        .w58 (h.goto (q := 58) (m := 0xFFF4#16) (by decide))⟩)
    · have hi7 := not_not.mp (mt (n_and_sign_count i hi).mpr htest)
      subst hi7
      refine .inr (.inr ⟨rfl, rfl, h.toReady.advance, ?_, h.r5⟩)
      rw [show a.advance.cc = _ from hcc]
      decide

theorem Executes.pc_eq_iff (h : Executes p a) (hp : p ≤ 73) {q : ℕ} (hq : q ≤ 73) :
    a.pc = BitVec.ofNat 16 q ↔ p = q := by
  rw [h.pc, ← BitVec.toNat_inj, BitVec.toNat_ofNat, BitVec.toNat_ofNat]
  omega

theorem Turn.range (h : Turn x y i p a) : 58 ≤ p ∧ p ≤ 69 ∧ Ready p a := by
  cases h with
  | w58 h | w59 h | w60 h | w61 h | w62 h | w63 h | w64 h | w65 h | w66 h | w67 h | w68 h | w69 h =>
    exact ⟨by decide, by decide, h.toReady⟩

/-- **One instruction.**  The operands are read at `55` and `57`; the last checkpoint comes nearer,
or it has been reached. -/
theorem Assertion.step {X X' : BitVec 10 → Prop} {Y Y' : BitVec 10 → BitVec 10 → Prop} {k : ℕ}
    (h : Assertion X Y k a) (s : BitVec 10 × BitVec 10) (hX : a.pc = 55#16 → X' s.2)
    (hX' : ¬IsPort a.pc → ∀ x, X x → X' x) (hY : a.pc = 57#16 → ∀ x, X x → Y' x s.2)
    (hY' : ¬IsPort a.pc → ∀ x y, Y x y → Y' x y) :
    ∃ l, Assertion X' Y' l (a.cycle s) ∧ (l < k ∨ a.pc = 71#16) := by
  cases h with
  | w49 h =>
    rw [cycle_andi (d := R0) (s := R0) (m := 0#16) (h.fetches (by decide) (by decide))
      (by decide +kernel), BitVec.and_zero]
    exact ⟨105, .w50 (h.advance.write _ _) rfl, .inl (by decide)⟩
  | w50 h h0 =>
    rw [cycle_jsr (m := 0#16) (h.fetches (by decide) (by decide)) (by decide +kernel), h.pc]
    exact ⟨104, .w51 ⟨rfl, h.words⟩ h0 rfl, .inl (by decide)⟩
  | w51 h h0 h7 =>
    rw [cycle_ldr (d := R3) (s := R7) (m := 22#16) (h.fetches (by decide) (by decide))
      (by decide +kernel), h7, rd, if_neg (by decide)]
    have hmask : a.mem (word (51#16 + 22#16)) = 0x0080#16 := h.words 73 (by decide) (by decide)
    rw [hmask]
    exact ⟨103, .w52 ⟨h.advance.write _ _, h0, rfl⟩, .inl (by decide)⟩
  | w52 h =>
    rw [cycle_andi (d := R4) (s := R4) (m := 0#16) (h.fetches (by decide) (by decide))
      (by decide +kernel), BitVec.and_zero]
    exact ⟨102, .w53 (h.advance.write (by decide) _) rfl, .inl (by decide)⟩
  | w53 h h4 =>
    rw [cycle_andi (d := R5) (s := R5) (m := 0#16) (h.fetches (by decide) (by decide))
      (by decide +kernel), BitVec.and_zero]
    exact ⟨101, .w54 (h.advance.write (by decide) _) h4 rfl, .inl (by decide)⟩
  | w54 h h4 h5 =>
    rw [cycle_pse (h.fetches (by decide) (by decide)) (by decide +kernel)]
    exact ⟨100, .w55 h.advance h4 h5, .inl (by decide)⟩
  | w55 h h4 h5 =>
    rw [cycle_ldr (d := R1) (s := R0) (m := 0xFFFF#16) (h.fetches (by decide) (by decide))
      (by decide +kernel), h.r0, rd, if_pos (by decide)]
    exact ⟨99, .w56 (h.advance.write (by decide) _) h4 h5 (hX h.pc) rfl, .inl (by decide)⟩
  | w56 h h4 h5 hx h1 =>
    rw [cycle_pse (h.fetches (by decide) (by decide)) (by decide +kernel)]
    have hx' := hX' (by rw [h.pc]; decide) _ hx
    exact ⟨98, .w57 h.advance h4 h5 hx' h1, .inl (by decide)⟩
  | w57 h h4 h5 hx h1 =>
    rw [cycle_ldr (d := R2) (s := R0) (m := 0xFFFF#16) (h.fetches (by decide) (by decide))
      (by decide +kernel), h.r0, rd, if_pos (by decide)]
    have h58 : Loop 58 _ _ _ _ (a.advance.write R2 (s.2.setWidth 16)) :=
      ⟨h.advance.write (by decide) _, h1, rfl, h4, h5⟩
    exact ⟨12 * 7 + 71 - 58, .turn (hY h.pc _ hx) rfl (.w58 h58), .inl (by decide)⟩
  | @turn _ x y i d p hxy hd h =>
    obtain ⟨h58, h69, hready⟩ := h.range
    have hpc : ¬IsPort a.pc := by
      intro hio
      rcases List.mem_cons.mp hio with hq | hio
      · have := (hready.pc_eq_iff (q := 55) (by omega) (by decide)).mp hq
        omega
      rcases List.mem_cons.mp hio with hq | hio
      · have := (hready.pc_eq_iff (q := 57) (by omega) (by decide)).mp hq
        omega
      · have := (hready.pc_eq_iff (q := 71) (by omega) (by decide)).mp (List.mem_singleton.mp hio)
        omega
    have hxy' := hY' hpc x y hxy
    rcases h.step (by omega) s with ⟨q, hpq, hq, hnext⟩ | ⟨rfl, hi, hnext⟩ |
      ⟨rfl, rfl, hnext, hcc, h5⟩
    · exact ⟨_, .turn hxy' hd hnext, .inl (by omega)⟩
    · exact ⟨_, .turn (d := d - 1) hxy' (by omega) hnext, .inl (by omega)⟩
    · exact ⟨1, .w70 hxy' hnext hcc (h5.trans (total_eight x y)), .inl (by omega)⟩
  | w70 hxy h hcc h5 =>
    rw [cycle_str (d := R5) (s := R0) (m := 0xFFFF#16) (h.fetches (by decide) (by decide))
      (by decide +kernel), h.r0, h5]
    have hxy' := hY' (by rw [h.pc]; decide) _ _ hxy
    refine ⟨0, .w71 hxy' ⟨⟨h.advance.pc, fun p h49 h73 => ?_⟩, h.r0, h.r3⟩ hcc rfl,
      .inl (by decide)⟩
    -- the store goes to word 255 as well
    refine (if_neg fun h => ?_).trans (h.words p h49 h73)
    have := congrArg BitVec.toNat (h.trans (show word (0#16 + 0xFFFF#16) = 255#8 by decide))
    simp only [BitVec.toNat_ofNat] at this
    omega
  | w71 hxy h hcc hhex =>
    rw [cycle_pse (h.fetches (by decide) (by decide)) (by decide +kernel)]
    exact ⟨104, .w72 h.advance hcc, .inr h.pc⟩
  | w72 h hcc =>
    rw [cycle_br (d := Encode.nzp) (m := 0xFFEB#16) (h.fetches (by decide) (by decide))
      (by decide +kernel), if_pos hcc, h.pc]
    exact ⟨103, .w52 ⟨⟨rfl, h.words⟩, h.r0, h.r3⟩, .inl (by decide)⟩

end Steps

/-! ### Runs -/

/-- Before time `t` the program has read `x` at `55` and then `y` at `57`, and has not been at
another of these words or at `71` since.  `At m q`: at time `m` it comes to word `q`; `sw m` are the
switches for a load there. -/
def Reads (At : ℕ → BitVec 16 → Prop) (sw : ℕ → BitVec 10) (t : ℕ) (x y : BitVec 10) : Prop :=
  ∃ p q, p < q ∧ q < t ∧ At p 55#16 ∧ At q 57#16 ∧ sw p = x ∧ sw q = y ∧
    ∀ m, p < m → m < t → ∀ io, IsPort io → At m io → m = q

/-- The program comes to `71` again and again, each time with the product of the operands it has
just read. -/
def Multiplies (At : ℕ → BitVec 16 → Prop) (sw : ℕ → BitVec 10) (state : ℕ → Arch) : Prop :=
  (∀ t, ∃ t' ≥ t, At t' 71#16) ∧
    ∀ t, At t 71#16 → ∃ x y, Reads At sw t x y ∧ (state t).hexData = product x y

section Runs

variable {a : Arch} (hwords : HasMultiplier a.mem) (hpc : a.pc = 49#16)
  (w : ℕ → BitVec 10 × BitVec 10)

/-- The first operand has been read. -/
def ReadsFirst (w : ℕ → BitVec 10 × BitVec 10) (a : Arch) (n : ℕ) (x : BitVec 10) : Prop :=
  ∃ p, p < n ∧ (run Arch.cycle w a p).pc = 55#16 ∧ (w p).2 = x ∧
    ∀ m, p < m → m < n → ¬IsPort (run Arch.cycle w a m).pc

/-- The operands in a run of the reference machine. -/
abbrev ReadsBoth (w : ℕ → BitVec 10 × BitVec 10) (a : Arch) : ℕ → BitVec 10 → BitVec 10 → Prop :=
  Reads (fun n q => (run Arch.cycle w a n).pc = q) fun n => (w n).2

/-- One more instruction of a run. -/
theorem assertion_succ {n k : ℕ}
    (h : Assertion (ReadsFirst w a n) (ReadsBoth w a n) k (run Arch.cycle w a n)) :
    ∃ l, Assertion (ReadsFirst w a (n + 1)) (ReadsBoth w a (n + 1)) l (run Arch.cycle w a (n + 1)) ∧
      (l < k ∨ (run Arch.cycle w a n).pc = 71#16) := by
  refine h.step (w n) ?_ ?_ ?_ ?_
  · exact fun h55 => ⟨n, by omega, h55, rfl, fun m _ _ => by omega⟩
  · rintro hio x ⟨p, hp, h55, hx, hbetween⟩
    refine ⟨p, by omega, h55, hx, fun m hm hmn => ?_⟩
    rcases Nat.lt_succ_iff_lt_or_eq.mp hmn with hmn | rfl
    · exact hbetween m hm hmn
    · exact hio
  · rintro h57 x ⟨p, hp, h55, hx, hbetween⟩
    refine ⟨p, n, hp, by omega, h55, h57, hx, rfl, fun m hm hmn io hio hat => ?_⟩
    rcases Nat.lt_succ_iff_lt_or_eq.mp hmn with hmn | rfl
    · exact absurd (hat ▸ hio) (hbetween m hm hmn)
    · rfl
  · rintro hio x y ⟨p, q, hpq, hq, h55, h57, hx, hy, hbetween⟩
    refine ⟨p, q, hpq, by omega, h55, h57, hx, hy, fun m hm hmn io hio' hat => ?_⟩
    rcases Nat.lt_succ_iff_lt_or_eq.mp hmn with hmn | rfl
    · exact hbetween m hm hmn io hio' hat
    · exact absurd (hat ▸ hio') hio

theorem Assertion.shows {X : BitVec 10 → Prop} {Y : BitVec 10 → BitVec 10 → Prop} {k : ℕ}
    (h : Assertion X Y k a) (hpc : a.pc = 71#16) : ∃ x y, Y x y ∧ a.hexData = product x y := by
  cases h with
  | w71 hxy _ _ hhex => exact ⟨_, _, hxy, hhex⟩
  | turn _ _ h =>
    obtain ⟨-, h69, hready⟩ := h.range
    have := (hready.pc_eq_iff (q := 71) (by omega) (by decide)).mp hpc
    omega
  | w49 h | w50 h | w51 h | w52 h | w53 h | w54 h | w55 h | w56 h | w57 h | w70 _ h | w72 h =>
    exact absurd (h.pc.symm.trans hpc) (by decide)

include hwords hpc

theorem assertion_run (n : ℕ) : ∃ k, Assertion (ReadsFirst w a n) (ReadsBoth w a n) k
    (run Arch.cycle w a n) := by
  induction n with
  | zero => exact ⟨106, .w49 ⟨hpc, hwords⟩⟩
  | succ n ih =>
    obtain ⟨k, hk⟩ := ih
    obtain ⟨l, hl, -⟩ := assertion_succ w hk
    exact ⟨l, hl⟩

theorem reaches_checkpoint (n : ℕ) : ∃ m ≥ n, (run Arch.cycle w a m).pc = 71#16 := by
  obtain ⟨k, hk⟩ := assertion_run hwords hpc w n
  induction k using Nat.strongRecOn generalizing n with
  | ind k ih =>
    obtain ⟨l, hl, hlt | h71⟩ := assertion_succ w hk
    · obtain ⟨m, hm, hm71⟩ := ih l hlt (n + 1) hl
      exact ⟨m, by omega, hm71⟩
    · exact ⟨n, Nat.le_refl n, h71⟩

theorem multiplies_run : Multiplies (fun n q => (run Arch.cycle w a n).pc = q) (fun n => (w n).2)
    (run Arch.cycle w a) := by
  refine ⟨reaches_checkpoint hwords hpc w, fun n h71 => ?_⟩
  obtain ⟨k, hk⟩ := assertion_run hwords hpc w n
  exact hk.shows h71

end Runs

/-- **The multiplier program multiplies**, on the reference machine and on a processor that is
operated. -/
theorem multiplier_multiplies {a : Arch} (hwords : HasMultiplier a.mem) (hpc : a.pc = 49#16) :
    (∀ w, Multiplies (fun n q => (run Arch.cycle w a n).pc = q) (fun n => (w n).2)
      (run Arch.cycle w a)) ∧
    ∀ (image : BitVec 8 → BitVec 16) (w : ℕ → Input) (b : Board), Operated w →
      b.cpu.isdu = .s18 → b.arch = a →
      Multiplies (fun t q => (run (Board.next image) w b t).cpu.isdu = .s18 ∧
        (run (Board.next image) w b t).cpu.pc = q) (fun t => (w (t + 9)).sw)
        (fun t => (run (Board.next image) w b t).arch) := by
  refine ⟨multiplies_run hwords hpc, ?_⟩
  rintro image w b hw h18 rfl
  obtain ⟨τ, hmono, hs18, harch⟩ := board_runs image hw h18
  have hat : ∀ k q, (run (Board.next image) w b (τ k)).cpu.pc = q ↔
      (run Arch.cycle (fun k => switches w (τ k)) b.arch k).pc = q := fun k q => by
    rw [← harch]; rfl
  obtain ⟨hagain, hshows⟩ := multiplies_run hwords hpc fun k => switches w (τ k)
  refine ⟨fun t => ?_, fun t ⟨ht, h71⟩ => ?_⟩
  · obtain ⟨k, hk, h71⟩ := hagain t
    exact ⟨τ k, hk.trans hmono.le_apply, (hs18 _).mpr ⟨k, rfl⟩, (hat k _).mpr h71⟩
  · obtain ⟨k, rfl⟩ := (hs18 t).mp ht
    obtain ⟨x, y, ⟨p, q, hpq, hqk, h55, h57, hx, hy, hbetween⟩, hhex⟩ := hshows k ((hat k _).mp h71)
    refine ⟨x, y, ⟨τ p, τ q, hmono hpq, hmono hqk, ⟨(hs18 _).mpr ⟨p, rfl⟩, (hat p _).mpr h55⟩,
      ⟨(hs18 _).mpr ⟨q, rfl⟩, (hat q _).mpr h57⟩, hx, hy, ?_⟩, ?_⟩
    · rintro m hpm hmk io hio ⟨hm18, hm⟩
      obtain ⟨j, rfl⟩ := (hs18 m).mp hm18
      rw [hbetween j (hmono.lt_iff_lt.mp hpm) (hmono.lt_iff_lt.mp hmk) io hio ((hat j _).mp hm)]
    · exact (congrArg Arch.hexData (harch k)).trans hhex

/-- The program begins, with the words of the image. -/
def atProgram : Arch where
  pc := 49#16
  r := fun _ => 0xFFFF#16
  cc := 0#3
  mem := fun x => initData (x.setWidth 16)
  hexData := 0#16

/-- `Continue` is high at every other edge. -/
def tapping (t : ℕ) : Input :=
  { reset := false, run := false, continue_ := t % 2 = 1, sw := BitVec.ofNat 10 t, busX := 0#16,
    memX := 0#16 }

theorem operated_tapping : Operated tapping where
  reset _ := rfl
  pressed t := ⟨t + 1, decide_eq_true (by omega)⟩
  released t := ⟨t, decide_eq_false (by omega)⟩

theorem multiplier_multiplies_started :
    Multiplies (fun n q => (run Arch.cycle (fun _ => (0#10, 5#10)) atProgram n).pc = q)
      (fun _ => 5#10) (run Arch.cycle (fun _ => (0#10, 5#10)) atProgram) ∧
    Multiplies (fun t q =>
        (run (Board.next atProgram.mem) tapping atProgram.onBoard t).cpu.isdu = .s18 ∧
          (run (Board.next atProgram.mem) tapping atProgram.onBoard t).cpu.pc = q)
      (fun t => (tapping (t + 9)).sw)
      (fun t => (run (Board.next atProgram.mem) tapping atProgram.onBoard t).arch) := by
  have hwords : ∀ p < 74, 49 ≤ p →
      atProgram.mem (BitVec.ofNat 8 p) = programWords.getD p 0#16 := by decide +kernel
  obtain ⟨hrun, hboard⟩ := multiplier_multiplies (a := atProgram)
    (fun p h49 h73 => hwords p (by omega) h49) rfl
  exact ⟨hrun _, hboard _ tapping atProgram.onBoard operated_tapping rfl rfl⟩

end ECE385.Slc3
