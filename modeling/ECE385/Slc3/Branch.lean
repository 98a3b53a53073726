import ECE385.Slc3.Image
import ECE385.Slc3.Refine
import ECE385.Slc3.Undefined

/-!
# The condition code and the branches

`CC` is cleared by a reset and loaded by `S_01`, `S_05`, `S_09` and `S_27` with the sign of the
word on the bus, which has exactly one bit set.  So it is empty until the first of these
states after a reset, when no branch is taken, not even an unconditional one; from
then on it has one bit, and a branch on all three conditions is taken.
-/

namespace ECE385.Slc3

open Clocked Isa

/-- Exactly one bit is set. -/
def OneHot (cc : BitVec 3) : Prop := cc = 0b100#3 ∨ cc = 0b010#3 ∨ cc = 0b001#3

instance (cc : BitVec 3) : Decidable (OneHot cc) := inferInstanceAs (Decidable (_ ∨ _ ∨ _))

/-- The condition code has been loaded since the last reset. -/
def Loaded (image : BitVec 8 → BitVec 16) (w : ℕ → Input) (b : Board) (n : ℕ) : Prop :=
  ∃ t < n, (w t).reset = false ∧ (run (Board.next image) w b t).cpu.control.ldCC = true ∧
    ∀ u, t < u → u < n → (w u).reset = false

/-- `b` with the branch on the conditions `c`, with the same offset, in `IR`. -/
def Board.branching (b : Board) (c : BitVec 3) : Board :=
  { b with cpu := { b.cpu with ir := Encode.op_BR ++ c ++ b.cpu.ir.extractLsb' 0 9 } }

/-- The branch decoded at edge `t` is taken: it comes to the state that adds the offset. -/
def Takes (image : BitVec 8 → BitVec 16) (w : ℕ → Input) (t : ℕ) (b : Board) : Prop :=
  (run (Board.next image) (delay t w) b 2).cpu.isdu = .s22

variable {image : BitVec 8 → BitVec 16} {w : ℕ → Input} {b : Board}

/-! ### The condition code -/

theorem oneHot_nzp (bus : BitVec 16) : OneHot (nzp bus) := by
  rw [nzp]
  split_ifs
  · exact .inl rfl
  · exact .inr (.inl rfl)
  · exact .inr (.inr rfl)

theorem loaded_succ {n : ℕ} : Loaded image w b (n + 1) ↔ (w n).reset = false ∧
    ((run (Board.next image) w b n).cpu.control.ldCC = true ∨ Loaded image w b n) := by
  refine ⟨?_, ?_⟩
  · rintro ⟨t, ht, hr, hld, hlow⟩
    rcases Nat.lt_succ_iff_lt_or_eq.mp ht with hlt | rfl
    · exact ⟨hlow n hlt (Nat.lt_succ_self n), .inr ⟨t, hlt, hr, hld, fun u htu hu =>
        hlow u htu (Nat.lt_succ_of_lt hu)⟩⟩
    · exact ⟨hr, .inl hld⟩
  · rintro ⟨hr, hld | ⟨t, ht, hrt, hld, hlow⟩⟩
    · exact ⟨n, Nat.lt_succ_self n, hr, hld, fun u hu hun => absurd hun (by omega)⟩
    · refine ⟨t, Nat.lt_succ_of_lt ht, hrt, hld, fun u htu hu => ?_⟩
      rcases Nat.lt_succ_iff_lt_or_eq.mp hu with hlt | rfl
      · exact hlow u htu hlt
      · exact hr

variable (image b) in
/-- **The condition code** has one bit once it has been loaded, and none before. -/
theorem run_cc (hreset : (w 0).reset = true) (n : ℕ) :
    (Loaded image w b (n + 1) → OneHot (run (Board.next image) w b (n + 1)).cpu.cc) ∧
    (¬Loaded image w b (n + 1) → (run (Board.next image) w b (n + 1)).cpu.cc = 0#3) := by
  induction n with
  | zero =>
    have hnot : ¬Loaded image w b 1 := by
      rintro ⟨t, ht, hr, -⟩
      obtain rfl : t = 0 := by omega
      rw [hreset] at hr
      cases hr
    refine ⟨fun h => absurd h hnot, fun _ => ?_⟩
    simp [run_succ, Board.next, Cpu.next, reg, hreset]
  | succ n ih =>
    rw [loaded_succ, run_succ _ w b (n + 1)]
    generalize run (Board.next image) w b (n + 1) = s at ih ⊢
    have hcc : (s.next image (w (n + 1))).cpu.cc =
        reg 0#3 (w (n + 1)).reset s.cpu.control.ldCC (nzp (s.cpu.busOut (w (n + 1)).busX))
          s.cpu.cc := rfl
    rw [hcc]
    cases hr : (w (n + 1)).reset with
    | true => exact ⟨fun h => absurd h.1 (by simp), fun _ => rfl⟩
    | false =>
      cases hld : s.cpu.control.ldCC with
      | true => exact ⟨fun _ => oneHot_nzp _, fun h => absurd ⟨rfl, .inl rfl⟩ h⟩
      | false =>
        refine ⟨fun h => ?_, fun h => ?_⟩
        · exact ih.1 (h.2.resolve_left (by simp))
        · exact ih.2 fun hl => h ⟨rfl, .inr hl⟩

/-! ### Branches -/

theorem dr_branching (b : Board) (c : BitVec 3) : dr (b.branching c).cpu.ir = c := by
  apply BitVec.eq_of_getLsbD_eq
  intro k hk
  simp only [dr, Board.branching, BitVec.getLsbD_extractLsb', BitVec.getLsbD_append,
    decide_eq_true hk, Bool.true_and]
  rw [if_neg (by omega), Nat.add_sub_cancel_left, if_pos hk]

theorem opcode_branching (b : Board) (c : BitVec 3) : opcode (b.branching c).cpu.ir = 0b0000#4 := by
  apply BitVec.eq_of_getLsbD_eq
  intro k hk
  simp only [opcode, Board.branching, BitVec.getLsbD_extractLsb', BitVec.getLsbD_append,
    decide_eq_true hk, Bool.true_and]
  rw [if_neg (by omega), if_neg (by omega), show 12 + k - 9 - 3 = k by omega]
  rfl

/-- A branch is taken if one of its conditions is set. -/
theorem takes_iff {t : ℕ} (hr : ∀ u, t ≤ u → u < t + 2 → (w u).reset = false)
    (h : b.cpu.isdu = .s32) (hop : opcode b.cpu.ir = 0b0000#4) :
    Takes image w t b ↔ dr b.cpu.ir &&& b.cpu.cc ≠ 0#3 := by
  have hr0 : (delay t w 0).reset = false := hr t (by omega) (by omega)
  have hr1 : (delay t w 1).reset = false := hr (t + 1) (by omega) (by omega)
  rw [Takes, run_succ, run_succ, run_zero, next_s32 hr0 h,
    show b.cpu.ir.extractLsb' 12 4 = 0b0000#4 from hop, next_sBEN hr1 rfl, ← newBEN_iff]
  change (if newBEN (dr b.cpu.ir) b.cpu.cc then IState.s22 else IState.s18) = .s22 ↔ _
  cases newBEN (dr b.cpu.ir) b.cpu.cc <;> simp

/-- A branch that is taken adds its offset. -/
theorem pc_of_takes {t : ℕ} (hr : ∀ u, t ≤ u → u < t + 3 → (w u).reset = false)
    (h : b.cpu.isdu = .s32) (hop : opcode b.cpu.ir = 0b0000#4) (htakes : Takes image w t b) :
    (run (Board.next image) (delay t w) b 3).cpu.pc = b.cpu.pc + offset9 b.cpu.ir := by
  have hr0 : (delay t w 0).reset = false := hr t (by omega) (by omega)
  have hr1 : (delay t w 1).reset = false := hr (t + 1) (by omega) (by omega)
  have hr2 : (delay t w 2).reset = false := hr (t + 2) (by omega) (by omega)
  rw [run_succ, next_s22 hr2 htakes, run_succ, run_succ, run_zero, next_s32 hr0 h,
    show b.cpu.ir.extractLsb' 12 4 = 0b0000#4 from hop, next_sBEN hr1 rfl]

def ExactlyOne (p q r : Prop) : Prop := (p ∧ ¬q ∧ ¬r) ∨ (¬p ∧ q ∧ ¬r) ∨ (¬p ∧ ¬q ∧ r)

/-- With one bit set, all conditions together hold, and exactly one of the single ones. -/
theorem conditions_of_oneHot {cc : BitVec 3} (h : OneHot cc) : 0b111#3 &&& cc ≠ 0#3 ∧
    ExactlyOne (0b100#3 &&& cc ≠ 0#3) (0b010#3 &&& cc ≠ 0#3) (0b001#3 &&& cc ≠ 0#3) := by
  rcases h with rfl | rfl | rfl
  · exact ⟨by decide, .inl (by decide)⟩
  · exact ⟨by decide, .inr (.inl (by decide))⟩
  · exact ⟨by decide, .inr (.inr (by decide))⟩

/-- **Unconditional branches.**  From a reset on, `CC` has exactly one bit as soon as it has been
loaded, and none before.  Once it has been, a branch on all three conditions is taken and
exactly one of those on a single one, with the same offset, would be; before, none is. -/
theorem branch_unconditional (image : BitVec 8 → BitVec 16) (w : ℕ → Input) (b : Board)
    (hreset : (w 0).reset = true) (n : ℕ) (s : Board)
    (hs : s = run (Board.next image) w b (n + 1)) :
    (Loaded image w b (n + 1) ↔ OneHot s.cpu.cc) ∧
    (¬Loaded image w b (n + 1) → s.cpu.cc = 0#3) ∧
    (s.cpu.isdu = .s32 → opcode s.cpu.ir = 0b0000#4 →
      (∀ u, n + 1 ≤ u → u < n + 1 + 3 → (w u).reset = false) →
      (Loaded image w b (n + 1) →
        (dr s.cpu.ir = 0b111#3 → Takes image w (n + 1) s ∧
          (run (Board.next image) w b (n + 1 + 3)).cpu.pc = s.cpu.pc + offset9 s.cpu.ir) ∧
        ExactlyOne (Takes image w (n + 1) (s.branching Encode.n))
          (Takes image w (n + 1) (s.branching Encode.z))
          (Takes image w (n + 1) (s.branching Encode.p))) ∧
      (¬Loaded image w b (n + 1) → ¬Takes image w (n + 1) s)) := by
  obtain ⟨hone, hnone⟩ := run_cc image b hreset n
  rw [← hs] at hone hnone
  refine ⟨⟨hone, fun hcc => ?_⟩, hnone, fun h32 hop hlow => ⟨fun hl => ?_, fun hl => ?_⟩⟩
  · by_contra hl
    rw [hnone hl] at hcc
    revert hcc
    decide
  · obtain ⟨hall, hexact⟩ := conditions_of_oneHot (hone hl)
    have hlow2 : ∀ u, n + 1 ≤ u → u < n + 1 + 2 → (w u).reset = false :=
      fun u hu hlt => hlow u hu (by omega)
    have hsingle : ∀ c, Takes image w (n + 1) (s.branching c) ↔ c &&& s.cpu.cc ≠ 0#3 := by
      intro c
      rw [takes_iff (b := s.branching c) hlow2 h32 (opcode_branching s c), dr_branching]
      rfl
    refine ⟨fun hdr => ?_, ?_⟩
    · have htakes : Takes image w (n + 1) s := by
        rw [takes_iff hlow2 h32 hop, hdr]
        exact hall
      refine ⟨htakes, ?_⟩
      rw [run_add, ← hs]
      exact pc_of_takes hlow h32 hop htakes
    · simp only [hsingle]
      exact hexact
  · rw [takes_iff (fun u hu hlt => hlow u hu (by omega)) h32 hop, hnone hl]
    simp

/-- `ADD R1, R1, #1`, and then branches on all conditions. -/
def addThenBranch : BitVec 8 → BitVec 16 := fun a =>
  if a = 0#8 then Encode.opINC Encode.R1 else Encode.opBR Encode.nzp 5

theorem branch_unconditional_addThenBranch :
    Takes addThenBranch (started 0#16) 14
        (run (Board.next addThenBranch) (started 0#16) (holding 0#16) 14) ∧
      (run (Board.next addThenBranch) (started 0#16) (holding 0#16) 17).cpu.pc =
        (run (Board.next addThenBranch) (started 0#16) (holding 0#16) 14).cpu.pc + 5#16 := by
  have h := ((branch_unconditional addThenBranch (started 0#16) (holding 0#16) rfl 13 _ rfl).2.2
    (by decide +kernel) (by decide +kernel)
    (fun u h14 _ => decide_eq_false (by omega))).1
    ⟨8, by decide, rfl, by decide +kernel, fun u h8 _ => decide_eq_false (by omega)⟩
  exact h.1 (by decide +kernel)

/-- Straight after a reset no condition is set, and the branch is not taken. -/
theorem branch_not_taken :
    (run (Board.next fun _ => Encode.opBR Encode.nzp 5) (started 0#16) (holding 0#16) 7).cpu.isdu =
      .s32 ∧
    (run (Board.next fun _ => Encode.opBR Encode.nzp 5) (started 0#16) (holding 0#16) 7).cpu.ir =
      Encode.opBR Encode.nzp 5 ∧
    ¬OneHot
      (run (Board.next fun _ => Encode.opBR Encode.nzp 5) (started 0#16) (holding 0#16) 7).cpu.cc ∧
    (run (Board.next fun _ => Encode.opBR Encode.nzp 5) (started 0#16) (holding 0#16) 9).cpu.isdu =
      .s18 := by
  decide +kernel

end ECE385.Slc3
