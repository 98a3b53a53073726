import ECE385.Slc3.Console
import ECE385.Slc3.SortRoutine
import Mathlib.Data.List.FinRange
import Mathlib.Data.List.OfFn

/-!
# The sort demo

Words `90` to `155`: a menu on the switches, with a routine to enter sixteen numbers, one to sort
them and one to show them.  The routine that shows them writes the pattern of its next pause into
its own code, and leaves the last one there.

* `Demo`, `Choice`: the demo as the operator sees it, and one choice from the menu.
* `demo_add`, `demo_br`, ...: the instructions, on the states of the sort routine.
* `reaches_entry`, `reaches_shown`: the two loops.
* `sort_demo_serves`: any dialogue with the program is one with the demo.
-/

namespace ECE385.Slc3

open Clocked Isa Arch Encode Sorting

/-! ### The demo -/

/-- The numbers, the pattern that waits in the code of the display routine, and what the hex display
shows. -/
structure Demo where
  data : List (BitVec 10)
  length : data.length = 16
  mark : BitVec 12
  hex : BitVec 16

/-- The pattern in the code for the `k`th number. -/
def mark (k : ℕ) : BitVec 12 := BitVec.ofNat 12 (0x802 + 16 * k)

/-- Numbers are entered, from index `k` on. -/
def entered : ℕ → List (BitVec 10) → List Event
  | _, [] => []
  | k, x :: l => .pause 0x001#10 (BitVec.ofNat 16 k) :: .read x :: entered (k + 1) l

/-- Numbers are shown, from index `k` on, the first one with the pattern `m`. -/
def shown : BitVec 12 → ℕ → List (BitVec 10) → List Event
  | _, _, [] => []
  | m, k, x :: l => .pause (m.setWidth 10) (x.setWidth 16) :: shown (mark (k + 1)) (k + 1) l

/-- What is said at the menu. -/
def menu (d : Demo) (c : BitVec 10) : List Event := [.pause 0x3FF#10 d.hex, .read c]

/-- One choice from the menu. -/
inductive Choice (d : Demo) : List Event → Demo → Prop
  | other (c : BitVec 10) : c ∉ [1, 2, 3] → Choice d (menu d c) d
  | enter (l : List (BitVec 10)) (length : l.length = 16) :
    Choice d (menu d 1 ++ entered 0 l) { d with data := l, length := length, hex := 15#16 }
  | sort (l : List (BitVec 10)) (length : l.length = 16) : l.Perm d.data → l.Pairwise (· ≤ ·) →
    Choice d (menu d 2) { d with data := l, length := length }
  | display (x : BitVec 10) : d.data.getLast? = some x →
    Choice d (menu d 3 ++ shown d.mark 0 d.data) { d with mark := mark 16, hex := x.setWidth 16 }

/-- A dialogue, choice by choice. -/
inductive Session (d : Demo) : List Event → Demo → Prop
  | start : Session d [] d
  | choice {es es' : List Event} {d' d'' : Demo} : Session d es d' → Choice d' es' d'' →
    Session d (es ++ es') d''

/-! ### The states of the program -/

/-- Words `90` to `155` are in the memory, but for the pattern in the display routine. -/
def HasDemo (mem : BitVec 8 → BitVec 16) (m : BitVec 12) : Prop :=
  ∀ p, 90 ≤ p → p ≤ 155 →
    mem (BitVec.ofNat 8 p) = if p = 148 then opPSE m else programWords.getD p 0#16

/-- The entries of the data. -/
def cells (l : List (BitVec 10)) (k : ℕ) : ℕ := (l.getD k 0#10).toNat

/-- The memory after a store to word `p`. -/
def poke (mem : BitVec 8 → BitVec 16) (p : ℕ) (x : BitVec 16) : BitVec 8 → BitVec 16 := fun y =>
  if y = BitVec.ofNat 8 p then x else mem y

theorem layout_poke (mem : BitVec 8 → BitVec 16) (f : ℕ → ℕ) {p : ℕ} (x : BitVec 16) (h90 : 90 ≤ p)
    (h256 : p < 256) : layout (poke mem p x) f = poke (layout mem f) p x := by
  funext y
  by_cases hy : y = BitVec.ofNat 8 p
  · have htoNat : y.toNat = p := by rw [hy, BitVec.toNat_ofNat, Nat.mod_eq_of_lt h256]
    rw [layout, if_neg (by omega), poke, if_pos hy, poke, if_pos hy]
  · rw [layout, poke, if_neg hy, poke, if_neg hy, layout]

theorem hasDemo_hex {mem : BitVec 8 → BitVec 16} {m : BitVec 12} (h : HasDemo mem m)
    (x : BitVec 16) : HasDemo (poke mem 255 x) m := by
  intro p h90 h155
  have hne : BitVec.ofNat 8 p ≠ BitVec.ofNat 8 255 := by
    intro heq
    have := congrArg BitVec.toNat heq
    simp only [BitVec.toNat_ofNat] at this
    omega
  rw [poke, if_neg hne, h p h90 h155]

theorem hasDemo_mark {mem : BitVec 8 → BitVec 16} {m : BitVec 12} (h : HasDemo mem m)
    (m' : BitVec 12) : HasDemo (poke mem 148 (opPSE m')) m' := by
  intro p h90 h155
  by_cases hp : p = 148
  · rw [if_pos hp, hp, poke, if_pos rfl]
  · have hne : BitVec.ofNat 8 p ≠ BitVec.ofNat 8 148 := by
      intro heq
      have := congrArg BitVec.toNat heq
      simp only [BitVec.toNat_ofNat] at this
      omega
    rw [if_neg hp, poke, if_neg hne, h p h90 h155, if_neg hp]

/-- At the menu, with this demo. -/
def AtMenu (a : Arch) (d : Demo) : Prop :=
  ∃ mem r7 v cc, HasDemo mem d.mark ∧ a = sorting mem d.hex r7 94 v cc (cells d.data)

/-! ### One instruction -/

section Instructions

variable {mem : BitVec 8 → BitVec 16} {mk : BitVec 12} {hex r7 : BitVec 16} {p : ℕ} {v : Temps}
  {cc : BitVec 3} {f : ℕ → ℕ} (hmem : HasDemo mem mk)

include hmem

theorem demo_fetches (hp : 90 ≤ p ∧ p ≤ 155 ∧ p ≠ 148) :
    (sorting mem hex r7 p v cc f).Fetches (programWords.getD p 0#16) where
  pc := ofNat_ne_ones (by omega)
  mem := by
    change layout mem f (word (BitVec.ofNat 16 p)) = _
    rw [word_ofNat, layout_code mem f (by omega) (by omega), hmem p hp.1 hp.2.1, if_neg hp.2.2]

/-- The pause in the display routine. -/
theorem demo_fetches_mark : (sorting mem hex r7 148 v cc f).Fetches (opPSE mk) where
  pc := ofNat_ne_ones (by decide)
  mem := by
    change layout mem f (word (BitVec.ofNat 16 148)) = _
    rw [word_ofNat, layout_code mem f (by decide) (by decide), hmem 148 (by decide) (by decide),
      if_pos rfl]

omit hmem in
theorem sorting_r0 : (sorting mem hex r7 p v cc f).r R0 = 0#16 := rfl

/-- An instruction with a result `x` in a temporary register. -/
theorem demo_write {d : BitVec 3} {x : BitVec 16} (hp : 90 ≤ p ∧ p ≤ 155 ∧ p ≠ 148)
    (hd : d ∉ [R0, R6, R7]) (hop : opcode (programWords.getD p 0#16) ≠ 0b1101#4)
    (hcycle : ∀ i, (sorting mem hex r7 p v cc f).cycle i =
      (sorting mem hex r7 p v cc f).advance.write d x) :
    Leads (sorting mem hex r7 p v cc f) (sorting mem hex r7 (p + 1) (v.set d x) (sign x) f) := by
  refine (demo_fetches hmem hp).leads hop fun i => ?_
  rw [hcycle, sorting_advance, sorting_write _ hd]

theorem demo_addi {d s : BitVec 3} {m : BitVec 16}
    (hw : (90 ≤ p ∧ p ≤ 155 ∧ p ≠ 148) ∧ d ∉ [R0, R6, R7] ∧
      opcode (programWords.getD p 0#16) = 0b0001#4 ∧ dr (programWords.getD p 0#16) = d ∧
      baseR (programWords.getD p 0#16) = s ∧ (programWords.getD p 0#16).getLsbD 5 = true ∧
      imm5 (programWords.getD p 0#16) = m) :
    Leads (sorting mem hex r7 p v cc f) (sorting mem hex r7 (p + 1)
      (v.set d (file r7 v s + m)) (sign (file r7 v s + m)) f) := by
  obtain ⟨hp, hd, hins⟩ := hw
  exact demo_write hmem hp hd (by rw [hins.1]; decide) fun i =>
    cycle_addi (demo_fetches hmem hp) hins

theorem demo_add {d s t : BitVec 3}
    (hw : (90 ≤ p ∧ p ≤ 155 ∧ p ≠ 148) ∧ d ∉ [R0, R6, R7] ∧
      opcode (programWords.getD p 0#16) = 0b0001#4 ∧ dr (programWords.getD p 0#16) = d ∧
      baseR (programWords.getD p 0#16) = s ∧ (programWords.getD p 0#16).getLsbD 5 = false ∧
      sr2 (programWords.getD p 0#16) = t) :
    Leads (sorting mem hex r7 p v cc f) (sorting mem hex r7 (p + 1)
      (v.set d (file r7 v s + file r7 v t)) (sign (file r7 v s + file r7 v t)) f) := by
  obtain ⟨hp, hd, hins⟩ := hw
  exact demo_write hmem hp hd (by rw [hins.1]; decide) fun i =>
    cycle_add (demo_fetches hmem hp) hins

theorem demo_clr {d : BitVec 3}
    (hw : (90 ≤ p ∧ p ≤ 155 ∧ p ≠ 148) ∧ d ∉ [R0, R6, R7] ∧
      opcode (programWords.getD p 0#16) = 0b0101#4 ∧ dr (programWords.getD p 0#16) = d ∧
      baseR (programWords.getD p 0#16) = d ∧ (programWords.getD p 0#16).getLsbD 5 = true ∧
      imm5 (programWords.getD p 0#16) = 0#16) :
    Leads (sorting mem hex r7 p v cc f)
      (sorting mem hex r7 (p + 1) (v.set d 0#16) (sign 0#16) f) := by
  obtain ⟨hp, hd, hins⟩ := hw
  refine demo_write hmem hp hd (by rw [hins.1]; decide) fun i => ?_
  rw [cycle_andi (demo_fetches hmem hp) hins, BitVec.and_zero]

/-- A load of the word `q`, which is `x`. -/
theorem demo_ldr {d s : BitVec 3} {m x : BitVec 16} {q : ℕ}
    (hw : (90 ≤ p ∧ p ≤ 155 ∧ p ≠ 148) ∧ d ∉ [R0, R6, R7] ∧
      opcode (programWords.getD p 0#16) = 0b0110#4 ∧ dr (programWords.getD p 0#16) = d ∧
      baseR (programWords.getD p 0#16) = s ∧ offset6 (programWords.getD p 0#16) = m)
    (hq : q < 256) (hea : file r7 v s + m = BitVec.ofNat 16 q)
    (hx : layout mem f (BitVec.ofNat 8 q) = x) :
    Leads (sorting mem hex r7 p v cc f)
      (sorting mem hex r7 (p + 1) (v.set d x) (sign x) f) := by
  obtain ⟨hp, hd, hins⟩ := hw
  refine demo_write hmem hp hd (by rw [hins.1]; decide) fun i => ?_
  have hrd : (sorting mem hex r7 p v cc f).rd i.2 (file r7 v s + m) = x := by
    rw [hea, Arch.rd, if_neg (ofNat_ne_ones hq), word_ofNat]
    exact hx
  rw [cycle_ldr (demo_fetches hmem hp) hins]
  exact congrArg _ hrd

/-- A result in `R7`. -/
theorem demo_add_r7 {s t : BitVec 3}
    (hw : (90 ≤ p ∧ p ≤ 155 ∧ p ≠ 148) ∧
      opcode (programWords.getD p 0#16) = 0b0001#4 ∧ dr (programWords.getD p 0#16) = R7 ∧
      baseR (programWords.getD p 0#16) = s ∧ (programWords.getD p 0#16).getLsbD 5 = false ∧
      sr2 (programWords.getD p 0#16) = t) :
    Leads (sorting mem hex r7 p v cc f) (sorting mem hex (file r7 v s + file r7 v t) (p + 1) v
      (sign (file r7 v s + file r7 v t)) f) := by
  obtain ⟨hp, hins⟩ := hw
  refine (demo_fetches hmem hp).leads (by rw [hins.1]; decide) fun i => ?_
  rw [cycle_add (demo_fetches hmem hp) hins, sorting_advance]
  refine Arch.ext rfl ?_ rfl rfl rfl
  funext k
  by_cases hk : k = R7
  · rw [hk]
    rfl
  · simp only [Arch.write, Arch.setReg, sorting, file, if_neg hk, if_neg (Ne.symm hk)]

/-- A jump to `q`, with the return address in `R7`. -/
theorem demo_jsr {q : ℕ}
    (hw : (90 ≤ p ∧ p ≤ 155 ∧ p ≠ 148) ∧ opcode (programWords.getD p 0#16) = 0b0100#4 ∧
      BitVec.ofNat 16 (p + 1) + offset11 (programWords.getD p 0#16) = BitVec.ofNat 16 q) :
    Leads (sorting mem hex r7 p v cc f) (sorting mem hex (BitVec.ofNat 16 (p + 1)) q v cc f) := by
  obtain ⟨hp, hop, hq⟩ := hw
  refine (demo_fetches hmem hp).leads (by rw [hop]; decide) fun i => ?_
  rw [cycle_jsr (demo_fetches hmem hp) ⟨hop, rfl⟩]
  refine Arch.ext ?_ ?_ rfl rfl rfl
  · exact (congrArg (· + _) (BitVec.ofNat_add p 1).symm).trans hq
  · funext k
    by_cases hk : k = R7
    · rw [hk]
      exact (BitVec.ofNat_add p 1).symm
    · have hk' : ¬0b111#3 = k := Ne.symm hk
      simp only [Arch.setReg, sorting, file, if_neg hk, if_neg hk']

theorem demo_ret {q : ℕ} (hw : (90 ≤ p ∧ p ≤ 155 ∧ p ≠ 148) ∧
      opcode (programWords.getD p 0#16) = 0b1100#4 ∧ baseR (programWords.getD p 0#16) = R7)
    (hq : r7 = BitVec.ofNat 16 q) :
    Leads (sorting mem hex r7 p v cc f) (sorting mem hex r7 q v cc f) := by
  obtain ⟨hp, hins⟩ := hw
  refine (demo_fetches hmem hp).leads (by rw [hins.1]; decide) fun i => ?_
  rw [cycle_jmp (demo_fetches hmem hp) hins]
  exact Arch.ext hq rfl rfl rfl rfl

/-- A branch to `q` on the conditions `c`. -/
theorem demo_br {c : BitVec 3} {q : ℕ}
    (hw : (90 ≤ p ∧ p ≤ 155 ∧ p ≠ 148) ∧
      opcode (programWords.getD p 0#16) = 0b0000#4 ∧ dr (programWords.getD p 0#16) = c ∧
      BitVec.ofNat 16 (p + 1) + offset9 (programWords.getD p 0#16) = BitVec.ofNat 16 q) :
    Leads (sorting mem hex r7 p v cc f)
      (sorting mem hex r7 (if c &&& cc ≠ 0#3 then q else p + 1) v cc f) := by
  obtain ⟨hp, hop, hdr, hq⟩ := hw
  refine (demo_fetches hmem hp).leads (by rw [hop]; decide) fun i => ?_
  rw [cycle_br (demo_fetches hmem hp) ⟨hop, hdr, rfl⟩]
  by_cases h : c &&& cc ≠ 0#3
  · rw [if_pos h, if_pos (show c &&& (sorting mem hex r7 p v cc f).cc ≠ 0#3 from h)]
    simp only [sorting, ← BitVec.ofNat_add, hq]
  · rw [if_neg h, if_neg (show ¬c &&& (sorting mem hex r7 p v cc f).cc ≠ 0#3 from h),
      sorting_advance]

theorem demo_br_taken {c : BitVec 3} {q : ℕ}
    (hw : (90 ≤ p ∧ p ≤ 155 ∧ p ≠ 148) ∧
      opcode (programWords.getD p 0#16) = 0b0000#4 ∧ dr (programWords.getD p 0#16) = c ∧
      BitVec.ofNat 16 (p + 1) + offset9 (programWords.getD p 0#16) = BitVec.ofNat 16 q)
    (hcc : c &&& cc ≠ 0#3) :
    Leads (sorting mem hex r7 p v cc f) (sorting mem hex r7 q v cc f) := by
  have hbr : Leads (sorting mem hex r7 p v cc f) _ := demo_br hmem hw
  rwa [if_pos hcc] at hbr

theorem demo_br_passed {c : BitVec 3} {q : ℕ}
    (hw : (90 ≤ p ∧ p ≤ 155 ∧ p ≠ 148) ∧
      opcode (programWords.getD p 0#16) = 0b0000#4 ∧ dr (programWords.getD p 0#16) = c ∧
      BitVec.ofNat 16 (p + 1) + offset9 (programWords.getD p 0#16) = BitVec.ofNat 16 q)
    (hcc : ¬c &&& cc ≠ 0#3) :
    Leads (sorting mem hex r7 p v cc f) (sorting mem hex r7 (p + 1) v cc f) := by
  have hbr : Leads (sorting mem hex r7 p v cc f) _ := demo_br hmem hw
  rwa [if_neg hcc] at hbr

/-- A store of `x` to the data. -/
theorem demo_str_data {d s : BitVec 3} {m : BitVec 16} {k x : ℕ}
    (hw : (90 ≤ p ∧ p ≤ 155 ∧ p ≠ 148) ∧ opcode (programWords.getD p 0#16) = 0b0111#4 ∧
      dr (programWords.getD p 0#16) = d ∧ baseR (programWords.getD p 0#16) = s ∧
      offset6 (programWords.getD p 0#16) = m) (hk : k < 16)
    (hea : file r7 v s + m = BitVec.ofNat 16 (74 + k)) (hx : file r7 v d = BitVec.ofNat 16 x) :
    Leads (sorting mem hex r7 p v cc f)
      (sorting mem hex r7 (p + 1) v cc (Function.update f k x)) := by
  obtain ⟨hp, hins⟩ := hw
  have haddr : (sorting mem hex r7 p v cc f).r s + m = BitVec.ofNat 16 (74 + k) := hea
  have hval : (sorting mem hex r7 p v cc f).r d = BitVec.ofNat 16 x := hx
  refine (demo_fetches hmem hp).leads (by rw [hins.1]; decide) fun i => ?_
  rw [cycle_str (demo_fetches hmem hp) hins, haddr, hval, sorting_advance, Arch.store,
    if_neg (ofNat_ne_ones (by omega)), word_ofNat]
  simp only [sorting, layout_store mem f x hk]

/-- A store to the code. -/
theorem demo_str_code {d s : BitVec 3} {m x : BitVec 16} {q : ℕ}
    (hw : (90 ≤ p ∧ p ≤ 155 ∧ p ≠ 148) ∧ opcode (programWords.getD p 0#16) = 0b0111#4 ∧
      dr (programWords.getD p 0#16) = d ∧ baseR (programWords.getD p 0#16) = s ∧
      offset6 (programWords.getD p 0#16) = m) (h90 : 90 ≤ q) (h256 : q < 256)
    (hea : file r7 v s + m = BitVec.ofNat 16 q) (hx : file r7 v d = x) :
    Leads (sorting mem hex r7 p v cc f) (sorting (poke mem q x) hex r7 (p + 1) v cc f) := by
  obtain ⟨hp, hins⟩ := hw
  have haddr : (sorting mem hex r7 p v cc f).r s + m = BitVec.ofNat 16 q := hea
  have hval : (sorting mem hex r7 p v cc f).r d = x := hx
  refine (demo_fetches hmem hp).leads (by rw [hins.1]; decide) fun i => ?_
  rw [cycle_str (demo_fetches hmem hp) hins, haddr, hval, sorting_advance, Arch.store,
    if_neg (ofNat_ne_ones h256), word_ofNat]
  exact Arch.ext rfl rfl rfl (layout_poke mem f x h90 h256).symm rfl

/-- A store to the hex display goes to word `255` as well. -/
theorem demo_str_hex {d : BitVec 3} {x : BitVec 16}
    (hw : (90 ≤ p ∧ p ≤ 155 ∧ p ≠ 148) ∧ opcode (programWords.getD p 0#16) = 0b0111#4 ∧
      dr (programWords.getD p 0#16) = d ∧ baseR (programWords.getD p 0#16) = R0 ∧
      offset6 (programWords.getD p 0#16) = 0xFFFF#16) (hx : file r7 v d = x) :
    Leads (sorting mem hex r7 p v cc f) (sorting (poke mem 255 x) x r7 (p + 1) v cc f) := by
  obtain ⟨hp, hins⟩ := hw
  have hval : (sorting mem hex r7 p v cc f).r d = x := hx
  have hword : word 0xFFFF#16 = BitVec.ofNat 8 255 := by decide
  refine (demo_fetches hmem hp).leads (by rw [hins.1]; decide) fun i => ?_
  rw [cycle_str (demo_fetches hmem hp) hins, sorting_r0, BitVec.zero_add, hval, sorting_advance,
    Arch.store, if_pos rfl, hword]
  exact Arch.ext rfl rfl rfl (layout_poke mem f x (by decide) (by decide)).symm rfl

omit hmem in
/-- A pause with the pattern `m`. -/
theorem demo_pse {m : BitVec 12} {Q : List Event → Arch → Prop}
    (hf : (sorting mem hex r7 p v cc f).Fetches (opPSE m))
    (h : Reaches machine (sorting mem hex r7 (p + 1) v cc f) fun es t =>
      Q (.pause (m.setWidth 10) hex :: es) t) :
    Proceeds machine (sorting mem hex r7 p v cc f) Q := by
  have hop : opcode (opPSE m) = 0b1101#4 := BitVec.extractLsb'_append_eq_left
  have hvect : (opPSE m).extractLsb' 0 10 = m.setWidth 10 := by
    rw [opPSE, BitVec.extractLsb'_append_eq_of_add_le (by decide)]
    rfl
  refine proceeds_pse hf hop ?_
  rw [sorting_advance, hvect]
  exact h

/-- The switches in `d`. -/
theorem demo_read {d : BitVec 3} {Q : List Event → Arch → Prop}
    (hw : (90 ≤ p ∧ p ≤ 155 ∧ p ≠ 148) ∧ d ∉ [R0, R6, R7] ∧
      opcode (programWords.getD p 0#16) = 0b0110#4 ∧ dr (programWords.getD p 0#16) = d ∧
      baseR (programWords.getD p 0#16) = R0 ∧ offset6 (programWords.getD p 0#16) = 0xFFFF#16)
    (h : ∀ sw : BitVec 10, Reaches machine (sorting mem hex r7 (p + 1) (v.set d (sw.setWidth 16))
      (sign (sw.setWidth 16)) f) fun es t => Q (.read sw :: es) t) :
    Proceeds machine (sorting mem hex r7 p v cc f) Q := by
  obtain ⟨hp, hd, hins⟩ := hw
  have hea : (sorting mem hex r7 p v cc f).r R0 + 0xFFFF#16 = 0xFFFF#16 := BitVec.zero_add _
  refine proceeds_read (demo_fetches hmem hp) hins hea fun sw => ?_
  rw [sorting_advance, sorting_write _ hd]
  exact h sw

end Instructions

theorem nzp_and_sign (v : BitVec 16) : Encode.nzp &&& sign v ≠ 0#3 := by
  rw [sign]
  split_ifs
  all_goals decide

theorem np_and_sign_iff (v : BitVec 16) : np &&& sign v ≠ 0#3 ↔ v ≠ 0#16 := by
  rw [sign]
  split_ifs with hneg hzero
  · refine iff_of_true (by decide) ?_
    rintro rfl
    exact absurd hneg (by decide)
  · exact iff_of_false (by decide) (not_not.mpr hzero)
  · exact iff_of_true (by decide) hzero

theorem z_and_sign_iff (v : BitVec 16) : z &&& sign v ≠ 0#3 ↔ v = 0#16 := by
  rw [sign]
  split_ifs with hneg hzero
  · refine iff_of_false (by decide) ?_
    rintro rfl
    exact absurd hneg (by decide)
  · exact iff_of_true (by decide) hzero
  · exact iff_of_false (by decide) hzero

/-- The ends of the loops. -/
theorem n_and_sign_sixteen : ∀ k < 16,
    n &&& sign (BitVec.ofNat 16 (k + 1) + 0xFFF0#16) ≠ 0#3 ↔ k + 1 < 16 := by
  decide

theorem layout_congr (mem : BitVec 8 → BitVec 16) {f g : ℕ → ℕ} (h : ∀ k < 16, f k = g k) :
    layout mem f = layout mem g := by
  funext x
  rw [layout, layout]
  split_ifs with hx
  · rw [h _ (by omega)]
  · rfl

theorem sorting_congr {mem : BitVec 8 → BitVec 16} {hex r7 : BitVec 16} {p : ℕ} {v : Temps}
    {cc : BitVec 3} {f g : ℕ → ℕ} (h : ∀ k < 16, f k = g k) :
    sorting mem hex r7 p v cc f = sorting mem hex r7 p v cc g := by
  rw [sorting, sorting, layout_congr mem h]

/-! ### The entry routine -/

section Entry

variable {mk : BitVec 12} {r7 : BitVec 16}

/-- **One number is entered.** -/
theorem reaches_entry_round {mem : BitVec 8 → BitVec 16} {hex : BitVec 16} {k : ℕ} {v : Temps}
    {cc : BitVec 3} {f : ℕ → ℕ} (hmem : HasDemo mem mk) (hk : k < 16)
    (h1 : v.r1 = BitVec.ofNat 16 k) :
    Reaches machine (sorting mem hex r7 110 v cc f) fun es t => ∃ x : BitVec 10,
      es = [.pause 0x001#10 (BitVec.ofNat 16 k), .read x] ∧ ∃ v' : Temps,
        v'.r1 = BitVec.ofNat 16 (k + 1) ∧ t = sorting (poke mem 255 (BitVec.ofNat 16 k))
          (BitVec.ofNat 16 k) r7 117 v' (sign (BitVec.ofNat 16 (k + 1) + 0xFFF0#16))
          (Function.update f k x.toNat) := by
  have h110 : Leads (sorting mem hex r7 110 v cc f) (sorting (poke mem 255 (BitVec.ofNat 16 k))
      (BitVec.ofNat 16 k) r7 111 v cc f) :=
    demo_str_hex (d := R1) hmem (by decide) h1
  have hmem' : HasDemo (poke mem 255 (BitVec.ofNat 16 k)) mk := hasDemo_hex hmem _
  obtain ⟨mem', hm⟩ : ∃ mem', mem' = poke mem 255 (BitVec.ofNat 16 k) := ⟨_, rfl⟩
  rw [← hm] at h110 hmem' ⊢
  have hf : (sorting mem' (BitVec.ofNat 16 k) r7 111 v cc f).Fetches (opPSE 0xC01#12) :=
    demo_fetches hmem' (by decide)
  refine h110.reaches (demo_pse hf (demo_read (d := R2) hmem' (by decide)
    fun x => ?_).reaches).reaches
  have h113 : Leads (sorting mem' (BitVec.ofNat 16 k) r7 113 (v.set R2 (x.setWidth 16))
      (sign (x.setWidth 16)) f) (sorting mem' (BitVec.ofNat 16 k) r7 114
        ⟨v.r1, x.setWidth 16, v.r3, v.r4, 74#16 + v.r1⟩ (sign (74#16 + v.r1)) f) :=
    demo_add (d := R5) (s := R6) (t := R1) hmem' (by decide)
  have hea : 74#16 + v.r1 + 0#16 = BitVec.ofNat 16 (74 + k) := by
    rw [h1, BitVec.add_zero, BitVec.ofNat_add]
  have h114 := h113.trans (demo_str_data (d := R2) (s := R5) (m := 0#16) (x := x.toNat) hmem'
    (by decide) hk hea (BitVec.ofNat_toNat 16 x).symm)
  have h115 : Leads _ (sorting mem' (BitVec.ofNat 16 k) r7 116
      ⟨v.r1 + 1#16, x.setWidth 16, v.r3, v.r4, 74#16 + v.r1⟩ _ (Function.update f k x.toNat)) :=
    h114.trans (demo_addi (d := R1) (s := R1) (m := 1#16) hmem' (by decide))
  have hsucc : v.r1 + 1#16 = BitVec.ofNat 16 (k + 1) := by rw [h1, BitVec.ofNat_add]
  rw [hsucc] at h115
  have h116 := h115.trans (demo_addi (d := R3) (s := R1) (m := 0xFFF0#16) hmem' (by decide))
  exact Leads.reaches h116 (.here ⟨x, rfl, _, rfl, rfl⟩)

/-- **The entry loop**, from index `k` on. -/
theorem reaches_entry : ∀ d k mem hex v cc f, k + d + 1 = 16 → HasDemo mem mk →
    v.r1 = BitVec.ofNat 16 k →
    Reaches machine (sorting mem hex r7 110 v cc f) fun es t => ∃ l : List (BitVec 10),
      l.length = d + 1 ∧ es = entered k l ∧ ∃ mem' v' cc' f', HasDemo mem' mk ∧
        (∀ j < 16, f' j = if j < k then f j else cells l (j - k)) ∧
        Encode.nzp &&& cc' ≠ 0#3 ∧ t = sorting mem' 15#16 r7 118 v' cc' f' := by
  intro d
  induction d with
  | zero =>
    intro k mem hex v cc f hk hmem h1
    obtain rfl : k = 15 := by omega
    refine (reaches_entry_round hmem (by omega) h1).bind ?_
    rintro es t ⟨x, rfl, v', -, rfl⟩
    refine Leads.reaches (demo_br_passed (c := n) (q := 110) (hasDemo_hex hmem 15#16)
      (by decide) (mt (n_and_sign_sixteen 15 (by omega)).mp (by omega))) ?_
    refine .here ⟨[x], rfl, rfl, _, _, _, _, hasDemo_hex hmem _, fun j hj => ?_,
      nzp_and_sign _, rfl⟩
    by_cases hj15 : j = 15
    · rw [hj15, Function.update_self]
      rfl
    · rw [Function.update_of_ne hj15, if_pos (by omega)]
  | succ d ih =>
    intro k mem hex v cc f hk hmem h1
    refine (reaches_entry_round hmem (by omega) h1).bind ?_
    rintro es t ⟨x, rfl, v', h1', rfl⟩
    refine Leads.reaches (demo_br_taken (c := n) (q := 110) (hasDemo_hex hmem (BitVec.ofNat 16 k))
      (by decide) ((n_and_sign_sixteen k (by omega)).mpr (by omega))) ?_
    refine (ih (k + 1) _ _ v' _ _ (by omega) (hasDemo_hex hmem _) h1').imp ?_
    rintro es t ⟨l, hlen, rfl, mem', v'', cc', f', hmem', hf', hcc, rfl⟩
    refine ⟨x :: l, by rw [List.length_cons, hlen], rfl, mem', v'', cc', f', hmem', fun j hj => ?_,
      hcc, rfl⟩
    rw [hf' j hj]
    rcases Nat.lt_trichotomy j k with hlt | rfl | hgt
    · rw [if_pos (by omega), if_pos hlt, Function.update_of_ne (by omega)]
    · rw [if_pos (by omega), if_neg (by omega), Function.update_self, Nat.sub_self]
      rfl
    · obtain ⟨i, rfl⟩ : ∃ i, j = k + 1 + i := ⟨j - (k + 1), by omega⟩
      rw [if_neg (by omega), if_neg (by omega), Nat.add_sub_cancel_left,
        show k + 1 + i - k = i + 1 by omega]
      rfl

end Entry

/-! ### The display routine -/

section Display

variable {mk : BitVec 12} {r7 : BitVec 16} {l : List (BitVec 10)}

/-- The code of the next pause. -/
theorem opPSE_mark : ∀ k < 16, opPSE (mark k) + 16#16 = opPSE (mark (k + 1)) := by
  decide

theorem cells_eq (hlen : l.length = 16) {k : ℕ} (hk : k < 16) :
    BitVec.ofNat 16 (cells l k) = (l.get ⟨k, hlen ▸ hk⟩).setWidth 16 := by
  rw [cells, List.getD_eq_getElem?_getD, List.getElem?_eq_getElem (hlen ▸ hk), Option.getD_some,
    BitVec.ofNat_toNat]
  rfl

/-- **One number is shown.** -/
theorem reaches_shown_round {mem : BitVec 8 → BitVec 16} {hex : BitVec 16} {k : ℕ} {v : Temps}
    {cc : BitVec 3} (hmem : HasDemo mem mk) (hk : k < 16) (h1 : v.r1 = BitVec.ofNat 16 k)
    (h2 : v.r2 = 16#16) (h3 : v.r3 = opPSE (mark k)) (h5 : v.r5 = 140#16) :
    Reaches machine (sorting mem hex r7 145 v cc (cells l)) fun es t =>
      es = [.pause (mk.setWidth 10) (BitVec.ofNat 16 (cells l k))] ∧
        ∃ mem', HasDemo mem' (mark (k + 1)) ∧
        ∃ v' : Temps, v'.r1 = BitVec.ofNat 16 (k + 1) ∧ v'.r2 = 16#16 ∧
          v'.r3 = opPSE (mark (k + 1)) ∧ v'.r5 = 140#16 ∧
          t = sorting mem' (BitVec.ofNat 16 (cells l k)) r7 153 v'
            (sign (BitVec.ofNat 16 (k + 1) + 0xFFF0#16)) (cells l) := by
  have h145 : Leads (sorting mem hex r7 145 v cc (cells l)) (sorting mem hex r7 146
      ⟨v.r1, v.r2, v.r3, 74#16 + v.r1, v.r5⟩ _ (cells l)) :=
    demo_add (d := R4) (s := R6) (t := R1) hmem (by decide)
  have hea : 74#16 + v.r1 + 0#16 = BitVec.ofNat 16 (74 + k) := by
    rw [h1, BitVec.add_zero, BitVec.ofNat_add]
  have h146 : Leads _ (sorting mem hex r7 147
      ⟨v.r1, v.r2, v.r3, BitVec.ofNat 16 (cells l k), v.r5⟩ _ (cells l)) :=
    h145.trans (demo_ldr (d := R4) (s := R4) (m := 0#16) (q := 74 + k) hmem (by decide)
      (by omega) hea (layout_data mem (cells l) hk))
  have h147 : Leads _ (sorting (poke mem 255 (BitVec.ofNat 16 (cells l k)))
      (BitVec.ofNat 16 (cells l k)) r7 148
      ⟨v.r1, v.r2, v.r3, BitVec.ofNat 16 (cells l k), v.r5⟩ _ (cells l)) :=
    h146.trans (demo_str_hex (d := R4) hmem (by decide) rfl)
  have hmem' : HasDemo (poke mem 255 (BitVec.ofNat 16 (cells l k))) mk := hasDemo_hex hmem _
  obtain ⟨mem', hm⟩ : ∃ mem', mem' = poke mem 255 (BitVec.ofNat 16 (cells l k)) := ⟨_, rfl⟩
  rw [← hm] at h147 hmem'
  refine Leads.reaches h147 (demo_pse (demo_fetches_mark hmem') ?_).reaches
  have h149 : Leads (sorting mem' (BitVec.ofNat 16 (cells l k)) r7 149
      ⟨v.r1, v.r2, v.r3, BitVec.ofNat 16 (cells l k), v.r5⟩
        (sign (BitVec.ofNat 16 (cells l k))) (cells l))
      (sorting mem' (BitVec.ofNat 16 (cells l k)) r7 150
        ⟨v.r1, v.r2, v.r3 + v.r2, BitVec.ofNat 16 (cells l k), v.r5⟩ _ (cells l)) :=
    demo_add (d := R3) (s := R3) (t := R2) hmem' (by decide)
  have hcode : v.r3 + v.r2 = opPSE (mark (k + 1)) := by rw [h3, h2, opPSE_mark k hk]
  rw [hcode] at h149
  have hword : v.r5 + 8#16 = BitVec.ofNat 16 148 := by
    rw [h5]
    decide
  have h150 : Leads _ (sorting (poke mem' 148 (opPSE (mark (k + 1))))
      (BitVec.ofNat 16 (cells l k)) r7 151 ⟨v.r1, v.r2, opPSE (mark (k + 1)),
        BitVec.ofNat 16 (cells l k), v.r5⟩ _ (cells l)) :=
    h149.trans (demo_str_code (d := R3) (s := R5) (m := 8#16) (q := 148) hmem' (by decide)
      (by decide) (by decide) hword rfl)
  have hmem'' : HasDemo (poke mem' 148 (opPSE (mark (k + 1)))) (mark (k + 1)) :=
    hasDemo_mark hmem' _
  have h151 : Leads _ (sorting (poke mem' 148 (opPSE (mark (k + 1))))
      (BitVec.ofNat 16 (cells l k)) r7 152 ⟨v.r1 + 1#16, v.r2, opPSE (mark (k + 1)),
        BitVec.ofNat 16 (cells l k), v.r5⟩ _ (cells l)) :=
    h150.trans (demo_addi (d := R1) (s := R1) (m := 1#16) hmem'' (by decide))
  have hsucc : v.r1 + 1#16 = BitVec.ofNat 16 (k + 1) := by rw [h1, BitVec.ofNat_add]
  rw [hsucc] at h151
  have h152 : Leads _ (sorting (poke mem' 148 (opPSE (mark (k + 1))))
      (BitVec.ofNat 16 (cells l k)) r7 153 ⟨BitVec.ofNat 16 (k + 1), v.r2, opPSE (mark (k + 1)),
        BitVec.ofNat 16 (k + 1) + 0xFFF0#16, v.r5⟩ (sign (BitVec.ofNat 16 (k + 1) + 0xFFF0#16))
      (cells l)) :=
    h151.trans (demo_addi (d := R4) (s := R1) (m := 0xFFF0#16) hmem'' (by decide))
  exact Leads.reaches h152 (.here ⟨rfl, _, hmem'', ⟨BitVec.ofNat 16 (k + 1), v.r2,
    opPSE (mark (k + 1)), BitVec.ofNat 16 (k + 1) + 0xFFF0#16, v.r5⟩, rfl, h2, rfl, h5, rfl⟩)

/-- **The display loop**, from index `k` on. -/
theorem reaches_shown (hlen : l.length = 16) : ∀ d k mk mem hex v cc, k + d + 1 = 16 →
    HasDemo mem mk → v.r1 = BitVec.ofNat 16 k → v.r2 = 16#16 → v.r3 = opPSE (mark k) →
    v.r5 = 140#16 →
    Reaches machine (sorting mem hex r7 145 v cc (cells l)) fun es t =>
      es = shown mk k (l.drop k) ∧ ∃ mem' v' cc', HasDemo mem' (mark 16) ∧
        Encode.nzp &&& cc' ≠ 0#3 ∧
        t = sorting mem' (BitVec.ofNat 16 (cells l 15)) r7 154 v' cc' (cells l) := by
  have hdrop : ∀ k (hk : k < 16), l.drop k = l.get ⟨k, hlen ▸ hk⟩ :: l.drop (k + 1) :=
    fun k hk => List.drop_eq_getElem_cons (hlen ▸ hk)
  intro d
  induction d with
  | zero =>
    intro k mk mem hex v cc hk hmem h1 h2 h3 h5
    obtain rfl : k = 15 := by omega
    refine (reaches_shown_round hmem (by omega) h1 h2 h3 h5).bind ?_
    rintro es t ⟨rfl, mem', hmem', v', -, -, -, -, rfl⟩
    refine Leads.reaches (demo_br_passed (c := n) (q := 145) hmem' (by decide)
      (mt (n_and_sign_sixteen 15 (by omega)).mp (by omega))) ?_
    refine .here ⟨?_, _, _, _, hmem', nzp_and_sign _, rfl⟩
    rw [hdrop 15 (by omega), List.drop_eq_nil_of_le (by omega), cells_eq hlen (by omega)]
    rfl
  | succ d ih =>
    intro k mk mem hex v cc hk hmem h1 h2 h3 h5
    refine (reaches_shown_round hmem (by omega) h1 h2 h3 h5).bind ?_
    rintro es t ⟨rfl, mem', hmem', v', h1', h2', h3', h5', rfl⟩
    refine Leads.reaches (demo_br_taken (c := n) (q := 145) hmem' (by decide)
      ((n_and_sign_sixteen k (by omega)).mpr (by omega))) ?_
    refine (ih (k + 1) _ _ _ v' _ (by omega) hmem' h1' h2' h3' h5').imp ?_
    rintro es t ⟨rfl, hrest⟩
    refine ⟨?_, hrest⟩
    rw [hdrop k (by omega), cells_eq hlen (by omega)]
    rfl

/-- **The display routine**, called. -/
theorem reaches_display (hlen : l.length = 16) {mem : BitVec 8 → BitVec 16} (hex : BitVec 16)
    (v : Temps) (cc : BitVec 3) (hmem : HasDemo mem mk) :
    Reaches machine (sorting mem hex r7 137 v cc (cells l)) fun es t =>
      es = shown mk 0 l ∧ ∃ mem' v' cc', HasDemo mem' (mark 16) ∧ Encode.nzp &&& cc' ≠ 0#3 ∧
        t = sorting mem' (BitVec.ofNat 16 (cells l 15)) r7 154 v' cc' (cells l) := by
  have h137 : Leads (sorting mem hex r7 137 v cc (cells l))
      (sorting mem hex r7 138 ⟨0#16, v.r2, v.r3, v.r4, v.r5⟩ _ (cells l)) :=
    demo_clr (d := R1) hmem (by decide)
  have h138 : Leads _ (sorting mem hex r7 139 ⟨0#16, v.r2, v.r3, r7 + 0#16, v.r5⟩ _ (cells l)) :=
    h137.trans (demo_add (d := R4) (s := R7) (t := R0) hmem (by decide))
  have h139 : Leads _
      (sorting mem hex 140#16 140 ⟨0#16, v.r2, v.r3, r7 + 0#16, v.r5⟩ _ (cells l)) :=
    h138.trans (demo_jsr (q := 140) hmem (by decide))
  have h140 : Leads _
      (sorting mem hex 140#16 141 ⟨0#16, v.r2, v.r3, r7 + 0#16, 140#16⟩ _ (cells l)) :=
    h139.trans (demo_add (d := R5) (s := R7) (t := R0) hmem (by decide))
  have h141 : Leads _ (sorting mem hex (r7 + 0#16 + 0#16) 142
      ⟨0#16, v.r2, v.r3, r7 + 0#16, 140#16⟩ _ (cells l)) :=
    h140.trans (demo_add_r7 (s := R4) (t := R0) hmem (by decide))
  rw [BitVec.add_zero, BitVec.add_zero] at h141
  have hfirst : layout mem (cells l) (BitVec.ofNat 8 155) = opPSE (mark 0) := by
    rw [layout_code mem _ (by decide) (by decide), hmem 155 (by decide) (by decide),
      if_neg (by decide)]
    decide +kernel
  have h142 : Leads _
      (sorting mem hex r7 143 ⟨0#16, v.r2, opPSE (mark 0), r7, 140#16⟩ _ (cells l)) :=
    h141.trans (demo_ldr (d := R3) (s := R5) (m := 15#16) (q := 155) hmem (by decide)
      (by decide) (show 140#16 + 15#16 = 155#16 by decide) hfirst)
  have h143 : Leads _
      (sorting mem hex r7 144 ⟨0#16, 8#16, opPSE (mark 0), r7, 140#16⟩ _ (cells l)) :=
    h142.trans (demo_addi (d := R2) (s := R0) (m := 8#16) hmem (by decide))
  have h144 : Leads _
      (sorting mem hex r7 145 ⟨0#16, 16#16, opPSE (mark 0), r7, 140#16⟩ _ (cells l)) :=
    h143.trans (demo_add (d := R2) (s := R2) (t := R2) hmem (by decide))
  exact Leads.reaches h144
    (reaches_shown hlen 15 0 mk mem hex _ _ (by decide) hmem rfl rfl rfl rfl)

end Display

/-! ### The sort routine -/

/-- Instructions without a pause keep a condition code that `BR(nzp)` takes. -/
theorem Isa.Leads.nzp_and_cc {a b : Arch} (h : Leads a b) (ha : Encode.nzp &&& a.cc ≠ 0#3) :
    Encode.nzp &&& b.cc ≠ 0#3 := by
  induction h with
  | refl => exact ha
  | @tail b c _ hstep ih =>
    rw [← (hstep (0#10, 0#10)).2, Arch.cycle, Arch.step, Arch.execute]
    split_ifs
    all_goals first | exact nzp_and_sign _ | exact ih

theorem hasSort_of_hasDemo {mem : BitVec 8 → BitVec 16} {mk : BitVec 12} (h : HasDemo mem mk) :
    HasSort mem := by
  intro p h119 h136
  rw [h p (by omega) (by omega), if_neg (by omega)]

theorem cells_lt (l : List (BitVec 10)) (k : ℕ) : cells l k < 1024 := (l.getD k 0#10).isLt

/-- The first sixteen entries, as a list. -/
theorem exists_sorted {l : List (BitVec 10)} (hlen : l.length = 16) {g : ℕ → ℕ}
    (hre : Rearranged 16 (cells l) g) (hset : Settled 16 1 g) :
    ∃ l' : List (BitVec 10), l'.length = 16 ∧ l'.Perm l ∧ l'.Pairwise (· ≤ ·) ∧
      ∀ k < 16, g k = cells l' k := by
  obtain ⟨σ, hσ⟩ := perm_of_rearranged hre
  have hl : List.ofFn (fun k : Fin 16 => l.getD k 0#10) = l := by
    refine List.ext_getElem (by rw [List.length_ofFn, hlen]) fun k _ hk => ?_
    rw [List.getElem_ofFn, List.getD_eq_getElem?_getD, List.getElem?_eq_getElem hk,
      Option.getD_some]
  have hcells : ∀ k < 16, g k = cells (List.ofFn fun k : Fin 16 => l.getD (σ k) 0#10) k := by
    intro k hk
    have hk' : g k = cells l (σ ⟨k, hk⟩) := hσ ⟨k, hk⟩
    simp only [hk', cells, List.getD_eq_getElem?_getD, List.getElem?_ofFn, dif_pos hk,
      Option.getD_some]
  refine ⟨_, List.length_ofFn, ?_, ?_, hcells⟩
  · have hperm := Equiv.Perm.ofFn_comp_perm σ fun k : Fin 16 => l.getD k 0#10
    rw [hl] at hperm
    exact hperm
  · rw [List.pairwise_ofFn]
    intro i j hij
    rw [BitVec.le_def]
    have hle := hset i j hij (by omega) j.isLt
    rw [hσ i, hσ j] at hle
    exact hle

/-! ### The menu -/

section Menu

variable {mem : BitVec 8 → BitVec 16} {mk : BitVec 12} {hex r7 : BitVec 16} {f : ℕ → ℕ}
  (hmem : HasDemo mem mk)

include hmem

/-- A routine returns to word `q`, from where a branch leads back to the menu. -/
theorem leads_back {p q : ℕ} {v : Temps} {cc : BitVec 3}
    (hret : (90 ≤ p ∧ p ≤ 155 ∧ p ≠ 148) ∧ opcode (programWords.getD p 0#16) = 0b1100#4 ∧
      baseR (programWords.getD p 0#16) = R7)
    (hbr : (90 ≤ q ∧ q ≤ 155 ∧ q ≠ 148) ∧ opcode (programWords.getD q 0#16) = 0b0000#4 ∧
      dr (programWords.getD q 0#16) = Encode.nzp ∧
      BitVec.ofNat 16 (q + 1) + offset9 (programWords.getD q 0#16) = BitVec.ofNat 16 94)
    (hcc : Encode.nzp &&& cc ≠ 0#3) :
    Leads (sorting mem hex (BitVec.ofNat 16 q) p v cc f)
      (sorting mem hex (BitVec.ofNat 16 q) 94 v cc f) :=
  (demo_ret hmem hret rfl).trans (demo_br_taken hmem hbr hcc)

/-- A test of the menu, from word `p` on: the selection is counted down, and at `0` the routine at
`q` is called. -/
theorem leads_test {p q t : ℕ} {v : Temps} {cc : BitVec 3}
    (hdec : (90 ≤ p ∧ p ≤ 155 ∧ p ≠ 148) ∧ R1 ∉ [R0, R6, R7] ∧
      opcode (programWords.getD p 0#16) = 0b0001#4 ∧ dr (programWords.getD p 0#16) = R1 ∧
      baseR (programWords.getD p 0#16) = R1 ∧ (programWords.getD p 0#16).getLsbD 5 = true ∧
      imm5 (programWords.getD p 0#16) = 0xFFFF#16)
    (hbr : (90 ≤ p + 1 ∧ p + 1 ≤ 155 ∧ p + 1 ≠ 148) ∧
      opcode (programWords.getD (p + 1) 0#16) = 0b0000#4 ∧
      dr (programWords.getD (p + 1) 0#16) = np ∧
      BitVec.ofNat 16 (p + 2) + offset9 (programWords.getD (p + 1) 0#16) = BitVec.ofNat 16 t)
    (hjsr : (90 ≤ p + 2 ∧ p + 2 ≤ 155 ∧ p + 2 ≠ 148) ∧
      opcode (programWords.getD (p + 2) 0#16) = 0b0100#4 ∧
      BitVec.ofNat 16 (p + 3) + offset11 (programWords.getD (p + 2) 0#16) = BitVec.ofNat 16 q) :
    Leads (sorting mem hex r7 p v cc f)
      (if v.r1 + 0xFFFF#16 = 0#16 then
        sorting mem hex (BitVec.ofNat 16 (p + 3)) q ⟨v.r1 + 0xFFFF#16, v.r2, v.r3, v.r4, v.r5⟩
          (sign (v.r1 + 0xFFFF#16)) f
      else sorting mem hex r7 t ⟨v.r1 + 0xFFFF#16, v.r2, v.r3, v.r4, v.r5⟩
        (sign (v.r1 + 0xFFFF#16)) f) := by
  have hcount : Leads (sorting mem hex r7 p v cc f) (sorting mem hex r7 (p + 1)
      ⟨v.r1 + 0xFFFF#16, v.r2, v.r3, v.r4, v.r5⟩ (sign (v.r1 + 0xFFFF#16)) f) :=
    demo_addi (d := R1) (s := R1) hmem hdec
  by_cases h : v.r1 + 0xFFFF#16 = 0#16
  · rw [if_pos h]
    refine (hcount.trans (demo_br_passed hmem hbr ?_)).trans (demo_jsr hmem hjsr)
    exact mt (np_and_sign_iff _).mp (not_not.mpr h)
  · rw [if_neg h]
    exact hcount.trans (demo_br_taken hmem hbr ((np_and_sign_iff _).mpr h))

omit hmem in
theorem selected_iff (c : BitVec 10) : (c.setWidth 16 = 0#16 ↔ c = 0) ∧
    (c.setWidth 16 + 0xFFFF#16 = 0#16 ↔ c = 1) ∧
    (c.setWidth 16 + 0xFFFF#16 + 0xFFFF#16 = 0#16 ↔ c = 2) ∧
    (c.setWidth 16 + 0xFFFF#16 + 0xFFFF#16 + 0xFFFF#16 = 0#16 ↔ c = 3) := by
  refine ⟨?_, ?_, ?_, ?_⟩
  all_goals bv_omega

/-- **The menu** calls the routine of the choice `c`. -/
theorem leads_choice (c : BitVec 10) {v : Temps} (h1 : v.r1 = c.setWidth 16) :
    ∃ v' cc', Encode.nzp &&& cc' ≠ 0#3 ∧ Leads (sorting mem hex r7 96 v (sign (c.setWidth 16)) f)
      (if c = 1 then sorting mem hex 100#16 109 v' cc' f
      else if c = 2 then sorting mem hex 104#16 119 v' cc' f
      else if c = 3 then sorting mem hex 108#16 137 v' cc' f
      else sorting mem hex r7 94 v' cc' f) := by
  obtain ⟨h0, hone, htwo, hthree⟩ := selected_iff c
  rw [← h1] at h0 hone htwo hthree ⊢
  by_cases hc : c = 0
  · rw [hc]
    exact ⟨_, _, nzp_and_sign _, demo_br_taken (c := z) hmem (by decide)
      ((z_and_sign_iff _).mpr (h0.mpr hc))⟩
  have h96 : Leads (sorting mem hex r7 96 v (sign v.r1) f)
      (sorting mem hex r7 97 v (sign v.r1) f) :=
    demo_br_passed (c := z) (q := 94) hmem (by decide)
      (mt ((z_and_sign_iff _).trans h0).mp hc)
  have h97 := h96.trans (leads_test (p := 97) (q := 109) (t := 101) hmem (by decide)
    (by decide) (by decide))
  by_cases hc1 : c = 1
  · rw [if_pos (hone.mpr hc1)] at h97
    simp only [if_pos hc1]
    exact ⟨_, _, nzp_and_sign _, h97⟩
  rw [if_neg (mt hone.mp hc1)] at h97
  simp only [if_neg hc1]
  have h101 := h97.trans (leads_test (p := 101) (q := 119) (t := 105) hmem (by decide)
    (by decide) (by decide))
  by_cases hc2 : c = 2
  · rw [if_pos (htwo.mpr hc2)] at h101
    simp only [if_pos hc2]
    exact ⟨_, _, nzp_and_sign _, h101⟩
  rw [if_neg (mt htwo.mp hc2)] at h101
  simp only [if_neg hc2]
  have h105 := h101.trans (leads_test (p := 105) (q := 137) (t := 94) hmem (by decide)
    (by decide) (by decide))
  by_cases hc3 : c = 3
  · rw [if_pos (hthree.mpr hc3)] at h105
    simp only [if_pos hc3]
    exact ⟨_, _, nzp_and_sign _, h105⟩
  · rw [if_neg (mt hthree.mp hc3)] at h105
    simp only [if_neg hc3]
    exact ⟨_, _, nzp_and_sign _, h105⟩

end Menu

/-! ### The program -/

section Choices

variable {mem : BitVec 8 → BitVec 16} {d : Demo} (v : Temps) (cc : BitVec 3)
  (hmem : HasDemo mem d.mark)

include hmem

theorem reaches_choice_enter :
    Reaches machine (sorting mem d.hex 100#16 109 v cc (cells d.data)) fun es t =>
      ∃ d', Choice d (menu d 1 ++ es) d' ∧ AtMenu t d' := by
  have h109 : Leads (sorting mem d.hex 100#16 109 v cc (cells d.data))
      (sorting mem d.hex 100#16 110 ⟨0#16, v.r2, v.r3, v.r4, v.r5⟩ _ (cells d.data)) :=
    demo_clr (d := R1) hmem (by decide)
  refine h109.reaches ((reaches_entry 15 0 mem d.hex _ _ (cells d.data) rfl hmem rfl).bind ?_)
  rintro es t ⟨l, hlen, rfl, mem', v', cc', f', hmem', hf', hcc, rfl⟩
  have hcells : ∀ j < 16, f' j = cells l j := by
    intro j hj
    rw [hf' j hj, if_neg (Nat.not_lt_zero j), Nat.sub_zero]
  rw [sorting_congr hcells]
  have hback : Leads (sorting mem' 15#16 100#16 118 v' cc' (cells l)) _ :=
    leads_back (q := 100) hmem' (by decide) (by decide) hcc
  refine hback.reaches (.here ⟨{ d with data := l, length := hlen, hex := 15#16 }, ?_,
    mem', _, v', cc', hmem', rfl⟩)
  rw [List.append_nil]
  exact .enter l hlen

theorem reaches_choice_sort (hcc : Encode.nzp &&& cc ≠ 0#3) :
    Reaches machine (sorting mem d.hex 104#16 119 v cc (cells d.data)) fun es t =>
      ∃ d', Choice d (menu d 2 ++ es) d' ∧ AtMenu t d' := by
  obtain ⟨v', cc', g, hre, hset, hsort⟩ := leads_sort d.hex 104#16 cc
    (hasSort_of_hasDemo hmem) v fun k _ => cells_lt d.data k
  obtain ⟨l, hlen, hperm, hsorted, hg⟩ := exists_sorted d.length hre hset
  have hcc' : Encode.nzp &&& cc' ≠ 0#3 := hsort.nzp_and_cc hcc
  have hback : Leads (sorting mem d.hex 104#16 104 v' cc' g)
      (sorting mem d.hex 104#16 94 v' cc' g) :=
    demo_br_taken (c := Encode.nzp) hmem (by decide) hcc'
  refine Leads.reaches (hsort.trans hback) ?_
  rw [sorting_congr hg]
  exact .here ⟨{ d with data := l, length := hlen }, .sort l hlen hperm hsorted,
    mem, _, v', cc', hmem, rfl⟩

theorem reaches_choice_display :
    Reaches machine (sorting mem d.hex 108#16 137 v cc (cells d.data)) fun es t =>
      ∃ d', Choice d (menu d 3 ++ es) d' ∧ AtMenu t d' := by
  refine (reaches_display d.length d.hex v cc hmem).bind ?_
  rintro es t ⟨rfl, mem', v', cc', hmem', hcc, rfl⟩
  obtain ⟨x, hx⟩ : ∃ x, x = d.data.get ⟨15, d.length ▸ by decide⟩ := ⟨_, rfl⟩
  have hlast : d.data.getLast? = some x := by
    rw [List.getLast?_eq_getElem?, hx]
    simp only [d.length]
    exact List.getElem?_eq_getElem _
  rw [cells_eq d.length (by decide), ← hx]
  have hback : Leads (sorting mem' (x.setWidth 16) 108#16 154 v' cc' (cells d.data)) _ :=
    leads_back (q := 108) hmem' (by decide) (by decide) hcc
  refine hback.reaches (.here ⟨{ d with mark := mark 16, hex := x.setWidth 16 }, ?_,
    mem', _, v', cc', hmem', rfl⟩)
  rw [List.append_nil]
  exact .display x hlast

end Choices

/-- **One choice** from the menu. -/
theorem proceeds_menu {a : Arch} {d : Demo} (h : AtMenu a d) :
    Proceeds machine a fun es t => ∃ d', Choice d es d' ∧ AtMenu t d' := by
  obtain ⟨mem, r7, v, cc, hmem, rfl⟩ := h
  have h94 : (sorting mem d.hex r7 94 v cc (cells d.data)).Fetches (opPSE 0x3FF#12) :=
    demo_fetches hmem (by decide)
  refine demo_pse h94 (demo_read (d := R1) hmem (by decide) fun c => ?_).reaches
  have h96 : (v.set R1 (c.setWidth 16)).r1 = c.setWidth 16 := rfl
  obtain ⟨v', cc', hcc, hchoice⟩ := leads_choice hmem c h96
  refine Leads.reaches hchoice ?_
  by_cases h1 : c = 1
  · subst h1
    exact reaches_choice_enter v' cc' hmem
  by_cases h2 : c = 2
  · subst h2
    exact reaches_choice_sort v' cc' hmem hcc
  by_cases h3 : c = 3
  · subst h3
    exact reaches_choice_display v' cc' hmem
  rw [if_neg h1, if_neg h2, if_neg h3]
  refine .here ⟨d, .other c ?_, mem, r7, v', cc', hmem, rfl⟩
  simp only [List.mem_cons, List.not_mem_nil, or_false, not_or]
  exact ⟨h1, h2, h3⟩

/-- The program begins with this demo, in a memory with words `90` to `155` and the numbers before
them. -/
structure Installed (a : Arch) (d : Demo) : Prop where
  pc : a.pc = 90#16
  code : HasDemo a.mem d.mark
  data : ∀ k < 16, a.mem (BitVec.ofNat 8 (74 + k)) = BitVec.ofNat 16 (cells d.data k)
  hex : a.hexData = d.hex

/-! ### Words `90` to `93` -/

section Start

variable {a : Arch} {d : Demo} {p : ℕ} {r : BitVec 3 → BitVec 16} {cc : BitVec 3}

/-- The registers with `v` in the register `k`. -/
def put (r : BitVec 3 → BitVec 16) (k : BitVec 3) (v : BitVec 16) : BitVec 3 → BitVec 16 := fun j =>
  if k = j then v else r j

/-- At word `p`, with other registers and the rest as in `a`. -/
def starting (a : Arch) (p : ℕ) (r : BitVec 3 → BitVec 16) (cc : BitVec 3) : Arch :=
  { a with pc := BitVec.ofNat 16 p, r := r, cc := cc }

theorem Installed.eq_starting (h : Installed a d) : a = starting a 90 a.r a.cc :=
  Arch.ext h.pc rfl rfl rfl rfl

theorem Installed.fetches (h : Installed a d) (hp : 90 ≤ p ∧ p ≤ 155 ∧ p ≠ 148) :
    (starting a p r cc).Fetches (programWords.getD p 0#16) where
  pc := ofNat_ne_ones (by omega)
  mem := by
    change a.mem (word (BitVec.ofNat 16 p)) = _
    rw [word_ofNat, h.code p hp.1 hp.2.1, if_neg hp.2.2]

theorem starting_write (k : BitVec 3) (v : BitVec 16) :
    (starting a p r cc).advance.write k v = starting a (p + 1) (put r k v) (sign v) :=
  Arch.ext (BitVec.ofNat_add p 1).symm rfl rfl rfl rfl

/-- Word `90` clears `R0`. -/
theorem leads_clear (h : Installed a d) :
    Leads a (starting a 91 (put a.r R0 0#16) (sign 0#16)) := by
  have hfetch : (starting a 90 a.r a.cc).Fetches _ := h.fetches (by decide)
  have hleads := hfetch.leads (by decide) fun i =>
    cycle_andi (d := R0) (s := R0) (m := 0#16) (i := i) hfetch (by decide)
  rwa [starting_write, BitVec.and_zero, ← h.eq_starting] at hleads

/-- Word `91` calls the next one, and so has its address. -/
theorem leads_call (h : Installed a d) :
    Leads (starting a 91 r cc) (starting a 92 (put r R7 92#16) cc) := by
  have hfetch : (starting a 91 r cc).Fetches _ := h.fetches (by decide)
  exact hfetch.leads (by decide) fun i =>
    cycle_jsr (m := 0#16) (i := i) hfetch (by decide)

/-- Words `92` and `93` take `18` from that address. -/
theorem leads_data (h : Installed a d) : Leads (starting a 92 r cc)
    (starting a 94 (put (put r R6 (r R7 + 0xFFF0#16)) R6 (r R7 + 0xFFF0#16 + 0xFFFE#16))
      (sign (r R7 + 0xFFF0#16 + 0xFFFE#16))) := by
  have hfetch : (starting a 92 r cc).Fetches _ := h.fetches (by decide)
  have hfirst := hfetch.leads (by decide) fun i =>
    cycle_addi (d := R6) (s := R7) (m := 0xFFF0#16) (i := i) hfetch (by decide)
  rw [starting_write] at hfirst
  have hfetch' : (starting a 93 (put r R6 (r R7 + 0xFFF0#16))
      (sign (r R7 + 0xFFF0#16))).Fetches _ := h.fetches (by decide)
  have hlast := hfetch'.leads (by decide) fun i =>
    cycle_addi (d := R6) (s := R6) (m := 0xFFFE#16) (i := i) hfetch' (by decide)
  rw [starting_write] at hlast
  exact hfirst.trans hlast

/-- The menu, with the numbers of the memory as data. -/
theorem starting_eq_sorting (h : Installed a d) (h0 : r R0 = 0#16) (h6 : r R6 = 74#16)
    (h7 : r R7 = 92#16) : starting a 94 r cc =
      sorting a.mem d.hex 92#16 94 ⟨r R1, r R2, r R3, r R4, r R5⟩ cc (cells d.data) := by
  refine Arch.ext rfl ?_ rfl ?_ h.hex
  · funext k
    have hcases : k = R0 ∨ k = R1 ∨ k = R2 ∨ k = R3 ∨ k = R4 ∨ k = R5 ∨ k = R6 ∨ k = R7 := by
      revert k
      decide
    rcases hcases with rfl | rfl | rfl | rfl | rfl | rfl | rfl | rfl
    · exact h0
    · rfl
    · rfl
    · rfl
    · rfl
    · rfl
    · exact h6
    · exact h7
  · funext x
    change a.mem x = layout a.mem (cells d.data) x
    rw [layout]
    split_ifs with hx
    · rw [← h.data _ (by omega), Nat.add_sub_cancel' hx.1, BitVec.ofNat_toNat,
        BitVec.setWidth_eq]
    · rfl

/-- The program finds its data, whatever is in the registers. -/
theorem leads_start (h : Installed a d) : ∃ t, AtMenu t d ∧ Leads a t := by
  have hleads := ((leads_clear h).trans (leads_call h)).trans (leads_data h)
  have hdata : 92#16 + 0xFFF0#16 + 0xFFFE#16 = 74#16 := by decide
  exact ⟨_, ⟨a.mem, _, _, _, h.code, starting_eq_sorting h rfl hdata rfl⟩, hleads⟩

end Start

/-- **The demo serves its menu.**  Whatever the switches and the registers are, the reference
machine comes back to the menu again and again, and what has been said until then is a session of
the demo; the same is said at the pins of the processor, if it is operated. -/
theorem sort_demo_serves {a : Arch} {d : Demo} (h : Installed a d) :
    (∀ (w : ℕ → BitVec 10 × BitVec 10) (N : ℕ), ∃ n ≥ N, ∃ d',
      Session d (trace machine w a n) d' ∧ AtMenu (run Arch.cycle w a n) d') ∧
    ∀ image (w : ℕ → Input) (b : Board), Operated w → b.cpu.isdu = .s18 → b.arch = a →
      ∀ N, ∃ n ≥ N, ∃ d', Session d (trace (Board.machine image) w b n) d' ∧
        (run (Board.next image) w b n).cpu.isdu = .s18 ∧
        AtMenu (run (Board.next image) w b n).arch d' := by
  have hserves : ∀ (w : ℕ → BitVec 10 × BitVec 10) (N : ℕ), ∃ n ≥ N, ∃ d',
      Session d (trace machine w a n) d' ∧ AtMenu (run Arch.cycle w a n) d' := by
    intro w N
    obtain ⟨t, hmenu, hstart⟩ := leads_start h
    have hfirst : Reaches machine a fun es t => ∃ d', Session d es d' ∧ AtMenu t d' :=
      hstart.reaches (.here ⟨d, .start, hmenu⟩)
    refine forever hfirst (fun es t ht => ?_) w N
    obtain ⟨d', hsession, hmenu'⟩ := ht
    refine (proceeds_menu hmenu').imp fun es' u hu => ?_
    obtain ⟨d'', hchoice, hmenu''⟩ := hu
    exact ⟨d'', hsession.choice hchoice, hmenu''⟩
  refine ⟨hserves, fun image w b hop h18 ha N => ?_⟩
  obtain ⟨τ, hmono, hs18, harch⟩ := board_runs image hop h18
  obtain ⟨n, hn, d', hsession, hmenu⟩ := hserves (fun k => switches w (τ k)) N
  refine ⟨τ n, hn.trans (hmono.id_le n), d', ?_, (hs18 _).mpr ⟨n, rfl⟩, ?_⟩
  · rw [trace_board hop.reset hmono hs18 harch h18, ha]
    exact hsession
  · rw [harch, ha]
    exact hmenu

/-- The numbers of the image. -/
def imageDemo : Demo where
  data := List.ofFn fun k : Fin 16 => (initData (BitVec.ofNat 16 (74 + k))).setWidth 10
  length := List.length_ofFn
  mark := mark 0
  hex := 0#16

/-- The program begins, with the words of the image. -/
def atDemo : Arch := { atProgram with pc := 90#16 }

theorem installed_atDemo : Installed atDemo imageDemo where
  pc := rfl
  code := by
    have hwords : ∀ p < 156, 90 ≤ p → atDemo.mem (BitVec.ofNat 8 p) =
        if p = 148 then opPSE (mark 0) else programWords.getD p 0#16 := by decide
    exact fun p h90 h155 => hwords p (by omega) h90
  data := by decide
  hex := rfl

theorem sort_demo_serves_image :
    (∀ N : ℕ, ∃ n ≥ N, ∃ d',
      Session imageDemo (trace machine (fun _ => (0#10, 3#10)) atDemo n) d' ∧
        AtMenu (run Arch.cycle (fun _ => (0#10, 3#10)) atDemo n) d') ∧
    ∀ N, ∃ n ≥ N, ∃ d',
      Session imageDemo (trace (Board.machine atDemo.mem) tapping atDemo.onBoard n) d' ∧
        (run (Board.next atDemo.mem) tapping atDemo.onBoard n).cpu.isdu = .s18 ∧
        AtMenu (run (Board.next atDemo.mem) tapping atDemo.onBoard n).arch d' := by
  obtain ⟨hrun, hboard⟩ := sort_demo_serves installed_atDemo
  exact ⟨hrun _, hboard atDemo.mem tapping atDemo.onBoard operated_tapping rfl rfl⟩

end ECE385.Slc3
