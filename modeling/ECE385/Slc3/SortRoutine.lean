import ECE385.Slc3.Image
import ECE385.Slc3.Instructions
import ECE385.Sorting.Bubble
import Mathlib.Algebra.Group.End
import Mathlib.Algebra.Group.Nat.Defs
import Mathlib.Logic.Equiv.Fin.Basic

/-!
# The sort function of the program image

Words `119` to `136` sort the sixteen words from `74` on.  `R1` counts the passes, from `-16` up to
`0`; `R2` is the index `j` within a pass, from `1` up to `-R1`; `R3` points to entry `j`.  Since the
loops test at their end, the last two passes are of one exchange.

* `leads_exchange`: instructions `121` to `132` put entries `j - 1` and `j` in order.
* `leads_pass`: the inner loop is a pass.
* `leads_settle`: the outer loop settles the entries from the last one down.
* `sort_function_sorts`: the routine called, on the reference machine and on the processor.
-/

namespace ECE385.Slc3

open Clocked Isa Arch Encode Sorting

/-! ### The state of the routine -/

/-- `R1` to `R5`. -/
structure Temps where
  r1 : BitVec 16
  r2 : BitVec 16
  r3 : BitVec 16
  r4 : BitVec 16
  r5 : BitVec 16

def Temps.set (d : BitVec 3) (x : BitVec 16) (v : Temps) : Temps where
  r1 := if d = R1 then x else v.r1
  r2 := if d = R2 then x else v.r2
  r3 := if d = R3 then x else v.r3
  r4 := if d = R4 then x else v.r4
  r5 := if d = R5 then x else v.r5

/-- The registers, with `R0` and `R6` as the routine expects them and the return address in
`R7`. -/
def file (r7 : BitVec 16) (v : Temps) : BitVec 3 → BitVec 16 := fun k =>
  if k = R1 then v.r1 else if k = R2 then v.r2 else if k = R3 then v.r3
  else if k = R4 then v.r4 else if k = R5 then v.r5
  else if k = R6 then 74#16 else if k = R7 then r7 else 0#16

/-- The memory with the entries `f` at word `74`. -/
def layout (mem : BitVec 8 → BitVec 16) (f : ℕ → ℕ) : BitVec 8 → BitVec 16 := fun x =>
  if 74 ≤ x.toNat ∧ x.toNat < 90 then BitVec.ofNat 16 (f (x.toNat - 74)) else mem x

/-- The routine at `p`. -/
def sorting (mem : BitVec 8 → BitVec 16) (hexData r7 : BitVec 16) (p : ℕ) (v : Temps)
    (cc : BitVec 3) (f : ℕ → ℕ) : Arch where
  pc := BitVec.ofNat 16 p
  r := file r7 v
  cc := cc
  mem := layout mem f
  hexData := hexData

/-- Words `119` to `136` are in the memory. -/
def HasSort (mem : BitVec 8 → BitVec 16) : Prop :=
  ∀ p, 119 ≤ p → p ≤ 136 → mem (BitVec.ofNat 8 p) = programWords.getD p 0#16

theorem file_set (r7 : BitVec 16) (v : Temps) {d : BitVec 3} (x : BitVec 16)
    (hd : d ∉ [R0, R6, R7]) :
    (fun k => if d = k then x else file r7 v k) = file r7 (v.set d x) := by
  funext k
  have hcases : d = R1 ∨ d = R2 ∨ d = R3 ∨ d = R4 ∨ d = R5 := by
    revert d
    decide
  by_cases hk : d = k
  · subst hk
    rcases hcases with rfl | rfl | rfl | rfl | rfl
    all_goals rfl
  · rw [if_neg hk]
    rcases hcases with rfl | rfl | rfl | rfl | rfl
    all_goals
      simp only [file, if_neg (Ne.symm hk)]
      rfl

theorem layout_code (mem : BitVec 8 → BitVec 16) (f : ℕ → ℕ) {p : ℕ} (h90 : 90 ≤ p)
    (h256 : p < 256) : layout mem f (BitVec.ofNat 8 p) = mem (BitVec.ofNat 8 p) := by
  have htoNat : (BitVec.ofNat 8 p).toNat = p := by rw [BitVec.toNat_ofNat, Nat.mod_eq_of_lt h256]
  rw [layout, htoNat, if_neg (by omega)]

theorem layout_data (mem : BitVec 8 → BitVec 16) (f : ℕ → ℕ) {k : ℕ} (hk : k < 16) :
    layout mem f (BitVec.ofNat 8 (74 + k)) = BitVec.ofNat 16 (f k) := by
  have htoNat : (BitVec.ofNat 8 (74 + k)).toNat = 74 + k := by
    rw [BitVec.toNat_ofNat]
    omega
  rw [layout, htoNat, if_pos (by omega), Nat.add_sub_cancel_left]

theorem layout_store (mem : BitVec 8 → BitVec 16) (f : ℕ → ℕ) {k : ℕ} (x : ℕ) (hk : k < 16) :
    (fun a => if a = BitVec.ofNat 8 (74 + k) then BitVec.ofNat 16 x else layout mem f a) =
      layout mem (Function.update f k x) := by
  funext a
  have heq : a = BitVec.ofNat 8 (74 + k) ↔ a.toNat = 74 + k := by
    rw [← BitVec.toNat_inj, BitVec.toNat_ofNat, Nat.mod_eq_of_lt (by omega)]
  by_cases h : a.toNat = 74 + k
  · rw [if_pos (heq.mpr h), layout, h, if_pos (by omega), Nat.add_sub_cancel_left,
      Function.update_self]
  · rw [if_neg (mt heq.mp h), layout, layout]
    split_ifs with hin
    · rw [Function.update_of_ne (by omega)]
    · rfl

/-! ### One instruction -/

section Instructions

variable {mem : BitVec 8 → BitVec 16} {hexData r7 : BitVec 16} {p : ℕ} {v : Temps} {cc : BitVec 3}
  {f : ℕ → ℕ} {b : Arch} (hmem : HasSort mem)

include hmem

theorem sorting_fetches (h119 : 119 ≤ p) (h136 : p ≤ 136) :
    (sorting mem hexData r7 p v cc f).Fetches (programWords.getD p 0#16) where
  pc := ofNat_ne_ones (by omega)
  mem := by
    change layout mem f (word (BitVec.ofNat 16 p)) = _
    rw [word_ofNat, layout_code mem f (by omega) (by omega), hmem p h119 h136]

omit hmem in
theorem sorting_advance :
    (sorting mem hexData r7 p v cc f).advance = sorting mem hexData r7 (p + 1) v cc f := by
  rw [Arch.advance, sorting, sorting, BitVec.ofNat_add]

omit hmem in
theorem sorting_write {d : BitVec 3} (x : BitVec 16) (hd : d ∉ [R0, R6, R7]) :
    (sorting mem hexData r7 p v cc f).write d x =
      sorting mem hexData r7 p (v.set d x) (sign x) f := by
  simp only [Arch.write, Arch.setReg, sorting, file_set r7 v x hd]

theorem leads_addi {d s : BitVec 3} {m : BitVec 16}
    (hw : 119 ≤ p ∧ p ≤ 136 ∧ d ∉ [R0, R6, R7] ∧
      opcode (programWords.getD p 0#16) = 0b0001#4 ∧ dr (programWords.getD p 0#16) = d ∧
      baseR (programWords.getD p 0#16) = s ∧ (programWords.getD p 0#16).getLsbD 5 = true ∧
      imm5 (programWords.getD p 0#16) = m) :
    Leads (sorting mem hexData r7 p v cc f) (sorting mem hexData r7 (p + 1)
      (v.set d (file r7 v s + m)) (sign (file r7 v s + m)) f) := by
  obtain ⟨h119, h136, hd, hins⟩ := hw
  have hf : (sorting mem hexData r7 p v cc f).Fetches _ := sorting_fetches hmem h119 h136
  refine hf.leads (by rw [hins.1]; decide) fun i => ?_
  rw [cycle_addi hf hins, sorting_advance, sorting_write _ hd]
  rfl

theorem leads_add {d s t : BitVec 3}
    (hw : 119 ≤ p ∧ p ≤ 136 ∧ d ∉ [R0, R6, R7] ∧
      opcode (programWords.getD p 0#16) = 0b0001#4 ∧ dr (programWords.getD p 0#16) = d ∧
      baseR (programWords.getD p 0#16) = s ∧ (programWords.getD p 0#16).getLsbD 5 = false ∧
      sr2 (programWords.getD p 0#16) = t) :
    Leads (sorting mem hexData r7 p v cc f) (sorting mem hexData r7 (p + 1)
      (v.set d (file r7 v s + file r7 v t)) (sign (file r7 v s + file r7 v t)) f) := by
  obtain ⟨h119, h136, hd, hins⟩ := hw
  have hf : (sorting mem hexData r7 p v cc f).Fetches _ := sorting_fetches hmem h119 h136
  refine hf.leads (by rw [hins.1]; decide) fun i => ?_
  rw [cycle_add hf hins, sorting_advance, sorting_write _ hd]
  rfl

theorem leads_not {d s : BitVec 3}
    (hw : 119 ≤ p ∧ p ≤ 136 ∧ d ∉ [R0, R6, R7] ∧
      opcode (programWords.getD p 0#16) = 0b1001#4 ∧ dr (programWords.getD p 0#16) = d ∧
      baseR (programWords.getD p 0#16) = s) :
    Leads (sorting mem hexData r7 p v cc f) (sorting mem hexData r7 (p + 1)
      (v.set d (~~~file r7 v s)) (sign (~~~file r7 v s)) f) := by
  obtain ⟨h119, h136, hd, hins⟩ := hw
  have hf : (sorting mem hexData r7 p v cc f).Fetches _ := sorting_fetches hmem h119 h136
  refine hf.leads (by rw [hins.1]; decide) fun i => ?_
  rw [cycle_not hf hins, sorting_advance, sorting_write _ hd]
  rfl

/-- A load of entry `k`. -/
theorem leads_ldr {d s : BitVec 3} {m : BitVec 16} {k : ℕ}
    (hw : 119 ≤ p ∧ p ≤ 136 ∧ d ∉ [R0, R6, R7] ∧
      opcode (programWords.getD p 0#16) = 0b0110#4 ∧ dr (programWords.getD p 0#16) = d ∧
      baseR (programWords.getD p 0#16) = s ∧ offset6 (programWords.getD p 0#16) = m)
    (hk : k < 16) (hea : file r7 v s + m = BitVec.ofNat 16 (74 + k)) :
    Leads (sorting mem hexData r7 p v cc f) (sorting mem hexData r7 (p + 1)
      (v.set d (BitVec.ofNat 16 (f k))) (sign (BitVec.ofNat 16 (f k))) f) := by
  obtain ⟨h119, h136, hd, hins⟩ := hw
  have hf : (sorting mem hexData r7 p v cc f).Fetches _ := sorting_fetches hmem h119 h136
  refine hf.leads (by rw [hins.1]; decide) fun i => ?_
  have hrd : (sorting mem hexData r7 p v cc f).rd i.2 (file r7 v s + m) =
      BitVec.ofNat 16 (f k) := by
    rw [hea, Arch.rd, if_neg (ofNat_ne_ones (by omega)), word_ofNat]
    exact layout_data mem f hk
  rw [cycle_ldr hf hins, sorting_advance, sorting_write _ hd]
  exact congrArg (fun x => sorting mem hexData r7 (p + 1) (v.set d x) (sign x) f) hrd

/-- A store of `x` to entry `k`. -/
theorem leads_str {d s : BitVec 3} {m : BitVec 16} {k x : ℕ}
    (hw : 119 ≤ p ∧ p ≤ 136 ∧
      opcode (programWords.getD p 0#16) = 0b0111#4 ∧ dr (programWords.getD p 0#16) = d ∧
      baseR (programWords.getD p 0#16) = s ∧ offset6 (programWords.getD p 0#16) = m)
    (hk : k < 16) (hea : file r7 v s + m = BitVec.ofNat 16 (74 + k))
    (hx : file r7 v d = BitVec.ofNat 16 x) :
    Leads (sorting mem hexData r7 p v cc f)
      (sorting mem hexData r7 (p + 1) v cc (Function.update f k x)) := by
  obtain ⟨h119, h136, hins⟩ := hw
  have hf : (sorting mem hexData r7 p v cc f).Fetches _ := sorting_fetches hmem h119 h136
  have haddr : (sorting mem hexData r7 p v cc f).r s + m = BitVec.ofNat 16 (74 + k) := hea
  have hval : (sorting mem hexData r7 p v cc f).r d = BitVec.ofNat 16 x := hx
  refine hf.leads (by rw [hins.1]; decide) fun i => ?_
  rw [cycle_str hf hins, haddr, hval, sorting_advance, Arch.store,
    if_neg (ofNat_ne_ones (by omega)), word_ofNat]
  simp only [sorting, layout_store mem f x hk]

/-- A branch to `q` on the conditions `c`. -/
theorem leads_br {c : BitVec 3} {q : ℕ}
    (hw : 119 ≤ p ∧ p ≤ 136 ∧
      opcode (programWords.getD p 0#16) = 0b0000#4 ∧ dr (programWords.getD p 0#16) = c ∧
      BitVec.ofNat 16 (p + 1) + offset9 (programWords.getD p 0#16) = BitVec.ofNat 16 q) :
    Leads (sorting mem hexData r7 p v cc f)
      (sorting mem hexData r7 (if c &&& cc ≠ 0#3 then q else p + 1) v cc f) := by
  obtain ⟨h119, h136, hop, hdr, hq⟩ := hw
  have hf : (sorting mem hexData r7 p v cc f).Fetches _ := sorting_fetches hmem h119 h136
  refine hf.leads (by rw [hop]; decide) fun i => ?_
  rw [cycle_br hf ⟨hop, hdr, rfl⟩]
  by_cases h : c &&& cc ≠ 0#3
  · rw [if_pos h, if_pos (show c &&& (sorting mem hexData r7 p v cc f).cc ≠ 0#3 from h)]
    simp only [sorting, ← BitVec.ofNat_add, hq]
  · rw [if_neg h, if_neg (show ¬c &&& (sorting mem hexData r7 p v cc f).cc ≠ 0#3 from h),
      sorting_advance]

end Instructions

/-! ### Signs of differences -/

theorem toInt_sub_ofNat {x y : ℕ} (hx : x < 2 ^ 15) (hy : y < 2 ^ 15) :
    (BitVec.ofNat 16 x - BitVec.ofNat 16 y).toInt = x - y := by
  rw [BitVec.toInt_sub, BitVec.toInt_ofNat', BitVec.toInt_ofNat']
  simp only [Int.bmod_def]
  omega

/-- The comparison of two entries. -/
theorem nz_and_sign {x y : ℕ} (hx : x < 1024) (hy : y < 1024) :
    nz &&& sign (BitVec.ofNat 16 x + (~~~BitVec.ofNat 16 y + 1#16)) ≠ 0#3 ↔ x ≤ y := by
  have hsub : BitVec.ofNat 16 x + (~~~BitVec.ofNat 16 y + 1#16) =
      BitVec.ofNat 16 x - BitVec.ofNat 16 y := by
    rw [BitVec.sub_eq_add_neg, BitVec.neg_eq_not_add]
  have hint := toInt_sub_ofNat (x := x) (y := y) (by omega) (by omega)
  have hzero : BitVec.ofNat 16 x - BitVec.ofNat 16 y = 0#16 ↔ x = y := by
    rw [← BitVec.toInt_inj, hint, BitVec.toInt_zero]
    omega
  simp only [hsub, sign, hint, hzero]
  split_ifs with hneg heq
  · exact iff_of_true (by decide) (by omega)
  · exact iff_of_true (by decide) (by omega)
  · exact iff_of_false (by decide) (by omega)

/-- The end of a loop that counts from `-m` up, at `x`. -/
theorem n_and_sign {x m : ℕ} (hx : x < 1024) (hm : m < 1024) :
    n &&& sign (-BitVec.ofNat 16 m + BitVec.ofNat 16 x) ≠ 0#3 ↔ x < m := by
  have hsub : -BitVec.ofNat 16 m + BitVec.ofNat 16 x = BitVec.ofNat 16 x - BitVec.ofNat 16 m := by
    rw [BitVec.sub_eq_add_neg, BitVec.add_comm]
  have hint := toInt_sub_ofNat (x := x) (y := m) (by omega) (by omega)
  rw [hsub, sign, hint]
  split_ifs with hneg heq
  · exact iff_of_true (by decide) (by omega)
  · exact iff_of_false (by decide) (by omega)
  · exact iff_of_false (by decide) (by omega)

/-! ### The loops -/

theorem pred_pointer (k : ℕ) :
    BitVec.ofNat 16 (k + 1) + 0xFFFF#16 = BitVec.ofNat 16 k := by
  rw [BitVec.ofNat_add, BitVec.add_assoc, show 1#16 + 0xFFFF#16 = 0#16 by decide, BitVec.add_zero]

theorem update_update_eq_swap (f : ℕ → ℕ) (j : ℕ) :
    Function.update (Function.update f j (f (j + 1))) (j + 1) (f j) = f ∘ Equiv.swap j (j + 1) := by
  funext k
  by_cases hk : k = j + 1
  · rw [hk, Function.update_self, Function.comp_apply, Equiv.swap_apply_right]
  · rw [Function.update_of_ne hk]
    by_cases hk' : k = j
    · rw [hk', Function.update_self, Function.comp_apply, Equiv.swap_apply_left]
    · rw [Function.update_of_ne hk', Function.comp_apply, Equiv.swap_apply_of_ne_of_ne hk' hk]

section Loops

variable {mem : BitVec 8 → BitVec 16} (hexData r7 i x y z : BitVec 16) (cc : BitVec 3)
  (hmem : HasSort mem) {f : ℕ → ℕ} {j : ℕ}

/-- The routine within a pass, with `R2` at entry `j + 1` and `R3` pointing to it. -/
abbrev passing (mem : BitVec 8 → BitVec 16) (hexData r7 i : BitVec 16) (j p : ℕ)
    (y z : BitVec 16) (cc : BitVec 3) (f : ℕ → ℕ) : Arch :=
  sorting mem hexData r7 p ⟨i, BitVec.ofNat 16 (j + 1), BitVec.ofNat 16 (74 + (j + 1)), y, z⟩ cc f

include hmem

/-- `121` to `126` compare the neighbours at `j`. -/
theorem leads_compare (hj : j + 1 < 16) :
    Leads (sorting mem hexData r7 121 ⟨i, BitVec.ofNat 16 (j + 1), x, y, z⟩ cc f)
      (passing mem hexData r7 i j 127 (BitVec.ofNat 16 (f j))
        (BitVec.ofNat 16 (f j) + (~~~BitVec.ofNat 16 (f (j + 1)) + 1#16))
        (sign (BitVec.ofNat 16 (f j) + (~~~BitVec.ofNat 16 (f (j + 1)) + 1#16))) f) := by
  have h121 : Leads (sorting mem hexData r7 121 ⟨i, BitVec.ofNat 16 (j + 1), x, y, z⟩ cc f)
      (sorting mem hexData r7 122
        ⟨i, BitVec.ofNat 16 (j + 1), 74#16 + BitVec.ofNat 16 (j + 1), y, z⟩ _ f) :=
    leads_add (d := R3) (s := R6) (t := R2) hmem (by decide +kernel)
  rw [show 74#16 + BitVec.ofNat 16 (j + 1) = BitVec.ofNat 16 (74 + (j + 1)) from
    (BitVec.ofNat_add 74 (j + 1)).symm] at h121
  have h122 : Leads _ (passing mem hexData r7 i j 123 (BitVec.ofNat 16 (f j)) z _ f) :=
    h121.trans (leads_ldr (d := R4) (s := R3) (m := 0xFFFF#16) (k := j) hmem (by decide +kernel)
      (by omega) (pred_pointer (74 + j)))
  have h123 : Leads _ (passing mem hexData r7 i j 124 (BitVec.ofNat 16 (f j))
      (BitVec.ofNat 16 (f (j + 1))) _ f) :=
    h122.trans (leads_ldr (d := R5) (s := R3) (m := 0#16) (k := j + 1) hmem (by decide +kernel) hj
      (BitVec.add_zero _))
  have h124 : Leads _ (passing mem hexData r7 i j 125 (BitVec.ofNat 16 (f j))
      (~~~BitVec.ofNat 16 (f (j + 1))) _ f) :=
    h123.trans (leads_not (d := R5) (s := R5) hmem (by decide +kernel))
  have h125 : Leads _ (passing mem hexData r7 i j 126 (BitVec.ofNat 16 (f j))
      (~~~BitVec.ofNat 16 (f (j + 1)) + 1#16) _ f) :=
    h124.trans (leads_addi (d := R5) (s := R5) hmem (by decide +kernel))
  exact h125.trans (leads_add (d := R5) (s := R4) (t := R5) hmem (by decide +kernel))

/-- `128` to `130` swap them. -/
theorem leads_swap (hj : j + 1 < 16) :
    Leads (passing mem hexData r7 i j 128 (BitVec.ofNat 16 (f j)) z cc f)
      (passing mem hexData r7 i j 131 (BitVec.ofNat 16 (f j)) (BitVec.ofNat 16 (f (j + 1)))
        (sign (BitVec.ofNat 16 (f (j + 1)))) (f ∘ Equiv.swap j (j + 1))) := by
  have h128 : Leads (passing mem hexData r7 i j 128 (BitVec.ofNat 16 (f j)) z cc f)
      (passing mem hexData r7 i j 129 (BitVec.ofNat 16 (f j)) (BitVec.ofNat 16 (f (j + 1))) _ f) :=
    leads_ldr (d := R5) (s := R3) (m := 0#16) (k := j + 1) hmem (by decide +kernel) hj
      (BitVec.add_zero _)
  have h129 : Leads _ (passing mem hexData r7 i j 130 (BitVec.ofNat 16 (f j))
      (BitVec.ofNat 16 (f (j + 1))) _ (Function.update f j (f (j + 1)))) :=
    h128.trans (leads_str (d := R5) (s := R3) (m := 0xFFFF#16) (k := j) hmem (by decide +kernel)
      (by omega) (pred_pointer (74 + j)) rfl)
  rw [← update_update_eq_swap]
  exact h129.trans (leads_str (d := R4) (s := R3) (m := 0#16) (k := j + 1) hmem
    (by decide +kernel) hj (BitVec.add_zero _) rfl)

/-- **`121` to `132` put the neighbours in order**, and go on to the next ones. -/
theorem leads_exchange (hj : j + 1 < 16) (hf : ∀ k < 16, f k < 1024) :
    ∃ y' z', Leads (sorting mem hexData r7 121 ⟨i, BitVec.ofNat 16 (j + 1), x, y, z⟩ cc f)
      (sorting mem hexData r7 133 ⟨i, BitVec.ofNat 16 (j + 2), i + BitVec.ofNat 16 (j + 2), y', z'⟩
        (sign (i + BitVec.ofNat 16 (j + 2))) (exchange j f)) := by
  have hnext : ∀ y z cc g, Leads (passing mem hexData r7 i j 131 y z cc g)
      (sorting mem hexData r7 133 ⟨i, BitVec.ofNat 16 (j + 2), i + BitVec.ofNat 16 (j + 2), y, z⟩
        (sign (i + BitVec.ofNat 16 (j + 2))) g) := by
    intro y z cc g
    have h131 : Leads (passing mem hexData r7 i j 131 y z cc g) (sorting mem hexData r7 132
        ⟨i, BitVec.ofNat 16 (j + 1) + 1#16, BitVec.ofNat 16 (74 + (j + 1)), y, z⟩ _ g) :=
      leads_addi (d := R2) (s := R2) hmem (by decide +kernel)
    rw [show BitVec.ofNat 16 (j + 1) + 1#16 = BitVec.ofNat 16 (j + 2) from
      (BitVec.ofNat_add (j + 1) 1).symm] at h131
    exact h131.trans (leads_add (d := R3) (s := R1) (t := R2) hmem (by decide +kernel))
  have hj' : f j < 1024 := hf j (by omega)
  have hcmp := (leads_compare hexData r7 i x y z cc (f := f) hmem hj).trans
      (leads_br (c := nz) (q := 131) hmem (by decide +kernel))
  by_cases hle : f j ≤ f (j + 1)
  · rw [if_pos ((nz_and_sign hj' (hf (j + 1) hj)).mpr hle)] at hcmp
    rw [exchange, if_neg (not_lt.mpr hle)]
    exact ⟨_, _, hcmp.trans (hnext _ _ _ _)⟩
  · rw [if_neg (mt (nz_and_sign hj' (hf (j + 1) hj)).mp hle)] at hcmp
    rw [exchange, if_pos (not_le.mp hle)]
    exact ⟨_, _, (hcmp.trans (leads_swap hexData r7 i _ _ hmem hj)).trans (hnext _ _ _ _)⟩

/-- **The inner loop** is a pass; its test at the end lets it exchange at least once. -/
theorem leads_pass {m k : ℕ} (hm : m = max 1 (k - 1)) (hk : 1 ≤ k) (hk16 : k ≤ 16)
    (hf : ∀ k < 16, f k < 1024) : ∀ d j x y z cc, j + 1 + d = m →
    ∃ v', v'.r1 = -BitVec.ofNat 16 k ∧ ∃ cc',
      Leads (sorting mem hexData r7 121 ⟨-BitVec.ofNat 16 k, BitVec.ofNat 16 (j + 1), x, y, z⟩ cc
        (pass j f)) (sorting mem hexData r7 134 v' cc' (pass m f)) := by
  intro d
  induction d with
  | zero =>
    intro j x y z cc hd
    have hbound : ∀ k < 16, pass j f k < 1024 :=
      (rearranged_pass f (by omega)).forall_lt (P := (· < 1024)) hf
    obtain ⟨y', z', hex⟩ := leads_exchange hexData r7 (-BitVec.ofNat 16 k) x y z cc (j := j) hmem
      (by omega) hbound
    have hbr := hex.trans
      (leads_br (c := n) (q := 121) hmem (by decide +kernel))
    rw [if_neg (mt (n_and_sign (x := j + 2) (m := k) (by omega) (by omega)).mp (by omega))] at hbr
    obtain rfl : m = j + 1 := by omega
    exact ⟨_, rfl, _, hbr⟩
  | succ d ih =>
    intro j x y z cc hd
    have hbound : ∀ k < 16, pass j f k < 1024 :=
      (rearranged_pass f (by omega)).forall_lt (P := (· < 1024)) hf
    obtain ⟨y', z', hex⟩ := leads_exchange hexData r7 (-BitVec.ofNat 16 k) x y z cc (j := j) hmem
      (by omega) hbound
    have hbr := hex.trans
      (leads_br (c := n) (q := 121) hmem (by decide +kernel))
    rw [if_pos ((n_and_sign (x := j + 2) (m := k) (by omega) (by omega)).mpr (by omega))] at hbr
    obtain ⟨v', hr1, cc', hrest⟩ := ih (j + 1) _ y' z' _ (by omega)
    exact ⟨v', hr1, cc', hbr.trans hrest⟩

/-- **The outer loop** settles the entries from the last one down. -/
theorem leads_settle : ∀ k f x y z t cc, 1 ≤ k → k ≤ 16 → (∀ k < 16, f k < 1024) →
    Settled 16 k f → ∃ v' cc' g, Rearranged 16 f g ∧ Settled 16 1 g ∧
      Leads (sorting mem hexData r7 120 ⟨-BitVec.ofNat 16 k, x, y, z, t⟩ cc f)
        (sorting mem hexData r7 136 v' cc' g) := by
  intro k
  induction k with
  | zero => intro _ _ _ _ _ _ h1; exact absurd h1 (by omega)
  | succ k ih =>
    intro f x y z t cc _ hk16 hf hset
    obtain ⟨m, hm⟩ : ∃ m, m = max 1 k := ⟨_, rfl⟩
    have h120 : Leads (sorting mem hexData r7 120 ⟨-BitVec.ofNat 16 (k + 1), x, y, z, t⟩ cc f)
        (sorting mem hexData r7 121 ⟨-BitVec.ofNat 16 (k + 1), BitVec.ofNat 16 (0 + 1), y, z, t⟩
          (sign 1#16) (pass 0 f)) :=
      leads_addi (p := 120) (d := R2) (s := R0) (m := 1#16)
        (v := ⟨-BitVec.ofNat 16 (k + 1), x, y, z, t⟩) hmem (by decide +kernel)
    obtain ⟨v, hr1, cc', hpass⟩ := leads_pass hexData r7 (f := f) (m := m) (k := k + 1)
      hmem hm (by omega) hk16 hf (m - 1) 0 y z t (sign 1#16) (by omega)
    have hsucc : -BitVec.ofNat 16 (k + 1) + 1#16 = -BitVec.ofNat 16 k := by
      rw [BitVec.ofNat_add, BitVec.neg_add, BitVec.sub_eq_add_neg, BitVec.add_assoc,
        BitVec.add_comm (-_) 1#16, BitVec.add_right_neg, BitVec.add_zero]
    have h134 : Leads (sorting mem hexData r7 134 v cc' (pass m f))
        (sorting mem hexData r7 135 ⟨-BitVec.ofNat 16 k, v.r2, v.r3, v.r4, v.r5⟩
          (sign (-BitVec.ofNat 16 k)) (pass m f)) := by
      rw [← hsucc, ← hr1]
      exact leads_addi (p := 134) (d := R1) (s := R1) (m := 1#16) hmem (by decide +kernel)
    have htest : n &&& sign (-BitVec.ofNat 16 k) ≠ 0#3 ↔ 0 < k := by
      rw [← n_and_sign (x := 0) (m := k) (by omega) (by omega), BitVec.add_zero]
    have hloop := ((h120.trans hpass).trans h134).trans
      (leads_br (p := 135) (c := n) (q := 120) hmem (by decide +kernel))
    have hre : Rearranged 16 f (pass m f) := rearranged_pass f (by omega)
    have hmore : Settled 16 m (pass m f) := settled_pass (hset.mono (by omega))
    by_cases hk : 0 < k
    · rw [if_pos (htest.mpr hk)] at hloop
      obtain ⟨v', cc'', g, hre', hset', hrest⟩ := ih (pass m f) _ _ _ _ _ hk (by omega)
        (hre.forall_lt (P := (· < 1024)) hf) (hmore.mono (by omega))
      exact ⟨v', cc'', g, hre.trans hre', hset', hloop.trans hrest⟩
    · rw [if_neg (mt htest.mp hk)] at hloop
      exact ⟨_, _, _, hre, hmore.mono (by omega), hloop⟩

/-- **The routine** sorts, and leaves to the address in `R7`. -/
theorem leads_sort (v : Temps) (hf : ∀ k < 16, f k < 1024) :
    ∃ v' cc' g, Rearranged 16 f g ∧ Settled 16 1 g ∧
      Leads (sorting mem hexData r7 119 v cc f)
        { sorting mem hexData r7 136 v' cc' g with pc := r7 } := by
  have h119 : Leads (sorting mem hexData r7 119 v cc f)
      (sorting mem hexData r7 120 ⟨0#16 + 0xFFF0#16, v.r2, v.r3, v.r4, v.r5⟩
        (sign (0#16 + 0xFFF0#16)) f) :=
    leads_addi (p := 119) (d := R1) (s := R0) (m := 0xFFF0#16) hmem (by decide +kernel)
  rw [show 0#16 + 0xFFF0#16 = -BitVec.ofNat 16 16 by decide] at h119
  obtain ⟨v', cc', g, hre, hset, hloop⟩ := leads_settle hexData r7 hmem 16 f
    v.r2 v.r3 v.r4 v.r5 (sign (-BitVec.ofNat 16 16)) (by omega) (Nat.le_refl 16) hf
    (fun i j _ h16 hj => absurd h16 (by omega))
  have h136 : Leads (sorting mem hexData r7 136 v' cc' g)
      { sorting mem hexData r7 136 v' cc' g with pc := r7 } := by
    have hf : (sorting mem hexData r7 136 v' cc' g).Fetches _ :=
      sorting_fetches hmem (by decide) (by decide)
    exact hf.leads (by decide +kernel) fun i => cycle_jmp (s := R7) hf (by decide +kernel)
  exact ⟨v', cc', g, hre, hset, (h119.trans hloop).trans h136⟩

end Loops

/-! ### The routine called -/

/-- The data of the routine, from word `74` on. -/
def Isa.Arch.entry (a : Arch) (k : ℕ) : ℕ := (a.mem (BitVec.ofNat 8 (74 + k))).toNat

/-- `a'` is `a` after the routine: the data in order, the temporary registers and the condition
code anything. -/
structure Sorted (a a' : Arch) : Prop where
  pc : a'.pc = a.r R7
  ordered : ∀ i j, i ≤ j → j < 16 → a'.entry i ≤ a'.entry j
  permuted : ∃ σ : Equiv.Perm (Fin 16), ∀ k : Fin 16, a'.entry k = a.entry (σ k)
  mem : ∀ x : BitVec 8, ¬(74 ≤ x.toNat ∧ x.toNat ≤ 89) → a'.mem x = a.mem x
  r0 : a'.r R0 = a.r R0
  r6 : a'.r R6 = a.r R6
  r7 : a'.r R7 = a.r R7
  hexData : a'.hexData = a.hexData

/-- The restriction to the first sixteen entries of a rearrangement of them. -/
theorem perm_of_rearranged {f g : ℕ → ℕ} (h : Rearranged 16 f g) :
    ∃ σ : Equiv.Perm (Fin 16), ∀ k : Fin 16, g k = f (σ k) := by
  obtain ⟨σ, hσ, rfl⟩ := h
  have hlt : ∀ k, σ k < 16 ↔ k < 16 := by
    intro k
    refine ⟨fun h => ?_, fun h => ?_⟩
    · by_contra hk
      rw [hσ k (by omega)] at h
      exact hk h
    · by_contra hk
      have hfix : σ k = k := σ.injective (hσ (σ k) (by omega))
      omega
  exact ⟨Fin.equivSubtype.symm.permCongr (σ.subtypePerm hlt), fun _ => rfl⟩

/-- The state at the start of the routine. -/
theorem sorting_entry {a : Arch} (hpc : a.pc = 119#16) (h0 : a.r R0 = 0#16)
    (h6 : a.r R6 = 74#16) :
    sorting a.mem a.hexData (a.r R7) 119 ⟨a.r R1, a.r R2, a.r R3, a.r R4, a.r R5⟩ a.cc a.entry =
      a := by
  refine Arch.ext hpc.symm ?_ rfl ?_ rfl
  · funext k
    have hcases : k = R0 ∨ k = R1 ∨ k = R2 ∨ k = R3 ∨ k = R4 ∨ k = R5 ∨ k = R6 ∨ k = R7 := by
      revert k
      decide
    rcases hcases with rfl | rfl | rfl | rfl | rfl | rfl | rfl | rfl
    case inl => exact h0.symm
    case inr.inr.inr.inr.inr.inr.inl => exact h6.symm
    all_goals rfl
  · funext x
    change layout a.mem a.entry x = a.mem x
    rw [layout]
    split_ifs with h
    · rw [Arch.entry, Nat.add_sub_cancel' h.1, BitVec.ofNat_toNat, BitVec.ofNat_toNat,
        BitVec.setWidth_eq, BitVec.setWidth_eq]
    · rfl

/-- **The routine sorts.**  From its first word it comes to the return address with the data in
order and everything but the temporary registers and the condition code as it was; the processor
follows, in a run without a reset. -/
theorem sort_function_sorts {a : Arch} (hmem : HasSort a.mem) (hpc : a.pc = 119#16)
    (h0 : a.r R0 = 0#16) (h6 : a.r R6 = 74#16) (hdata : ∀ k < 16, a.entry k ≤ 1023) :
    ∃ a', Sorted a a' ∧ (∃ n, ∀ w, run Arch.cycle w a n = a') ∧
      ∀ image (w : ℕ → Input) (b : Board), (∀ t, (w t).reset = false) → b.cpu.isdu = .s18 →
        b.arch = a → ∃ n, (run (Board.next image) w b n).cpu.isdu = .s18 ∧
          (run (Board.next image) w b n).arch = a' := by
  obtain ⟨v, cc, g, hre, hset, hleads⟩ := leads_sort a.hexData (a.r R7) a.cc
    (f := a.entry) hmem ⟨a.r R1, a.r R2, a.r R3, a.r R4, a.r R5⟩
    fun k hk => Nat.lt_succ_of_le (hdata k hk)
  rw [sorting_entry hpc h0 h6] at hleads
  obtain ⟨a', ha'⟩ : ∃ a' : Arch, a' = { sorting a.mem a.hexData (a.r R7) 136 v cc g with
    pc := a.r R7 } := ⟨_, rfl⟩
  rw [← ha'] at hleads
  have hg : ∀ k < 16, g k < 1024 :=
    hre.forall_lt (P := (· < 1024)) fun k hk => Nat.lt_succ_of_le (hdata k hk)
  have hmem' : a'.mem = layout a.mem g := by rw [ha']; rfl
  have hentry : ∀ k < 16, a'.entry k = g k := by
    intro k hk
    rw [Arch.entry, hmem', layout_data a.mem g hk, BitVec.toNat_ofNat, Nat.mod_eq_of_lt]
    exact Nat.lt_trans (hg k hk) (by decide)
  have hr : a'.r = file (a.r R7) v := by rw [ha']; rfl
  refine ⟨a', ?_, hleads.run, fun _ => Leads.board hleads⟩
  exact {
    pc := by rw [ha']
    ordered := by
      intro i j hij hj
      rw [hentry i (by omega), hentry j hj]
      rcases Nat.eq_or_lt_of_le hij with rfl | hlt
      · exact Nat.le_refl _
      · exact hset i j hlt (by omega) hj
    permuted := by
      obtain ⟨σ, hσ⟩ := perm_of_rearranged hre
      exact ⟨σ, fun k => (hentry k k.isLt).trans (hσ k)⟩
    mem := by
      intro x hx
      rw [hmem']
      exact if_neg (by omega)
    r0 := by rw [hr]; exact h0.symm
    r6 := by rw [hr]; exact h6.symm
    r7 := by rw [hr]; rfl
    hexData := by rw [ha']; rfl }

/-- The routine called from the menu, with the data of the image. -/
def called : Arch where
  pc := 119#16
  r := fun k => if k = R6 then 74#16 else if k = R7 then 104#16 else 0#16
  cc := p
  mem := fun x => initData (x.setWidth 16)
  hexData := 0#16

theorem sort_function_sorts_called :
    ∃ a', Sorted called a' ∧ (∃ n, ∀ w, run Arch.cycle w called n = a') ∧
      ∃ n, (run (Board.next called.mem) press called.onBoard n).cpu.isdu = .s18 ∧
        (run (Board.next called.mem) press called.onBoard n).arch = a' := by
  have hwords : ∀ p < 137, 119 ≤ p →
      called.mem (BitVec.ofNat 8 p) = programWords.getD p 0#16 := by decide +kernel
  obtain ⟨a', hsorted, hrun, hboard⟩ := sort_function_sorts (a := called)
    (fun p h119 h136 => hwords p (by omega) h119) rfl rfl rfl (by decide +kernel)
  exact ⟨a', hsorted, hrun, hboard called.mem press called.onBoard (fun _ => rfl) rfl rfl⟩

end ECE385.Slc3
