import Mathlib.Data.Nat.Notation
import Mathlib.Tactic.Common

/-!
# Arrays of words under part-selects

An array of `n` words of `w` bits, with the part-selects `g[r][c +: k]`: reading a bit
outside the array gives whatever an oracle `oob` says, writing one does nothing.

* `bit_assign`: the bits after a write.
* `select_and`: when a selected word and a mask have no bit in common.
* `getLsbD_add_of_disjoint`: adding words with no bit in common is writing the bits of
  both.
-/

namespace ECE385.Bits

/-! ### Words by their bits -/

/-- The word with the bits `f`. -/
def ofBits : (k : ℕ) → (ℕ → Bool) → BitVec k
  | 0, _ => 0#0
  | k + 1, f => BitVec.cons (f k) (ofBits k f)

theorem getLsbD_ofBits (k : ℕ) (f : ℕ → Bool) (j : ℕ) :
    (ofBits k f).getLsbD j = (decide (j < k) && f j) := by
  induction k with
  | zero => simp [ofBits]
  | succ k ih =>
    rw [ofBits, BitVec.getLsbD_cons, ih]
    by_cases hj : j = k
    · simp [hj]
    · rw [if_neg hj]
      congr 1
      exact decide_eq_decide.mpr (by omega)

theorem and_eq_zero_iff {k : ℕ} (x y : BitVec k) :
    x &&& y = 0#k ↔ ∀ j < k, y.getLsbD j = true → x.getLsbD j = false := by
  refine ⟨?_, ?_⟩
  · intro h j hj hy
    have hbit := congrArg (BitVec.getLsbD · j) h
    simpa [BitVec.getLsbD_and, hy] using hbit
  · intro h
    apply BitVec.eq_of_getLsbD_eq
    intro j hj
    rw [BitVec.getLsbD_and, BitVec.getLsbD_zero]
    cases hy : y.getLsbD j with
    | false => exact Bool.and_false _
    | true => rw [h j hj hy, Bool.false_and]

theorem or_eq_zero_iff {k : ℕ} (x y : BitVec k) : x ||| y = 0#k ↔ x = 0#k ∧ y = 0#k := by
  refine ⟨?_, ?_⟩
  · intro h
    refine ⟨?_, ?_⟩
    all_goals
      apply BitVec.eq_of_getLsbD_eq
      intro j hj
      have hbit := congrArg (BitVec.getLsbD · j) h
      simp only [BitVec.getLsbD_or, BitVec.getLsbD_zero, Bool.or_eq_false_iff] at hbit
      rw [BitVec.getLsbD_zero]
    · exact hbit.1
    · exact hbit.2
  · rintro ⟨rfl, rfl⟩
    exact BitVec.or_self

/-- **No carry.**  Below `m`, adding words with no bit in common is writing the bits of
both. -/
theorem getLsbD_add_of_disjoint {k m : ℕ} (hm : m ≤ k) (x y : BitVec k)
    (h : ∀ j < m, y.getLsbD j = true → x.getLsbD j = false) {j : ℕ} (hj : j < m) :
    (x + y).getLsbD j = (x.getLsbD j || y.getLsbD j) := by
  have hlow : (x + y).setWidth m = x.setWidth m ||| y.setWidth m := by
    rw [BitVec.setWidth_add _ _ hm, BitVec.add_eq_or_of_and_eq_zero]
    rw [and_eq_zero_iff]
    intro i hi hy
    rw [BitVec.getLsbD_setWidth, decide_eq_true hi, Bool.true_and] at hy ⊢
    exact h i hi hy
  have hbit := congrArg (BitVec.getLsbD · j) hlow
  simpa [BitVec.getLsbD_setWidth, BitVec.getLsbD_or, hj] using hbit

/-! ### Grids -/

/-- `n` words of `w` bits. -/
abbrev Grid (n w : ℕ) := Fin n → BitVec w

namespace Grid

variable {n w k : ℕ}

/-- The bit `c` of word `r`; there is none outside the array. -/
def bit (g : Grid n w) (r c : ℕ) : Bool := if h : r < n then (g ⟨r, h⟩).getLsbD c else false

/-- What a read of that bit gives. -/
def read (g : Grid n w) (oob : ℕ → ℕ → Bool) (r c : ℕ) : Bool :=
  if r < n ∧ c < w then g.bit r c else oob r c

/-- `g[r][c +: k]`. -/
def select (g : Grid n w) (oob : ℕ → ℕ → Bool) (k r c : ℕ) : BitVec k :=
  ofBits k fun j => g.read oob r (c + j)

/-- `g[r][c +: k] <= v`. -/
def assign (g : Grid n w) (r c : ℕ) (v : BitVec k) : Grid n w := fun i =>
  if i.val = r then
    ofBits w fun j => if c ≤ j ∧ j < c + k then v.getLsbD (j - c) else (g i).getLsbD j
  else g i

theorem bit_of_row_ge (g : Grid n w) {r : ℕ} (hr : n ≤ r) (c : ℕ) : g.bit r c = false :=
  dif_neg (by omega)

theorem bit_of_col_ge (g : Grid n w) (r : ℕ) {c : ℕ} (hc : w ≤ c) : g.bit r c = false := by
  rw [bit]
  split
  · exact BitVec.getLsbD_of_ge _ _ hc
  · rfl

theorem read_of_lt (g : Grid n w) (oob : ℕ → ℕ → Bool) {r c : ℕ} (hr : r < n) (hc : c < w) :
    g.read oob r c = g.bit r c := if_pos ⟨hr, hc⟩

/-- A clear read is a clear bit. -/
theorem bit_of_read {g : Grid n w} {oob : ℕ → ℕ → Bool} {r c : ℕ}
    (h : g.read oob r c = false) : g.bit r c = false := by
  by_cases hin : r < n ∧ c < w
  · rwa [read_of_lt g oob hin.1 hin.2] at h
  · rcases Nat.lt_or_ge r n with hr | hr
    · exact g.bit_of_col_ge r (by omega)
    · exact g.bit_of_row_ge hr c

theorem getLsbD_select (g : Grid n w) (oob : ℕ → ℕ → Bool) (r c : ℕ) {j : ℕ} (hj : j < k) :
    (g.select oob k r c).getLsbD j = g.read oob r (c + j) := by
  rw [select, getLsbD_ofBits, decide_eq_true hj, Bool.true_and]

theorem select_and (g : Grid n w) (oob : ℕ → ℕ → Bool) (r c : ℕ) (v : BitVec k) :
    g.select oob k r c &&& v = 0#k ↔
      ∀ j < k, v.getLsbD j = true → g.read oob r (c + j) = false := by
  rw [and_eq_zero_iff]
  refine forall_congr' fun j => forall_congr' fun hj => ?_
  rw [getLsbD_select g oob r c hj]

/-- **The bits after a write.** -/
theorem bit_assign (g : Grid n w) (r c : ℕ) (v : BitVec k) (r' c' : ℕ) :
    (g.assign r c v).bit r' c' =
      if r' = r ∧ r < n ∧ c ≤ c' ∧ c' < c + k ∧ c' < w then v.getLsbD (c' - c)
      else g.bit r' c' := by
  by_cases hr : r' < n
  · rw [bit, dif_pos hr, bit, dif_pos hr, assign]
    by_cases hrr : r' = r
    · subst hrr
      rw [if_pos rfl, getLsbD_ofBits]
      by_cases hw : c' < w
      · rw [decide_eq_true hw, Bool.true_and]
        simp only [hr, hw, true_and, and_true]
      · rw [decide_eq_false hw, Bool.false_and, if_neg (by omega),
          BitVec.getLsbD_of_ge _ _ (by omega)]
    · rw [if_neg hrr, if_neg (by omega)]
  · rw [bit_of_row_ge _ (by omega), bit_of_row_ge _ (by omega), if_neg (by omega)]

end Grid

end ECE385.Bits
