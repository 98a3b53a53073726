import Mathlib.Data.Nat.Notation
import Mathlib.Logic.Function.Iterate
import Mathlib.Tactic.Common

/-!
# Bit-serial operations

Two shift registers turn in step: the bits they give out at the bottom go through two functions of
one bit each, and the results come in at the top.

* `getLsbD_serial_iterate`: after `k` shifts the top `k` bits are results, the others are still
  operands.
* `serial_iterate_width`: after as many shifts as there are bits both words have been
  transformed bit by bit.
-/

namespace ECE385.Bits

variable {n : ℕ}

/-- `c` comes in at the top. -/
def shiftIn (c : Bool) (v : BitVec (n + 1)) : BitVec (n + 1) := BitVec.cons c (v.extractLsb' 1 n)

theorem getLsbD_shiftIn (c : Bool) (v : BitVec (n + 1)) {j : ℕ} (hj : j < n + 1) :
    (shiftIn c v).getLsbD j = if j < n then v.getLsbD (j + 1) else c := by
  rw [shiftIn, BitVec.getLsbD_cons]
  by_cases h : j = n
  · rw [if_pos h, if_neg (by omega)]
  · rw [if_neg h, if_pos (by omega), BitVec.getLsbD_extractLsb', decide_eq_true (by omega),
      Bool.true_and, Nat.add_comm 1 j]

/-- One shift of both registers. -/
def serial (f g : Bool → Bool → Bool) (p : BitVec (n + 1) × BitVec (n + 1)) :
    BitVec (n + 1) × BitVec (n + 1) :=
  (shiftIn (f (p.1.getLsbD 0) (p.2.getLsbD 0)) p.1, shiftIn (g (p.1.getLsbD 0) (p.2.getLsbD 0)) p.2)

variable {f g : Bool → Bool → Bool} {p : BitVec (n + 1) × BitVec (n + 1)}

/-- **After `k` shifts.** -/
theorem getLsbD_serial_iterate (f g : Bool → Bool → Bool) (p : BitVec (n + 1) × BitVec (n + 1))
    {k : ℕ} (hk : k ≤ n + 1) : ∀ j < n + 1,
    (((serial f g)^[k] p).1.getLsbD j =
      if j + k < n + 1 then p.1.getLsbD (j + k)
      else f (p.1.getLsbD (j + k - (n + 1))) (p.2.getLsbD (j + k - (n + 1)))) ∧
    (((serial f g)^[k] p).2.getLsbD j =
      if j + k < n + 1 then p.2.getLsbD (j + k)
      else g (p.1.getLsbD (j + k - (n + 1))) (p.2.getLsbD (j + k - (n + 1)))) := by
  induction k with
  | zero =>
    intro j hj
    rw [Function.iterate_zero, id, Nat.add_zero j, if_pos hj, if_pos hj]
    exact ⟨rfl, rfl⟩
  | succ k ih =>
    intro j hj
    have hk' : k ≤ n + 1 := Nat.le_of_succ_le hk
    -- the bits at the bottom are still operands
    obtain ⟨hbot1, hbot2⟩ := ih hk' 0 (Nat.succ_pos n)
    rw [if_pos (by omega), Nat.zero_add k] at hbot1 hbot2
    rw [Function.iterate_succ_apply', serial, getLsbD_shiftIn _ _ hj, getLsbD_shiftIn _ _ hj]
    by_cases hn : j < n
    · obtain ⟨hbit1, hbit2⟩ := ih hk' (j + 1) (by omega)
      rw [if_pos hn, if_pos hn, hbit1, hbit2, show j + 1 + k = j + (k + 1) by omega]
      exact ⟨rfl, rfl⟩
    · rw [if_neg hn, if_neg hn, hbot1, hbot2, if_neg (by omega), if_neg (by omega),
        show j + (k + 1) - (n + 1) = k by omega]
      exact ⟨rfl, rfl⟩

/-- **A whole word.** -/
theorem serial_iterate_width {a b : BitVec (n + 1)}
    (ha : ∀ j < n + 1, a.getLsbD j = f (p.1.getLsbD j) (p.2.getLsbD j))
    (hb : ∀ j < n + 1, b.getLsbD j = g (p.1.getLsbD j) (p.2.getLsbD j)) :
    (serial f g)^[n + 1] p = (a, b) := by
  have hbits := getLsbD_serial_iterate f g p (Nat.le_refl (n + 1))
  refine Prod.ext (BitVec.eq_of_getLsbD_eq fun j hj => ?_)
    (BitVec.eq_of_getLsbD_eq fun j hj => ?_)
  · rw [(hbits j hj).1, if_neg (by omega), Nat.add_sub_cancel, ha j hj]
  · rw [(hbits j hj).2, if_neg (by omega), Nat.add_sub_cancel, hb j hj]

end ECE385.Bits
