import Mathlib.Data.List.GetD
import Mathlib.Data.List.Induction
import Mathlib.Tactic.Common

/-!
# Words sent bit by bit, the top bit first

A shift register gives out its top bit and takes in a new bit at the bottom.

* `getLsbD_foldl_push`: after some bits have come in, they are at the bottom, the last one lowest,
  and what was there has moved up.
* `msbFirst_foldl_push`: as many bits as the word has make up the word, whatever was there before.
-/

namespace ECE385.Bits

variable {n : ℕ}

/-- `c` comes in at the bottom. -/
def push (v : BitVec (n + 1)) (c : Bool) : BitVec (n + 1) := (v.setWidth n).concat c

/-- The bits of a word, from the top down. -/
def msbFirst (v : BitVec n) : List Bool := (List.range n).map fun k => v.getLsbD (n - 1 - k)

theorem getLsbD_push (v : BitVec (n + 1)) (c : Bool) {j : ℕ} (hj : j < n + 1) :
    (push v c).getLsbD j = if j = 0 then c else v.getLsbD (j - 1) := by
  rw [push, BitVec.getLsbD_concat]
  by_cases h : j = 0
  · rw [if_pos h, if_pos h]
  · rw [if_neg h, if_neg h, BitVec.getLsbD_setWidth, decide_eq_true (by omega), Bool.true_and]

@[simp] theorem length_msbFirst (v : BitVec n) : (msbFirst v).length = n := by
  rw [msbFirst, List.length_map, List.length_range]

theorem getElem_msbFirst (v : BitVec n) {k : ℕ} (hk : k < (msbFirst v).length) :
    (msbFirst v)[k] = v.getLsbD (n - 1 - k) := by
  simp only [msbFirst, List.getElem_map, List.getElem_range]

/-- **After some bits.** -/
theorem getLsbD_foldl_push (v : BitVec (n + 1)) (bits : List Bool) :
    ∀ j < n + 1, (bits.foldl push v).getLsbD j =
      if j < bits.length then bits.getD (bits.length - 1 - j) false
      else v.getLsbD (j - bits.length) := by
  induction bits using List.reverseRecOn with
  | nil =>
    intro j _
    rw [List.foldl_nil, List.length_nil, if_neg (Nat.not_lt_zero j), Nat.sub_zero]
  | append_singleton bits c ih =>
    intro j hj
    rw [List.foldl_append, List.foldl_cons, List.foldl_nil, getLsbD_push _ _ hj,
      List.length_append, List.length_singleton]
    by_cases h0 : j = 0
    · rw [if_pos h0, if_pos (by omega), show bits.length + 1 - 1 - j = bits.length by omega,
        List.getD_eq_getElem?_getD, List.getElem?_concat_length, Option.getD_some]
    · rw [if_neg h0, ih (j - 1) (by omega)]
      by_cases hlt : j - 1 < bits.length
      · rw [if_pos hlt, if_pos (by omega),
          show bits.length + 1 - 1 - j = bits.length - 1 - (j - 1) by omega,
          List.getD_append _ _ _ _ (by omega)]
      · rw [if_neg hlt, if_neg (by omega),
          show j - (bits.length + 1) = j - 1 - bits.length by omega]

/-- The bits that go out are those of the word, from the top down. -/
theorem getLsbD_top_foldl_push (v : BitVec (n + 1)) {bits : List Bool} (h : bits.length < n + 1) :
    (bits.foldl push v).getLsbD n = (msbFirst v).getD bits.length false := by
  rw [getLsbD_foldl_push v bits n (Nat.lt_succ_self n), if_neg (by omega),
    List.getD_eq_getElem _ _ (by rw [length_msbFirst]; exact h), getElem_msbFirst,
    Nat.add_sub_cancel]

/-- **A whole word.** -/
theorem msbFirst_foldl_push (v : BitVec (n + 1)) {bits : List Bool} (h : bits.length = n + 1) :
    msbFirst (bits.foldl push v) = bits := by
  refine List.ext_getElem (by rw [length_msbFirst, h]) fun k hk hk' => ?_
  rw [getElem_msbFirst, getLsbD_foldl_push v bits _ (by omega), if_pos (by omega),
    List.getD_eq_getElem _ _ (by omega)]
  congr 1
  omega

end ECE385.Bits
