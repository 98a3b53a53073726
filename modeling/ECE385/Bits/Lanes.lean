import Mathlib.Algebra.Group.Nat.Defs
import Mathlib.Tactic.Common

/-!
# Memories with byte enables

A word of 32 bits has four lanes of eight.  A write with byte enables replaces
the enabled lanes only; `byteAt` reads a memory of such words as an array of bytes,
lane `b % 4` of word `b / 4` holding byte `b`.

* `lane_merge`: what a write does to each lane.
* `byteAt_writeWord`: on bytes, a write with one enabled lane is a byte write.
-/

namespace ECE385.Bits

/-- Lane `k` of a word. -/
def lane (k : ℕ) (v : BitVec 32) : BitVec 8 := v.extractLsb' (8 * k) 8

/-- The lanes of `new` that `be` enables, and those of `old` elsewhere. -/
def merge (be : BitVec 4) (new old : BitVec 32) : BitVec 32 :=
  (if be.getLsbD 3 then lane 3 new else lane 3 old) ++
  (if be.getLsbD 2 then lane 2 new else lane 2 old) ++
  (if be.getLsbD 1 then lane 1 new else lane 1 old) ++
  (if be.getLsbD 0 then lane 0 new else lane 0 old)

theorem lane_append (x3 x2 x1 x0 : BitVec 8) {k : ℕ} (hk : k < 4) :
    lane k (x3 ++ x2 ++ x1 ++ x0) =
      if k = 3 then x3 else if k = 2 then x2 else if k = 1 then x1 else x0 := by
  apply BitVec.eq_of_getLsbD_eq
  intro i hi
  rw [lane, BitVec.getLsbD_extractLsb', decide_eq_true hi, Bool.true_and]
  simp only [BitVec.getLsbD_append]
  rcases (show k = 0 ∨ k = 1 ∨ k = 2 ∨ k = 3 by omega) with rfl | rfl | rfl | rfl
  · rw [if_pos (by omega)]
    simp
  · rw [if_neg (by omega), if_pos (by omega), show 8 * 1 + i - 8 = i by omega]
    simp
  · rw [if_neg (by omega), if_neg (by omega), if_pos (by omega),
      show 8 * 2 + i - 8 - 8 = i by omega]
    simp
  · rw [if_neg (by omega), if_neg (by omega), if_neg (by omega),
      show 8 * 3 + i - 8 - 8 - 8 = i by omega]
    simp

theorem lane_merge (be : BitVec 4) (new old : BitVec 32) {k : ℕ} (hk : k < 4) :
    lane k (merge be new old) = if be.getLsbD k then lane k new else lane k old := by
  rw [merge, lane_append _ _ _ _ hk]
  rcases (show k = 0 ∨ k = 1 ∨ k = 2 ∨ k = 3 by omega) with rfl | rfl | rfl | rfl
  all_goals rfl

/-- A word is its four lanes. -/
theorem eq_of_lane {v w : BitVec 32} (h : ∀ k < 4, lane k v = lane k w) : v = w := by
  apply BitVec.eq_of_getLsbD_eq
  intro i hi
  have hbit := congrArg (BitVec.getLsbD · (i % 8)) (h (i / 8) (by omega))
  simp only [lane, BitVec.getLsbD_extractLsb'] at hbit
  rw [show 8 * (i / 8) + i % 8 = i by omega] at hbit
  simpa [Nat.mod_lt] using hbit

theorem merge_all (new old : BitVec 32) : merge 0xF#4 new old = new := by
  refine eq_of_lane fun k hk => ?_
  rw [lane_merge _ _ _ hk]
  rcases (show k = 0 ∨ k = 1 ∨ k = 2 ∨ k = 3 by omega) with rfl | rfl | rfl | rfl
  all_goals rfl

theorem merge_none (new old : BitVec 32) : merge 0x0#4 new old = old := by
  refine eq_of_lane fun k hk => ?_
  rw [lane_merge _ _ _ hk]
  simp

/-- A write changes nothing where the enabled lanes hold its data already. -/
theorem merge_eq_iff (be : BitVec 4) (new old : BitVec 32) :
    merge be new old = old ↔ ∀ k < 4, be.getLsbD k = true → lane k new = lane k old := by
  constructor
  · intro h k hk hbe
    have hlane := lane_merge be new old hk
    rw [h, if_pos hbe] at hlane
    exact hlane.symm
  · intro h
    refine eq_of_lane fun k hk => ?_
    rw [lane_merge _ _ _ hk]
    split_ifs with hbe
    · exact h k hk hbe
    · rfl

/-! ### Memories -/

variable {a : ℕ}

/-- A write of a memory of words. -/
def writeWord (m : BitVec a → BitVec 32) (addr : BitVec a) (be : BitVec 4) (d : BitVec 32) :
    BitVec a → BitVec 32 :=
  fun x => if x = addr then merge be d (m addr) else m x

theorem writeWord_self (m : BitVec a → BitVec 32) (addr : BitVec a) (be : BitVec 4)
    (d : BitVec 32) : writeWord m addr be d addr = merge be d (m addr) := if_pos rfl

theorem writeWord_of_ne {m : BitVec a → BitVec 32} {addr x : BitVec a} {be : BitVec 4}
    {d : BitVec 32} (h : x ≠ addr) : writeWord m addr be d x = m x := if_neg h

theorem writeWord_eq_iff (m : BitVec a → BitVec 32) (addr : BitVec a) (be : BitVec 4)
    (d : BitVec 32) : writeWord m addr be d = m ↔ merge be d (m addr) = m addr := by
  constructor
  · intro h
    rw [← writeWord_self m addr be d, h]
  · intro h
    funext x
    by_cases hx : x = addr
    · rw [hx, writeWord_self, h]
    · exact writeWord_of_ne hx

theorem writeWord_all (m : BitVec a → BitVec 32) (addr : BitVec a) (d : BitVec 32) :
    writeWord m addr 0xF#4 d addr = d := by
  rw [writeWord_self, merge_all]

/-- The word that holds byte `b`, and the enable of its lane. -/
def wordOf (a b : ℕ) : BitVec a := BitVec.ofNat a (b / 4)

def enableOf (b : ℕ) : BitVec 4 := BitVec.ofNat 4 (2 ^ (b % 4))

/-- A memory of words as an array of bytes. -/
def byteAt (m : BitVec a → BitVec 32) (b : ℕ) : BitVec 8 := lane (b % 4) (m (wordOf a b))

theorem enableOf_getLsbD (b : ℕ) {k : ℕ} (hk : k < 4) :
    (enableOf b).getLsbD k = decide (k = b % 4) := by
  have hb := Nat.mod_lt b (by omega : 4 > 0)
  rw [enableOf]
  rcases (show b % 4 = 0 ∨ b % 4 = 1 ∨ b % 4 = 2 ∨ b % 4 = 3 by omega) with h | h | h | h
  all_goals
    rw [h]
    rcases (show k = 0 ∨ k = 1 ∨ k = 2 ∨ k = 3 by omega) with rfl | rfl | rfl | rfl
    all_goals rfl

theorem wordOf_inj {b c : ℕ} (hb : b < 4 * 2 ^ a) (hc : c < 4 * 2 ^ a)
    (h : wordOf a b = wordOf a c) : b / 4 = c / 4 := by
  have := congrArg BitVec.toNat h
  rw [wordOf, wordOf, BitVec.toNat_ofNat, BitVec.toNat_ofNat, Nat.mod_eq_of_lt (by omega),
    Nat.mod_eq_of_lt (by omega)] at this
  exact this

/-- **A write with one enabled lane is a byte write.** -/
theorem byteAt_writeWord (m : BitVec a → BitVec 32) {b c : ℕ} (d : BitVec 32)
    (hb : b < 4 * 2 ^ a) (hc : c < 4 * 2 ^ a) :
    byteAt (writeWord m (wordOf a b) (enableOf b) d) c =
      if c = b then lane (b % 4) d else byteAt m c := by
  have hc4 : c % 4 < 4 := Nat.mod_lt c (by omega)
  rw [byteAt, byteAt]
  by_cases hw : wordOf a c = wordOf a b
  · have hdiv := wordOf_inj hc hb hw
    rw [hw, writeWord_self, lane_merge _ _ _ hc4, enableOf_getLsbD b hc4]
    by_cases hcb : c = b
    · rw [hcb, if_pos (by simp), if_pos rfl]
    · rw [if_neg (by simp; omega), if_neg hcb]
  · rw [writeWord_of_ne hw, if_neg]
    intro h
    exact hw (by rw [h])

end ECE385.Bits
