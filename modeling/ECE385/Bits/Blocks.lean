import ECE385.Bits.Ripple
import Mathlib.Algebra.Group.Nat.Defs
import Mathlib.Tactic.Common
import Mathlib.Tactic.Ring.RingNF

/-!
# Adders made of blocks

A block takes two words and a carry in, and gives a sum and a carry out.  What it has to do is one
equation, `Adds`, whatever carries it computes inside.

* `adds_bit`: a full adder is a block of one bit.
* `Adds.append`: blocks chained by their carries are a block.
* `Adds.unique`: all blocks that add give the same results.
-/

namespace ECE385.Bits

/-- The sum and the carry out of `r` are those of `a`, `b` and `c`. -/
def Adds {n : ℕ} (a b : BitVec n) (c : Bool) (r : BitVec n × Bool) : Prop :=
  r.1.toNat + 2 ^ n * r.2.toNat = a.toNat + b.toNat + c.toNat

instance {n : ℕ} (a b : BitVec n) (c : Bool) (r : BitVec n × Bool) : Decidable (Adds a b c r) :=
  inferInstanceAs (Decidable (_ = _))

variable {m n : ℕ} {a b s : BitVec n} {a' b' t : BitVec m} {c d e : Bool} {r r' : BitVec n × Bool}

theorem toNat_append_eq (x : BitVec m) (y : BitVec n) :
    (x ++ y).toNat = y.toNat + 2 ^ n * x.toNat := by
  rw [BitVec.toNat_append, ← Nat.shiftLeft_add_eq_or_of_lt y.isLt, Nat.shiftLeft_eq]
  ring

/-- **Chained blocks.**  The carry of the low block goes into the high one. -/
theorem Adds.append (hlo : Adds a b c (s, d)) (hhi : Adds a' b' d (t, e)) :
    Adds (a' ++ a) (b' ++ b) c (t ++ s, e) := by
  simp only [Adds] at hlo hhi ⊢
  rw [toNat_append_eq, toNat_append_eq, toNat_append_eq]
  calc s.toNat + 2 ^ n * t.toNat + 2 ^ (m + n) * e.toNat
      = s.toNat + 2 ^ n * (t.toNat + 2 ^ m * e.toNat) := by ring
    _ = s.toNat + 2 ^ n * d.toNat + 2 ^ n * (a'.toNat + b'.toNat) := by rw [hhi]; ring
    _ = a.toNat + 2 ^ n * a'.toNat + (b.toNat + 2 ^ n * b'.toNat) + c.toNat := by rw [hlo]; ring

/-- Four blocks in a chain. -/
theorem Adds.append4 {a₀ a₁ a₂ a₃ b₀ b₁ b₂ b₃ s₀ s₁ s₂ s₃ : BitVec n} {c c₁ c₂ c₃ c₄ : Bool}
    (h₀ : Adds a₀ b₀ c (s₀, c₁)) (h₁ : Adds a₁ b₁ c₁ (s₁, c₂)) (h₂ : Adds a₂ b₂ c₂ (s₂, c₃))
    (h₃ : Adds a₃ b₃ c₃ (s₃, c₄)) :
    Adds (a₃ ++ a₂ ++ a₁ ++ a₀) (b₃ ++ b₂ ++ b₁ ++ b₀) c (s₃ ++ s₂ ++ s₁ ++ s₀, c₄) :=
  h₀.append (h₁.append (h₂.append h₃))

theorem Adds.unique (h : Adds a b c r) (h' : Adds a b c r') : r = r' := by
  rw [Adds, ← h'] at h
  have hlt := r.1.isLt
  have hlt' := r'.1.isLt
  have hcarry : r.2 = r'.2 := by
    rcases hr : r.2 with _ | _ <;> rcases hr' : r'.2 with _ | _
    all_goals simp only [hr, hr', Bool.toNat_false, Bool.toNat_true] at h
    all_goals first | rfl | omega
  rw [hcarry, Nat.add_right_cancel_iff] at h
  exact Prod.ext (BitVec.eq_of_toNat_eq h) hcarry

/-- The carry and the sum as one number. -/
theorem Adds.toNat_cons (h : Adds a b c r) :
    (BitVec.cons r.2 r.1).toNat = a.toNat + b.toNat + c.toNat := by
  rw [← h, BitVec.toNat_cons, ← Nat.shiftLeft_add_eq_or_of_lt r.1.isLt, Nat.shiftLeft_eq]
  ring

/-- The carry and the sum as one word. -/
theorem Adds.cons_eq (h : Adds a b c r) : BitVec.cons r.2 r.1 =
    a.setWidth (n + 1) + b.setWidth (n + 1) + (BitVec.ofBool c).setWidth (n + 1) := by
  have ha := a.isLt
  have hb := b.isLt
  have hc := Bool.toNat_le c
  have hpow : 2 ^ (n + 1) = 2 ^ n * 2 := Nat.pow_succ 2 n
  apply BitVec.eq_of_toNat_eq
  rw [h.toNat_cons, BitVec.toNat_add, BitVec.toNat_add, BitVec.toNat_setWidth,
    BitVec.toNat_setWidth,
    BitVec.toNat_setWidth, BitVec.toNat_ofBool, Nat.add_mod_mod, Nat.mod_add_mod,
    Nat.mod_eq_of_lt (a := a.toNat) (by omega), Nat.mod_eq_of_lt (a := b.toNat) (by omega),
    Nat.mod_eq_of_lt (by omega)]

/-- **A full adder** is a block of one bit. -/
theorem adds_bit (x y z : Bool) :
    Adds (BitVec.ofBool x) (BitVec.ofBool y) z (BitVec.ofBool (sumBit x y z), carryBit x y z) := by
  revert x y z
  decide

/-- A full adder whose carry out is computed apart: it is generated, or passed on. -/
theorem adds_bit_of_carry {x y z : Bool} (hd : d = (x && y || ((x ^^ y) && z))) :
    Adds (BitVec.ofBool x) (BitVec.ofBool y) z (BitVec.ofBool (sumBit x y z), d) := by
  have hcarry : ∀ x y z, carryBit x y z = (x && y || ((x ^^ y) && z)) := by decide
  rw [hd, ← hcarry]
  exact adds_bit x y z

end ECE385.Bits
