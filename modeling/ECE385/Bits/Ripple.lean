import Mathlib.Data.Nat.Notation

/-!
# Ripple-carry chains

A chain of full adders over the bits of two words, the carry of each cell feeding
the next one.  `ripple_eq` says what it computes: the sum with the carry in,
and the carry out of it.
-/

namespace ECE385.Bits

/-- The sum and the carry of three bits. -/
def sumBit (x y z : Bool) : Bool := x ^^ y ^^ z

def carryBit (x y z : Bool) : Bool := (x && y) || (y && z) || (x && z)

theorem sumBit_carryBit (x y z : Bool) :
    (carryBit x y z, sumBit x y z) = BitVec.adcb x y z := by
  cases x <;> cases y <;> cases z <;> rfl

/-- The chain on the words `a` and `b` with carry in `c`: the carry out and the
sum. -/
def ripple {n : ℕ} (a b : BitVec n) (c : Bool) : Bool × BitVec n :=
  BitVec.iunfoldr (fun i z => (carryBit a[i] b[i] z, sumBit a[i] b[i] z)) c

/-- **A ripple chain adds.** -/
theorem ripple_eq {n : ℕ} (a b : BitVec n) (c : Bool) :
    ripple a b c = (BitVec.carry n a b c, a + b + (BitVec.ofBool c).setWidth n) := by
  rw [← BitVec.adc_spec, ripple, BitVec.adc]
  congr 1
  funext i z
  simp [sumBit_carryBit]

theorem ripple_add {n : ℕ} (a b : BitVec n) : (ripple a b false).2 = a + b := by
  simp [ripple_eq]

/-- With one operand complemented and a carry in, the chain subtracts. -/
theorem ripple_sub {n : ℕ} (a b : BitVec n) : (ripple a (~~~b) true).2 = a - b := by
  rw [ripple_eq, BitVec.sub_eq_add_neg, BitVec.neg_eq_not_add]
  simp only [BitVec.add_assoc]
  congr 2
  apply BitVec.eq_of_toNat_eq
  simp

end ECE385.Bits
