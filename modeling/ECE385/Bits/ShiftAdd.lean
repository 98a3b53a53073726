import Mathlib.Tactic.Linarith
import Mathlib.Tactic.Ring

/-!
# Shift-and-add multiplication

The multiplier `m` of width `n` is consumed bit by bit from a register whose low
end holds what is left of it and whose high end collects the low bits of the
product; `acc` carries the rest of the partial product.  A round adds the
multiplicand `s` for a one bit and shifts `acc` and the register right by one.
The sign bit of a two's complement multiplier counts negatively, so the last round
subtracts.

* `PartialProduct n s m k acc reg`: the invariant before round `k`.
* `PartialProduct.round`: a round keeps it.
* `PartialProduct.last`: the subtracting round leaves the signed product.
-/

namespace ECE385.Bits

/-- Before round `k` the accumulator and the top `k` bits of the register hold `s`
times the `k` low bits of `m`, and the bottom of the register holds the
others. -/
structure PartialProduct (n : ℕ) (s : ℤ) (m k : ℕ) (acc : ℤ) (reg : ℕ) : Prop where
  value : acc * 2 ^ k + (reg / 2 ^ (n - k) : ℕ) = s * (m % 2 ^ k : ℕ)
  rest : reg % 2 ^ (n - k) = m / 2 ^ k

namespace PartialProduct

variable {n : ℕ} {s : ℤ} {m k : ℕ} {acc : ℤ} {reg : ℕ}

theorem start (s : ℤ) (hm : m < 2 ^ n) : PartialProduct n s m 0 0 m := by
  refine ⟨?_, ?_⟩
  · simp [Nat.div_eq_of_lt hm, Nat.mod_one]
  · simp [Nat.mod_eq_of_lt hm]

/-- The bit of the multiplier a round looks at is the lowest one of the register. -/
theorem bit (h : PartialProduct n s m k acc reg) (hk : k < n) : reg % 2 = m / 2 ^ k % 2 := by
  rw [← h.rest, Nat.mod_mod_of_dvd]
  exact dvd_pow_self 2 (by omega)

/-- What one round does to the two parts of the register. -/
theorem shift_register (hk : k < n) (b reg : ℕ) :
    (b * 2 ^ (n - 1) + reg / 2) / 2 ^ (n - (k + 1)) = b * 2 ^ k + reg / 2 ^ (n - k) ∧
    (b * 2 ^ (n - 1) + reg / 2) % 2 ^ (n - (k + 1)) = reg % 2 ^ (n - k) / 2 := by
  obtain ⟨j, rfl⟩ : ∃ j, n = k + j + 1 := ⟨n - k - 1, by omega⟩
  have h1 : k + j + 1 - (k + 1) = j := by omega
  have h2 : k + j + 1 - k = j + 1 := by omega
  have h3 : b * 2 ^ (k + j + 1 - 1) = 2 ^ j * (b * 2 ^ k) := by
    rw [show k + j + 1 - 1 = k + j by omega, pow_add]
    ring
  rw [h1, h2, h3]
  refine ⟨?_, ?_⟩
  · rw [Nat.mul_add_div (by positivity), Nat.div_div_eq_div_mul, pow_succ']
  · rw [Nat.mul_add_mod, pow_succ', Nat.mod_mul_right_div_self]

/-- The value after a shift, whatever multiple `c` of the multiplicand has been added. -/
theorem shift_value (h : PartialProduct n s m k acc reg) (hk : k < n) {sum c : ℤ}
    (hsum : sum = acc + s * c) :
    sum / 2 * 2 ^ (k + 1)
        + (((sum % 2).toNat * 2 ^ (n - 1) + reg / 2) / 2 ^ (n - (k + 1)) : ℕ)
      = s * ((m % 2 ^ k : ℕ) + 2 ^ k * c) := by
  have hbit : ((sum % 2).toNat : ℤ) = sum % 2 := Int.toNat_of_nonneg (by omega)
  have hsplit : sum = sum / 2 * 2 + sum % 2 := by omega
  rw [(shift_register hk _ reg).1]
  push_cast
  calc sum / 2 * 2 ^ (k + 1) + (((sum % 2).toNat : ℤ) * 2 ^ k + (reg / 2 ^ (n - k) : ℕ))
      = (sum / 2 * 2 + sum % 2) * 2 ^ k + (reg / 2 ^ (n - k) : ℕ) := by rw [hbit]; ring
    _ = (acc * 2 ^ k + (reg / 2 ^ (n - k) : ℕ)) + s * c * 2 ^ k := by rw [← hsplit, hsum]; ring
    _ = s * ((m % 2 ^ k : ℕ) + 2 ^ k * c) := by rw [h.value]; ring

/-- **A round** that adds the multiplicand for a one bit keeps the invariant. -/
theorem round (h : PartialProduct n s m k acc reg) (hk : k < n) {sum : ℤ}
    (hsum : sum = acc + s * (reg % 2 : ℕ)) :
    PartialProduct n s m (k + 1) (sum / 2) ((sum % 2).toNat * 2 ^ (n - 1) + reg / 2) := by
  refine ⟨?_, ?_⟩
  · rw [h.shift_value hk hsum, h.bit hk, Nat.mod_pow_succ]
    push_cast
    rfl
  · rw [(shift_register hk _ reg).2, h.rest, Nat.div_div_eq_div_mul, pow_succ]

/-- The top bit of a signed number counts negatively. -/
theorem bmod_two_pow (k : ℕ) (hm : m < 2 ^ (k + 1)) : (m : ℤ).bmod (2 ^ (k + 1)) =
    (m % 2 ^ k : ℕ) - 2 ^ k * (m / 2 ^ k % 2 : ℕ) := by
  have hp : 0 < 2 ^ k := by positivity
  have hpow : 2 ^ (k + 1) = 2 * 2 ^ k := pow_succ' 2 k
  rw [hpow] at hm ⊢
  have hmod : (m : ℤ) % (2 * 2 ^ k : ℕ) = m := Int.emod_eq_of_lt (by omega) (by omega)
  have hcast : ((2 ^ k : ℕ) : ℤ) = 2 ^ k := by push_cast; rfl
  by_cases hlt : m < 2 ^ k
  · rw [Int.bmod_eq_emod_of_lt (by omega), hmod, Nat.mod_eq_of_lt hlt, Nat.div_eq_of_lt hlt]
    simp
  · have hdiv : m / 2 ^ k = 1 := Nat.div_eq_of_lt_le (by omega) (by omega)
    have hrem : m % 2 ^ k = m - 2 ^ k := by
      rw [Nat.mod_eq_sub_mod (by omega), Nat.mod_eq_of_lt (by omega)]
    rw [Int.bmod_neg _ _ (by omega), hmod, hdiv, hrem, ← hcast]
    omega

/-- **The last round** subtracts for a one bit and leaves the product with the signed value of
the multiplier. -/
theorem last (h : PartialProduct (k + 1) s m k acc reg) (hm : m < 2 ^ (k + 1)) {sum : ℤ}
    (hsum : sum = acc - s * (reg % 2 : ℕ)) :
    sum / 2 * 2 ^ (k + 1) + ((sum % 2).toNat * 2 ^ k + reg / 2 : ℕ)
      = s * (m : ℤ).bmod (2 ^ (k + 1)) := by
  have hadd : sum = acc + s * -(reg % 2 : ℕ) := by rw [hsum]; ring
  have hval := h.shift_value (Nat.lt_succ_self k) hadd
  rw [Nat.sub_self, pow_zero, Nat.div_one, Nat.add_sub_cancel, h.bit (Nat.lt_succ_self k)] at hval
  rw [hval, bmod_two_pow k hm]
  ring

end PartialProduct

end ECE385.Bits
