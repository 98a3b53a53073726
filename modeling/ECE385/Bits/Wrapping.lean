import Mathlib.Data.Int.GCD
import Mathlib.Data.Nat.ModEq

/-!
# Counters that wrap

A counter modulo `N` is advanced by steps between `m` and `p`, for as long as it stays below a
limit.  It does not stop of itself if a step may be zero, or if some step takes it from below the
limit past `N`, to begin anew.

* `Progresses`: one step.
* `acc_progresses_iff`: when all sequences of steps from 0 end.
-/

namespace ECE385.Bits

/-- The counter goes on from `s` to `next`. -/
def Progresses (N limit m p next s : ℕ) : Prop :=
  ∃ k, m ≤ k ∧ k ≤ p ∧ next = (s + k) % N ∧ next < limit

variable {N limit m p : ℕ}

/-- Steps that can be kept within a set never come to an end. -/
theorem not_acc_of_invariant {γ : Type} {r : γ → γ → Prop} {I : γ → Prop}
    (hstep : ∀ a, I a → ∃ b, r b a ∧ I b) {a : γ} (ha : I a) : ¬Acc r a := by
  intro hacc
  induction hacc with
  | intro a _ ih =>
    obtain ⟨b, hba, hb⟩ := hstep a ha
    exact ih b hba hb

/-! ### Steps that end -/

/-- Without a wrap the counter grows. -/
theorem acc_of_no_wrap (hm : 0 < m) (hle : limit ≤ N - p) (s : ℕ) (hroom : s + p < N) :
    Acc (Progresses N limit m p) s := by
  generalize hk : N - s = k
  induction k using Nat.strongRecOn generalizing s with
  | ind k ih =>
    refine .intro _ ?_
    rintro next ⟨k', hmk, hkp, rfl, hless⟩
    rw [Nat.mod_eq_of_lt (by omega)] at hless ⊢
    exact ih _ (by omega) _ (by omega) rfl

/-- Steps of one size come to the last multiple of the greatest common divisor. -/
theorem exists_mul_mod_eq (hp : 0 < p) (hlt : p < N) : ∃ k, p * k % N = N - Nat.gcd p N := by
  have hgcd : Nat.gcd p N < N := Nat.lt_of_le_of_lt (Nat.gcd_le_left N hp) hlt
  have hpos : 0 < Nat.gcd p N := Nat.gcd_pos_of_pos_left N hp
  obtain ⟨k, -, hk⟩ := Nat.exists_mul_mod_eq_gcd hgcd
  obtain ⟨b, hb⟩ := Nat.gcd_dvd_right p N
  have hmod : p * k ≡ Nat.gcd p N [MOD N] := by
    rw [Nat.ModEq, hk, Nat.mod_eq_of_lt hgcd]
  refine ⟨k * (b - 1), ?_⟩
  calc p * (k * (b - 1)) % N = p * k * (b - 1) % N := by rw [Nat.mul_assoc]
    _ = Nat.gcd p N * (b - 1) % N := hmod.mul_right (b - 1)
    _ = (N - Nat.gcd p N) % N := by rw [Nat.mul_sub, Nat.mul_one, ← hb]
    _ = N - Nat.gcd p N := Nat.mod_eq_of_lt (by omega)

theorem Progresses.one_size {next s : ℕ} (h : Progresses N limit p p next s) :
    next = (s + p) % N ∧ next < limit := by
  obtain ⟨k, hpk, hkp, hnext, hless⟩ := h
  obtain rfl := Nat.le_antisymm hkp hpk
  exact ⟨hnext, hless⟩

theorem acc_of_one_size (hp : 0 < p) (hlt : p < N) (hle : limit ≤ N - Nat.gcd p N) :
    Acc (Progresses N limit p p) 0 := by
  obtain ⟨last, hlast⟩ := exists_mul_mod_eq hp hlt
  have hne : last ≠ 0 := by
    rintro rfl
    have hgcd := Nat.gcd_le_left N hp
    rw [Nat.mul_zero, Nat.zero_mod] at hlast
    omega
  have key : ∀ d k, k + d + 1 = last → Acc (Progresses N limit p p) (p * k % N) := by
    intro d
    induction d with
    | zero =>
      intro k hk
      refine .intro _ fun next h => ?_
      obtain ⟨rfl, hless⟩ := h.one_size
      rw [Nat.mod_add_mod, ← Nat.mul_succ, show k.succ = last by omega, hlast] at hless
      omega
    | succ d ih =>
      intro k hk
      refine .intro _ fun next h => ?_
      obtain ⟨rfl, -⟩ := h.one_size
      rw [Nat.mod_add_mod, ← Nat.mul_succ]
      exact ih (k + 1) (by omega)
  exact key (last - 1) 0 (by omega)

/-! ### Steps that go on -/

/-- A step of nothing. -/
theorem not_acc_of_still (hlimit : 0 < limit) : ¬Acc (Progresses N limit 0 p) 0 := by
  refine not_acc_of_invariant (I := fun s => s = 0) ?_ rfl
  rintro _ rfl
  exact ⟨0, ⟨0, Nat.le_refl 0, Nat.zero_le p, (Nat.zero_mod N).symm, hlimit⟩, rfl⟩

/-- Steps of one size that miss all values from the limit on. -/
theorem not_acc_of_one_size (hlt : p < N) (hlimit : N - Nat.gcd p N < limit) :
    ¬Acc (Progresses N limit p p) 0 := by
  refine not_acc_of_invariant (I := fun s => Nat.gcd p N ∣ s) ?_ (Nat.dvd_zero _)
  intro s hdvd
  have hdvd' : Nat.gcd p N ∣ (s + p) % N :=
    (Nat.dvd_mod_iff (Nat.gcd_dvd_right p N)).mpr (Nat.dvd_add hdvd (Nat.gcd_dvd_left p N))
  refine ⟨_, ⟨p, Nat.le_refl p, Nat.le_refl p, rfl, ?_⟩, hdvd'⟩
  -- the multiple of the divisor after the value reached is at most `N`
  have hless : (s + p) % N < N := Nat.mod_lt _ (by omega)
  have hroom := Nat.le_of_dvd (by omega) (Nat.dvd_sub (Nat.gcd_dvd_right p N) hdvd')
  omega

/-- A step longer by one makes the remainder smaller by one. -/
theorem step_mod {d : ℕ} (hm : 0 < m) (hr : 0 < d % m) (hd : d % m * (m + 1) ≤ d) :
    m + 1 ≤ d ∧ (d - (m + 1)) % m * (m + 1) ≤ d - (m + 1) := by
  have hle : m + 1 ≤ d := Nat.le_trans (Nat.le_mul_of_pos_left _ hr) hd
  have hmod : (d - (m + 1)) % m = d % m - 1 := by
    have hq : 0 < d / m := Nat.div_pos (by omega) hm
    have hsplit : d - (m + 1) = d % m - 1 + m * (d / m - 1) := by
      have hdiv := Nat.mod_add_div d m
      have hone : m ≤ m * (d / m) := Nat.le_mul_of_pos_right m hq
      rw [Nat.mul_sub, Nat.mul_one]
      omega
    have hless := Nat.mod_lt d hm
    rw [hsplit, Nat.add_mul_mod_self_left, Nat.mod_eq_of_lt (by omega)]
  refine ⟨hle, ?_⟩
  rw [hmod, Nat.sub_mul, Nat.one_mul]
  exact Nat.sub_le_sub_right hd _

/-- Steps of two sizes come to `N - p`, from where the largest step leads to 0. -/
theorem not_acc_of_two_sizes (hm : 0 < m) (hmp : m < p) (hlt : p < N)
    (hN : (m - 1) * (m + 1) ≤ N - p) (hlimit : N - p < limit) :
    ¬Acc (Progresses N limit m p) 0 := by
  have hstart : (N - p) % m * (m + 1) ≤ N - p := by
    have hmod := Nat.mod_lt (N - p) hm
    exact Nat.le_trans (Nat.mul_le_mul_right _ (by omega)) hN
  -- what is left to go has a remainder that steps of the longer size can take away
  refine not_acc_of_invariant (I := fun s => s ≤ N - p ∧
    (N - p - s) % m * (m + 1) ≤ N - p - s) ?_ ⟨Nat.zero_le _, hstart⟩
  rintro s ⟨hle, hleft⟩
  generalize hd : N - p - s = d at hleft
  rcases Nat.eq_zero_or_pos d with rfl | hd0
  · -- the largest step
    have hsum : (s + p) % N = 0 := by
      rw [show s + p = N by omega]
      exact Nat.mod_self N
    refine ⟨_, ⟨p, hmp.le, Nat.le_refl p, rfl, by omega⟩, by omega, ?_⟩
    rw [hsum]
    exact hstart
  rcases Nat.eq_zero_or_pos (d % m) with hr | hr
  · -- a step of the shorter size
    have hfit : m ≤ d := Nat.le_of_dvd hd0 (Nat.dvd_of_mod_eq_zero hr)
    have hsum : (s + m) % N = s + m := Nat.mod_eq_of_lt (by omega)
    refine ⟨_, ⟨m, Nat.le_refl m, hmp.le, rfl, by omega⟩, by omega, ?_⟩
    rw [hsum, show N - p - (s + m) = d - m by omega, ← Nat.mod_eq_sub_mod hfit, hr, Nat.zero_mul]
    exact Nat.zero_le _
  · -- a step of the longer size
    obtain ⟨hfit, hrest⟩ := step_mod hm hr hleft
    have hsum : (s + (m + 1)) % N = s + (m + 1) := Nat.mod_eq_of_lt (by omega)
    refine ⟨_, ⟨m + 1, Nat.le_succ m, hmp, rfl, by omega⟩, by omega, ?_⟩
    rw [hsum, show N - p - (s + (m + 1)) = d - (m + 1) by omega]
    exact hrest

/-- **When the steps end.** -/
theorem acc_progresses_iff (hlt : p < N) (hN : (m - 1) * (m + 1) ≤ N - p) :
    Acc (Progresses N limit m p) 0 ↔
      limit = 0 ∨ p < m ∨ 0 < m ∧ limit ≤ N - if m = p then Nat.gcd p N else p := by
  constructor
  · intro hacc
    by_contra hnot
    rw [not_or, not_or, Nat.not_lt] at hnot
    obtain ⟨hlimit, hle, hwrap⟩ := hnot
    rcases Nat.eq_zero_or_pos m with rfl | hm
    · exact not_acc_of_still (Nat.pos_of_ne_zero hlimit) hacc
    rw [not_and, Nat.not_le] at hwrap
    have hless := hwrap hm
    by_cases heq : m = p
    · subst heq
      rw [if_pos rfl] at hless
      exact not_acc_of_one_size hlt hless hacc
    · rw [if_neg heq] at hless
      exact not_acc_of_two_sizes hm (Nat.lt_of_le_of_ne hle heq) hlt hN hless hacc
  · rintro (rfl | hshort | ⟨hm, hle⟩)
    · refine .intro _ ?_
      rintro next ⟨_, -, -, -, hless⟩
      exact absurd hless (Nat.not_lt_zero _)
    · refine .intro _ ?_
      rintro next ⟨k, hmk, hkp, -, -⟩
      omega
    · by_cases heq : m = p
      · subst heq
        rw [if_pos rfl] at hle
        exact acc_of_one_size hm hlt hle
      · rw [if_neg heq] at hle
        exact acc_of_no_wrap hm hle 0 (by omega)

end ECE385.Bits
