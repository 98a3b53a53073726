import Mathlib.Logic.Equiv.Basic
import Mathlib.Order.MinMax

/-!
# Bubble sort

Sequences over a linear order, of which the first `n` entries are sorted in place.  `exchange j`
puts two neighbours in order, `pass m` exchanges at `0`, `1`, ..., `m - 1` in turn.

* `Settled n k f`: the entries from `k` on are where they belong.
* `settled_pass`: a pass settles one more entry.
* `Rearranged n f g`: `g` has the first `n` entries of `f` in another order, and the others
  untouched.
-/

namespace ECE385.Sorting

variable {α : Type*} {f g : ℕ → α} {n m k j : ℕ}

/-! ### Rearrangements -/

/-- The first `n` entries of `g` are those of `f` in some order, the others are the same. -/
def Rearranged (n : ℕ) (f g : ℕ → α) : Prop :=
  ∃ σ : Equiv.Perm ℕ, (∀ k, n ≤ k → σ k = k) ∧ g = f ∘ σ

theorem Rearranged.refl (n : ℕ) (f : ℕ → α) : Rearranged n f f :=
  ⟨Equiv.refl ℕ, fun _ _ => rfl, rfl⟩

theorem Rearranged.trans {h : ℕ → α} (hfg : Rearranged n f g) (hgh : Rearranged n g h) :
    Rearranged n f h := by
  obtain ⟨σ, hσ, rfl⟩ := hfg
  obtain ⟨τ, hτ, rfl⟩ := hgh
  refine ⟨τ.trans σ, fun k hk => ?_, rfl⟩
  rw [Equiv.trans_apply, hτ k hk, hσ k hk]

/-- What holds of the first `n` entries holds of them in another order. -/
theorem Rearranged.forall_lt {P : α → Prop} (h : Rearranged n f g) (hf : ∀ k < n, P (f k)) :
    ∀ k < n, P (g k) := by
  obtain ⟨σ, hσ, rfl⟩ := h
  intro k hk
  refine hf (σ k) ?_
  by_contra hge
  have hfix := hσ (σ k) (by omega)
  have : σ k = k := σ.injective hfix
  omega

/-! ### Exchanges -/

variable [LinearOrder α]

/-- The neighbours at `j` are put in order. -/
def exchange (j : ℕ) (f : ℕ → α) : ℕ → α :=
  if f (j + 1) < f j then f ∘ Equiv.swap j (j + 1) else f

def pass : ℕ → (ℕ → α) → ℕ → α
  | 0, f => f
  | m + 1, f => exchange m (pass m f)

theorem exchange_left (j : ℕ) (f : ℕ → α) : exchange j f j = min (f j) (f (j + 1)) := by
  rw [exchange]
  split_ifs with h
  · rw [Function.comp_apply, Equiv.swap_apply_left, min_eq_right (le_of_lt h)]
  · rw [min_eq_left (not_lt.mp h)]

theorem exchange_right (j : ℕ) (f : ℕ → α) : exchange j f (j + 1) = max (f j) (f (j + 1)) := by
  rw [exchange]
  split_ifs with h
  · rw [Function.comp_apply, Equiv.swap_apply_right, max_eq_left (le_of_lt h)]
  · rw [max_eq_right (not_lt.mp h)]

theorem exchange_of_ne (f : ℕ → α) (hk : k ≠ j) (hk' : k ≠ j + 1) : exchange j f k = f k := by
  rw [exchange]
  split_ifs
  · rw [Function.comp_apply, Equiv.swap_apply_of_ne_of_ne hk hk']
  · rfl

/-! ### Passes -/

theorem pass_of_gt (f : ℕ → α) (h : m < k) : pass m f k = f k := by
  induction m with
  | zero => rfl
  | succ m ih => rw [pass, exchange_of_ne _ (by omega) (by omega), ih (by omega)]

/-- A pass takes the greatest entry along. -/
theorem pass_le_last (f : ℕ → α) : ∀ k ≤ m, pass m f k ≤ pass m f m := by
  induction m with
  | zero =>
    intro k hk
    rw [Nat.le_zero.mp hk]
  | succ m ih =>
    intro k hk
    rw [pass, exchange_right]
    rcases (show k = m + 1 ∨ k = m ∨ k < m by omega) with rfl | rfl | hlt
    · rw [exchange_right]
    · rw [exchange_left]
      exact min_le_max
    · rw [exchange_of_ne _ (by omega) (by omega)]
      exact le_max_of_le_left (ih k (Nat.le_of_lt hlt))

/-- A bound of the entries it passes stays one. -/
theorem pass_le_of_le {b : α} (h : ∀ k ≤ m, f k ≤ b) : ∀ k ≤ m, pass m f k ≤ b := by
  induction m with
  | zero => exact h
  | succ m ih =>
    intro k hk
    have hbelow := ih fun k hk => h k (Nat.le_succ_of_le hk)
    have hlast : pass m f (m + 1) ≤ b := by
      rw [pass_of_gt f (Nat.lt_succ_self m)]
      exact h (m + 1) (Nat.le_refl _)
    rw [pass]
    rcases (show k = m + 1 ∨ k = m ∨ k < m by omega) with rfl | rfl | hlt
    · rw [exchange_right]
      exact max_le (hbelow m (Nat.le_refl m)) hlast
    · rw [exchange_left]
      exact min_le_of_left_le (hbelow k (Nat.le_refl k))
    · rw [exchange_of_ne _ (by omega) (by omega)]
      exact hbelow k (Nat.le_of_lt hlt)

/-- The entries from `k` up to `n` are in order, and above all entries before. -/
def Settled (n k : ℕ) (f : ℕ → α) : Prop := ∀ i j, i < j → k ≤ j → j < n → f i ≤ f j

theorem Settled.mono (h : Settled n k f) (hkm : k ≤ m) : Settled n m f :=
  fun i j hij hmj hjn => h i j hij (Nat.le_trans hkm hmj) hjn

/-- **A pass settles one more entry.** -/
theorem settled_pass (h : Settled n (m + 1) f) : Settled n m (pass m f) := by
  intro i j hij hmj hjn
  rcases Nat.eq_or_lt_of_le hmj with rfl | hlt
  · exact pass_le_last f i (Nat.le_of_lt hij)
  · rw [pass_of_gt f hlt]
    rcases Nat.lt_or_ge m i with hmi | him
    · rw [pass_of_gt f hmi]
      exact h i j hij hlt hjn
    · exact pass_le_of_le (fun k hk => h k j (by omega) hlt hjn) i him

theorem rearranged_exchange (f : ℕ → α) (h : j + 1 < n) : Rearranged n f (exchange j f) := by
  rw [exchange]
  split_ifs
  · exact ⟨Equiv.swap j (j + 1),
      fun k hk => Equiv.swap_apply_of_ne_of_ne (by omega) (by omega), rfl⟩
  · exact .refl n f

theorem rearranged_pass (f : ℕ → α) (h : m < n) : Rearranged n f (pass m f) := by
  induction m with
  | zero => exact .refl n f
  | succ m ih => exact (ih (by omega)).trans (rearranged_exchange _ h)

end ECE385.Sorting
