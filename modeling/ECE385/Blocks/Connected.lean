import ECE385.Bits.Cells
import Mathlib.Data.Finset.Powerset

/-!
# Connected sets of cells

* `Connected.all`: what passes from a cell to those that touch it holds of all cells, or of none.
* `Connected.subset`: a connected set that meets a region and not its border is inside it.
-/

namespace ECE385.Blocks

open Bits

/-- The cells are the same, or side by side. -/
def Touches (p q : ℕ × ℕ) : Prop :=
  (p.1 = q.1 ∧ p.2 ≤ q.2 + 1 ∧ q.2 ≤ p.2 + 1) ∨ (p.2 = q.2 ∧ p.1 ≤ q.1 + 1 ∧ q.1 ≤ p.1 + 1)

instance (p q : ℕ × ℕ) : Decidable (Touches p q) := inferInstanceAs (Decidable (_ ∨ _))

/-- No part of the cells is apart from the rest. -/
def Connected (S : Finset (ℕ × ℕ)) : Prop :=
  ∀ T ∈ S.powerset, T.Nonempty → (∀ p ∈ T, ∀ q ∈ S, Touches p q → q ∈ T) → T = S

instance (S : Finset (ℕ × ℕ)) : Decidable (Connected S) :=
  inferInstanceAs (Decidable (∀ T ∈ S.powerset, T.Nonempty → _ → T = S))

variable {S W : Finset (ℕ × ℕ)} {P B : ℕ × ℕ → Prop}

theorem Connected.all (h : Connected S)
    (hpass : ∀ p ∈ S, ∀ q ∈ S, P p → Touches p q → P q) (hone : ∃ p ∈ S, P p) : ∀ p ∈ S, P p := by
  classical
  obtain ⟨p, hp, hPp⟩ := hone
  have hall : S.filter P = S := by
    refine h _ (Finset.mem_powerset.mpr (Finset.filter_subset P S))
      ⟨p, Finset.mem_filter.mpr ⟨hp, hPp⟩⟩ fun a ha b hb hab => ?_
    obtain ⟨ha, hPa⟩ := Finset.mem_filter.mp ha
    exact Finset.mem_filter.mpr ⟨hb, hpass a ha b hb hPa hab⟩
  intro q hq
  rw [← hall] at hq
  exact (Finset.mem_filter.mp hq).2

/-- **Inside.** -/
theorem Connected.subset (h : Connected S) (hborder : ∀ p ∈ W, ∀ q, Touches p q → q ∈ W ∨ B q)
    (hfree : ∀ p ∈ S, ¬B p) (hone : ∃ p ∈ S, p ∈ W) : S ⊆ W := by
  refine h.all (P := (· ∈ W)) (fun p _ q hq hpW hpq => ?_) hone
  exact (hborder p hpW q hpq).resolve_right (hfree q hq)

theorem touches_moved {r c : ℕ} {p q : ℕ × ℕ} :
    Touches (r + p.1, c + p.2) (r + q.1, c + q.2) ↔ Touches p q := by
  simp only [Touches]
  omega

theorem Connected.moved (h : Connected S) (r c : ℕ) : Connected (moved r c S) := by
  intro T hT hne hclosed
  rw [Finset.mem_powerset] at hT
  have hpass : ∀ p ∈ S, ∀ q ∈ S, (r + p.1, c + p.2) ∈ T → Touches p q →
      (r + q.1, c + q.2) ∈ T := fun p _ q hq hpT hpq =>
    hclosed _ hpT _ (Finset.mem_image_of_mem _ hq) (touches_moved.mpr hpq)
  have hone : ∃ p ∈ S, (r + p.1, c + p.2) ∈ T := by
    obtain ⟨p, hp⟩ := hne
    obtain ⟨q, hq, rfl⟩ := Finset.mem_image.mp (hT hp)
    exact ⟨q, hq, hp⟩
  refine Finset.Subset.antisymm hT fun p hp => ?_
  obtain ⟨q, hq, rfl⟩ := Finset.mem_image.mp hp
  exact h.all hpass hone q hq

end ECE385.Blocks
