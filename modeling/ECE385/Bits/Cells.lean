import Mathlib.Data.Finset.Card
import Mathlib.Data.Finset.Prod

/-!
# Sets of cells

A set of cells of a grid, the rows numbered downwards: placing a piece adds cells, and a
removed row lets the rows above it come down by one.

* `card_union_moved`: a piece that is free of the others adds its own number of cells.
* `card_dropRow`: a removed row takes its cells and no others.
-/

namespace ECE385.Bits

variable {α : Type*} [DecidableEq α]

/-- The cells of a piece, moved down by `r` and right by `c`. -/
def moved (r c : ℕ) (piece : Finset (ℕ × ℕ)) : Finset (ℕ × ℕ) :=
  piece.image fun p => (r + p.1, c + p.2)

theorem mem_moved {r c : ℕ} {piece : Finset (ℕ × ℕ)} {p : ℕ × ℕ} :
    p ∈ moved r c piece ↔ ∃ k j, (k, j) ∈ piece ∧ p = (r + k, c + j) := by
  rw [moved, Finset.mem_image]
  refine ⟨?_, ?_⟩
  · rintro ⟨⟨k, j⟩, hkj, rfl⟩
    exact ⟨k, j, hkj, rfl⟩
  · rintro ⟨k, j, hkj, rfl⟩
    exact ⟨(k, j), hkj, rfl⟩

theorem card_moved (r c : ℕ) (piece : Finset (ℕ × ℕ)) : (moved r c piece).card = piece.card := by
  refine Finset.card_image_of_injective piece ?_
  rintro ⟨k, j⟩ ⟨k', j'⟩ h
  simp only [Prod.mk.injEq] at h ⊢
  omega

/-- **Placing.** -/
theorem card_union_moved {S : Finset (ℕ × ℕ)} {r c : ℕ} {piece : Finset (ℕ × ℕ)}
    (h : ∀ p ∈ moved r c piece, p ∉ S) :
    (S ∪ moved r c piece).card = S.card + piece.card := by
  rw [Finset.card_union_of_disjoint, card_moved]
  exact Finset.disjoint_right.mpr h

/-- Row `r` is removed. -/
def dropRow (r : ℕ) (S : Finset (ℕ × α)) : Finset (ℕ × α) :=
  (S.filter fun p => p.1 < r).image (fun p => (p.1 + 1, p.2)) ∪ S.filter fun p => r < p.1

theorem mem_dropRow {r : ℕ} {S : Finset (ℕ × α)} {k : ℕ} {c : α} :
    (k, c) ∈ dropRow r S ↔ if k ≤ r then 0 < k ∧ (k - 1, c) ∈ S else (k, c) ∈ S := by
  rw [dropRow, Finset.mem_union, Finset.mem_image, Finset.mem_filter]
  refine ⟨?_, ?_⟩
  · rintro (⟨⟨k', c'⟩, hmem, heq⟩ | ⟨hmem, hlt⟩)
    · rw [Finset.mem_filter] at hmem
      obtain ⟨rfl, rfl⟩ : k' + 1 = k ∧ c' = c := by simpa using heq
      have hlt : k' < r := hmem.2
      rw [if_pos (by omega)]
      exact ⟨by omega, hmem.1⟩
    · rw [if_neg (by simpa using hlt)]
      exact hmem
  · intro h
    split at h
    · next hle =>
      refine .inl ⟨(k - 1, c), Finset.mem_filter.mpr ⟨h.2, ?_⟩, ?_⟩
      · change k - 1 < r
        omega
      · rw [Prod.mk.injEq]
        exact ⟨by omega, rfl⟩
    · next hgt => exact .inr ⟨h, by simpa using hgt⟩

/-- **Removing a row.** -/
theorem card_dropRow (r : ℕ) (S : Finset (ℕ × α)) :
    (dropRow r S).card + (S.filter fun p => p.1 = r).card = S.card := by
  have hinj : Function.Injective fun p : ℕ × α => (p.1 + 1, p.2) := by
    rintro ⟨k, c⟩ ⟨k', c'⟩ h
    simpa using h
  have hdisj : Disjoint ((S.filter fun p => p.1 < r).image fun p => (p.1 + 1, p.2))
      (S.filter fun p => r < p.1) := by
    rw [Finset.disjoint_left]
    intro p hp hp'
    obtain ⟨q, hq, rfl⟩ := Finset.mem_image.mp hp
    have h1 := (Finset.mem_filter.mp hq).2
    have h2 : r < q.1 + 1 := (Finset.mem_filter.mp hp').2
    omega
  have hsplit : (S.filter fun p => ¬p.1 < r).card =
      (S.filter fun p => r < p.1).card + (S.filter fun p => p.1 = r).card := by
    rw [← Finset.card_filter_add_card_filter_not (s := S.filter fun p => ¬p.1 < r)
      (fun p => r < p.1), Finset.filter_filter, Finset.filter_filter]
    congr 2
    all_goals
      ext p
      simp only [Finset.mem_filter, and_congr_right_iff]
      omega
  rw [dropRow, Finset.card_union_of_disjoint hdisj, Finset.card_image_of_injective _ hinj,
    Nat.add_assoc, ← hsplit]
  exact Finset.card_filter_add_card_filter_not _

end ECE385.Bits
