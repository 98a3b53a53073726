import ECE385.Bits.Cells
import Mathlib.Order.Interval.Finset.Nat

/-!
# A game of falling blocks

A piece comes in at the top of a well and goes down.  Where it cannot go down any more it settles,
and full rows go.

* `Rules`: the well, the pieces and where they come in.
* `Game`: a piece on its way, inside the well and free of the settled cells.
* `Step`: what the moves do.  How a piece may turn is left open.
* `Plays.card`: whatever is played, the settled cells are those of the pieces without the rows.
-/

namespace ECE385.Blocks

open Bits

structure Rules where
  height : ℕ
  columns : Finset ℕ
  shapes : Set (Finset (ℕ × ℕ))
  entry : ℕ × ℕ

namespace Rules

def well (R : Rules) : Finset (ℕ × ℕ) := Finset.range R.height ×ˢ R.columns

theorem mem_well {R : Rules} {r c : ℕ} : (r, c) ∈ R.well ↔ r < R.height ∧ c ∈ R.columns := by
  rw [well, Finset.mem_product, Finset.mem_range]

theorem card_well (R : Rules) : R.well.card = R.height * R.columns.card := by
  rw [well, Finset.card_product, Finset.card_range]

end Rules

structure Game (R : Rules) where
  settled : Finset (ℕ × ℕ)
  shape : Finset (ℕ × ℕ)
  row : ℕ
  col : ℕ
  shape_mem : shape ∈ R.shapes
  settled_subset : settled ⊆ R.well
  piece_subset : moved row col shape ⊆ R.well
  free : ∀ p ∈ moved row col shape, p ∉ settled

namespace Game

variable {R : Rules} (g : Game R)

/-- The cells of the piece. -/
def piece : Finset (ℕ × ℕ) := moved g.row g.col g.shape

/-- There is no room for the piece a row further down. -/
def Rests : Prop := ∃ p ∈ moved (g.row + 1) g.col g.shape, p ∉ R.well ∨ p ∈ g.settled

def Full (k : ℕ) : Prop := k < R.height ∧ ∀ c ∈ R.columns, (k, c) ∈ g.settled

theorem card_settled_le : g.settled.card ≤ R.height * R.columns.card := by
  rw [← R.card_well]
  exact Finset.card_le_card g.settled_subset

/-- A full row has as many cells as there are columns. -/
theorem card_of_full {k : ℕ} (h : g.Full k) :
    (g.settled.filter fun p => p.1 = k).card = R.columns.card := by
  have hrow : (g.settled.filter fun p => p.1 = k) = R.columns.image fun c => (k, c) := by
    ext ⟨r, c⟩
    rw [Finset.mem_filter, Finset.mem_image]
    refine ⟨?_, ?_⟩
    · rintro ⟨hmem, rfl⟩
      exact ⟨c, (Rules.mem_well.mp (g.settled_subset hmem)).2, rfl⟩
    · rintro ⟨c', hc', heq⟩
      obtain ⟨rfl, rfl⟩ := Prod.mk.inj heq
      exact ⟨h.2 c' hc', rfl⟩
  rw [hrow, Finset.card_image_of_injective]
  intro c c' heq
  exact (Prod.mk.inj heq).2

end Game

/-! ### The moves -/

inductive Move
  | shift
  | fall
  | land
  | clear (k : ℕ)
  deriving DecidableEq

def Move.isClear : Move → Bool
  | clear _ => true
  | _ => false

variable {R : Rules} {g g' g'' : Game R} {m : Move} {ms : List Move}

/-- The piece is where it was, or one cell further. -/
structure Near (g g' : Game R) : Prop where
  row_le : g.row ≤ g'.row
  le_row : g'.row ≤ g.row + 1
  col_le : g.col ≤ g'.col + 1
  le_col : g'.col ≤ g.col + 1

inductive Step (g : Game R) : Move → Game R → Prop
  /-- The player moves the piece. -/
  | shift {g' : Game R} : (∀ k, ¬g.Full k) → g'.settled = g.settled → Near g g' → Step g .shift g'
  /-- The piece goes down a row. -/
  | fall {g' : Game R} : (∀ k, ¬g.Full k) → g'.settled = g.settled → Near g g' →
    g'.row = g.row + 1 → Step g .fall g'
  /-- The piece settles, and another one comes in. -/
  | land {g' : Game R} : (∀ k, ¬g.Full k) → g.Rests → g'.settled = g.settled ∪ g.piece →
    (g'.row, g'.col) = R.entry → Step g .land g'
  /-- The lowest full row goes. -/
  | clear {g' : Game R} (k : ℕ) : g.Full k → (∀ l, k < l → ¬g.Full l) →
    g'.settled = dropRow k g.settled → Near g g' → Step g (.clear k) g'

/-- A game from its start. -/
inductive Plays (g : Game R) : List Move → Game R → Prop
  | start : Plays g [] g
  | step {ms : List Move} {m : Move} {g' g'' : Game R} : Plays g ms g' → Step g' m g'' →
    Plays g (ms ++ [m]) g''

/-! ### The settled cells -/

def lands (ms : List Move) : ℕ := ms.count .land

def clears (ms : List Move) : ℕ := ms.countP Move.isClear

theorem lands_concat : lands (ms ++ [m]) = lands ms + lands [m] := List.count_append

theorem clears_concat : clears (ms ++ [m]) = clears ms + clears [m] := List.countP_append

theorem Step.card (h : Step g m g') {n : ℕ} (hn : ∀ S ∈ R.shapes, S.card = n) :
    g'.settled.card + R.columns.card * clears [m] = g.settled.card + n * lands [m] := by
  cases h with
  | shift _ hsettled _ => rw [hsettled]; rfl
  | fall _ hsettled _ _ => rw [hsettled]; rfl
  | land _ _ hsettled _ =>
    have hcard : (g.settled ∪ g.piece).card = g.settled.card + g.shape.card :=
      card_union_moved g.free
    rw [hsettled, hcard, hn _ g.shape_mem]
    exact congrArg _ (Nat.mul_one n).symm
  | clear k hfull _ hsettled _ =>
    have hcard := card_dropRow k g.settled
    rw [g.card_of_full hfull] at hcard
    rw [hsettled, ← hcard]
    exact congrArg _ (Nat.mul_one _)

/-- **The settled cells** of a game. -/
theorem Plays.card (h : Plays g ms g') {n : ℕ} (hn : ∀ S ∈ R.shapes, S.card = n) :
    g'.settled.card + R.columns.card * clears ms = g.settled.card + n * lands ms := by
  induction h with
  | start => rfl
  | step _ hstep ih =>
    have hcard := hstep.card hn
    rw [lands_concat, clears_concat, Nat.mul_add, Nat.mul_add]
    omega

end ECE385.Blocks
