import ECE385.Tetris.Board
import Mathlib.Order.Interval.Finset.Nat

/-!
# Cells and points

On the occupied cells of the well, a lock places the piece (`Bits.moved`) and a line clear
removes a row (`Bits.dropRow`).  A frame does either as it should; in a frame that does
both, the assignments of the line clear win over those of the lock, so the points of the
lock are lost.

* `occupied_lock`, `occupied_clear`: the cells.
* `sound_add`, `sound_clear`: the walls and the floor.
* `bookkept_iff`: a frame keeps the books unless it locks a piece while a row is full.
-/

namespace ECE385.Tetris

open Bits Grid

/-- The occupied cells of the well. -/
def occupied (g : Board) : Finset (ℕ × ℕ) :=
  (Finset.range 20 ×ˢ Finset.Icc 3 12).filter fun p => g.bit p.1 p.2

/-- The walls and the floor are intact. -/
structure Sound (g : Board) : Prop where
  left : ∀ r < 20, g.bit r 2 = true
  right : ∀ r < 20, g.bit r 13 = true
  floor : ∀ c < 16, g.bit 20 c = floorRow.getLsbD c

/-- The piece is inside the well. -/
def InWell (rows : ℕ → BitVec 4) (r c : ℕ) : Prop :=
  ∀ k < 4, ∀ j < 4, (rows k).getLsbD j = true → r + k < 20 ∧ 3 ≤ c + j ∧ c + j ≤ 12

theorem mem_occupied {g : Board} {r c : ℕ} :
    (r, c) ∈ occupied g ↔ r < 20 ∧ (3 ≤ c ∧ c ≤ 12) ∧ g.bit r c = true := by
  simp [occupied, and_assoc]

/-! ### The lock -/

variable {g : Board} {oob : ℕ → ℕ → Bool} {rows : ℕ → BitVec 4} {r c : ℕ}

theorem covers_inWell (hwell : InWell rows r c) {r' c' : ℕ} (h : covers rows r c r' c' = true) :
    r' < 20 ∧ 3 ≤ c' ∧ c' ≤ 12 := by
  rw [covers, Bool.and_eq_true, decide_eq_true_iff] at h
  have := hwell (r' - r) (by omega) (c' - c) (by omega) h.2
  omega

theorem occupied_lock (hfree : ¬Hits g rows r c) (hwell : InWell rows r c) :
    occupied (add g oob rows r c) = occupied g ∪ moved r c (boxCells rows) := by
  ext ⟨r', c'⟩
  rw [Finset.mem_union, mem_occupied, mem_occupied, mem_moved_boxCells, bit_add hfree,
    Bool.or_eq_true, Bool.and_eq_true, decide_eq_true_iff]
  refine ⟨?_, ?_⟩
  · rintro ⟨hr, hc, hbit | ⟨-, hcov⟩⟩
    · exact .inl ⟨hr, hc, hbit⟩
    · exact .inr hcov
  · rintro (⟨hr, hc, hbit⟩ | hcov)
    · exact ⟨hr, hc, .inl hbit⟩
    · obtain ⟨hr, hc⟩ := covers_inWell hwell hcov
      exact ⟨hr, hc, .inr ⟨by omega, hcov⟩⟩

theorem card_lock {blockType : BitVec 3} {orientation : BitVec 2}
    (hfree : ¬Hits g (rowOf blockType orientation) r c)
    (hwell : InWell (rowOf blockType orientation) r c) :
    (occupied (add g oob (rowOf blockType orientation) r c)).card = (occupied g).card + 4 := by
  rw [occupied_lock hfree hwell, card_union_moved, four_cells]
  rintro ⟨r', c'⟩ hp hocc
  obtain ⟨k, j, hkj, heq⟩ := mem_moved.mp hp
  obtain ⟨rfl, rfl⟩ := Prod.mk.inj heq
  obtain ⟨hk, hj, hrow⟩ := mem_boxCells.mp hkj
  exact hfree ⟨k, hk, j, hj, hrow, (mem_occupied.mp hocc).2.2⟩

theorem sound_add (hsound : Sound g) (hfree : ¬Hits g rows r c) (hwell : InWell rows r c) :
    Sound (add g oob rows r c) := by
  refine ⟨fun r' hr' => ?_, fun r' hr' => ?_, fun c' hc' => ?_⟩
  · rw [bit_add hfree, hsound.left r' hr', Bool.true_or]
  · rw [bit_add hfree, hsound.right r' hr', Bool.true_or]
  · have hcov : covers rows r c 20 c' = false := by
      rw [Bool.eq_false_iff]
      intro h
      have := (covers_inWell hwell h).1
      omega
    rw [bit_add hfree, hcov, Bool.and_false, Bool.or_false, hsound.floor c' hc']

/-! ### The line clear -/

theorem occupied_clear {k : Fin 20} : occupied (clearRow g g k) = dropRow k.val (occupied g) := by
  ext ⟨r', c'⟩
  have hk := k.isLt
  rw [mem_dropRow, mem_occupied, bit_clearRow]
  by_cases hle : r' ≤ k.val
  · rw [if_pos hle, mem_occupied]
    by_cases hc : 3 ≤ c' ∧ c' ≤ 12
    · rw [if_pos ⟨hle, hc⟩, Bool.and_eq_true, decide_eq_true_iff]
      refine ⟨?_, ?_⟩
      · rintro ⟨-, -, hpos, hbit⟩
        exact ⟨hpos, by omega, hc, hbit⟩
      · rintro ⟨hpos, -, -, hbit⟩
        exact ⟨by omega, hc, hpos, hbit⟩
    · simp only [hc, false_and, and_false]
  · rw [if_neg hle, if_neg (by omega), mem_occupied]

theorem card_clear {k : Fin 20} (h : full g k = true) :
    (occupied (clearRow g g k)).card + 10 = (occupied g).card := by
  have hrow : (occupied g).filter (fun p => p.1 = k.val) =
      (Finset.Icc 3 12).image fun c => (k.val, c) := by
    ext ⟨r', c'⟩
    rw [Finset.mem_filter, mem_occupied, Finset.mem_image]
    refine ⟨?_, ?_⟩
    · rintro ⟨⟨-, hc, -⟩, rfl⟩
      exact ⟨c', Finset.mem_Icc.mpr hc, rfl⟩
    · rintro ⟨c, hc, heq⟩
      obtain ⟨rfl, rfl⟩ := Prod.mk.inj heq
      obtain ⟨h3, h12⟩ := Finset.mem_Icc.mp hc
      exact ⟨⟨k.isLt, ⟨h3, h12⟩, (full_iff g k).mp h c h3 h12⟩, rfl⟩
  rw [occupied_clear, ← card_dropRow k.val (occupied g), hrow, Finset.card_image_of_injective]
  · rfl
  · intro c c' heq
    exact (Prod.mk.inj heq).2

theorem sound_clear (hsound : Sound g) (k : Fin 20) : Sound (clearRow g g k) := by
  have hk := k.isLt
  refine ⟨fun r' hr' => ?_, fun r' hr' => ?_, fun c' hc' => ?_⟩
  · rw [bit_clearRow, if_neg (by omega), hsound.left r' hr']
  · rw [bit_clearRow, if_neg (by omega), hsound.right r' hr']
  · rw [bit_clearRow, if_neg (by omega), hsound.floor c' hc']

/-! ### The books -/

namespace Ball

/-- The number of pieces the frame locks, and of rows it removes. -/
def locked (i : Input) (s : Ball) : ℕ := (s.locks i).toNat

def removed (s : Ball) : ℕ := (lastFull s.gameboard).isSome.toNat

/-- The frame keeps the books. -/
structure Bookkept (i : Input) (s : Ball) : Prop where
  cells : (occupied (s.next i).gameboard).card + 10 * s.removed =
    (occupied s.gameboard).card + 4 * s.locked i
  sound : Sound (s.next i).gameboard
  points : (s.next i).score =
    s.score + 64 * BitVec.ofNat 24 (s.locked i) + 512 * BitVec.ofNat 24 s.removed

variable {s : Ball} {i : Input}

/-- **The books.**  With the walls and the floor intact, the piece inside the well and free of
the others, and the game going on, a frame keeps the books exactly if it does not lock a
piece while a row is full. -/
theorem bookkept_iff (s : Ball) (i : Input) (hsound : Sound s.gameboard)
    (hwell : InWell s.row s.ypos.toNat s.xpos.toNat)
    (hfree : ¬Hits s.gameboard s.row s.ypos.toNat s.xpos.toNat) (hover : s.gameOver i = false) :
    Bookkept i s ↔ ¬(s.locks i = true ∧ ∃ r, full s.gameboard r = true) := by
  rw [← lastFull_isSome]
  cases hlock : s.locks i with
  | false =>
    have hnot : ¬(false = true ∧ (lastFull s.gameboard).isSome = true) := by simp
    rw [iff_true_right hnot]
    have hboard := gameboard_of_not_locks hlock
    cases hfull : lastFull s.gameboard with
    | none =>
      rw [hfull, Option.elim_none] at hboard
      refine ⟨?_, ?_, ?_⟩
      · rw [hboard, locked, removed, hlock, hfull]
        rfl
      · rw [hboard]
        exact hsound
      · simp [next, scoreNext, locked, removed, hlock, hfull]
    | some k =>
      rw [hfull, Option.elim_some] at hboard
      refine ⟨?_, ?_, ?_⟩
      · rw [hboard, locked, removed, hlock, hfull]
        exact card_clear (full_of_lastFull hfull)
      · rw [hboard]
        exact sound_clear hsound k
      · simp [next, scoreNext, locked, removed, hlock, hfull]
  | true =>
    cases hfull : lastFull s.gameboard with
    | none =>
      have hnot : ¬(true = true ∧ (none : Option (Fin 20)).isSome = true) := by simp
      rw [iff_true_right hnot]
      have hboard : (s.next i).gameboard = s.merged i := by
        simp [next, gameboardNext, hover, hlock, hfull]
      refine ⟨?_, ?_, ?_⟩
      · rw [hboard, locked, removed, hlock, hfull]
        exact card_lock hfree hwell
      · rw [hboard]
        exact sound_add hsound hfree hwell
      · simp [next, scoreNext, locked, removed, hlock, hfull]
    | some k =>
      have hboth : true = true ∧ (some k).isSome = true := ⟨rfl, rfl⟩
      rw [iff_false_right (not_not_intro hboth)]
      intro h
      have hpoints := h.points
      simp [next, scoreNext, locked, removed, hlock, hfull] at hpoints

/-- The game with the bar at the height `y`, when it falls next. -/
def falling (g : Board) (y : BitVec 5) (score : BitVec 24) : Ball :=
  { powerUp.reset with gameboard := g, ypos := y, counter := 63, score := score }

theorem bookkept_iff_floor : Bookkept (play [] 0) (falling emptyBoard 17 0) :=
  (bookkept_iff (falling emptyBoard 17 0) (play [] 0) ⟨by decide, by decide, by decide⟩
    (by unfold InWell; decide) (by decide) (by decide +kernel)).mpr
    fun h => absurd h.2 (by decide)

/-- The second of two full rows is still there when the next piece, which falls by a row in
every frame, lands on it. -/
def secondRow : Board := fun i => if i.val = 3 then floorRow else emptyBoard i

/-- The points of the landed piece are lost. -/
theorem not_bookkept_secondRow :
    Sound secondRow ∧
    InWell (falling secondRow 0 253952).row 0 4 ∧
    ¬Hits secondRow (falling secondRow 0 253952).row 0 4 ∧
    (falling secondRow 0 253952).gameOver (play [] 0) = false ∧
    ¬Bookkept (play [] 0) (falling secondRow 0 253952) := by
  refine ⟨⟨by decide, by decide, by decide⟩, by unfold InWell; decide, by decide,
    by decide +kernel, fun h => ?_⟩
  have hpoints := h.points
  revert hpoints
  decide +kernel

end Ball

end ECE385.Tetris
