import ECE385.Blocks.Connected
import ECE385.Tetris.Bookkeeping
import ECE385.Tetris.Collision

/-!
# The piece stays in the well

Type, orientation, column and row of the piece are changed together and with no test, so a piece
might get past a wall.  But in one frame it gets no further than one cell, and it is connected: as
long as it is free of the board it is inside the well.

* `inWell_of_free`: a free piece with one cell in the well or in its walls.
* `Confined`: what the frames keep.
* `confined_next`: one frame.
-/

namespace ECE385.Tetris

open Bits Blocks Grid

/-! ### The pieces -/

theorem connected_boxCells (blockType : BitVec 3) (orientation : BitVec 2) :
    Connected (boxCells (rowOf blockType orientation)) := by
  revert blockType orientation
  decide +kernel

theorem exists_row_two (blockType : BitVec 3) (orientation : BitVec 2) :
    ∃ j < 4, (rowOf blockType orientation 2).getLsbD j = true := by
  revert blockType orientation
  decide +kernel

theorem exists_middle (blockType : BitVec 3) (orientation : BitVec 2) :
    ∃ k < 4, ∃ j < 3, 0 < j ∧ (rowOf blockType orientation k).getLsbD j = true := by
  revert blockType orientation
  decide +kernel

/-- When `S` moves down by `dy` and to the column before `dx`, and becomes `S'`, some cell is at
most one further than those of `S`. -/
def Reaches (S S' : Finset (ℕ × ℕ)) (dy dx : ℕ) : Prop :=
  ∃ q ∈ S', (∃ p ∈ S, q.1 + dy ≤ p.1 + 1) ∧ (∃ p ∈ S, p.2 ≤ q.2 + dx) ∧
    ∃ p ∈ S, q.2 + dx ≤ p.2 + 2

instance (S S' : Finset (ℕ × ℕ)) (dy dx : ℕ) : Decidable (Reaches S S' dy dx) :=
  inferInstanceAs (Decidable (∃ q ∈ S', _ ∧ _ ∧ _))

/-- However a piece is turned meanwhile. -/
theorem reaches_rowOf (blockType : BitVec 3) (o o' : BitVec 2) : ∀ dy < 2, ∀ dx < 3,
    Reaches (boxCells (rowOf blockType o)) (boxCells (rowOf blockType o')) dy dx := by
  revert blockType o o'
  decide +kernel

/-! ### The well -/

/-- The cells between the walls. -/
def well : Finset (ℕ × ℕ) := Finset.range 20 ×ˢ Finset.Icc 3 12

variable {g : Board} {rows : ℕ → BitVec 4} {t : BitVec 3} {o : BitVec 2} {r c : ℕ}

theorem mem_well : (r, c) ∈ well ↔ r < 20 ∧ 3 ≤ c ∧ c ≤ 12 := by
  rw [well, Finset.mem_product, Finset.mem_range, Finset.mem_Icc]

theorem inWell_iff : InWell rows r c ↔ moved r c (boxCells rows) ⊆ well := by
  refine ⟨?_, ?_⟩
  · rintro h ⟨r', c'⟩ hp
    exact mem_well.mpr (covers_inWell h (mem_moved_boxCells.mp hp))
  · intro h k hk j hj hrow
    exact mem_well.mp (h (mem_moved.mpr ⟨k, j, mem_boxCells.mpr ⟨hk, hj, hrow⟩, rfl⟩))

theorem bit_of_free (hfree : ¬Hits g rows r c) {p : ℕ × ℕ} (hp : p ∈ moved r c (boxCells rows)) :
    g.bit p.1 p.2 = false := by
  obtain ⟨k, j, hkj, rfl⟩ := mem_moved.mp hp
  obtain ⟨hk, hj, hrow⟩ := mem_boxCells.mp hkj
  exact not_hits_iff.mp hfree k hk j hj hrow

theorem bit_floorRow {c : ℕ} (h2 : 2 ≤ c) (h13 : c ≤ 13) : floorRow.getLsbD c = true := by
  have hall : ∀ c < 14, 2 ≤ c → floorRow.getLsbD c = true := by decide
  exact hall c (by omega) h2

/-- The walls and the floor close the well. -/
theorem Sound.border (h : Sound g) (hr : r ≤ 20) (h2 : 2 ≤ c) (h13 : c ≤ 13) :
    (r, c) ∈ well ∨ g.bit r c = true := by
  rw [mem_well]
  by_cases hfloor : r = 20
  · rw [hfloor, h.floor c (by omega), bit_floorRow h2 h13]
    exact .inr rfl
  · by_cases hleft : c = 2
    · exact .inr (hleft ▸ h.left r (by omega))
    · by_cases hright : c = 13
      · exact .inr (hright ▸ h.right r (by omega))
      · exact .inl (by omega)

/-- **A free piece** with one cell in the well or in its walls is inside the well. -/
theorem inWell_of_free (hsound : Sound g) (hfree : ¬Hits g (rowOf t o) r c)
    (hone : ∃ q ∈ boxCells (rowOf t o), r + q.1 ≤ 20 ∧ 2 ≤ c + q.2 ∧ c + q.2 ≤ 13) :
    InWell (rowOf t o) r c := by
  rw [inWell_iff]
  refine ((connected_boxCells t o).moved r c).subset (B := fun p => g.bit p.1 p.2 = true) ?_ ?_ ?_
  · rintro ⟨r', c'⟩ hp ⟨r'', c''⟩ htouches
    rw [mem_well] at hp
    simp only [Touches] at htouches
    exact hsound.border (by omega) (by omega) (by omega)
  · intro p hp
    rw [bit_of_free hfree hp]
    exact Bool.false_ne_true
  · obtain ⟨q, hq, hr, h2, h13⟩ := hone
    have hmem : (r + q.1, c + q.2) ∈ moved r c (boxCells (rowOf t o)) :=
      Finset.mem_image_of_mem (fun p : ℕ × ℕ => (r + p.1, c + p.2)) hq
    refine ⟨_, hmem, (hsound.border hr h2 h13).resolve_right ?_⟩
    rw [bit_of_free hfree hmem]
    exact Bool.false_ne_true

theorem inWell_bounds (h : InWell (rowOf t o) r c) : r ≤ 17 ∧ 1 ≤ c ∧ c ≤ 11 := by
  obtain ⟨j, hj, hrow⟩ := exists_row_two t o
  obtain ⟨k, hk, j', hj', hpos, hmiddle⟩ := exists_middle t o
  have hlow := h 2 (by omega) j hj hrow
  have hcol := h k hk j' (by omega) hmiddle
  omega

/-- A new piece. -/
theorem inWell_entry : InWell rows 0 4 := fun k hk j hj _ => by omega

/-- The piece moves by at most a cell. -/
theorem inWell_near {o' : BitVec 2} {r' c' dy dx : ℕ} (hsound : Sound g)
    (hwell : InWell (rowOf t o) r c) (hfree : ¬Hits g (rowOf t o') r' c') (hdy : dy < 2)
    (hdx : dx < 3) (hr : r' = r + dy) (hc : c' + 1 = c + dx) : InWell (rowOf t o') r' c' := by
  obtain ⟨q, hq, ⟨p₁, hp₁, hrow⟩, ⟨p₂, hp₂, hleft⟩, p₃, hp₃, hright⟩ :=
    reaches_rowOf t o o' dy hdy dx hdx
  refine inWell_of_free hsound hfree ⟨q, hq, ?_⟩
  obtain ⟨hk₁, hj₁, hbit₁⟩ := mem_boxCells.mp hp₁
  obtain ⟨hk₂, hj₂, hbit₂⟩ := mem_boxCells.mp hp₂
  obtain ⟨hk₃, hj₃, hbit₃⟩ := mem_boxCells.mp hp₃
  have h₁ := hwell p₁.1 hk₁ p₁.2 hj₁ hbit₁
  have h₂ := hwell p₂.1 hk₂ p₂.2 hj₂ hbit₂
  have h₃ := hwell p₃.1 hk₃ p₃.2 hj₃ hbit₃
  omega

/-- A piece near the middle of the well. -/
theorem inWell_middle {r' c' : ℕ} (hsound : Sound g) (hfree : ¬Hits g (rowOf t o) r' c')
    (hr : r' ≤ 18) (h3 : 3 ≤ c') (h5 : c' ≤ 5) : InWell (rowOf t o) r' c' := by
  obtain ⟨j, hj, hrow⟩ := exists_row_two t o
  have hmem : (2, j) ∈ boxCells (rowOf t o) := mem_boxCells.mpr ⟨by omega, hj, hrow⟩
  exact inWell_of_free hsound hfree ⟨(2, j), hmem, by simp only; omega⟩

/-! ### One frame -/

namespace Ball

variable {s : Ball} {i : Input}

/-- The piece is inside the well, and what waits for a commit does not take it far. -/
structure Confined (s : Ball) : Prop where
  sound : Sound s.gameboard
  inWell : InWell s.row s.ypos.toNat s.xpos.toNat
  free : ¬s.Overlaps
  motionX : s.blockXMotion = 0 ∨ s.blockXMotion = 1 ∨ s.blockXMotion = ~~~1 + 1
  motionY : s.blockYMotion = 0 ∨ s.blockYMotion = 1
  entry : s.newtype ≠ s.blockType → s.xpos = 4

theorem confined_reset : Confined powerUp.reset := by
  refine ⟨⟨by decide, by decide, by decide⟩, inWell_entry, not_overlaps_reset, .inl rfl, .inl rfl,
    fun _ => rfl⟩

theorem motionX_next (h : Confined s) : (s.next i).blockXMotion = 0 ∨
    (s.next i).blockXMotion = 1 ∨ (s.next i).blockXMotion = ~~~1 + 1 := by
  simp only [next, blockXMotionNext]
  split_ifs
  · exact .inl rfl
  · exact .inl rfl
  · exact .inr (.inr rfl)
  · exact .inl rfl
  · exact .inr (.inl rfl)
  · exact .inl rfl
  · exact h.motionX

theorem motionY_next (h : Confined s) :
    (s.next i).blockYMotion = 0 ∨ (s.next i).blockYMotion = 1 := by
  simp only [next, blockYMotionNext]
  split_ifs
  · exact .inl rfl
  · exact .inl rfl
  · exact .inl rfl
  · exact .inl rfl
  · exact .inr rfl
  · exact h.motionY

theorem entry_next (h : Confined s) (hover : s.gameOver i = false) :
    (s.next i).newtype ≠ (s.next i).blockType → (s.next i).xpos = 4 := by
  intro hne
  rw [next_xpos hover, aimX]
  cases hlock : s.locks i with
  | true => rfl
  | false =>
    have hnewtype : (s.next i).newtype = s.newtype := by simp [next, newtypeNext, hlock]
    cases hp : s.pressed with
    | true =>
      have htype : (s.next i).blockType = s.blockType := by simp [next, hp]
      exact h.entry (hnewtype ▸ htype ▸ hne)
    | false =>
      have htype : (s.next i).blockType = s.newtype := by simp [next, hp]
      exact absurd (hnewtype.trans htype.symm) hne

/-- The column moves by at most one. -/
theorem aimX_near (h : Confined s) (hlock : s.locks i = false) :
    ∃ dx < 3, (s.aimX i).toNat + 1 = s.xpos.toNat + dx := by
  obtain ⟨-, hlow, hhigh⟩ := inWell_bounds h.inWell
  cases hp : s.pressed with
  | true => exact ⟨1, by omega, by simp [aimX, hlock, hp]⟩
  | false =>
    have haim : s.aimX i = s.xpos + s.blockXMotion.setWidth 4 := by simp [aimX, hlock, hp]
    rw [haim, BitVec.toNat_add]
    rcases h.motionX with hm | hm | hm
    · rw [hm]
      exact ⟨1, by omega, by simp; omega⟩
    · rw [hm]
      exact ⟨2, by omega, by simp; omega⟩
    · rw [hm]
      exact ⟨0, by omega, by simp; omega⟩

/-- The row grows by at most one, and with gravity it does. -/
theorem aimY_near (h : Confined s) (hlock : s.locks i = false) :
    ∃ dy < 2, (s.aimY i).toNat = s.ypos.toNat + dy ∧ (s.move = true → dy = 1) := by
  obtain ⟨hrow, -, -⟩ := inWell_bounds h.inWell
  cases hmove : s.move with
  | true =>
    have haim : s.aimY i = s.ypos + 1 := by simp [aimY, hlock, hmove]
    refine ⟨1, by omega, ?_, fun _ => rfl⟩
    rw [haim, BitVec.toNat_add]
    simp
    omega
  | false =>
    have hno : false = true → ∀ n : ℕ, n = 1 := fun h => absurd h Bool.false_ne_true
    cases hp : s.pressed with
    | true => exact ⟨0, by omega, by simp [aimY, hlock, hmove, hp], fun h => hno h _⟩
    | false =>
      have haim : s.aimY i = s.ypos + s.blockYMotion.setWidth 5 := by simp [aimY, hlock, hmove, hp]
      rw [haim, BitVec.toNat_add]
      rcases h.motionY with hm | hm
      · rw [hm]
        exact ⟨0, by omega, by simp; omega, fun h => hno h _⟩
      · rw [hm]
        exact ⟨1, by omega, by simp; omega, fun h => hno h _⟩

theorem sound_next (h : Confined s) (hover : s.gameOver i = false)
    (hlock : s.locks i = true → lastFull s.gameboard = none) : Sound (s.next i).gameboard := by
  cases hlocks : s.locks i with
  | true =>
    have hboard : (s.next i).gameboard = s.merged i := by
      simp [next, gameboardNext, hover, hlocks, hlock hlocks]
    rw [hboard]
    exact sound_add h.sound h.free h.inWell
  | false =>
    rw [gameboard_of_not_locks hlocks]
    cases lastFull s.gameboard with
    | none => exact h.sound
    | some k => exact sound_clear h.sound k

theorem inWell_next (h : Confined s) (hover : s.gameOver i = false)
    (hsound : Sound (s.next i).gameboard) (hfree : ¬(s.next i).Overlaps) :
    InWell (s.next i).row (s.next i).ypos.toNat (s.next i).xpos.toNat := by
  rw [Overlaps, next_row, next_ypos hover, next_xpos hover] at hfree
  rw [next_row, next_ypos hover, next_xpos hover]
  cases hlock : s.locks i with
  | true =>
    have haim : s.aimX i = 4 ∧ s.aimY i = 0 := by simp [aimX, aimY, hlock]
    rw [haim.1, haim.2]
    exact inWell_entry
  | false =>
    obtain ⟨dx, hdx, hx⟩ := aimX_near h hlock
    obtain ⟨dy, hdy, hy, -⟩ := aimY_near h hlock
    cases hp : s.pressed with
    | true =>
      have hshown : s.shown = s.row := by rw [shown, hp, if_pos rfl]
      rw [hshown] at hfree ⊢
      exact inWell_near hsound h.inWell hfree hdy hdx hy hx
    | false =>
      have hshown : s.shown = rowOf s.newtype s.neworientation := by
        rw [shown, hp, if_neg Bool.false_ne_true, waitingRow]
      rw [hshown] at hfree ⊢
      by_cases hsame : s.newtype = s.blockType
      · rw [hsame] at hfree ⊢
        exact inWell_near hsound h.inWell hfree hdy hdx hy hx
      · have hentry : s.xpos.toNat = 4 := congrArg BitVec.toNat (h.entry hsame)
        obtain ⟨hrow, -, -⟩ := inWell_bounds h.inWell
        exact inWell_middle hsound hfree (by omega) (by omega) (by omega)

/-- **One frame** keeps the piece in the well if it leads it to free cells, and locks no piece while
a row is full. -/
theorem confined_next (h : Confined s) (hover : s.gameOver i = false)
    (hlock : s.locks i = true → lastFull s.gameboard = none) (hfree : ¬(s.next i).Overlaps) :
    Confined (s.next i) := by
  have hsound := sound_next h hover hlock
  exact ⟨hsound, inWell_next h hover hsound hfree, hfree, motionX_next h, motionY_next h,
    entry_next h hover⟩

end Ball

end ECE385.Tetris
