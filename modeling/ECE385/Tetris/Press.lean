import ECE385.Tetris.Board

/-!
# A press of a key

A key that moves the piece sets the motion and `pressed` together.  But a frame with `pressed = 0`
clears the motion, and this later assignment wins in the first frame of the press, where the
register `pressed` is still `0`.  So the motion stands from the second frame of the press on, and
is added to the position in the second frame of the release.

* `Holding`: the state, when the key has been held for some frames.
* `one_cell_iff`: a press moves the piece by one cell, unless it is one frame long.
-/

namespace ECE385.Tetris

open Clocked

/-- The registers of the piece: what is shown, and what waits. -/
structure Piece where
  blockType : BitVec 3
  orientation : BitVec 2
  xpos : BitVec 4
  ypos : BitVec 5
  newtype : BitVec 3
  neworientation : BitVec 2
  midorientation : BitVec 2

namespace Piece

/-- Nothing waits. -/
def Settled (p : Piece) : Prop := p.newtype = p.blockType ∧ p.neworientation = p.orientation

/-- The piece moved by the motions `m`. -/
def shift (m : BitVec 10 × BitVec 10) (p : Piece) : Piece :=
  { p with xpos := p.xpos + m.1.setWidth 4, ypos := p.ypos + m.2.setWidth 5 }

theorem shift_zero (p : Piece) : p.shift (0, 0) = p := by
  simp [shift]

end Piece

/-- The keys that move the piece. -/
inductive Key
  | left | right | down

namespace Key

def code : Key → BitVec 8
  | left => 0x04#8
  | right => 0x07#8
  | down => 0x16#8

/-- The collision test of the key. -/
def test (i : Input) (s : Ball) : Key → BitVec 4
  | left => s.testLeft i
  | right => s.testRight i
  | down => s.testDown i

/-- One cell on. -/
def moved (p : Piece) : Key → Piece
  | left => { p with xpos := p.xpos - 1 }
  | right => { p with xpos := p.xpos + 1 }
  | down => { p with ypos := p.ypos + 1 }

/-- What the key sets the motions to. -/
def motion : Key → BitVec 10 × BitVec 10
  | left => (~~~1 + 1, 0)
  | right => (1, 0)
  | down => (0, 1)

theorem shift_motion (k : Key) (p : Piece) : p.shift k.motion = k.moved p := by
  cases k with
  | left =>
    have hleft : (~~~1 + 1 : BitVec 10).setWidth 4 = -1#4 := by decide
    simp only [Piece.shift, motion, moved, hleft, BitVec.sub_eq_add_neg]
    simp
  | right => simp [Piece.shift, motion, moved]
  | down => simp [Piece.shift, motion, moved]

theorem moved_ne (k : Key) (p : Piece) : k.moved p ≠ p := by
  have hleft : ∀ x : BitVec 4, x - 1 ≠ x := by decide
  cases k with
  | left => exact fun h => hleft p.xpos (congrArg Piece.xpos h)
  | right =>
    intro h
    have hx := congrArg Piece.xpos h
    simp [moved] at hx
  | down =>
    intro h
    have hy := congrArg Piece.ypos h
    simp [moved] at hy

end Key

/-- None of the keys of the game is pressed. -/
def Released (i : Input) : Prop :=
  i.keycode ≠ 0x04#8 ∧ i.keycode ≠ 0x07#8 ∧ i.keycode ≠ 0x16#8 ∧ i.keycode ≠ 0x52#8 ∧
    i.keycode ≠ 0x51#8

instance (i : Input) : Decidable (Released i) := inferInstanceAs (Decidable (_ ∧ _))

namespace Ball

def piece (s : Ball) : Piece where
  blockType := s.blockType
  orientation := s.orientation
  xpos := s.xpos
  ypos := s.ypos
  newtype := s.newtype
  neworientation := s.neworientation
  midorientation := s.midorientation

def motion (s : Ball) : BitVec 10 × BitVec 10 := (s.blockXMotion, s.blockYMotion)

/-- No key is held, nothing waits and no row is full. -/
structure Idle (s : Ball) : Prop where
  pressed : s.pressed = false
  motion : s.motion = (0, 0)
  settled : s.piece.Settled
  noFull : lastFull s.gameboard = none

variable {s u : Ball} {i j : Input} {k : Key}

/-! ### One frame -/

theorem locks_of_still (hmove : s.move = false) : s.locks i = false := by
  rw [locks, hmove, Bool.false_and]

theorem gameboard_still (hmove : s.move = false) (hnone : lastFull s.gameboard = none) :
    (s.next i).gameboard = s.gameboard := by
  rw [gameboard_of_not_locks (locks_of_still hmove), hnone, Option.elim_none]

theorem turns_key (h : i.keycode = k.code) : turns i = false := by
  rw [turns, h]
  cases k <;> rfl

theorem turns_released (h : Released i) : turns i = false := by
  obtain ⟨-, -, -, h52, h51⟩ := h
  simp [turns, h52, h51]

/-- The waiting motion is added while no key is registered as pressed. -/
theorem piece_next (hmove : s.move = false) (hturn : turns i = false) (hset : s.piece.Settled) :
    (s.next i).piece = if s.pressed then s.piece else s.piece.shift s.motion := by
  have hlock := locks_of_still (i := i) hmove
  obtain ⟨htype, horient⟩ : s.newtype = s.blockType ∧ s.neworientation = s.orientation := hset
  obtain ⟨h52, h51⟩ : i.keycode ≠ 0x52#8 ∧ i.keycode ≠ 0x51#8 := by
    simpa [turns] using hturn
  cases hp : s.pressed with
  | false =>
    simp [piece, next, xposNext, yposNext, newtypeNext, neworientationNext, midorientationNext,
      Piece.shift, motion, hlock, hmove, hturn, hp, htype, horient, h52, h51]
  | true =>
    simp [piece, next, xposNext, yposNext, newtypeNext, neworientationNext, midorientationNext,
      hlock, hmove, hturn, hp, h52, h51]

theorem pressed_key (h : i.keycode = k.code) :
    (s.next i).pressed = (k.test i s == 0 || s.pressed) := by
  cases k with
  | left => simp [next, pressedNext, h, Key.code, Key.test]
  | right => simp [next, pressedNext, h, Key.code, Key.test]
  | down => simp [next, pressedNext, h, Key.code, Key.test]

theorem motion_key (h : i.keycode = k.code) (hclear : k.test i s = 0) (hp : s.pressed = true) :
    (s.next i).motion = k.motion := by
  cases k with
  | left =>
    have htest : s.testLeft i = 0 := hclear
    simp [motion, next, blockXMotionNext, blockYMotionNext, h, hp, Key.code, Key.motion, htest]
  | right =>
    have htest : s.testRight i = 0 := hclear
    simp [motion, next, blockXMotionNext, blockYMotionNext, h, hp, Key.code, Key.motion, htest]
  | down =>
    have htest : s.testDown i = 0 := hclear
    simp [motion, next, blockXMotionNext, blockYMotionNext, h, hp, Key.code, Key.motion, htest]

theorem motion_blocked (h : i.keycode = k.code) (hblocked : k.test i s ≠ 0) :
    (s.next i).motion = (0, 0) := by
  cases k with
  | left =>
    have htest : ¬s.testLeft i = 0#4 := hblocked
    simp [motion, next, blockXMotionNext, blockYMotionNext, h, Key.code, htest]
  | right =>
    have htest : ¬s.testRight i = 0#4 := hblocked
    simp [motion, next, blockXMotionNext, blockYMotionNext, h, Key.code, htest]
  | down =>
    have htest : ¬s.testDown i = 0#4 := hblocked
    simp [motion, next, blockXMotionNext, blockYMotionNext, h, Key.code, htest]

theorem motion_kept (h : ∀ k : Key, i.keycode ≠ k.code) (hp : s.pressed = true) :
    (s.next i).motion = s.motion := by
  have h04 : i.keycode ≠ 0x04#8 := h .left
  have h07 : i.keycode ≠ 0x07#8 := h .right
  have h16 : i.keycode ≠ 0x16#8 := h .down
  simp [motion, next, blockXMotionNext, blockYMotionNext, h04, h07, h16, hp]

theorem motion_not_pressed (h : s.pressed = false) : (s.next i).motion = (0, 0) := by
  simp [motion, next, blockXMotionNext, blockYMotionNext, h]

theorem pressed_released (h : Released i) : (s.next i).pressed = false := by
  have hturn := turns_released h
  obtain ⟨h04, h07, h16, -, -⟩ := h
  simp [next, pressedNext, h04, h07, h16, hturn]

theorem motion_released (h : Released i) (hp : s.pressed = true) :
    (s.next i).motion = s.motion := by
  obtain ⟨h04, h07, h16, -, -⟩ := h
  refine motion_kept (fun k => ?_) hp
  cases k with
  | left => exact h04
  | right => exact h07
  | down => exact h16

/-- The tests read the board and the piece. -/
theorem test_congr (hpiece : u.piece = s.piece) (hboard : u.gameboard = s.gameboard) :
    k.test i u = k.test i s := by
  obtain ⟨htype, horient, hx, hy, -⟩ := Piece.mk.inj hpiece
  have hrow : u.row = s.row := by
    funext n
    rw [row, row, htype, horient]
  cases k with
  | left => rw [Key.test, Key.test, testLeft, testLeft, hrow, hboard, hx, hy]
  | right => rw [Key.test, Key.test, testRight, testRight, hrow, hboard, hx, hy]
  | down => rw [Key.test, Key.test, testDown, testDown, hrow, hboard, hx, hy]

/-! ### A press -/

/-- The state `u` after `t` frames in which the key was held and its test was clear. -/
structure Holding (k : Key) (s : Ball) (t : ℕ) (u : Ball) : Prop where
  piece : u.piece = s.piece
  gameboard : u.gameboard = s.gameboard
  pressed : u.pressed = decide (1 ≤ t)
  motion : u.motion = if 2 ≤ t then k.motion else (0, 0)

variable {w : ℕ → Input} {n t : ℕ}

theorem Idle.holding (h : s.Idle) : Holding k s 0 s := ⟨rfl, rfl, h.pressed, h.motion⟩

/-- While the piece rests, or is held, a frame leaves it where it is. -/
theorem Holding.next_piece (h : Holding k s t u) (hidle : s.Idle) (hmove : u.move = false)
    (hturn : turns i = false) :
    (u.next i).piece = if u.pressed then s.piece else s.piece.shift u.motion := by
  have hset : u.piece.Settled := by
    rw [h.piece]
    exact hidle.settled
  rw [piece_next hmove hturn hset, h.piece]

theorem Holding.next_gameboard (h : Holding k s t u) (hidle : s.Idle) (hmove : u.move = false) :
    (u.next i).gameboard = s.gameboard := by
  rw [gameboard_still hmove (h.gameboard ▸ hidle.noFull), h.gameboard]

/-- One more frame of the press. -/
theorem Holding.held (h : Holding k s t u) (hidle : s.Idle) (hmove : u.move = false)
    (hkey : i.keycode = k.code) (hclear : k.test i s = 0) : Holding k s (t + 1) (u.next i) := by
  have htest : k.test i u = 0 := by rw [test_congr h.piece h.gameboard, hclear]
  have hpiece := h.next_piece hidle hmove (turns_key hkey)
  have hboard := h.next_gameboard (i := i) hidle hmove
  have hpressed : (u.next i).pressed = true := by
    rw [pressed_key hkey, htest]
    rfl
  rcases Nat.eq_zero_or_pos t with rfl | ht
  · have hp : u.pressed = false := h.pressed
    have hm : u.motion = (0, 0) := h.motion
    rw [hp, hm, Piece.shift_zero, ite_self] at hpiece
    exact ⟨hpiece, hboard, hpressed, motion_not_pressed hp⟩
  · have hp : u.pressed = true := h.pressed.trans (decide_eq_true ht)
    rw [hp, if_pos rfl] at hpiece
    refine ⟨hpiece, hboard, hpressed.trans (decide_eq_true (by omega)).symm, ?_⟩
    rw [motion_key hkey htest hp, if_pos (by omega)]

/-- A frame that is not one of the press leaves a resting piece alone. -/
theorem Holding.rest (h : Holding k s 0 u) (hidle : s.Idle) (hmove : u.move = false)
    (hturn : turns i = false) (hpressed : (u.next i).pressed = false) :
    Holding k s 0 (u.next i) := by
  have hp : u.pressed = false := h.pressed
  have hm : u.motion = (0, 0) := h.motion
  have hpiece := h.next_piece hidle hmove hturn
  rw [hp, hm, Piece.shift_zero, ite_self] at hpiece
  exact ⟨hpiece, h.next_gameboard hidle hmove, hpressed, motion_not_pressed hp⟩

/-- **The release**: its second frame adds the motion that the press has left. -/
theorem Holding.released (h : Holding k s t u) (ht : 1 ≤ t) (hidle : s.Idle)
    (hi : Released i) (hj : Released j) (hmove : u.move = false)
    (hmove' : (u.next i).move = false) :
    ((u.next i).next j).piece = s.piece.shift (if 2 ≤ t then k.motion else (0, 0)) := by
  have hp : u.pressed = true := h.pressed.trans (decide_eq_true ht)
  have hpiece := h.next_piece hidle hmove (turns_released hi)
  rw [hp, if_pos rfl] at hpiece
  have hset : (u.next i).piece.Settled := by
    rw [hpiece]
    exact hidle.settled
  rw [piece_next hmove' (turns_released hj) hset, pressed_released hi, hpiece,
    motion_released hi hp, h.motion]
  rfl

/-- The key is held for `n` frames and then released for two, without gravity. -/
structure Press (k : Key) (w : ℕ → Input) (s : Ball) (n : ℕ) : Prop where
  held : ∀ t < n, (w t).keycode = k.code
  released : ∀ t < n + 2, n ≤ t → Released (w t)
  still : ∀ t < n + 2, (run next w s t).move = false

theorem Press.holding (h : Press k w s n) (hidle : s.Idle)
    (hclear : ∀ t < n, k.test (w t) s = 0) : ∀ t ≤ n, Holding k s t (run next w s t) := by
  intro t
  induction t with
  | zero => exact fun _ => hidle.holding
  | succ t ih =>
    intro ht
    exact (ih (by omega)).held hidle (h.still t (by omega)) (h.held t ht) (hclear t ht)

theorem Press.moves (h : Press k w s n) (hidle : s.Idle) (hn : 1 ≤ n)
    (hclear : ∀ t < n, k.test (w t) s = 0) :
    (run next w s (n + 2)).piece = s.piece.shift (if 2 ≤ n then k.motion else (0, 0)) :=
  (h.holding hidle hclear n (Nat.le_refl n)).released hn hidle
    (h.released n (by omega) (by omega)) (h.released (n + 1) (by omega) (by omega))
    (h.still n (by omega)) (h.still (n + 1) (by omega))

theorem Press.rests (h : Press k w s n) (hidle : s.Idle)
    (hblocked : ∀ t < n, k.test (w t) s ≠ 0) :
    ∀ t ≤ n + 2, Holding k s 0 (run next w s t) := by
  intro t
  induction t with
  | zero => exact fun _ => hidle.holding
  | succ t ih =>
    intro ht
    have hrest := ih (by omega)
    have hmove := h.still t (by omega)
    rcases Nat.lt_or_ge t n with hlt | hge
    · have hkey := h.held t hlt
      refine hrest.rest hidle hmove (turns_key hkey) ?_
      rw [pressed_key hkey, test_congr hrest.piece hrest.gameboard, hrest.pressed,
        beq_false_of_ne (hblocked t hlt)]
      rfl
    · have hrel := h.released t (by omega) hge
      exact hrest.rest hidle hmove (turns_released hrel) (pressed_released hrel)

/-- A press moves the piece one cell if the test is clear, and not at all if it is blocked. -/
structure OneCell (k : Key) (w : ℕ → Input) (s : Ball) (n : ℕ) : Prop where
  clear : (∀ t < n, k.test (w t) s = 0) → (run next w s (n + 2)).piece = k.moved s.piece
  blocked : (∀ t < n, k.test (w t) s ≠ 0) → (run next w s (n + 2)).piece = s.piece

/-- **A press moves the piece by one cell** exactly if it lasts two frames, or was not allowed to
move it. -/
theorem one_cell_iff (k : Key) (w : ℕ → Input) (s : Ball) (n : ℕ) (hn : 1 ≤ n) (hidle : s.Idle)
    (hpress : Press k w s n) : OneCell k w s n ↔ 2 ≤ n ∨ ∃ t < n, k.test (w t) s ≠ 0 := by
  constructor
  · intro h
    by_contra hnot
    obtain ⟨hlt, hnone⟩ := not_or.mp hnot
    have hclear : ∀ t < n, k.test (w t) s = 0 := by
      intro t ht
      by_contra hne
      exact hnone ⟨t, ht, hne⟩
    have hstay := hpress.moves hidle hn hclear
    rw [if_neg hlt, Piece.shift_zero, h.clear hclear] at hstay
    exact k.moved_ne s.piece hstay
  · intro h
    refine ⟨fun hclear => ?_, fun hblocked => ?_⟩
    · have htwo : 2 ≤ n := by
        rcases h with htwo | ⟨t, ht, hne⟩
        · exact htwo
        · exact absurd (hclear t ht) hne
      rw [hpress.moves hidle hn hclear, if_pos htwo, k.shift_motion]
    · exact (hpress.rests hidle hblocked (n + 2) (Nat.le_refl _)).piece

theorem idle_reset : powerUp.reset.Idle := ⟨rfl, rfl, ⟨rfl, rfl⟩, by decide⟩

theorem press_left {n : ℕ} (h : n ≤ 2) : Press .left (play [(0x04, n)]) powerUp.reset n := by
  rcases (show n = 0 ∨ n = 1 ∨ n = 2 by omega) with rfl | rfl | rfl
  all_goals exact ⟨by decide, by decide, by decide⟩

/-- A press of two frames. -/
theorem one_cell_iff_two :
    (run next (play [(0x04, 2)]) powerUp.reset 4).piece = Key.left.moved powerUp.reset.piece :=
  ((one_cell_iff .left _ powerUp.reset 2 (by decide) idle_reset
    (press_left (by decide))).mpr (.inl (Nat.le_refl 2))).clear (by decide)

/-- A press of one frame. -/
theorem one_frame_lost :
    ¬∀ (k : Key) (w : ℕ → Input) (s : Ball) (n : ℕ), 1 ≤ n → s.Idle → Press k w s n →
      OneCell k w s n := by
  intro h
  have hmoved := (h .left (play [(0x04, 1)]) powerUp.reset 1 (by decide) idle_reset
    (press_left (by decide))).clear (by decide)
  have hx := congrArg Piece.xpos hmoved
  revert hx
  decide

end Ball

end ECE385.Tetris
