import ECE385.Tetris.Board

/-!
# What survives a reset

`Reset` leaves five registers alone: `newtype`, `neworientation`, `midorientation` and the two
motions of the block.  The first frame commits all but `midorientation`, which reaches
the piece by a turn.

* `SameGame`: the registers of two games agree, the motions as far as the position
  sees them.
* `next_sameGame`: a frame keeps that.
* `reset_erases_iff`: two games look alike from a reset on exactly if they agree on
  the five registers before it.
-/

namespace ECE385.Tetris

open Bits Clocked Grid

namespace Ball

/-- What the game shows. -/
structure Output where
  gameboard : Board
  BlockX : BitVec 4
  BlockY : BitVec 5
  orientation : BitVec 2
  blockType : BitVec 3
  score : BitVec 24

def output (s : Ball) : Output where
  gameboard := s.gameboard
  BlockX := s.xpos
  BlockY := s.ypos
  orientation := s.orientation
  blockType := s.blockType
  score := s.score

/-- The games agree on the registers that `Reset` leaves alone, on the motions as far as the
position sees them. -/
structure SamePending (s t : Ball) : Prop where
  newtype : s.newtype = t.newtype
  neworientation : s.neworientation = t.neworientation
  midorientation : s.midorientation = t.midorientation
  blockXMotion : s.blockXMotion.setWidth 4 = t.blockXMotion.setWidth 4
  blockYMotion : s.blockYMotion.setWidth 5 = t.blockYMotion.setWidth 5

/-- The games agree on everything the outputs will see. -/
structure SameGame (s t : Ball) : Prop extends SamePending s t where
  gameboard : s.gameboard = t.gameboard
  blockType : s.blockType = t.blockType
  orientation : s.orientation = t.orientation
  xpos : s.xpos = t.xpos
  ypos : s.ypos = t.ypos
  pressed : s.pressed = t.pressed
  counter : s.counter = t.counter
  score : s.score = t.score
  randNum : s.randNum = t.randNum

variable {s t : Ball}

theorem SameGame.output (h : SameGame s t) : s.output = t.output := by
  simp [Ball.output, h.gameboard, h.xpos, h.ypos, h.orientation, h.blockType, h.score]

theorem sameGame_reset (h : SamePending s t) : SameGame s.reset t.reset :=
  { h with
    gameboard := rfl, blockType := rfl, orientation := rfl, xpos := rfl, ypos := rfl,
    pressed := rfl, counter := rfl, score := rfl, randNum := rfl }

/-! ### One frame -/

theorem SameGame.row (h : SameGame s t) : s.row = t.row := by
  funext k
  rw [Ball.row, Ball.row, h.blockType, h.orientation]

theorem SameGame.testrow (h : SameGame s t) : s.testrow = t.testrow := by
  funext k
  rw [Ball.testrow, Ball.testrow, h.blockType, h.midorientation]

theorem SameGame.tests (h : SameGame s t) (i : Input) :
    s.testLeft i = t.testLeft i ∧ s.testRight i = t.testRight i ∧
    s.testDown i = t.testDown i ∧ s.testRotate i = t.testRotate i ∧ s.testEnd = t.testEnd := by
  simp [Ball.testLeft, Ball.testRight, Ball.testDown, Ball.testRotate, Ball.testEnd, h.gameboard,
    h.row, h.testrow, h.xpos, h.ypos]

theorem SameGame.move (h : SameGame s t) : s.move = t.move := by
  rw [Ball.move, Ball.move, h.counter]

theorem SameGame.locks (h : SameGame s t) (i : Input) : s.locks i = t.locks i := by
  rw [Ball.locks, Ball.locks, h.move, (h.tests i).2.2.1]

theorem SameGame.gameOver (h : SameGame s t) (i : Input) : s.gameOver i = t.gameOver i := by
  rw [Ball.gameOver, Ball.gameOver, h.locks, (h.tests i).2.2.2.2]

/-- **A frame** with the same key keeps the games alike. -/
theorem next_sameGame (i : Input) (h : SameGame s t) : SameGame (s.next i) (t.next i) := by
  obtain ⟨hleft, hright, hdown, hrotate, hend⟩ := h.tests i
  have hlocks := h.locks i
  have hover := h.gameOver i
  constructor
  case gameboard =>
    simp [next, gameboardNext, merged, hover, hlocks, h.gameboard, h.row, h.xpos, h.ypos]
  case blockType => simp [next, h.pressed, h.newtype, h.blockType]
  case orientation => simp [next, h.pressed, h.neworientation, h.orientation]
  case xpos => simp [next, xposNext, hlocks, hend, h.pressed, h.xpos, h.blockXMotion]
  case ypos => simp [next, yposNext, h.move, hdown, hend, h.pressed, h.ypos, h.blockYMotion]
  case pressed => simp [next, pressedNext, hleft, hright, hdown, h.pressed]
  case counter => simp [next, counternext, speed, h.move, h.counter, h.score]
  case score => simp [next, scoreNext, hlocks, h.gameboard, h.score]
  case randNum => simp [next, h.randNum]
  case toSamePending =>
    constructor
    case newtype => simp [next, newtypeNext, hlocks, hend, h.randNum, h.newtype]
    case neworientation =>
      simp [next, neworientationNext, hrotate, h.midorientation, h.neworientation]
    case midorientation =>
      simp [next, midorientationNext, h.orientation, h.midorientation]
    case blockXMotion =>
      simp only [next, blockXMotionNext, hleft, hright, h.pressed]
      repeat' split
      all_goals first | rfl | exact h.blockXMotion
    case blockYMotion =>
      simp only [next, blockYMotionNext, hdown, h.pressed]
      repeat' split
      all_goals first | rfl | exact h.blockYMotion

theorem run_sameGame (h : SameGame s t) (w : ℕ → Input) :
    ∀ n, SameGame (run next w s n) (run next w t n) :=
  run_rel (Q := Eq) (fun i _ _ _ hij hst => hij ▸ next_sameGame i hst) (fun _ => rfl) h

/-! ### What the outputs see -/

/-- The first frame shows all but `midorientation`. -/
theorem output_first (s : Ball) (i : Input) :
    (s.reset.next i).blockType = s.newtype ∧
    (s.reset.next i).orientation = s.neworientation ∧
    (s.reset.next i).xpos = 4 + s.blockXMotion.setWidth 4 ∧
    (s.reset.next i).ypos = s.blockYMotion.setWidth 5 := by
  have hmove : s.reset.move = false := rfl
  have hlocks : s.reset.locks i = false := by rw [locks, hmove, Bool.false_and]
  refine ⟨rfl, rfl, ?_, ?_⟩
  · simp only [next, xposNext, hlocks]
    rfl
  · simp only [next, yposNext, hmove]
    simp [reset]

/-- There is room to turn the first piece. -/
theorem testRotate_reset (s : Ball) (i : Input) : s.reset.testRotate i = 0 := by
  change test emptyBoard (i.oob .testRotate) (rowOf 0 s.midorientation) 0 4 = 0
  rw [test_eq_zero_of_le (by decide) (by decide)]
  generalize s.midorientation = m
  revert m
  decide

/-- A turn, and the third frame shows `midorientation`. -/
theorem output_third (s : Ball) :
    (run next (play [(0x52, 1)]) s.reset 3).orientation = s.midorientation := by
  have hfirst : (s.reset.next (play [(0x52, 1)] 0)).neworientation = s.midorientation := by
    have hturns : turns (play [(0x52, 1)] 0) = true := rfl
    simp only [next, neworientationNext, hturns, testRotate_reset]
    rfl
  have hpressed : (s.reset.next (play [(0x52, 1)] 0)).pressed = true := rfl
  generalize hs : s.reset.next (play [(0x52, 1)] 0) = s₁ at hfirst hpressed
  have hsecond : (s₁.next (play [(0x52, 1)] 1)).neworientation = s.midorientation := by
    have hturns : turns (play [(0x52, 1)] 1) = false := rfl
    simp only [next, neworientationNext, hturns]
    exact hfirst
  have hreleased : (s₁.next (play [(0x52, 1)] 1)).pressed = false := rfl
  rw [run_succ, run_succ, run_succ, run_zero, hs]
  generalize s₁.next (play [(0x52, 1)] 1) = s₂ at hsecond hreleased
  simp [next, hreleased, hsecond]

/-- **Reset.**  Two games look alike after a reset, whatever keys are pressed and whatever
is read outside the board, exactly if they agreed on the registers that it leaves
alone. -/
theorem reset_erases_iff (s t : Ball) :
    (∀ (w : ℕ → Input) (n : ℕ),
      (run next w s.reset n).output = (run next w t.reset n).output) ↔ SamePending s t := by
  refine ⟨?_, ?_⟩
  · intro h
    have hone := h (play []) 1
    simp only [run_succ, run_zero, output, Output.mk.injEq] at hone
    obtain ⟨-, hx, hy, ho, ht, -⟩ := hone
    have hmid := congrArg Output.orientation (h (play [(0x52, 1)]) 3)
    simp only [output, output_third] at hmid
    obtain ⟨hst, hso, hsx, hsy⟩ := output_first s (play [] 0)
    obtain ⟨htt, hto, htx, hty⟩ := output_first t (play [] 0)
    rw [hsx, htx] at hx
    exact ⟨hst ▸ htt ▸ ht, hso ▸ hto ▸ ho, hmid, (BitVec.add_right_inj 4).mp hx, hsy ▸ hty ▸ hy⟩
  · intro h w n
    exact (run_sameGame (sameGame_reset h) w n).output

/-- A game that was left with another piece drawn. -/
def drawn : Ball := { powerUp with newtype := 3 }

theorem reset_keeps_newtype :
    (run next (play []) powerUp.reset 1).output.blockType = 0#3 ∧
    (run next (play []) drawn.reset 1).output.blockType = 3#3 := by
  decide

end Ball

end ECE385.Tetris
