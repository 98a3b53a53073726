import ECE385.Tetris.Board

/-!
# The piece and the board

The tests of a key are made while it is pressed, against the piece as it is then.  What they
allow is committed frames later, when the key is released: motion, orientation and type
together, with no further test.  Gravity alone is tested in the frame in which it moves the
piece.

* `Overlaps`: the piece that is shown overlaps the board.
* `shown`, `aimX`, `aimY`: what a frame shows, and where.
* `not_hits_of_fall`: gravity leads to free cells.
-/

namespace ECE385.Tetris

open Bits Clocked Grid

namespace Ball

/-- The active piece overlaps the board. -/
def Overlaps (s : Ball) : Prop := Hits s.gameboard s.row s.ypos.toNat s.xpos.toNat

instance (s : Ball) : Decidable s.Overlaps :=
  inferInstanceAs (Decidable (Hits _ _ _ _))

variable (s : Ball) (i : Input)

/-- The piece that waits to be shown. -/
def waitingRow : ℕ → BitVec 4 := rowOf s.newtype s.neworientation

/-- The piece shown after the frame: the waiting one, unless a key is held. -/
def shown : ℕ → BitVec 4 := if s.pressed then s.row else s.waitingRow

/-- Where the frame aims the piece: at the top after a lock, down with gravity, and by the
waiting motions unless a key is held. -/
def aimX : BitVec 4 :=
  if s.locks i then 4 else if s.pressed then s.xpos else s.xpos + s.blockXMotion.setWidth 4

def aimY : BitVec 5 :=
  if s.locks i then 0 else if s.move then s.ypos + 1
  else if s.pressed then s.ypos else s.ypos + s.blockYMotion.setWidth 5

variable {s i}

/-! ### One frame -/

theorem next_row : (s.next i).row = s.shown := by
  funext k
  cases hp : s.pressed <;> simp [row, shown, waitingRow, next, hp]

theorem next_xpos (hover : s.gameOver i = false) : (s.next i).xpos = s.aimX i := by
  cases hlock : s.locks i with
  | false => cases hp : s.pressed <;> simp [next, xposNext, aimX, hlock, hp]
  | true =>
    have hend : s.testEnd = 0 := by simpa [gameOver, hlock] using hover
    simp [next, xposNext, aimX, hlock, hend]

theorem next_ypos (hover : s.gameOver i = false) : (s.next i).ypos = s.aimY i := by
  cases hmove : s.move with
  | false =>
    have hlock : s.locks i = false := by rw [locks, hmove, Bool.false_and]
    cases hp : s.pressed <;> simp [next, yposNext, aimY, hmove, hlock, hp]
  | true =>
    cases hlock : s.locks i with
    | false =>
      have hdown : s.testDown i = 0 := by simpa [locks, hmove] using hlock
      simp [next, yposNext, aimY, hmove, hlock, hdown]
    | true =>
      have hdown : ¬s.testDown i = 0 := by simpa [locks, hmove] using hlock
      have hend : s.testEnd = 0 := by simpa [gameOver, hlock] using hover
      simp only [next, yposNext, aimY, hmove, hlock, if_neg hdown, if_pos hend, if_true]

/-- **Gravity** is tested where it moves the piece. -/
theorem not_hits_of_fall (hlock : s.locks i = false) (hmove : s.move = true) (hy : s.ypos ≠ 31) :
    ¬Hits s.gameboard s.row (s.ypos + 1).toNat s.xpos.toNat := by
  have hdown : s.testDown i = 0 := by simpa [locks, hmove] using hlock
  have hsucc : (s.ypos + 1).toNat = s.ypos.toNat + 1 := by
    have hne : s.ypos.toNat ≠ 31 := fun h => hy (BitVec.eq_of_toNat_eq h)
    have hlt := s.ypos.isLt
    rw [BitVec.toNat_add, Nat.mod_eq_of_lt (by simp; omega)]
    rfl
  rw [hsucc]
  exact not_hits_of_test hdown

theorem not_overlaps_reset : ¬powerUp.reset.Overlaps := by
  decide

end Ball

end ECE385.Tetris
