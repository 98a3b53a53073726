import ECE385.Tetris.Press

/-!
# A press of a rotation key

In every frame of the press the key case reads `midorientation` before it assigns it.  So the
first frame tests, and if it is clear requests, the orientation that an earlier press has left
there; only from the second frame on is the orientation tested that the key asks for.

* `Turned`: the state, when the key has been held for some frames.
* `ProperTurn`: when what the press requests is what it should.
* `one_turn_iff`: a press turns the piece by a quarter turn if that fits, and else leaves it,
  exactly under this condition.
-/

namespace ECE385.Tetris

open Clocked

/-- The keys that turn the piece. -/
inductive Turn
  | forward | backward

namespace Turn

def code : Turn → BitVec 8
  | forward => 0x52#8
  | backward => 0x51#8

/-- A quarter turn on. -/
def turned (o : BitVec 2) : Turn → BitVec 2
  | forward => o + 1
  | backward => o - 1

theorem turned_ne (d : Turn) (o : BitVec 2) : d.turned o ≠ o := by
  revert o
  cases d <;> decide

end Turn

/-- The board when a frame has cleared its last full row. -/
def cleared (g : Board) : Board := (lastFull g).elim g (clearRow g g)

theorem cleared_of_none {g : Board} (h : lastFull g = none) : cleared g = g := by
  rw [cleared, h, Option.elim_none]

namespace Ball

/-- Nothing but the motions and the orientation tried last may wait. -/
structure Resting (s : Ball) : Prop where
  pressed : s.pressed = false
  settled : s.piece.Settled

/-- Turned by the key `d`, the piece fits where it stands. -/
def Fits (d : Turn) (s : Ball) : Prop :=
  ¬Hits s.gameboard (rowOf s.blockType (d.turned s.orientation)) s.ypos.toNat s.xpos.toNat

instance (d : Turn) (s : Ball) : Decidable (s.Fits d) := inferInstanceAs (Decidable (¬_))

/-- Where the waiting motions lead the piece. -/
def restX (s : Ball) : BitVec 4 := s.xpos + s.blockXMotion.setWidth 4

def restY (s : Ball) : BitVec 5 := s.ypos + s.blockYMotion.setWidth 5

/-- `testRotate` in frame `t` of a press, from the second frame on. -/
def turnTest (d : Turn) (i : Input) (s : Ball) (t : ℕ) : BitVec 4 :=
  test (cleared^[t] s.gameboard) (i.oob .testRotate)
    (rowOf s.blockType (d.turned s.orientation)) s.restY.toNat s.restX.toNat

/-- The orientation that waits after frame `t` of a press. -/
def waiting (d : Turn) (w : ℕ → Input) (s : Ball) : ℕ → BitVec 2
  | 0 => if s.testRotate (w 0) = 0 then s.midorientation else s.orientation
  | t + 1 =>
    if s.turnTest d (w (t + 1)) (t + 1) = 0 then d.turned s.orientation else s.waiting d w t

/-- A frame of the press, other than its first, finds the turned piece clear. -/
def Found (d : Turn) (w : ℕ → Input) (s : Ball) (n : ℕ) : Prop :=
  ∃ t < n, 1 ≤ t ∧ s.turnTest d (w t) t = 0

instance (d : Turn) (w : ℕ → Input) (s : Ball) (n : ℕ) : Decidable (s.Found d w n) :=
  inferInstanceAs (Decidable (∃ t < n, _ ∧ _))

variable {d : Turn} {w : ℕ → Input} {s u : Ball} {i : Input} {n t : ℕ}

theorem waiting_eq (d : Turn) (w : ℕ → Input) (s : Ball) (t : ℕ) :
    s.waiting d w t =
      if s.Found d w (t + 1) then d.turned s.orientation else s.waiting d w 0 := by
  induction t with
  | zero =>
    have hnot : ¬s.Found d w 1 := by
      rintro ⟨t, ht, hpos, -⟩
      omega
    rw [if_neg hnot]
  | succ t ih =>
    have hsplit : s.Found d w (t + 1 + 1) ↔
        s.turnTest d (w (t + 1)) (t + 1) = 0 ∨ s.Found d w (t + 1) := by
      constructor
      · rintro ⟨v, hv, hpos, htest⟩
        rcases Nat.lt_succ_iff_lt_or_eq.mp hv with hlt | rfl
        · exact .inr ⟨v, hlt, hpos, htest⟩
        · exact .inl htest
      · rintro (htest | ⟨v, hv, hpos, htest⟩)
        · exact ⟨t + 1, Nat.lt_succ_self _, Nat.succ_pos t, htest⟩
        · exact ⟨v, Nat.lt_succ_of_lt hv, hpos, htest⟩
    have hstep : s.waiting d w (t + 1) =
        if s.turnTest d (w (t + 1)) (t + 1) = 0 then d.turned s.orientation
        else s.waiting d w t := rfl
    rw [hstep, ih]
    by_cases htest : s.turnTest d (w (t + 1)) (t + 1) = 0
    · rw [if_pos htest, if_pos (hsplit.mpr (.inl htest))]
    · have hsame := hsplit.trans (or_iff_right htest)
      simp only [if_neg htest, hsame]

/-! ### One frame -/

theorem turns_code (h : i.keycode = d.code) : turns i = true := by
  rw [turns, h]
  cases d <;> rfl

theorem midorientation_code (h : i.keycode = d.code) :
    s.midorientationNext i = d.turned s.orientation := by
  cases d with
  | forward => simp [midorientationNext, h, Turn.code, Turn.turned]
  | backward => simp [midorientationNext, h, Turn.code, Turn.turned]

theorem pressed_code (h : i.keycode = d.code) : s.pressedNext i = true := by
  cases d with
  | forward => simp [pressedNext, turns, h, Turn.code]
  | backward => simp [pressedNext, turns, h, Turn.code]

theorem gameboard_cleared (hmove : s.move = false) :
    (s.next i).gameboard = cleared s.gameboard :=
  gameboard_of_not_locks (locks_of_still hmove)

/-! ### A press -/

/-- The piece after frame `t` of a press. -/
def turning (d : Turn) (w : ℕ → Input) (s : Ball) (t : ℕ) : Piece where
  blockType := s.blockType
  orientation := s.orientation
  xpos := s.restX
  ypos := s.restY
  newtype := s.blockType
  neworientation := s.waiting d w t
  midorientation := d.turned s.orientation

/-- The state `u` after frame `t` of a press from `s`. -/
structure Turned (d : Turn) (w : ℕ → Input) (s : Ball) (t : ℕ) (u : Ball) : Prop where
  gameboard : u.gameboard = cleared^[t + 1] s.gameboard
  piece : u.piece = s.turning d w t
  pressed : u.pressed = true

theorem Resting.turned (h : s.Resting) (hmove : s.move = false) (hkey : (w 0).keycode = d.code) :
    Turned d w s 0 (s.next (w 0)) := by
  obtain ⟨hpressed, htype, horient⟩ := h
  have htype : s.newtype = s.blockType := htype
  have horient : s.neworientation = s.orientation := horient
  refine ⟨gameboard_cleared hmove, ?_, pressed_code hkey⟩
  have hlock := locks_of_still (i := w 0) hmove
  have hmid := midorientation_code (s := s) hkey
  simp [piece, turning, next, xposNext, yposNext, newtypeNext, neworientationNext, hmid, hlock,
    hmove, hpressed, turns_code hkey, htype, horient, restX, restY, waiting]

theorem Turned.testRotate (h : Turned d w s t u) :
    u.testRotate i = s.turnTest d i (t + 1) := by
  obtain ⟨htype, horient, hx, hy, -, -, hmid⟩ := Piece.mk.inj h.piece
  have hrow : u.testrow = rowOf s.blockType (d.turned s.orientation) := by
    funext k
    rw [testrow, htype, hmid]
  rw [Ball.testRotate, turnTest, hrow, h.gameboard, hx, hy]

/-- One more frame of the press. -/
theorem Turned.held (h : Turned d w s t u) (hmove : u.move = false)
    (hkey : (w (t + 1)).keycode = d.code) : Turned d w s (t + 1) (u.next (w (t + 1))) := by
  obtain ⟨htype, horient, hx, hy, hnewtype, hneworient, hmid⟩ := Piece.mk.inj h.piece
  have hboard : (u.next (w (t + 1))).gameboard = cleared^[t + 1 + 1] s.gameboard := by
    rw [gameboard_cleared hmove, h.gameboard, Function.iterate_succ_apply' cleared (t + 1)]
  refine ⟨hboard, ?_, pressed_code hkey⟩
  have hlock := locks_of_still (i := w (t + 1)) hmove
  have hmid' := midorientation_code (s := u) hkey
  simp [Ball.piece, turning, next, xposNext, yposNext, newtypeNext, neworientationNext, hmid',
    hlock, hmove, h.pressed, turns_code hkey, h.testRotate, htype, horient, hx, hy, hnewtype,
    hneworient, hmid, waiting]

/-- The key is held for `n` frames and then released for two, without gravity. -/
structure TurnPress (d : Turn) (w : ℕ → Input) (s : Ball) (n : ℕ) : Prop where
  held : ∀ t < n, (w t).keycode = d.code
  released : ∀ t < n + 2, n ≤ t → Released (w t)
  still : ∀ t < n + 2, (run next w s t).move = false

theorem TurnPress.turned (h : TurnPress d w s n) (hrest : s.Resting) :
    ∀ t < n, Turned d w s t (run next w s (t + 1)) := by
  intro t
  induction t with
  | zero => exact fun ht => hrest.turned (h.still 0 (by omega)) (h.held 0 ht)
  | succ t ih =>
    exact fun ht => (ih (by omega)).held (h.still (t + 1) (by omega)) (h.held (t + 1) ht)

/-- **The release**: its second frame takes the orientation that waits. -/
theorem TurnPress.orientation (h : TurnPress d w s (n + 1)) (hrest : s.Resting) :
    (run next w s (n + 3)).orientation = s.waiting d w n := by
  have hheld := h.turned hrest n (Nat.lt_succ_self n)
  obtain ⟨-, -, -, -, -, hneworient, -⟩ := Piece.mk.inj hheld.piece
  have hrel := h.released (n + 1) (by omega) (by omega)
  have hpressed : (run next w s (n + 2)).pressed = false := pressed_released hrel
  have hkeep : (run next w s (n + 2)).neworientation = s.waiting d w n := by
    rw [run_succ, ← hneworient]
    simp [next, neworientationNext, turns_released hrel]
  rw [run_succ, ← hkeep]
  simp [next, hpressed]

/-- When nothing else waits, no row is full and the piece is on the board, it takes a second frame
to find that the turned piece fits. -/
theorem found_iff (hidle : s.Idle) (hy : s.ypos.toNat + 4 ≤ 23) (hx : s.xpos.toNat + 4 ≤ 16) :
    s.Found d w n ↔ 2 ≤ n ∧ s.Fits d := by
  obtain ⟨hmotionX, hmotionY⟩ := Prod.mk.inj hidle.motion
  have hboard : ∀ t, cleared^[t] s.gameboard = s.gameboard :=
    fun t => Function.iterate_fixed (cleared_of_none hidle.noFull) t
  have htest : ∀ t, s.turnTest d (w t) t = 0 ↔ s.Fits d := by
    intro t
    have hrest : s.restX = s.xpos ∧ s.restY = s.ypos := by
      simp [restX, restY, hmotionX, hmotionY]
    rw [turnTest, hboard, hrest.1, hrest.2, Fits]
    exact test_eq_zero_of_le hy hx
  constructor
  · rintro ⟨t, ht, hpos, hzero⟩
    exact ⟨by omega, (htest t).mp hzero⟩
  · rintro ⟨hn, hfits⟩
    exact ⟨1, by omega, Nat.le_refl 1, (htest 1).mpr hfits⟩

/-- A press turns the piece if it fits, and not at all if it does not. -/
def OneTurn (d : Turn) (w : ℕ → Input) (s : Ball) (n : ℕ) : Prop :=
  (run next w s (n + 2)).orientation = if s.Fits d then d.turned s.orientation else s.orientation

/-- The request of the press is right: where the turned piece fits, a frame after the first has
found it clear, or the orientation tried last is the same; and where it does not, no frame has,
and the orientation tried last does not pass for it. -/
structure ProperTurn (d : Turn) (w : ℕ → Input) (s : Ball) (n : ℕ) : Prop where
  fits : s.Fits d → s.Found d w n ∨
    (s.testRotate (w 0) = 0 ∧ s.midorientation = d.turned s.orientation)
  blocked : ¬s.Fits d → ¬s.Found d w n ∧
    (s.testRotate (w 0) = 0 → s.midorientation = s.orientation)

/-- **A press turns the piece by a quarter turn, or not at all**, exactly if its request is
right. -/
theorem one_turn_iff (d : Turn) (w : ℕ → Input) (s : Ball) (n : ℕ) (hn : 1 ≤ n)
    (hrest : s.Resting) (hpress : TurnPress d w s n) : OneTurn d w s n ↔ ProperTurn d w s n := by
  obtain ⟨m, rfl⟩ : ∃ m, n = m + 1 := ⟨n - 1, by omega⟩
  have hne := d.turned_ne s.orientation
  have hfirst : s.waiting d w 0 =
      if s.testRotate (w 0) = 0 then s.midorientation else s.orientation := rfl
  rw [OneTurn, hpress.orientation hrest, waiting_eq, hfirst]
  by_cases hfits : s.Fits d
  · rw [if_pos hfits]
    by_cases hfound : s.Found d w (m + 1)
    · rw [if_pos hfound]
      exact iff_of_true rfl ⟨fun _ => .inl hfound, fun hno => absurd hfits hno⟩
    rw [if_neg hfound]
    by_cases htest : s.testRotate (w 0) = 0
    · rw [if_pos htest]
      constructor
      · intro h
        exact ⟨fun _ => .inr ⟨htest, h⟩, fun hno => absurd hfits hno⟩
      · intro h
        exact ((h.fits hfits).resolve_left hfound).2
    · rw [if_neg htest]
      exact iff_of_false hne.symm fun h => htest ((h.fits hfits).resolve_left hfound).1
  · rw [if_neg hfits]
    by_cases hfound : s.Found d w (m + 1)
    · rw [if_pos hfound]
      exact iff_of_false hne fun h => (h.blocked hfits).1 hfound
    rw [if_neg hfound]
    by_cases htest : s.testRotate (w 0) = 0
    · rw [if_pos htest]
      constructor
      · intro h
        exact ⟨fun hyes => absurd hyes hfits, fun _ => ⟨hfound, fun _ => h⟩⟩
      · intro h
        exact (h.blocked hfits).2 htest
    · rw [if_neg htest]
      exact iff_of_true rfl ⟨fun hyes => absurd hyes hfits,
        fun _ => ⟨hfound, fun h => absurd h htest⟩⟩

/-- A press of two frames. -/
theorem one_turn_iff_two :
    OneTurn .forward (play [(0x52, 2)]) powerUp.reset 2 ↔
      ProperTurn .forward (play [(0x52, 2)]) powerUp.reset 2 :=
  one_turn_iff .forward _ powerUp.reset 2 (by decide) ⟨rfl, rfl, rfl⟩
    ⟨by decide, by decide, by decide⟩

/-- After a press of `52` for one frame, one of `51` for one frame turns the bar forward. -/
theorem turns_wrong_way :
    ¬∀ (d : Turn) (w : ℕ → Input) (m n : ℕ), 1 ≤ n → (run next w powerUp.reset m).Resting →
      TurnPress d (delay m w) (run next w powerUp.reset m) n →
      OneTurn d (delay m w) (run next w powerUp.reset m) n := by
  intro h
  have hturn := h .backward (play [(0x52, 1), (0, 2), (0x51, 1)]) 3 1 (by decide)
    ⟨by decide, by decide, by decide⟩ ⟨by decide, by decide, by decide⟩
  revert hturn
  rw [OneTurn]
  decide

end Ball

end ECE385.Tetris
