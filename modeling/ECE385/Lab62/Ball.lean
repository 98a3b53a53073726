import ECE385.Clocked.Run
import Mathlib.Data.Int.Notation

/-!
# The ball of Lab 6.2

`ball.sv`.  A bounce takes effect one frame late, as the position is moved by the motion of the
frame before.

* `OnAxis lo hi p m`: along one axis the position is within `lo` and `hi`, and the motion does not
  lead out of them.
* `OnAxis.step`: it stays so if the new motion heeds the two outermost positions at either end.
* `ball_stays_on_screen`: the bounces and the keys do.
-/

namespace ECE385.Lab62

open Clocked

/-- The signals at an edge of `frame_clk` or of `Reset`. -/
structure Input where
  reset : Bool
  keycode : BitVec 8

structure Ball where
  ballXPos : BitVec 10
  ballXMotion : BitVec 10
  ballYPos : BitVec 10
  ballYMotion : BitVec 10

namespace Ball

variable (s : Ball)

/-- At the bottom edge; the sum has 10 bits. -/
def atBottom : Bool := 479#10 ≤ s.ballYPos + 4#10

/-- At the top edge; the comparison is one of 32 bits. -/
def atTop : Bool := s.ballYPos.setWidth 32 - 4#32 + 5#32 ≤ 0#32 + 5#32

def atRight : Bool := 639#10 ≤ s.ballXPos + 4#10

def atLeft : Bool := s.ballXPos.setWidth 32 - 4#32 + 5#32 ≤ 0#32 + 5#32

/-- The motions along `X` and `Y` after a bounce. -/
def bounce : BitVec 10 × BitVec 10 :=
  if s.atBottom then (0, ~~~1#10 + 1)
  else if s.atTop then (0, 1)
  else if s.atRight then (~~~1#10 + 1, 0)
  else if s.atLeft then (1, 0)
  else (s.ballXMotion, s.ballYMotion)

/-- The motions after a frame: what a key assigns wins over a bounce. -/
def motion (keycode : BitVec 8) : BitVec 10 × BitVec 10 :=
  if keycode = 0x04 then if s.atLeft then (1, 0) else (-1, 0)
  else if keycode = 0x07 then if s.atRight then (~~~1#10 + 1, 0) else (1, 0)
  else if keycode = 0x16 then if s.atBottom then (0, ~~~1#10 + 1) else (0, 1)
  else if keycode = 0x1A then if s.atTop then (0, 1) else (0, -1)
  else s.bounce

def BallX : BitVec 10 := s.ballXPos

def BallY : BitVec 10 := s.ballYPos

/-- The registers after `Reset`. -/
def center : Ball where
  ballXPos := 320
  ballXMotion := 0
  ballYPos := 240
  ballYMotion := 0

def next (i : Input) (s : Ball) : Ball :=
  if i.reset then center
  else
    { ballXPos := s.ballXPos + s.ballXMotion
      ballXMotion := (s.motion i.keycode).1
      ballYPos := s.ballYPos + s.ballYMotion
      ballYMotion := (s.motion i.keycode).2 }

end Ball

/-! ### One axis -/

/-- A motion is at most one step. -/
def IsStep (m : BitVec 10) : Prop := m = -1 ∨ m = 0 ∨ m = 1

/-- The position is within `lo` and `hi`, and the next one will be. -/
structure OnAxis (lo hi : ℕ) (p m : BitVec 10) : Prop where
  lo_le : lo ≤ p.toNat
  le_hi : p.toNat ≤ hi
  isStep : IsStep m
  of_lo : p.toNat = lo → m ≠ -1
  of_hi : p.toNat = hi → m ≠ 1

variable {lo hi : ℕ} {p m : BitVec 10}

/-- The position does not wrap. -/
theorem OnAxis.toNat_add (h : OnAxis lo hi p m) (hlo : 0 < lo) (hhi : hi < 1023) :
    ((p + m).toNat : ℤ) = p.toNat + m.toInt ∧ lo ≤ (p + m).toNat ∧ (p + m).toNat ≤ hi := by
  have hl := h.lo_le
  have hh := h.le_hi
  rcases h.isStep with rfl | rfl | rfl
  · have hne : p.toNat ≠ lo := fun heq => h.of_lo heq rfl
    rw [BitVec.toNat_add, show (-1 : BitVec 10).toNat = 1023 from rfl,
      show (-1 : BitVec 10).toInt = -1 from rfl]
    omega
  · rw [BitVec.toNat_add, show (0 : BitVec 10).toNat = 0 from rfl,
      show (0 : BitVec 10).toInt = 0 from rfl]
    omega
  · have hne : p.toNat ≠ hi := fun heq => h.of_hi heq rfl
    rw [BitVec.toNat_add, show (1 : BitVec 10).toNat = 1 from rfl,
      show (1 : BitVec 10).toInt = 1 from rfl]
    omega

/-- **One step along an axis.** -/
theorem OnAxis.step {m' : BitVec 10} (h : OnAxis lo hi p m) (hlo : 0 < lo) (hhi : hi < 1023)
    (hstep : IsStep m') (hleft : p.toNat ≤ lo + 1 → m' ≠ -1) (hright : hi ≤ p.toNat + 1 → m' ≠ 1) :
    OnAxis lo hi (p + m) m' := by
  obtain ⟨hadd, hl, hh⟩ := h.toNat_add hlo hhi
  have hm : -1 ≤ m.toInt ∧ m.toInt ≤ 1 := by
    rcases h.isStep with rfl | rfl | rfl
    all_goals decide
  exact ⟨hl, hh, hstep, fun heq => hleft (by omega), fun heq => hright (by omega)⟩

/-! ### The motions -/

namespace Ball

/-- The ball is on the screen, and moves along one axis at most. -/
structure OnScreen (s : Ball) : Prop where
  x : OnAxis 3 636 s.ballXPos s.ballXMotion
  y : OnAxis 3 476 s.ballYPos s.ballYMotion
  oneAxis : s.ballXMotion = 0 ∨ s.ballYMotion = 0

variable {s : Ball}

/-- On the screen the sums of 10 bits do not wrap. -/
theorem OnScreen.atBottom_iff (h : OnScreen s) : s.atBottom = true ↔ 475 ≤ s.ballYPos.toNat := by
  have hy := h.y.le_hi
  rw [atBottom, decide_eq_true_iff, BitVec.le_def, BitVec.toNat_add]
  change 479 ≤ (s.ballYPos.toNat + 4) % 1024 ↔ _
  omega

theorem OnScreen.atRight_iff (h : OnScreen s) : s.atRight = true ↔ 635 ≤ s.ballXPos.toNat := by
  have hx := h.x.le_hi
  rw [atRight, decide_eq_true_iff, BitVec.le_def, BitVec.toNat_add]
  change 639 ≤ (s.ballXPos.toNat + 4) % 1024 ↔ _
  omega

/-- The comparison at the top and at the left edge. -/
theorem near_min_iff (p : BitVec 10) :
    p.setWidth 32 - 4#32 + 5#32 ≤ 0#32 + 5#32 ↔ p.toNat ≤ 4 := by
  rw [BitVec.sub_eq_add_neg, BitVec.le_def, BitVec.toNat_add, BitVec.toNat_add,
    BitVec.toNat_setWidth]
  change ((p.toNat % 2 ^ 32 + 4294967292) % 2 ^ 32 + 5) % 2 ^ 32 ≤ 5 ↔ _
  have := p.isLt
  omega

theorem atTop_iff : s.atTop = true ↔ s.ballYPos.toNat ≤ 4 := by
  rw [atTop, decide_eq_true_iff, near_min_iff]

theorem atLeft_iff : s.atLeft = true ↔ s.ballXPos.toNat ≤ 4 := by
  rw [atLeft, decide_eq_true_iff, near_min_iff]

/-- New motions that lead out of no edge. -/
structure Safe (s : Ball) (m : BitVec 10 × BitVec 10) : Prop where
  stepX : IsStep m.1
  stepY : IsStep m.2
  oneAxis : m.1 = 0 ∨ m.2 = 0
  left : s.ballXPos.toNat ≤ 4 → m.1 ≠ -1
  right : 635 ≤ s.ballXPos.toNat → m.1 ≠ 1
  top : s.ballYPos.toNat ≤ 4 → m.2 ≠ -1
  bottom : 475 ≤ s.ballYPos.toNat → m.2 ≠ 1

theorem safe_leftward (h : 4 < s.ballXPos.toNat) : Safe s (-1, 0) :=
  ⟨.inl rfl, .inr (.inl rfl), .inr rfl, fun hx => absurd hx (by omega), fun _ => by decide,
    fun _ => by decide, fun _ => by decide⟩

theorem safe_rightward (h : s.ballXPos.toNat < 635) : Safe s (1, 0) :=
  ⟨.inr (.inr rfl), .inr (.inl rfl), .inr rfl, fun _ => by decide, fun hx => absurd hx (by omega),
    fun _ => by decide, fun _ => by decide⟩

theorem safe_upward (h : 4 < s.ballYPos.toNat) : Safe s (0, -1) :=
  ⟨.inr (.inl rfl), .inl rfl, .inl rfl, fun _ => by decide, fun _ => by decide,
    fun hy => absurd hy (by omega), fun _ => by decide⟩

theorem safe_downward (h : s.ballYPos.toNat < 475) : Safe s (0, 1) :=
  ⟨.inr (.inl rfl), .inr (.inr rfl), .inl rfl, fun _ => by decide, fun _ => by decide,
    fun _ => by decide, fun hy => absurd hy (by omega)⟩

/-- Away from the edges the ball keeps moving; in a corner one edge masks the other, and stops the
motion towards it. -/
theorem safe_bounce (h : OnScreen s) : Safe s s.bounce := by
  rw [bounce]
  split_ifs with hB hT hR hL
  · exact safe_upward (by rw [h.atBottom_iff] at hB; omega)
  · exact safe_downward (by rw [atTop_iff] at hT; omega)
  · exact safe_leftward (by rw [h.atRight_iff] at hR; omega)
  · exact safe_rightward (by rw [atLeft_iff] at hL; omega)
  · rw [h.atBottom_iff] at hB
    rw [atTop_iff] at hT
    rw [h.atRight_iff] at hR
    rw [atLeft_iff] at hL
    exact ⟨h.x.isStep, h.y.isStep, h.oneAxis, fun hx => absurd hx hL, fun hx => absurd hx hR,
      fun hy => absurd hy hT, fun hy => absurd hy hB⟩

theorem safe_motion (h : OnScreen s) (k : BitVec 8) : Safe s (s.motion k) := by
  rw [motion]
  split_ifs with hA hL hD hR hS hB hW hT
  · exact safe_rightward (by rw [atLeft_iff] at hL; omega)
  · exact safe_leftward (by rw [atLeft_iff] at hL; omega)
  · exact safe_leftward (by rw [h.atRight_iff] at hR; omega)
  · exact safe_rightward (by rw [h.atRight_iff] at hR; omega)
  · exact safe_upward (by rw [h.atBottom_iff] at hB; omega)
  · exact safe_downward (by rw [h.atBottom_iff] at hB; omega)
  · exact safe_downward (by rw [atTop_iff] at hT; omega)
  · exact safe_upward (by rw [atTop_iff] at hT; omega)
  · exact safe_bounce h

/-! ### Runs -/

theorem onScreen_center : OnScreen center :=
  ⟨⟨by decide, by decide, .inr (.inl rfl), by decide, by decide⟩,
    ⟨by decide, by decide, .inr (.inl rfl), by decide, by decide⟩, .inl rfl⟩

/-- **A frame** keeps the ball on the screen. -/
theorem onScreen_next (i : Input) (h : OnScreen s) : OnScreen (s.next i) := by
  rw [next]
  split_ifs
  · exact onScreen_center
  · have hsafe := safe_motion h i.keycode
    exact ⟨h.x.step (by decide) (by decide) hsafe.stepX hsafe.left fun hx => hsafe.right (by omega),
      h.y.step (by decide) (by decide) hsafe.stepY hsafe.top fun hy => hsafe.bottom (by omega),
      hsafe.oneAxis⟩

/-- **The ball stays on the screen and moves along one axis**, whatever keys are pressed, and with
further resets at any time; the additions to the positions do not wrap. -/
theorem ball_stays_on_screen (w : ℕ → Input) (n : ℕ) :
    let s := run next w center n
    (3 ≤ s.BallX.toNat ∧ s.BallX.toNat ≤ 636 ∧ 3 ≤ s.BallY.toNat ∧ s.BallY.toNat ≤ 476) ∧
    (IsStep s.ballXMotion ∧ IsStep s.ballYMotion) ∧
    (s.ballXMotion = 0 ∨ s.ballYMotion = 0) ∧
    ((s.ballXPos + s.ballXMotion).toNat : ℤ) = s.ballXPos.toNat + s.ballXMotion.toInt ∧
    ((s.ballYPos + s.ballYMotion).toNat : ℤ) = s.ballYPos.toNat + s.ballYMotion.toInt := by
  intro s
  have hstep : ∀ i s, True → OnScreen s → OnScreen (next i s) := fun i _ _ => onScreen_next i
  have h : OnScreen s := run_invariant hstep onScreen_center n fun _ _ => trivial
  exact ⟨⟨h.x.lo_le, h.x.le_hi, h.y.lo_le, h.y.le_hi⟩, ⟨h.x.isStep, h.y.isStep⟩, h.oneAxis,
    (h.x.toNat_add (by decide) (by decide)).1, (h.y.toNat_add (by decide) (by decide)).1⟩

/-- The ball overshoots the right edge by one position. -/
example : (run next (fun _ => ⟨false, 0x07⟩) center 317).ballXPos = 636 := by decide +kernel

end Ball

end ECE385.Lab62
