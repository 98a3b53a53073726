import ECE385.Bits.Grid
import ECE385.Clocked.Run

/-!
# The game of the final project

`ball.sv` with `tetromino_rom.sv` and `LFSR.sv`.  A frame is an edge of `frame_clk`.  All
assignments of a frame read the registers before it, and the last one to a bit
wins, so each register is given by the assignments to it in reverse order.
-/

namespace ECE385.Tetris

open Bits

/-! ### The pieces -/

/-- `ROM` of `tetromino_rom`: four rows for each of the four orientations. -/
def ROM : List (BitVec 4) :=
  [0b0000#4, 0b0000#4, 0b1111#4, 0b0000#4,  -- I
   0b0010#4, 0b0010#4, 0b0010#4, 0b0010#4,
   0b0000#4, 0b0000#4, 0b1111#4, 0b0000#4,
   0b0010#4, 0b0010#4, 0b0010#4, 0b0010#4,
   0b0000#4, 0b1000#4, 0b1110#4, 0b0000#4,  -- left L
   0b1100#4, 0b1000#4, 0b1000#4, 0b0000#4,
   0b0000#4, 0b1110#4, 0b0010#4, 0b0000#4,
   0b0100#4, 0b0100#4, 0b1100#4, 0b0000#4,
   0b0000#4, 0b0010#4, 0b1110#4, 0b0000#4,  -- right L
   0b0100#4, 0b0100#4, 0b0110#4, 0b0000#4,
   0b0000#4, 0b1110#4, 0b1000#4, 0b0000#4,
   0b0110#4, 0b0010#4, 0b0010#4, 0b0000#4,
   0b0000#4, 0b0110#4, 0b0110#4, 0b0000#4,  -- block
   0b0000#4, 0b0110#4, 0b0110#4, 0b0000#4,
   0b0000#4, 0b0110#4, 0b0110#4, 0b0000#4,
   0b0000#4, 0b0110#4, 0b0110#4, 0b0000#4,
   0b0000#4, 0b0110#4, 0b1100#4, 0b0000#4,  -- S
   0b0000#4, 0b0100#4, 0b0110#4, 0b0010#4,
   0b0000#4, 0b0110#4, 0b1100#4, 0b0000#4,
   0b0000#4, 0b0100#4, 0b0110#4, 0b0010#4,
   0b0000#4, 0b0100#4, 0b1110#4, 0b0000#4,  -- T
   0b0000#4, 0b0100#4, 0b0110#4, 0b0100#4,
   0b0000#4, 0b1110#4, 0b0100#4, 0b0000#4,
   0b0000#4, 0b0100#4, 0b1100#4, 0b0100#4,
   0b0000#4, 0b1100#4, 0b0110#4, 0b0000#4,  -- Z
   0b0000#4, 0b0010#4, 0b0110#4, 0b0100#4,
   0b0000#4, 0b1100#4, 0b0110#4, 0b0000#4,
   0b0000#4, 0b0010#4, 0b0110#4, 0b0100#4,
   0b0000#4, 0b0000#4, 0b1111#4, 0b0000#4,  -- I
   0b0010#4, 0b0010#4, 0b0010#4, 0b0010#4,
   0b0000#4, 0b0000#4, 0b1111#4, 0b0000#4,
   0b0010#4, 0b0010#4, 0b0010#4, 0b0010#4]

/-- `tetromino_rom`. -/
def tetromino_rom (addr : BitVec 7) : BitVec 4 := ROM.getD addr.toNat 0

/-- Row `k` of a piece. -/
def rowOf (blockType : BitVec 3) (orientation : BitVec 2) (k : ℕ) : BitVec 4 :=
  tetromino_rom (blockType ++ orientation ++ BitVec.ofNat 2 k)

/-! ### The registers -/

/-- The reads of the board; what each gives outside the board is an input of the
frame. -/
inductive Site
  | testLeft | testRight | testDown | testRotate | lock

/-- The signals at an edge of `frame_clk`. -/
structure Input where
  keycode : BitVec 8
  oob : Site → ℕ → ℕ → Bool

abbrev Board := Grid 23 16

structure Ball where
  gameboard : Board
  blockType : BitVec 3
  orientation : BitVec 2
  xpos : BitVec 4
  ypos : BitVec 5
  newtype : BitVec 3
  neworientation : BitVec 2
  midorientation : BitVec 2
  blockXMotion : BitVec 10
  blockYMotion : BitVec 10
  pressed : Bool
  counter : BitVec 32
  score : BitVec 24
  randNum : BitVec 8
  ballXPos : BitVec 10
  ballYPos : BitVec 10
  ballXMotion : BitVec 10
  ballYMotion : BitVec 10

/-- A row of the empty well. -/
def wallRow : BitVec 16 := 0b0010000000000100#16

def floorRow : BitVec 16 := 0b0011111111111100#16

def emptyBoard : Board := fun i =>
  if i.val < 20 then wallRow else if i.val = 20 then floorRow else 0#16

/-- The picture of the end. -/
def endPicture : Board := fun i =>
  match i.val with
  | 0 => 0b0000000000000000#16
  | 1 => 0b0000111111110000#16
  | 2 => 0b0000111111110000#16
  | 3 => 0b0000000001110000#16
  | 4 => 0b0000111111110000#16
  | 5 => 0b0000000001110000#16
  | 6 => 0b0000111111110000#16
  | 7 => 0b0000111111110000#16
  | 8 => 0b0000000000000000#16
  | 9 => 0b0000110001110000#16
  | 10 => 0b0000110011110000#16
  | 11 => 0b0000110110110000#16
  | 12 => 0b0000111100110000#16
  | 13 => 0b0000111000110000#16
  | 14 => 0b0000110000110000#16
  | 15 => 0b0000000000000000#16
  | 16 => 0b0000000111110000#16
  | 17 => 0b0000011111110000#16
  | 18 => 0b0000111000110000#16
  | 19 => 0b0000110000110000#16
  | 20 => 0b0000111000110000#16
  | 21 => 0b0000011111110000#16
  | 22 => 0b0000000111110000#16
  | _ => 0#16

/-- Some bits of the four rows meet the board at `(r, c)`. -/
def test (g : Board) (oob : ℕ → ℕ → Bool) (rows : ℕ → BitVec 4) (r c : ℕ) : BitVec 4 :=
  g.select oob 4 r c &&& rows 0 ||| g.select oob 4 (r + 1) c &&& rows 1 |||
    g.select oob 4 (r + 2) c &&& rows 2 ||| g.select oob 4 (r + 3) c &&& rows 3

/-- The four rows are added to the board at `(r, c)`. -/
def add (g : Board) (oob : ℕ → ℕ → Bool) (rows : ℕ → BitVec 4) (r c : ℕ) : Board :=
  (((g.assign r c (g.select oob 4 r c + rows 0)).assign (r + 1) c
    (g.select oob 4 (r + 1) c + rows 1)).assign (r + 2) c
    (g.select oob 4 (r + 2) c + rows 2)).assign (r + 3) c
    (g.select oob 4 (r + 3) c + rows 3)

/-- A play row whose ten columns are all set. -/
def full (g : Board) (r : Fin 20) : Bool := (g (r.castLE (by omega))).extractLsb' 3 10 == 0x3FF#10

/-- The last full row: its block of assignments wins over those of the rows above. -/
def lastFull (g : Board) : Option (Fin 20) := (List.finRange 20).reverse.find? (full g)

/-- The line clear of row `r` of the board `g`, over what else the frame has made of the
rows. -/
def clearRow (g g' : Board) (r : Fin 20) : Board := fun i =>
  if i.val ≤ r.val then
    Grid.assign g' i.val 3
      (if h : i.val = 0 then 0#10 else (g ⟨i.val - 1, by omega⟩).extractLsb' 3 10) i
  else g' i

namespace Ball

variable (s : Ball) (i : Input)

/-! ### Combinational logic -/

def speed : BitVec 32 := 1 + s.score.setWidth 32 / 4096

def counternext : BitVec 32 := s.counter + s.speed

def move : Bool := 0x3F#32 ≤ s.counter

/-- `row1` to `row4`. -/
def row (k : ℕ) : BitVec 4 := rowOf s.blockType s.orientation k

/-- `testrow1` to `testrow4`. -/
def testrow (k : ℕ) : BitVec 4 := rowOf s.blockType s.midorientation k

/-- The column `xpos - 1` is a number of 32 bits. -/
def testLeft : BitVec 4 :=
  test s.gameboard (i.oob .testLeft) s.row s.ypos.toNat (s.xpos.setWidth 32 - 1#32).toNat

def testRight : BitVec 4 :=
  test s.gameboard (i.oob .testRight) s.row s.ypos.toNat (s.xpos.toNat + 1)

def testDown : BitVec 4 :=
  test s.gameboard (i.oob .testDown) s.row (s.ypos.toNat + 1) s.xpos.toNat

def testRotate : BitVec 4 :=
  test s.gameboard (i.oob .testRotate) s.testrow s.ypos.toNat s.xpos.toNat

/-- Its reads are all inside the board. -/
def testEnd : BitVec 4 := test s.gameboard (fun _ _ => false) s.row 0 4

/-- The frame adds the piece to the board. -/
def locks : Bool := s.move && s.testDown i != 0

/-- The frame takes the game-over branch. -/
def gameOver : Bool := s.locks i && s.testEnd != 0

/-! ### The registers after a frame -/

/-- The board with the piece added. -/
def merged : Board := add s.gameboard (i.oob .lock) s.row s.ypos.toNat s.xpos.toNat

def gameboardNext : Board :=
  let g := if s.gameOver i then endPicture else if s.locks i then s.merged i else s.gameboard
  match lastFull s.gameboard with
  | some r => clearRow s.gameboard g r
  | none => g

def scoreNext : BitVec 24 :=
  if (lastFull s.gameboard).isSome then s.score + 512
  else if s.locks i then s.score + 64 else s.score

def xposNext : BitVec 4 :=
  if s.locks i then if s.testEnd = 0 then 4 else 15
  else if !s.pressed then s.xpos + s.blockXMotion.setWidth 4 else s.xpos

def yposNext : BitVec 5 :=
  if s.move then
    if s.testDown i = 0 then s.ypos + 1 else if s.testEnd = 0 then 0 else 31
  else if !s.pressed then s.ypos + s.blockYMotion.setWidth 5 else s.ypos

def newtypeNext : BitVec 3 :=
  if s.locks i && s.testEnd == 0 then s.randNum.extractLsb' 0 3 else s.newtype

/-- The keys that turn the piece. -/
def turns : Bool := i.keycode == 0x52 || i.keycode == 0x51

def neworientationNext : BitVec 2 :=
  if turns i && s.testRotate i == 0 then s.midorientation else s.neworientation

def midorientationNext : BitVec 2 :=
  if i.keycode = 0x52 then s.orientation + 1
  else if i.keycode = 0x51 then s.orientation - 1 else s.midorientation

def pressedNext : Bool :=
  if i.keycode = 0x04 then s.testLeft i == 0 || s.pressed
  else if i.keycode = 0x07 then s.testRight i == 0 || s.pressed
  else if i.keycode = 0x16 then s.testDown i == 0 || s.pressed
  else turns i

def blockXMotionNext : BitVec 10 :=
  if !s.pressed then 0
  else if i.keycode = 0x04 then if s.testLeft i ≠ 0 then 0 else ~~~1 + 1
  else if i.keycode = 0x07 then if s.testRight i ≠ 0 then 0 else 1
  else if i.keycode = 0x16 then 0
  else s.blockXMotion

def blockYMotionNext : BitVec 10 :=
  if !s.pressed then 0
  else if i.keycode = 0x04 then 0
  else if i.keycode = 0x07 then 0
  else if i.keycode = 0x16 then if s.testDown i ≠ 0 then 0 else 1
  else s.blockYMotion

/-- The ball is at the bottom, top, right or left edge. -/
def atBottom : Bool := 479 ≤ (s.ballYPos + 4).toNat

def atTop : Bool := s.ballYPos.setWidth 32 - 4#32 + 5#32 ≤ 5#32

def atRight : Bool := 639 ≤ (s.ballXPos + 4).toNat

def atLeft : Bool := s.ballXPos.setWidth 32 - 4#32 + 5#32 ≤ 5#32

def ballXMotionNext : BitVec 10 :=
  if !s.pressed then 0
  else if i.keycode = 0x04 then if s.testLeft i ≠ 0 then 1 else ~~~1 + 1
  else if i.keycode = 0x07 then if s.testRight i ≠ 0 then ~~~1 + 1 else 1
  else if i.keycode = 0x16 then 0
  else if s.atBottom || s.atTop then 0
  else if s.atRight then ~~~1 + 1
  else if s.atLeft then 1
  else s.ballXMotion

def ballYMotionNext : BitVec 10 :=
  if !s.pressed then 0
  else if i.keycode = 0x04 || i.keycode = 0x07 then 0
  else if i.keycode = 0x16 then if s.testDown i ≠ 0 then ~~~1 + 1 else 1
  else if s.atBottom then ~~~1 + 1
  else if s.atTop then 1
  else if s.atRight || s.atLeft then 0
  else s.ballYMotion

/-- `lsfr`. -/
def lsfr (q : BitVec 8) : BitVec 8 :=
  q.extractLsb' 0 7 ++
    BitVec.ofBool (q.getLsbD 7 ^^ q.getLsbD 5 ^^ q.getLsbD 4 ^^ q.getLsbD 3)

/-- One frame. -/
def next (i : Input) (s : Ball) : Ball where
  gameboard := s.gameboardNext i
  blockType := if !s.pressed then s.newtype else s.blockType
  orientation := if !s.pressed then s.neworientation else s.orientation
  xpos := s.xposNext i
  ypos := s.yposNext i
  newtype := s.newtypeNext i
  neworientation := s.neworientationNext i
  midorientation := s.midorientationNext i
  blockXMotion := s.blockXMotionNext i
  blockYMotion := s.blockYMotionNext i
  pressed := s.pressedNext i
  counter := if s.move then 0 else s.counternext
  score := s.scoreNext i
  randNum := lsfr s.randNum
  ballXPos := if !s.pressed then s.ballXPos + s.ballXMotion else s.ballXPos
  ballYPos := if !s.pressed then s.ballYPos + s.ballYMotion else s.ballYPos
  ballXMotion := s.ballXMotionNext i
  ballYMotion := s.ballYMotionNext i

/-- The registers after `Reset`; five keep what they held. -/
def reset (s : Ball) : Ball :=
  { s with
    gameboard := emptyBoard
    blockType := 0
    orientation := 0
    xpos := 4
    ypos := 0
    pressed := false
    counter := 0
    score := 0
    randNum := 1
    ballXPos := 320
    ballYPos := 240
    ballXMotion := 0
    ballYMotion := 0 }

/-- All registers zero. -/
def powerUp : Ball where
  gameboard := fun _ => 0
  blockType := 0
  orientation := 0
  xpos := 0
  ypos := 0
  newtype := 0
  neworientation := 0
  midorientation := 0
  blockXMotion := 0
  blockYMotion := 0
  pressed := false
  counter := 0
  score := 0
  randNum := 0
  ballXPos := 0
  ballYPos := 0
  ballXMotion := 0
  ballYMotion := 0

/-! ### Long runs -/

def wordNormal {k : ℕ} (v : BitVec k) : BitVec k := BitVec.ofNat k v.toNat

theorem wordNormal_eq {k : ℕ} (v : BitVec k) : wordNormal v = v := by
  rw [wordNormal, BitVec.ofNat_toNat, BitVec.setWidth_eq]

/-- The registers that many frames pass on, in normal form. -/
def normal (s : Ball) : Ball :=
  { s with
    gameboard := fun i => wordNormal (s.gameboard i)
    score := wordNormal s.score
    xpos := wordNormal s.xpos
    ypos := wordNormal s.ypos
    blockType := wordNormal s.blockType
    orientation := wordNormal s.orientation }

theorem normal_eq (s : Ball) : s.normal = s := by
  simp only [normal, wordNormal_eq]

end Ball

/-- The key in frame `t`, when each key is held for a number of frames, and then none. -/
def keyAt : List (BitVec 8 × ℕ) → ℕ → BitVec 8
  | [], _ => 0
  | (key, n) :: keys, t => if t < n then key else keyAt keys (t - n)

/-- The waveform of these keys, with nothing outside the board. -/
def play (keys : List (BitVec 8 × ℕ)) : ℕ → Input := fun t => ⟨keyAt keys t, fun _ _ _ => false⟩

end ECE385.Tetris
