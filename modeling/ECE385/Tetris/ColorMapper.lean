import ECE385.Tetris.Board

/-!
# The picture of the game

`Color_Mapper.sv`.  The board is shown in cells of eight by eight pixels, with the piece over it:
its rows are written over a copy of the board, where `ball` would add them.

The window of the picture has `128` columns of pixels, `8` for each column of the board.  But it
has `186` lines, and the board only `23` rows.

* `ShowsBoard`: what the picture should be.
* `shows_board_iff`: it is, except in the last two lines of the window.
-/

namespace ECE385.Tetris

open Bits Grid

/-- `Red`, `Green` and `Blue`. -/
structure Rgb where
  Red : BitVec 8
  Green : BitVec 8
  Blue : BitVec 8
deriving DecidableEq

namespace Rgb

def white : Rgb := ⟨0xFF, 0xFF, 0xFF⟩

def black : Rgb := ⟨0x00, 0x00, 0x00⟩

end Rgb

/-- The colours of the pieces. -/
def blockColor (blockType : BitVec 3) : Rgb :=
  match blockType.toNat with
  | 0 => ⟨0x00, 0xFF, 0xFF⟩
  | 1 => ⟨0x00, 0x00, 0xFF⟩
  | 2 => ⟨0xFF, 0x80, 0x00⟩
  | 3 => ⟨0xFF, 0xFF, 0x00⟩
  | 4 => ⟨0x00, 0xFF, 0x00⟩
  | 5 => ⟨0xFF, 0x00, 0xFF⟩
  | 6 => ⟨0xFF, 0x00, 0x00⟩
  | 7 => ⟨0x00, 0xFF, 0xFF⟩
  | _ => ⟨0xFF, 0xFF, 0xFF⟩

theorem blockColor_ne (blockType : BitVec 3) :
    blockColor blockType ≠ Rgb.white ∧ blockColor blockType ≠ Rgb.black := by
  revert blockType
  decide

/-- The inputs of `color_mapper` that its outputs depend on, and what its two reads give outside
the boards. -/
structure ColorMapper where
  DrawX : BitVec 10
  DrawY : BitVec 10
  BlockX : BitVec 4
  BlockY : BitVec 5
  orientation : BitVec 2
  blockType : BitVec 3
  gameboard : Board
  oob : ℕ → ℕ → Bool
  oobTemp : ℕ → ℕ → Bool

namespace ColorMapper

variable (m : ColorMapper)

/-- `row1` to `row4`. -/
def rows (k : ℕ) : BitVec 4 := rowOf m.blockType m.orientation k

def tempboard : Board :=
  (((m.gameboard.assign m.BlockY.toNat m.BlockX.toNat (m.rows 0)).assign
    (m.BlockY.toNat + 1) m.BlockX.toNat (m.rows 1)).assign
    (m.BlockY.toNat + 2) m.BlockX.toNat (m.rows 2)).assign
    (m.BlockY.toNat + 3) m.BlockX.toNat (m.rows 3)

def row : BitVec 32 := (m.DrawY.setWidth 32 - 150) / 8

def col : BitVec 32 := (m.DrawX.setWidth 32 - 300) / 8

/-- The pixel is in the window. -/
def window : Bool :=
  300#10 ≤ m.DrawX && m.DrawX ≤ 427#10 && 150#10 ≤ m.DrawY && m.DrawY ≤ 335#10

def ball_on : Bool := m.window && m.gameboard.read m.oob m.row.toNat m.col.toNat

def block_on : Bool :=
  !m.ball_on && (m.window && m.tempboard.read m.oobTemp m.row.toNat m.col.toNat)

def rgb : Rgb :=
  if m.ball_on then Rgb.white else if m.block_on then blockColor m.blockType else Rgb.black

/-- The cell of the pixel is set in the board. -/
def onBoard : Bool := m.gameboard.bit ((m.DrawY.toNat - 150) / 8) ((m.DrawX.toNat - 300) / 8)

/-- The cell of the pixel is one of those that a lock adds. -/
def onPiece : Bool :=
  covers m.rows m.BlockY.toNat m.BlockX.toNat ((m.DrawY.toNat - 150) / 8)
    ((m.DrawX.toNat - 300) / 8)

/-- The picture shows the game: in the window, the cell of the pixel is one of the board, and
the colour tells whether it is set there, or else belongs to the piece. -/
structure ShowsBoard : Prop where
  row_lt : m.window = true → m.row.toNat < 23
  col_lt : m.window = true → m.col.toNat < 16
  white : m.window = true → (m.rgb = Rgb.white ↔ m.onBoard = true)
  block : m.window = true →
    (m.rgb = blockColor m.blockType ↔ m.onBoard = false ∧ m.onPiece = true)
  black : m.window = true → (m.rgb = Rgb.black ↔ m.onBoard = false ∧ m.onPiece = false)
  outside : m.window = false → m.rgb = Rgb.black

variable {m}

/-! ### The pixel -/

theorem window_iff : m.window = true ↔
    300 ≤ m.DrawX.toNat ∧ m.DrawX.toNat ≤ 427 ∧ 150 ≤ m.DrawY.toNat ∧ m.DrawY.toNat ≤ 335 := by
  simp [window, BitVec.le_def, and_assoc]

/-- The quotients are those of numbers, in the window. -/
theorem toNat_sub_div {v : BitVec 10} {a : ℕ} (h : a ≤ v.toNat) :
    ((v.setWidth 32 - BitVec.ofNat 32 a) / 8).toNat = (v.toNat - a) / 8 := by
  have hv := v.isLt
  have h8 : (8 : BitVec 32).toNat = 8 := rfl
  have ha : (BitVec.ofNat 32 a).toNat = a := by
    rw [BitVec.toNat_ofNat]
    omega
  have hv32 : (v.setWidth 32).toNat = v.toNat := by
    rw [BitVec.toNat_setWidth]
    omega
  rw [BitVec.toNat_udiv, h8, BitVec.toNat_sub_of_le (by rw [BitVec.le_def, ha, hv32]; exact h),
    ha, hv32]

theorem row_eq (h : m.window = true) : m.row.toNat = (m.DrawY.toNat - 150) / 8 :=
  toNat_sub_div (window_iff.mp h).2.2.1

theorem col_eq (h : m.window = true) : m.col.toNat = (m.DrawX.toNat - 300) / 8 :=
  toNat_sub_div (window_iff.mp h).1

/-- Where the board is clear, the overlay shows the piece and nothing else. -/
theorem bit_tempboard {r c : ℕ} (hr : r < 23) (hc : c < 16) (hclear : m.gameboard.bit r c = false) :
    m.tempboard.bit r c = covers m.rows m.BlockY.toNat m.BlockX.toNat r c := by
  have hput : m.tempboard = put m.gameboard m.rows m.BlockY.toNat m.BlockX.toNat := rfl
  rw [hput, bit_put, covers]
  by_cases hin : m.BlockY.toNat ≤ r ∧ r < m.BlockY.toNat + 4 ∧ m.BlockX.toNat ≤ c ∧
      c < m.BlockX.toNat + 4
  · rw [if_pos (by omega), decide_eq_true hin, Bool.true_and]
  · rw [if_neg (by omega), decide_eq_false hin, Bool.false_and, hclear]

/-- **The colour** of a pixel of the window, in a row of the board. -/
theorem rgb_eq (h : m.window = true) (hrow : m.row.toNat < 23) : m.rgb =
    if m.onBoard then Rgb.white else if m.onPiece then blockColor m.blockType else Rgb.black := by
  have hcol : m.col.toNat < 16 := by
    have hin := window_iff.mp h
    rw [col_eq h]
    omega
  have hball : m.ball_on = m.onBoard := by
    rw [ball_on, h, Bool.true_and, read_of_lt _ _ hrow hcol, row_eq h, col_eq h, onBoard]
  rw [rgb, hball]
  cases hset : m.onBoard with
  | true => rfl
  | false =>
    have hclear : m.gameboard.bit m.row.toNat m.col.toNat = false := by
      rw [row_eq h, col_eq h]
      exact hset
    have hblock : m.block_on = m.onPiece := by
      rw [block_on, hball, hset, h, Bool.not_false, Bool.true_and, Bool.true_and,
        read_of_lt _ _ hrow hcol, bit_tempboard hrow hcol hclear, row_eq h, col_eq h, onPiece]
    rw [hblock]

theorem rgb_outside (h : m.window = false) : m.rgb = Rgb.black := by
  rw [rgb, block_on, ball_on, h]
  rfl

/-- The cells that the picture shows are those that are set after a lock of the piece there, if it
overlaps nothing. -/
theorem bit_lock (oob : ℕ → ℕ → Bool) (hwindow : m.window = true) (hrow : m.row.toNat < 23)
    (hfree : ¬Hits m.gameboard m.rows m.BlockY.toNat m.BlockX.toNat) :
    (add m.gameboard oob m.rows m.BlockY.toNat m.BlockX.toNat).bit m.row.toNat m.col.toNat =
      (m.onBoard || m.onPiece) := by
  have hin := window_iff.mp hwindow
  have hcol : m.col.toNat < 16 := by
    rw [col_eq hwindow]
    omega
  rw [bit_add hfree, decide_eq_true ⟨hrow, hcol⟩, Bool.true_and, row_eq hwindow, col_eq hwindow,
    onBoard, onPiece]

/-- **The picture shows the game** exactly if the pixel is not in the two last lines of the
window. -/
theorem shows_board_iff (m : ColorMapper) : m.ShowsBoard ↔
    ¬(300 ≤ m.DrawX.toNat ∧ m.DrawX.toNat ≤ 427 ∧
      (m.DrawY.toNat = 334 ∨ m.DrawY.toNat = 335)) := by
  constructor
  · rintro h ⟨h300, h427, hlast⟩
    have hwindow : m.window = true := window_iff.mpr (by omega)
    have hrow := h.row_lt hwindow
    rw [row_eq hwindow] at hrow
    omega
  · intro hnot
    have hrow : m.window = true → m.row.toNat < 23 := by
      intro h
      have hin := window_iff.mp h
      rw [row_eq h]
      omega
    have hcol : m.window = true → m.col.toNat < 16 := by
      intro h
      have hin := window_iff.mp h
      rw [col_eq h]
      omega
    obtain ⟨hwhite, hblack⟩ := blockColor_ne m.blockType
    have hne : Rgb.white ≠ Rgb.black := by decide
    refine ⟨hrow, hcol, ?_, ?_, ?_, rgb_outside⟩
    all_goals
      intro h
      rw [rgb_eq h (hrow h)]
      cases m.onBoard <;> cases m.onPiece <;> simp [hwhite, hblack, hne, hwhite.symm, hblack.symm,
        hne.symm]

/-- The first pixel of line `334` is in no row of the board. -/
theorem not_shows_board : ¬∀ m : ColorMapper, m.BlockX.toNat ≤ 12 → m.BlockY.toNat ≤ 19 →
    m.ShowsBoard := by
  intro h
  let m : ColorMapper :=
    { DrawX := 300, DrawY := 334, BlockX := 4, BlockY := 0, orientation := 0, blockType := 0
      gameboard := emptyBoard, oob := fun _ _ => false, oobTemp := fun _ _ => false }
  have hrow := (h m (by decide) (by decide)).row_lt (by decide)
  revert hrow
  decide

end ColorMapper

end ECE385.Tetris
