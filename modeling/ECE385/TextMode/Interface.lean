import ECE385.Bits.Lanes
import ECE385.Clocked.Run

/-!
# The text display of Lab 7.2

`vga_text_avl_interface.sv` with `VGA_controller.sv` and the memory `ocm.v`, whose
`altsyncram` is taken as a synchronous two-port RAM with byte enables.  The
glyphs of `font_rom.sv` are a parameter `font_rom`.
-/

namespace ECE385.TextMode

open Bits

/-- The signals at an edge of `CLK`.  Two of them stand for what the source leaves
open: `dontCare` is what port b reads of a word that port a is writing
(`DONT_CARE` in `ocm.v`), and `late` says whether the pixel clock, itself a register of
`CLK`, samples the words of this edge or those before it. -/
structure Input where
  reset : Bool
  avlRead : Bool
  avlWrite : Bool
  avlCs : Bool
  avlByteEn : BitVec 4
  avlAddr : BitVec 12
  avlWritedata : BitVec 32
  dontCare : BitVec 32
  late : Bool

/-- The write condition of the palette registers. -/
def Input.loadsPalette (i : Input) : Bool := i.avlCs && i.avlWrite && i.avlAddr.getLsbD 11

/-- The three channels. -/
structure RGB where
  red : BitVec 4
  green : BitVec 4
  blue : BitVec 4
  deriving DecidableEq

/-- The registers and the memory. -/
structure Interface where
  ocm : BitVec 12 → BitVec 32
  qA : BitVec 32
  pixeldata : BitVec 32
  palette : BitVec 3 → BitVec 32
  clkdiv : Bool
  hc : BitVec 10
  vc : BitVec 10
  hs : Bool
  vs : Bool
  rgb : RGB

/-! ### The pixel logic -/

/-- `curr`, the cell under the pixel in raster order. -/
def curr (drawX drawY : BitVec 10) : BitVec 13 :=
  BitVec.ofNat 13 ((drawY.extractLsb' 4 6).toNat * 80 + (drawX.extractLsb' 3 7).toNat)

/-- `mid`, the word of the memory that holds it. -/
def mid (drawX drawY : BitVec 10) : BitVec 12 :=
  BitVec.ofNat 12 ((curr drawX drawY).toNat / 2)

/-- `cashmoney`, the half of that word. -/
def cashmoney (drawX drawY : BitVec 10) (pixeldata : BitVec 32) : BitVec 16 :=
  if (curr drawX drawY).getLsbD 0 then pixeldata.extractLsb' 16 16 else pixeldata.extractLsb' 0 16

/-- One of the two colours of a palette word. -/
def slice (odd : Bool) (v : BitVec 32) : RGB :=
  if odd then ⟨v.extractLsb' 21 4, v.extractLsb' 17 4, v.extractLsb' 13 4⟩
  else ⟨v.extractLsb' 9 4, v.extractLsb' 5 4, v.extractLsb' 1 4⟩

/-- What `red`, `green` and `blue` take at a pixel clock. -/
def pixel (font_rom : BitVec 11 → BitVec 8) (palette : BitVec 3 → BitVec 32)
    (pixeldata : BitVec 32) (drawX drawY : BitVec 10) : RGB :=
  if drawX.toNat < 640 ∧ drawY.toNat < 480 then
    let cell := cashmoney drawX drawY pixeldata
    let char := cell.extractLsb' 8 8
    let sprite_data := font_rom (char.extractLsb' 0 7 ++ drawY.extractLsb' 0 4)
    if sprite_data.getLsbD (~~~drawX.extractLsb' 0 3).toNat ^^ char.getLsbD 7 then
      slice (cell.getLsbD 4) (palette (cell.extractLsb' 5 3))
    else
      slice (cell.getLsbD 0) (palette (cell.extractLsb' 1 3))
  else ⟨0, 0, 0⟩

namespace Interface

variable (s : Interface) (i : Input)

/-! ### The memory and the palette -/

/-- `AVL_WRITEDATA_local`. -/
def localData : BitVec 32 := if i.avlCs then i.avlWritedata else 0

/-- The memory after the edge; its write enable is `AVL_WRITE` alone. -/
def ocmNext : BitVec 12 → BitVec 32 :=
  if i.avlWrite then writeWord s.ocm i.avlAddr i.avlByteEn (localData i) else s.ocm

/-- `q_a`. -/
def qANext : BitVec 32 := if i.avlRead then s.ocmNext i i.avlAddr else s.qA

/-- `q_b`. -/
def pixeldataNext : BitVec 32 :=
  if i.avlWrite ∧ i.avlAddr = mid s.hc s.vc then i.dontCare else s.ocm (mid s.hc s.vc)

/-- The palette registers after the edge. -/
def paletteNext : BitVec 3 → BitVec 32 :=
  if i.loadsPalette then
    fun e => if e = i.avlAddr.extractLsb' 0 3 then i.avlWritedata else s.palette e
  else if i.reset then
    fun e => if e = i.avlAddr.extractLsb' 0 3 then 0 else s.palette e
  else s.palette

/-- `AVL_READDATA`. -/
def readdata : BitVec 32 := if i.avlCs then s.qA else 0

/-! ### The raster -/

/-- A rising edge of `pixel_clk`. -/
def rises : Bool := !i.reset && !s.clkdiv

/-- `counter_proc`. -/
def counters (hc vc : BitVec 10) : BitVec 10 × BitVec 10 :=
  if hc = 799#10 then (0#10, if vc = 524#10 then 0#10 else vc + 1) else (hc + 1, vc)

def hsync (hc : BitVec 10) : Bool := !(656 ≤ hc.toNat + 1 && hc.toNat + 1 < 752)

def vsync (vc : BitVec 10) : Bool := !(vc.toNat + 1 == 490 || vc.toNat + 1 == 491)

/-- One edge of `CLK`. -/
def next (font_rom : BitVec 11 → BitVec 8) (i : Input) (s : Interface) : Interface where
  ocm := s.ocmNext i
  qA := s.qANext i
  pixeldata := s.pixeldataNext i
  palette := s.paletteNext i
  clkdiv := !i.reset && !s.clkdiv
  hc := if i.reset then 0 else if s.rises i then (counters s.hc s.vc).1 else s.hc
  vc := if i.reset then 0 else if s.rises i then (counters s.hc s.vc).2 else s.vc
  hs := if i.reset then false else if s.rises i then hsync s.hc else s.hs
  vs := if i.reset then false else if s.rises i then vsync s.vc else s.vs
  rgb :=
    if s.rises i then
      if i.late then pixel font_rom (s.paletteNext i) (s.pixeldataNext i) s.hc s.vc
      else pixel font_rom s.palette s.pixeldata s.hc s.vc
    else s.rgb

end Interface

end ECE385.TextMode
