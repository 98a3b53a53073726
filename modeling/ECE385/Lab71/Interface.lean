import ECE385.Bits.Grid
import ECE385.Vga.Controller

/-!
# The text display of Lab 7.1

`vga_text_avl_interface.sv` with `VGA_controller.sv`.  The registers are an array of 601 words;
what a read gives outside of it is an input.  The glyphs of `font_rom.sv` are a parameter
`font_rom`.
-/

namespace ECE385.Lab71

open Bits TextMode Vga

/-- The reads of the registers at a computed index. -/
inductive Site
  | readdata | char

/-- The signals at an edge of `CLK`.  The registers are assigned at the edge that makes the pixel
clock rise; `late` says whether the pixel clock samples them after it or before. -/
structure Input where
  reset : Bool
  avlRead : Bool
  avlWrite : Bool
  avlCs : Bool
  avlByteEn : BitVec 4
  avlAddr : BitVec 10
  avlWritedata : BitVec 32
  oob : Site → ℕ → ℕ → Bool
  late : Bool

abbrev Registers := Grid 601 32

structure Interface where
  localReg : Registers
  avlReaddata : BitVec 32
  vgactrl : Controller
  rgb : RGB

/-! ### The registers -/

/-- The part `[lo + len - 1 : lo]` of the addressed word is assigned that of the data. -/
def part (i : Input) (g : Registers) (lo len : ℕ) : Registers :=
  g.assign i.avlAddr.toNat lo (i.avlWritedata.extractLsb' lo len)

/-- The `case (AVL_BYTE_EN)`; other masks write nothing. -/
def written (i : Input) (g : Registers) : Registers :=
  if i.avlByteEn = 0b1111#4 then part i g 0 32
  else if i.avlByteEn = 0b1100#4 then part i g 16 16
  else if i.avlByteEn = 0b0011#4 then part i g 0 16
  else if i.avlByteEn = 0b1000#4 then part i g 24 8
  else if i.avlByteEn = 0b0100#4 then part i g 16 8
  else if i.avlByteEn = 0b0010#4 then part i g 8 8
  else if i.avlByteEn = 0b0001#4 then part i g 0 8
  else g

def Input.writes (i : Input) : Bool := !i.reset && i.avlCs && i.avlWrite

def Input.reads (i : Input) : Bool := !i.reset && i.avlCs && !i.avlWrite && i.avlRead

def localRegNext (i : Input) (g : Registers) : Registers :=
  if i.reset then fun _ => 0#32 else if i.writes then written i g else g

/-! ### The pixel logic -/

/-- `curr`, the cell under the pixel in raster order. -/
def curr (drawX drawY : BitVec 10) : BitVec 12 :=
  BitVec.ofNat 12 ((drawY.extractLsb' 4 6).toNat * 80 + (drawX.extractLsb' 3 7).toNat)

/-- `char`, the byte of that cell. -/
def char (oob : ℕ → ℕ → Bool) (g : Registers) (curr : BitVec 12) : BitVec 8 :=
  let r := (curr.extractLsb' 2 10).toNat
  if curr.extractLsb' 0 2 = 0b00#2 then g.select oob 8 r 0
  else if curr.extractLsb' 0 2 = 0b01#2 then g.select oob 8 r 8
  else if curr.extractLsb' 0 2 = 0b10#2 then g.select oob 8 r 16
  else g.select oob 8 r 24

/-- `CTRL_REG`, the index of the control register. -/
def ctrlReg : Fin 601 := 600

/-- The colours in the control register. -/
def foreground (v : BitVec 32) : RGB := ⟨v.extractLsb' 21 4, v.extractLsb' 17 4, v.extractLsb' 13 4⟩

def background (v : BitVec 32) : RGB := ⟨v.extractLsb' 9 4, v.extractLsb' 5 4, v.extractLsb' 1 4⟩

/-- What `red`, `green` and `blue` take at a pixel clock. -/
def pixel (font_rom : BitVec 11 → BitVec 8) (oob : ℕ → ℕ → Bool) (g : Registers)
    (vgactrl : Controller) : RGB :=
  if vgactrl.display then
    let c := char oob g (curr vgactrl.hc vgactrl.vc)
    let sprite_data := font_rom (c.extractLsb' 0 7 ++ vgactrl.vc.extractLsb' 0 4)
    if sprite_data.getLsbD (~~~vgactrl.hc.extractLsb' 0 3).toNat ^^ c.getLsbD 7 then
      foreground (g ctrlReg)
    else background (g ctrlReg)
  else ⟨0, 0, 0⟩

/-! ### The interface -/

namespace Interface

/-- A rising edge of `pixel_clk`. -/
def rises (i : Input) (s : Interface) : Bool := !i.reset && !s.vgactrl.clkdiv

/-- The registers the pixel clock samples. -/
def sampled (i : Input) (s : Interface) : Registers :=
  if i.late then localRegNext i s.localReg else s.localReg

/-- One edge of `CLK`. -/
def next (font_rom : BitVec 11 → BitVec 8) (i : Input) (s : Interface) : Interface where
  localReg := localRegNext i s.localReg
  avlReaddata :=
    if i.reads then s.localReg.select (i.oob .readdata) 32 i.avlAddr.toNat 0 else s.avlReaddata
  vgactrl := s.vgactrl.next i.reset
  rgb := if s.rises i then pixel font_rom (i.oob .char) (s.sampled i) s.vgactrl else s.rgb

end Interface

end ECE385.Lab71
