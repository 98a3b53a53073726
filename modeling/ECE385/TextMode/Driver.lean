import ECE385.Clocked.Bus
import ECE385.TextMode.Palette

/-!
# The driver of the text display

`text_mode_vga_color.c`, as programs that drive the Avalon port.  `TEXT_VGA_STRUCT` puts
`VRAM` at byte `0` and `PALETTE` behind `VRAM` and `skip`.  A store of one byte puts it
on all lanes and enables one.

* `Store`: the memory and the palette registers, as the driver's transfers change
  them.
* `exec_view`: on these the circuit does what the program means.
-/

namespace ECE385.TextMode

open Bits Clocked

def COLUMNS : ℕ := 80

def ROWS : ℕ := 30

/-- The length of `VRAM` and of the bytes skipped between it and `PALETTE`. -/
def vramSize : ℕ := ROWS * COLUMNS * 2

def skip : ℕ := 3392

/-- A write on the Avalon port. -/
structure Transfer where
  addr : BitVec 12
  be : BitVec 4
  data : BitVec 32

/-- Programs of the driver. -/
abbrev Program := Prog Transfer (BitVec 12) (BitVec 32)

/-- `vga_ctrl->VRAM[i] = v`. -/
def storeVRAM (i : ℕ) (v : BitVec 8) (k : Program) : Program :=
  .write ⟨wordOf 12 i, enableOf i, v ++ v ++ v ++ v⟩ k

/-- The word of `vga_ctrl->PALETTE[i]`. -/
def paletteWord (i : ℕ) : BitVec 12 := wordOf 12 (vramSize + skip + 4 * i)

/-- `vga_ctrl->PALETTE[i] = f(vga_ctrl->PALETTE[i])`. -/
def updatePALETTE (i : ℕ) (f : BitVec 32 → BitVec 32) (k : Program) : Program :=
  .read (paletteWord i) fun v => .write ⟨paletteWord i, 0xF#4, f v⟩ k

/-- The loop of `textVGAColorClr` with `n` rounds to go. -/
def clrLoop : ℕ → Program
  | 0 => .done
  | n + 1 => storeVRAM (vramSize - (n + 1)) 0x00#8 (clrLoop n)

def textVGAColorClr : Program := clrLoop vramSize

/-- The loop of `textVGADrawColorText` from `str[i]` on. -/
def drawLoop (x y : ℕ) (background foreground : BitVec 8) : ℕ → List (BitVec 8) → Program
  | _, [] => .done
  | i, c :: str =>
    if c = 0 then .done
    else
      storeVRAM ((y * COLUMNS + x + i) * 2) (foreground <<< 4 ||| background)
        (storeVRAM ((y * COLUMNS + x + i) * 2 + 1) c
          (drawLoop x y background foreground (i + 1) str))

def textVGADrawColorText (str : List (BitVec 8)) (x y : ℕ) (background foreground : BitVec 8) :
    Program :=
  drawLoop x y background foreground 0 str

def setColorPalette (color red green blue : BitVec 8) : Program :=
  let paletteIndex := color.toNat / 2
  let rgb : BitVec 32 :=
    ((red.setWidth 32 <<< 4) ||| green.setWidth 32) <<< 4 ||| blue.setWidth 32
  if color.toNat % 2 = 1 then
    updatePALETTE paletteIndex (· &&& 0b00000000000000000001111111111110#32)
      (updatePALETTE paletteIndex (· ||| rgb <<< 13) .done)
  else
    updatePALETTE paletteIndex (· &&& 0b00000001111111111110000000000000#32)
      (updatePALETTE paletteIndex (· ||| rgb <<< 1) .done)

/-! ### The device -/

/-- The memory and the palette registers. -/
@[ext] structure Store where
  words : BitVec 12 → BitVec 32
  palette : BitVec 3 → BitVec 32

namespace Store

/-- What a selected write does to both. -/
def write (x : Transfer) (st : Store) : Store where
  words := writeWord st.words x.addr x.be x.data
  palette :=
    if x.addr.getLsbD 11 then
      fun e => if e = x.addr.extractLsb' 0 3 then x.data else st.palette e
    else st.palette

def read (a : BitVec 12) (st : Store) : BitVec 32 := st.words a

end Store

namespace Interface

variable (font_rom : BitVec 11 → BitVec 8)

def view (s : Interface) : Store := ⟨s.ocm, s.palette⟩

/-- The cycle performs the write. -/
structure Writing (x : Transfer) (i : Input) : Prop where
  reset : i.reset = false
  read : i.avlRead = false
  write : i.avlWrite = true
  cs : i.avlCs = true
  addr : i.avlAddr = x.addr
  be : i.avlByteEn = x.be
  data : i.avlWritedata = x.data

/-- The cycle belongs to a read of `a`. -/
structure Reading (a : BitVec 12) (i : Input) : Prop where
  reset : i.reset = false
  read : i.avlRead = true
  write : i.avlWrite = false
  cs : i.avlCs = true
  addr : i.avlAddr = a

/-- The cycle transfers nothing. -/
structure Idling (i : Input) : Prop where
  reset : i.reset = false
  read : i.avlRead = false
  write : i.avlWrite = false

/-- The Avalon port: a write takes one cycle, a read three (`readWaitTime` is `2`),
and its data is taken in the last. -/
def avalon : Device Interface Transfer (BitVec 12) (BitVec 32) where
  Idle s s' := ∃ i, Idling i ∧ s' = s.next font_rom i
  Write x s s' := ∃ i, Writing x i ∧ s' = s.next font_rom i
  Read a s r s' := ∃ i j k, Reading a i ∧ Reading a j ∧ Reading a k ∧
    r = ((s.next font_rom i).next font_rom j).readdata k ∧
    s' = ((s.next font_rom i).next font_rom j).next font_rom k

variable {font_rom} {s : Interface} {i : Input}

theorem view_keep (hr : i.reset = false) (hw : i.avlWrite = false) :
    (s.next font_rom i).view = s.view := by
  have hload : i.loadsPalette = false := by simp [Input.loadsPalette, hw]
  ext1
  · exact ocmNext_of_not_write hw
  · exact paletteNext_keep hload hr

theorem view_write {x : Transfer} (h : Writing x i) :
    (s.next font_rom i).view = s.view.write x := by
  have hload : i.loadsPalette = x.addr.getLsbD 11 := by
    simp [Input.loadsPalette, h.cs, h.write, h.addr]
  ext1
  · simp [view, next, ocmNext, Store.write, localData, h.write, h.cs, h.addr, h.be, h.data]
  · simp [view, next, paletteNext, Store.write, hload, h.reset, h.addr, h.data]

theorem readdata_next {a : BitVec 12} {j : Input} (hi : Reading a i) (hj : Reading a j) :
    (s.next font_rom i).readdata j = s.ocm a := by
  simp [readdata, next, qANext, ocmNext, hi.read, hi.write, hi.addr, hj.cs]

/-- **The circuit does what the program means**, on the memory and the palette. -/
theorem exec_view {p : Program} {t : Interface} (h : Exec (avalon font_rom) p s t) :
    t.view = p.eval Store.write Store.read s.view := by
  refine h.view_eq ?_ ?_ ?_
  · rintro s _ ⟨i, hi, rfl⟩
    exact view_keep hi.reset hi.write
  · rintro x s _ ⟨i, hi, rfl⟩
    exact view_write hi
  · rintro a s r _ ⟨i, j, k, hi, hj, hk, rfl, rfl⟩
    have hv : (s.next font_rom i).view = s.view := view_keep hi.reset hi.write
    refine ⟨?_, ?_⟩
    · rw [readdata_next hj hk]
      exact congrFun (congrArg Store.words hv) a
    · rw [view_keep hk.reset hk.write, view_keep hj.reset hj.write, hv]

variable (font_rom) in
/-- Every program of the driver has an execution. -/
theorem avalon_exec_exists (p : Program) (s : Interface) : ∃ t, Exec (avalon font_rom) p s t := by
  refine exec_exists ?_ ?_ p s
  · intro x s
    exact ⟨_, transfer x.addr x.be x.data, ⟨rfl, rfl, rfl, rfl, rfl, rfl, rfl⟩, rfl⟩
  · intro a s
    let i : Input := { idle with avlRead := true, avlCs := true, avlAddr := a }
    have hi : Reading a i := ⟨rfl, rfl, rfl, rfl, rfl⟩
    exact ⟨_, _, i, i, i, hi, hi, hi, rfl, rfl⟩

end Interface

end ECE385.TextMode
