import ECE385.Slc3.Datapath
import ECE385.Clocked.Run

/-!
# The SLC-3 with its test memory

`slc3_testtop.sv` behind its button synchronisers: `slc3` connected to
`test_memory`.  The memory answers a read one clock edge later, drives `x` in
every other cycle, and decodes the low eight of the ten address bits it gets.

`Board.next image` is one clock edge; `image` is what `$readmemh` loads at
reset.
-/

namespace ECE385.Slc3

/-- `test_memory`: `mem_array` and `mem_out`. -/
structure TestMemory where
  memArray : BitVec 8 → BitVec 16
  memOut : BitVec 16

/-- One clock edge of `test_memory`; `memX` is the `x` it drives when it does not
answer a read. -/
def TestMemory.next (image : BitVec 8 → BitVec 16) (reset : Bool) (data : BitVec 16)
    (address : BitVec 10) (rden wren : Bool) (memX : BitVec 16) (m : TestMemory) : TestMemory :=
  if reset then { memArray := image, memOut := memX }
  else if rden && !wren then
    { m with memOut := m.memArray (address.extractLsb' 0 8) }
  else if !rden && wren then
    { memArray := fun a => if a = address.extractLsb' 0 8 then data else m.memArray a,
      memOut := memX }
  else { m with memOut := memX }

/-- The inputs of a clock edge, with the values the two sources of `x` take. -/
structure Input where
  reset : Bool
  run : Bool
  continue_ : Bool
  sw : BitVec 10
  busX : BitVec 16
  memX : BitVec 16

/-- `slc3` connected to `test_memory`. -/
structure Board where
  cpu : Cpu
  mem : TestMemory

/-- One clock edge of the board. -/
def Board.next (image : BitVec 8 → BitVec 16) (i : Input) (b : Board) : Board where
  cpu := b.cpu.next
    { reset := i.reset, run := i.run, continue_ := i.continue_, sw := i.sw,
      dataFromSRAM := b.mem.memOut, busX := i.busX }
  mem := b.mem.next image i.reset b.cpu.mdr (b.cpu.mar.extractLsb' 0 10) b.cpu.oe b.cpu.we i.memX

end ECE385.Slc3
