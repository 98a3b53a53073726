import ECE385.Slc3.Datapath
import ECE385.Slc3.Image
import ECE385.Clocked.Run

/-!
# The SLC-3 with its program loader

`slc3_sramtop.sv`: the two buttons behind their synchronisers, `slc3`, the loader
`Instantiateram` and the multiplexers that give the loader the RAM port while
it writes (`we_select`).  The RAM itself is a synchronous single-port memory; what
it drives after an edge that does not read is an input, `ramX`.

The buttons are active low, and pressing both is the reset.  The registers of the loader have an
asynchronous reset.  `Reset` changes only at clock edges, with the
synchronisers, so the loader is back at its first word in the very cycle `Reset` rises.
-/

namespace ECE385.Slc3

/-- `state` of `Instantiateram`. -/
inductive LState
  | idle | memWrite | done
  deriving DecidableEq

/-- `Instantiateram`: `state` and `address`. -/
@[ext] structure Loader where
  state : LState
  address : BitVec 16
  deriving DecidableEq

namespace Loader

def start : Loader := ⟨.memWrite, 0x0#16⟩

/-- `wren`, the `we_select` of `slc3_sramtop`, and `accumulate`. -/
def wren (l : Loader) : Bool := l.state = .memWrite

def nextState (l : Loader) : LState :=
  match l.state with
  | .idle => .idle
  | .memWrite => if l.address = 0xff#16 then .done else .memWrite
  | .done => .idle

/-- One clock edge with the reset low. -/
def next (l : Loader) : Loader where
  state := l.nextState
  address := if l.wren then l.address + 1 else l.address

end Loader

/-- The RAM behind the port `address`, `data`, `rden`, `wren`, `q`. -/
structure Ram where
  mem : BitVec 10 → BitVec 16
  q : BitVec 16

/-- What is asked of the RAM at a clock edge. -/
structure RamPort where
  address : BitVec 10
  data : BitVec 16
  rden : Bool
  wren : Bool

def Ram.next (p : RamPort) (ramX : BitVec 16) (m : Ram) : Ram where
  mem := fun a => if p.wren && decide (a = p.address) then p.data else m.mem a
  q := if p.rden && !p.wren then m.mem p.address else ramX

/-- The inputs of a clock edge: the two buttons and the switches, and the values the
two undriven signals take. -/
structure TopInput where
  run : Bool
  continue_ : Bool
  sw : BitVec 10
  busX : BitVec 16
  ramX : BitVec 16

/-- `slc3_sramtop`; `runS` and `continueS` are the synchronised buttons. -/
structure Sramtop where
  runS : Bool
  continueS : Bool
  cpu : Cpu
  loader : Loader
  ram : Ram

namespace Sramtop

variable (s : Sramtop)

def runAh : Bool := !s.runS

def continueAh : Bool := !s.continueS

def resetAh : Bool := !s.runS && !s.continueS

def weSelect : Bool := s.loader.wren

/-- What the processor asks of the RAM. -/
def cpuPort : RamPort where
  address := s.cpu.mar.extractLsb' 0 10
  data := s.cpu.mdr
  rden := s.cpu.oe
  wren := s.cpu.we

/-- What the RAM is asked: `ADDR`, `Data_to_SRAM` and `WE` are the loader's while it
writes, `OE` is always the processor's. -/
def ramPort : RamPort where
  address := (if s.weSelect then s.loader.address else s.cpu.mar).extractLsb' 0 10
  data := if s.weSelect then initData s.loader.address else s.cpu.mdr
  rden := s.cpu.oe
  wren := if s.weSelect then true else s.cpu.we

/-- One clock edge. -/
def next (i : TopInput) (s : Sramtop) : Sramtop where
  runS := i.run
  continueS := i.continue_
  cpu := s.cpu.next
    { reset := s.resetAh, run := s.runAh, continue_ := s.continueAh, sw := i.sw,
      dataFromSRAM := s.ram.q, busX := i.busX }
  -- the reset reaches the loader at the edge, or as soon as the edge has raised it
  loader := if s.resetAh || (!i.run && !i.continue_) then .start else s.loader.next
  ram := s.ram.next s.ramPort i.ramX

/-- Both buttons are down and a clock edge has seen it. -/
structure InReset (s : Sramtop) : Prop where
  reset : s.resetAh = true
  loader : s.loader = .start
  halted : s.cpu.isdu = .halted

end Sramtop

end ECE385.Slc3
