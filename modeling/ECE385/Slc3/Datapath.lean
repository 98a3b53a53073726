import ECE385.Slc3.Isdu

/-!
# The datapath of the SLC-3

`datapath.sv` with the modules it instantiates (`mux_stuff.sv`, `reg_stuff.sv`,
`ALU.sv`, `BUS.sv`, `RegFile.sv`) and the I/O controller `Mem2IO.sv`, joined as
in `slc3.sv`.  `Cpu` holds all registers of `slc3`, and `Cpu.next` is one clock
edge.

`BUS.sv` drives `16'bx` when no gate is open.  That value is an input, `busX`,
so that whatever is proved holds for every value it may take.
-/

namespace ECE385.Slc3

/-! ### Multiplexers -/

/-- The two-way multiplexers of `mux_stuff.sv`. -/
def mux2 {α : Type} (select : Bool) (in0 in1 : α) : α := if select then in1 else in0

def mioMux (select : Bool) (in0 in1 : BitVec 16) : BitVec 16 := mux2 select in0 in1

def addr1Mux (select : Bool) (in0 in1 : BitVec 16) : BitVec 16 := mux2 select in0 in1

def sr1Mux (select : Bool) (in0 in1 : BitVec 3) : BitVec 3 := mux2 select in0 in1

def drMux (select : Bool) (in0 in1 : BitVec 3) : BitVec 3 := mux2 select in0 in1

def sr2Mux (select : Bool) (in0 in1 : BitVec 16) : BitVec 16 := mux2 select in0 in1

def pcMux (select : BitVec 2) (in0 in1 in2 : BitVec 16) : BitVec 16 :=
  if select = 0b00#2 then in0 else if select = 0b01#2 then in1
  else if select = 0b10#2 then in2 else 0#16

def addr2Mux (select : BitVec 2) (in0 in1 in2 in3 : BitVec 16) : BitVec 16 :=
  if select = 0b00#2 then in0 else if select = 0b01#2 then in1
  else if select = 0b10#2 then in2 else in3

/-! ### Registers, ALU and bus -/

/-- `reg_16`, `reg_3` and `reg_1`: synchronous reset, then load, else hold. -/
def reg {α : Type} (zero : α) (reset load : Bool) (d dataOut : α) : α :=
  if reset then zero else if load then d else dataOut

def alu (aluK : BitVec 2) (a b : BitVec 16) : BitVec 16 :=
  if aluK = 0b00#2 then a + b else if aluK = 0b01#2 then a &&& b
  else if aluK = 0b10#2 then ~~~a else a

/-- `nzp` of `BEN_Reg`: the condition code of the word on the bus. -/
def nzp (bus : BitVec 16) : BitVec 3 :=
  if bus.getLsbD 15 then 0b100#3 else if bus = 0#16 then 0b010#3 else 0b001#3

/-- `newBEN` of `BEN_Reg`. -/
def newBEN (irIn cc : BitVec 3) : Bool :=
  (irIn.getLsbD 2 && cc.getLsbD 2) || (irIn.getLsbD 1 && cc.getLsbD 1)
    || (irIn.getLsbD 0 && cc.getLsbD 0)

/-- `BUS.sv`: the first open gate drives the bus, `busX` when none is open. -/
def bus (c : Control) (pc mdr marmux alu busX : BitVec 16) : BitVec 16 :=
  if c.gatePC then pc else if c.gateMDR then mdr else if c.gateALU then alu
  else if c.gateMARMUX then marmux else busX

/-! ### The processor -/

/-- The registers of `slc3`: the state of `ISDU`, the registers of `datapath`,
and `hex_data` of `Mem2IO`. -/
structure Cpu where
  isdu : IState
  pc : BitVec 16
  mdr : BitVec 16
  mar : BitVec 16
  ir : BitVec 16
  ben : Bool
  cc : BitVec 3
  r : BitVec 3 → BitVec 16
  led : BitVec 10
  hexData : BitVec 16

/-- The inputs of `slc3` at a clock edge, and the `x` its bus may carry. -/
structure CpuInput where
  reset : Bool
  run : Bool
  continue_ : Bool
  sw : BitVec 10
  dataFromSRAM : BitVec 16
  busX : BitVec 16

namespace Cpu

variable (s : Cpu)

def control : Control := Slc3.control (s.ir.getLsbD 5) s.isdu

def oe : Bool := s.control.memOE

def we : Bool := s.control.memWE

def sr1Out : BitVec 16 :=
  s.r (sr1Mux s.control.sr1MUX (s.ir.extractLsb' 6 3) (s.ir.extractLsb' 9 3))

def sr2Out : BitVec 16 := s.r (s.ir.extractLsb' 0 3)

def addr1Out : BitVec 16 := addr1Mux s.control.addr1MUX s.sr1Out s.pc

def addr2Out : BitVec 16 :=
  addr2Mux s.control.addr2MUX 0#16 ((s.ir.extractLsb' 0 6).signExtend 16)
    ((s.ir.extractLsb' 0 9).signExtend 16) ((s.ir.extractLsb' 0 11).signExtend 16)

def marmux : BitVec 16 := s.addr1Out + s.addr2Out

def aluOut : BitVec 16 :=
  alu s.control.aluK s.sr1Out
    (sr2Mux s.control.sr2MUX s.sr2Out ((s.ir.extractLsb' 0 5).signExtend 16))

def busOut (busX : BitVec 16) : BitVec 16 :=
  bus s.control s.pc s.mdr s.marmux s.aluOut busX

/-- `Data_to_CPU` of `Mem2IO`: the switches at `xFFFF`, the memory elsewhere. -/
def dataToCPU (sw : BitVec 10) (dataFromSRAM : BitVec 16) : BitVec 16 :=
  if !s.we && s.oe then
    if s.mar = 0xFFFF#16 then sw.setWidth 16 else dataFromSRAM
  else 0#16

def drMuxOut : BitVec 3 := drMux s.control.drMUX (s.ir.extractLsb' 9 3) 0b111#3

/-- One clock edge of `slc3`. -/
def next (i : CpuInput) : Cpu where
  isdu := if i.reset then .halted
    else nextState i.run i.continue_ (s.ir.extractLsb' 12 4) s.ben s.isdu
  pc := reg 0#16 i.reset s.control.ldPC
    (pcMux s.control.pcMUX (s.pc + 1) (s.busOut i.busX) s.marmux) s.pc
  mdr := reg 0#16 i.reset s.control.ldMDR
    (mioMux s.oe (s.busOut i.busX) (s.dataToCPU i.sw i.dataFromSRAM)) s.mdr
  mar := reg 0#16 i.reset s.control.ldMAR (s.busOut i.busX) s.mar
  ir := reg 0#16 i.reset s.control.ldIR (s.busOut i.busX) s.ir
  ben := reg false i.reset s.control.ldBEN (newBEN (s.ir.extractLsb' 9 3) s.cc) s.ben
  cc := reg 0#3 i.reset s.control.ldCC (nzp (s.busOut i.busX)) s.cc
  r := fun k =>
    reg 0#16 i.reset (s.control.ldREG && decide (s.drMuxOut = k)) (s.busOut i.busX) (s.r k)
  led := if s.control.ldLED then s.ir.extractLsb' 0 10 else 0#10
  hexData := reg 0#16 i.reset (s.we && decide (s.mar = 0xFFFF#16)) s.mdr s.hexData

end Cpu

end ECE385.Slc3
