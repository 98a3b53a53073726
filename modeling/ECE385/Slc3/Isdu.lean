import Mathlib.Init

/-!
# The instruction sequencer of the SLC-3

`ISDU.sv`: a Moore machine whose states are named after the SLC-3 state
diagram.  `nextState` is its first `case`, `control` its second one, and
`dispatch` the inner `case (Opcode)` of `S_32`.  A state that the first `case`
does not list returns to `S_18`.
-/

namespace ECE385.Slc3

/-- `State` of the sequencer. -/
inductive IState
  | halted | pauseIR1 | pauseIR2
  | s18 | s33_1 | s33_2 | s33_3 | s35 | s32
  | s01 | s05 | s09 | s06 | s25_1 | s25_2 | s25_3 | s27
  | s07 | s23 | s16 | sBEN | s22 | s12 | s04 | s21
  deriving DecidableEq

/-- The control signals.  The defaults are those at the head of the
`always_comb` block. -/
structure Control where
  ldMAR : Bool := false
  ldMDR : Bool := false
  ldIR : Bool := false
  ldBEN : Bool := false
  ldCC : Bool := false
  ldREG : Bool := false
  ldPC : Bool := false
  ldLED : Bool := false
  gatePC : Bool := false
  gateMDR : Bool := false
  gateALU : Bool := false
  gateMARMUX : Bool := false
  pcMUX : BitVec 2 := 0b00#2
  drMUX : Bool := false
  sr1MUX : Bool := false
  sr2MUX : Bool := false
  addr1MUX : Bool := false
  addr2MUX : BitVec 2 := 0b00#2
  aluK : BitVec 2 := 0b00#2
  memOE : Bool := false
  memWE : Bool := false

/-- `case (Opcode)` of `S_32`. -/
def dispatch (opcode : BitVec 4) : IState :=
  if opcode = 0b0001#4 then .s01
  else if opcode = 0b0101#4 then .s05
  else if opcode = 0b1001#4 then .s09
  else if opcode = 0b0000#4 then .sBEN
  else if opcode = 0b1100#4 then .s12
  else if opcode = 0b0100#4 then .s04
  else if opcode = 0b0110#4 then .s06
  else if opcode = 0b0111#4 then .s07
  else if opcode = 0b1101#4 then .pauseIR1
  else .s18

/-- `Next_state`. -/
def nextState (run continue_ : Bool) (opcode : BitVec 4) (ben : Bool) : IState → IState
  | .halted => if run then .s18 else .halted
  | .s18 => .s33_1
  | .s33_1 => .s33_2
  | .s33_2 => .s33_3
  | .s33_3 => .s35
  | .s35 => .s32
  | .pauseIR1 => if continue_ then .pauseIR2 else .pauseIR1
  | .pauseIR2 => if continue_ then .pauseIR2 else .s18
  | .s32 => dispatch opcode
  | .s06 => .s25_1
  | .s25_1 => .s25_2
  | .s25_2 => .s25_3
  | .s25_3 => .s27
  | .s07 => .s23
  | .s23 => .s16
  | .s04 => .s21
  | .sBEN => if ben then .s22 else .s18
  | _ => .s18

/-- The control signals of a state.  Only `SR2MUX` looks at the instruction. -/
def control (ir5 : Bool) : IState → Control
  | .halted => {}
  | .s18 => { gatePC := true, ldMAR := true, pcMUX := 0b00#2, ldPC := true }
  | .s33_1 => { memOE := true }
  | .s33_2 => { memOE := true }
  | .s33_3 => { memOE := true, ldMDR := true }
  | .s35 => { gateMDR := true, ldIR := true }
  | .pauseIR1 => { ldLED := true }
  | .pauseIR2 => {}
  | .s32 => { ldBEN := true }
  | .s01 => { sr2MUX := ir5, aluK := 0b00#2, gateALU := true, ldREG := true, sr1MUX := false,
              drMUX := false, ldCC := true }
  | .s05 => { sr2MUX := ir5, aluK := 0b01#2, gateALU := true, ldREG := true, sr1MUX := false,
              drMUX := false, ldCC := true }
  | .s09 => { ldREG := true, drMUX := false, sr1MUX := false, gateALU := true, aluK := 0b10#2,
              ldCC := true }
  | .s06 => { ldMAR := true, addr1MUX := false, addr2MUX := 0b01#2, gateMARMUX := true,
              sr1MUX := false }
  | .s25_1 => { memOE := true }
  | .s25_2 => { memOE := true }
  | .s25_3 => { memOE := true, ldMDR := true }
  | .s27 => { ldCC := true, gateMDR := true, drMUX := false, ldREG := true }
  | .s07 => { ldMAR := true, addr1MUX := false, addr2MUX := 0b01#2, gateMARMUX := true,
              sr1MUX := false }
  | .s23 => { ldMDR := true, gateALU := true, aluK := 0b11#2, sr1MUX := true }
  | .s16 => { memWE := true }
  | .sBEN => {}
  | .s22 => { addr2MUX := 0b10#2, addr1MUX := true, pcMUX := 0b10#2, ldPC := true }
  | .s12 => { sr1MUX := false, ldPC := true, pcMUX := 0b10#2, addr2MUX := 0b00#2,
              addr1MUX := false }
  | .s04 => { gatePC := true, ldREG := true, drMUX := true }
  | .s21 => { addr2MUX := 0b11#2, addr1MUX := true, pcMUX := 0b10#2, ldPC := true }

end ECE385.Slc3
