import ECE385.Bits.Serial

/-!
# The bit-serial logic processor of Lab 2.2

The control, the register unit, the compute unit and the router as `Processor.sv` wires them.  The
inputs are the synchronised ones; `F` and `R` are the function and the routing code.
-/

namespace ECE385.Lab22

open Bits

/-- `curr_state` of `control`, in the order the machine goes through them. -/
inductive CState
  | A | B | C | D | E | G | H | I | J | F
  deriving DecidableEq

/-- `next_state`. -/
def CState.next (execute : Bool) : CState → CState
  | .A => if execute then .B else .A
  | .B => .C
  | .C => .D
  | .D => .E
  | .E => .G
  | .G => .H
  | .H => .I
  | .I => .J
  | .J => .F
  | .F => if execute then .F else .A

/-- The outputs of `control`. -/
structure Control where
  shift_En : Bool
  ld_A : Bool
  ld_B : Bool
  deriving DecidableEq

def CState.control (loadA loadB : Bool) : CState → Control
  | .A => ⟨false, loadA, loadB⟩
  | .F => ⟨false, false, false⟩
  | _ => ⟨true, false, false⟩

/-- `F_A_B` of `compute`, which passes its operands on as they are. -/
def compute (F : BitVec 3) (A_In B_In : Bool) : Bool :=
  if F = 0b000#3 then A_In && B_In
  else if F = 0b001#3 then A_In || B_In
  else if F = 0b010#3 then A_In ^^ B_In
  else if F = 0b011#3 then true
  else if F = 0b100#3 then !(A_In && B_In)
  else if F = 0b101#3 then !(A_In || B_In)
  else if F = 0b110#3 then !(A_In ^^ B_In)
  else false

/-- `router`: `A_Out` and `B_Out`. -/
def router (R : BitVec 2) (A_In B_In F_A_B : Bool) : Bool × Bool :=
  (if R = 0b00#2 then A_In else if R = 0b01#2 then A_In else if R = 0b10#2 then F_A_B else B_In,
    if R = 0b00#2 then B_In else if R = 0b01#2 then F_A_B else if R = 0b10#2 then B_In else A_In)

/-- `reg_8`. -/
def reg_8 (reset shift_In load shift_En : Bool) (d data_Out : BitVec 8) : BitVec 8 :=
  if reset then 0#8 else if load then d
  else if shift_En then shiftIn shift_In data_Out else data_Out

/-- The signals at a clock edge. -/
structure Input where
  reset : Bool
  loadA : Bool
  loadB : Bool
  execute : Bool
  din : BitVec 8

/-- The registers. -/
structure Processor where
  curr_state : CState
  a : BitVec 8
  b : BitVec 8

namespace Processor

/-- `newA` and `newB`. -/
def new (F : BitVec 3) (R : BitVec 2) (s : Processor) : Bool × Bool :=
  router R (s.a.getLsbD 0) (s.b.getLsbD 0) (compute F (s.a.getLsbD 0) (s.b.getLsbD 0))

/-- One clock edge. -/
def next (F : BitVec 3) (R : BitVec 2) (i : Input) (s : Processor) : Processor :=
  let c := s.curr_state.control i.loadA i.loadB
  { curr_state := if i.reset then .A else s.curr_state.next i.execute
    a := reg_8 i.reset (s.new F R).1 c.ld_A c.shift_En i.din s.a
    b := reg_8 i.reset (s.new F R).2 c.ld_B c.shift_En i.din s.b }

end Processor

end ECE385.Lab22
