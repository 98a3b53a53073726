import ECE385.Bits.Ripple
import ECE385.Clocked.Run

/-!
# The Lab 4 multiplier

`Lab4.sv`: the registers `X`, `A` and `B`, the nine-bit adder, the control
(`Control.sv`) and the synchronisers of the buttons and switches.  The adder takes
`Din` itself, only the load of `B` takes it synchronised.
-/

namespace ECE385.Lab4

open Bits

/-- `curr_state` of `control`. -/
inductive CState
  | initial | wait | start | end_ | subtract
  | add1 | shift1 | add2 | shift2 | add3 | shift3 | add4 | shift4
  | add5 | shift5 | add6 | shift6 | add7 | shift7 | shift8
  deriving DecidableEq

/-- `next_state`, while `Cloare` is low. -/
def CState.next (run : Bool) : CState → CState
  | .initial => .wait
  | .wait => if run then .start else .wait
  | .start => .add1
  | .add1 => .shift1
  | .shift1 => .add2
  | .add2 => .shift2
  | .shift2 => .add3
  | .add3 => .shift3
  | .shift3 => .add4
  | .add4 => .shift4
  | .shift4 => .add5
  | .add5 => .shift5
  | .shift5 => .add6
  | .add6 => .shift6
  | .shift6 => .add7
  | .add7 => .shift7
  | .shift7 => .subtract
  | .subtract => .shift8
  | .shift8 => .end_
  | .end_ => if run then .end_ else .wait

/-- The outputs of `control`. -/
structure Control where
  add : Bool := false
  shift : Bool := false
  clearA : Bool := false
  sub : Bool := false
  loadB : Bool := false
  deriving DecidableEq

/-- The outputs in each state; `m` is the low bit of `B`. -/
def CState.control (m : Bool) : CState → Control
  | .initial => { clearA := true, loadB := true }
  | .wait => {}
  | .start => { clearA := true }
  | .add1 | .add2 | .add3 | .add4 | .add5 | .add6 | .add7 => { add := m }
  | .shift1 | .shift2 | .shift3 | .shift4 | .shift5 | .shift6 | .shift7 | .shift8 =>
    { shift := true }
  | .subtract => { sub := m, add := m }
  | .end_ => {}

/-- `ADDER9`: a ripple of nine full adders, with `B` complemented when `c_in` asks
for a subtraction. -/
def adder9 (a b : BitVec 9) (cIn : Bool) : Bool × BitVec 9 :=
  ripple a (if cIn then ~~~b else b) cIn

/-- `reg_8`. -/
def reg8 (reset shiftIn load shiftEn : Bool) (d dataOut : BitVec 8) : BitVec 8 :=
  if reset then 0#8 else if load then d
  else if shiftEn then BitVec.cons shiftIn (dataOut.extractLsb' 1 7) else dataOut

/-- `reg_1`. -/
def reg1 (reset load shiftIn shiftOut : Bool) : Bool :=
  if reset then false else if load then shiftIn else shiftOut

/-- The inputs at a clock edge; the buttons are active low. -/
structure Input where
  run : Bool
  cloare : Bool
  din : BitVec 8

/-- The registers of `Lab4`. -/
structure Machine where
  curr : CState
  x : Bool
  a : BitVec 8
  b : BitVec 8
  runS : Bool
  cloareS : Bool
  dinS : BitVec 8

namespace Machine

variable (s : Machine)

def control : Control := s.curr.control (s.b.getLsbD 0)

/-- `Sum`. -/
def sum (din : BitVec 8) : BitVec 9 :=
  (adder9 (BitVec.cons (s.a.getLsbD 7) s.a) (BitVec.cons (din.getLsbD 7) din) s.control.sub).2

/-- One clock edge. -/
def next (i : Input) (s : Machine) : Machine where
  curr := if s.cloareS then .initial else s.curr.next s.runS
  x := reg1 s.control.clearA (s.control.add || s.control.sub) ((s.sum i.din).getLsbD 8) s.x
  a := reg8 s.control.clearA s.x (s.control.add || s.control.sub) s.control.shift
    ((s.sum i.din).extractLsb' 0 8) s.a
  b := reg8 false (s.a.getLsbD 0) s.control.loadB s.control.shift s.dinS s.b
  runS := !i.run
  cloareS := !i.cloare
  dinS := i.din

end Machine

end ECE385.Lab4
