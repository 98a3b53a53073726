import Mathlib.Init

/-!
# The instruction set of the SLC-3

The reference machine: program counter, registers, condition code, memory and
the hex display, and what one instruction word does to them.  Nothing here
knows of clock edges, of the bus or of the sequencer; the opcodes and the
encodings are those of `SLC3_2.sv`.
-/

namespace ECE385.Slc3.Isa

/-- The architectural state. -/
@[ext] structure Arch where
  pc : BitVec 16
  r : BitVec 3 → BitVec 16
  cc : BitVec 3
  mem : BitVec 8 → BitVec 16
  hexData : BitVec 16

/-! ### Fields of an instruction word -/

def opcode (w : BitVec 16) : BitVec 4 := w.extractLsb' 12 4
def dr (w : BitVec 16) : BitVec 3 := w.extractLsb' 9 3
def baseR (w : BitVec 16) : BitVec 3 := w.extractLsb' 6 3
def sr2 (w : BitVec 16) : BitVec 3 := w.extractLsb' 0 3
def imm5 (w : BitVec 16) : BitVec 16 := (w.extractLsb' 0 5).signExtend 16
def offset6 (w : BitVec 16) : BitVec 16 := (w.extractLsb' 0 6).signExtend 16
def offset9 (w : BitVec 16) : BitVec 16 := (w.extractLsb' 0 9).signExtend 16
def offset11 (w : BitVec 16) : BitVec 16 := (w.extractLsb' 0 11).signExtend 16

/-- The address decoded by the 256-word memory. -/
def word (ea : BitVec 16) : BitVec 8 := ea.extractLsb' 0 8

/-- The condition code of a result: negative, zero or positive. -/
def sign (v : BitVec 16) : BitVec 3 :=
  if v.toInt < 0 then 0b100#3 else if v = 0#16 then 0b010#3 else 0b001#3

namespace Arch

variable (a : Arch)

/-- A read: the switches at `xFFFF`, the memory elsewhere. -/
def rd (sw : BitVec 10) (ea : BitVec 16) : BitVec 16 :=
  if ea = 0xFFFF#16 then sw.setWidth 16 else a.mem (word ea)

def setReg (k : BitVec 3) (v : BitVec 16) : Arch :=
  { a with r := fun j => if k = j then v else a.r j }

/-- A result goes to the destination register and to the condition code. -/
def result (w : BitVec 16) (v : BitVec 16) : Arch :=
  { a.setReg (dr w) v with cc := sign v }

/-- The second operand of `ADD` and `AND`. -/
def operand2 (w : BitVec 16) : BitVec 16 :=
  if w.getLsbD 5 then imm5 w else a.r (sr2 w)

/-- The effective address of `LDR` and `STR`. -/
def ea (w : BitVec 16) : BitVec 16 := a.r (baseR w) + offset6 w

/-- A store writes the memory word and, at `xFFFF`, the hex display as well. -/
def store (addr v : BitVec 16) : Arch :=
  { a with
    mem := fun x => if x = word addr then v else a.mem x
    hexData := if addr = 0xFFFF#16 then v else a.hexData }

/-- The effect of the instruction `w` once `pc` has been incremented; `sw` is
what a load from `xFFFF` sees. -/
def execute (sw : BitVec 10) (w : BitVec 16) : Arch :=
  if opcode w = 0b0001#4 then a.result w (a.r (baseR w) + a.operand2 w)
  else if opcode w = 0b0101#4 then a.result w (a.r (baseR w) &&& a.operand2 w)
  else if opcode w = 0b1001#4 then a.result w (~~~ a.r (baseR w))
  else if opcode w = 0b0000#4 then
    if dr w &&& a.cc ≠ 0#3 then { a with pc := a.pc + offset9 w } else a
  else if opcode w = 0b1100#4 then { a with pc := a.r (baseR w) }
  else if opcode w = 0b0100#4 then { a.setReg 0b111#3 a.pc with pc := a.pc + offset11 w }
  else if opcode w = 0b0110#4 then a.result w (a.rd sw (a.ea w))
  else if opcode w = 0b0111#4 then a.store (a.ea w) (a.r (dr w))
  else a

section Equations

variable {a} {sw : BitVec 10} {w : BitVec 16}

theorem execute_add (h : opcode w = 0b0001#4) :
    a.execute sw w = a.result w (a.r (baseR w) + a.operand2 w) := by simp [execute, h]

theorem execute_and (h : opcode w = 0b0101#4) :
    a.execute sw w = a.result w (a.r (baseR w) &&& a.operand2 w) := by simp [execute, h]

theorem execute_not (h : opcode w = 0b1001#4) :
    a.execute sw w = a.result w (~~~ a.r (baseR w)) := by simp [execute, h]

theorem execute_br (h : opcode w = 0b0000#4) :
    a.execute sw w = if dr w &&& a.cc ≠ 0#3 then { a with pc := a.pc + offset9 w } else a := by
  simp [execute, h]

theorem execute_jmp (h : opcode w = 0b1100#4) :
    a.execute sw w = { a with pc := a.r (baseR w) } := by simp [execute, h]

theorem execute_jsr (h : opcode w = 0b0100#4) :
    a.execute sw w = { a.setReg 0b111#3 a.pc with pc := a.pc + offset11 w } := by
  simp [execute, h]

theorem execute_ldr (h : opcode w = 0b0110#4) :
    a.execute sw w = a.result w (a.rd sw (a.ea w)) := by simp [execute, h]

theorem execute_str (h : opcode w = 0b0111#4) :
    a.execute sw w = a.store (a.ea w) (a.r (dr w)) := by simp [execute, h]

/-- `PSE` and the opcodes without an instruction do nothing. -/
theorem execute_other (h : opcode w ∉ [0b0001#4, 0b0101#4, 0b1001#4, 0b0000#4, 0b1100#4, 0b0100#4,
    0b0110#4, 0b0111#4]) : a.execute sw w = a := by
  simp only [List.mem_cons, List.not_mem_nil, or_false, not_or] at h
  simp [execute, h]

end Equations

/-- **One instruction of the reference machine.** -/
def step (sw : BitVec 10) (w : BitVec 16) : Arch :=
  { a with pc := a.pc + 1 }.execute sw w

end Arch

end ECE385.Slc3.Isa
