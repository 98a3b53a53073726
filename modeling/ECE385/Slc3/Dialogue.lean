import ECE385.Clocked.Trace
import ECE385.Slc3.Instructions

/-!
# The dialogue of a program

What an operator sees and does: a program pauses with a pattern on the LEDs and a number on the hex
display, and it reads the switches.

* `events`: what one instruction adds to the dialogue.
* `proceeds_pse`, `proceeds_read`: the instructions with an event.
* `Leads.reaches`: all others are silent.
-/

namespace ECE385.Slc3.Isa

open Clocked

inductive Event
  | pause (led : BitVec 10) (hex : BitVec 16)
  | read (sw : BitVec 10)
  deriving DecidableEq

/-- The event of the next instruction, if it has one. -/
def Arch.events (i : BitVec 10 × BitVec 10) (a : Arch) : List Event :=
  if opcode (a.rd i.1 a.pc) = 0b1101#4 then
    [.pause ((a.rd i.1 a.pc).extractLsb' 0 10) a.hexData]
  else if opcode (a.rd i.1 a.pc) = 0b0110#4 ∧ a.ea (a.rd i.1 a.pc) = 0xFFFF#16 then [.read i.2]
  else []

/-- The reference machine, with its dialogue. -/
def machine : Machine (BitVec 10 × BitVec 10) Arch Event := ⟨Arch.cycle, Arch.events⟩

namespace Arch

variable {a b : Arch} {ins : BitVec 16} {d s : BitVec 3} {m : BitVec 16}
  {Q : List Event → Arch → Prop}

/-- An instruction that does the same whatever the switches has no event. -/
theorem Yields.events (h : Yields a b) (i : BitVec 10 × BitVec 10) : a.events i = [] := by
  rw [Arch.events, if_neg (h i).1, if_neg]
  rintro ⟨hop, hea⟩
  -- a load from the switches would tell `0` from `1`
  have hload : ∀ sw, a.cycle (i.1, sw) =
      ({ a with pc := a.pc + 1 } : Arch).result (a.rd i.1 a.pc) (sw.setWidth 16) := by
    intro sw
    have haddr : ({ a with pc := a.pc + 1 } : Arch).ea (a.rd i.1 a.pc) = 0xFFFF#16 := hea
    rw [Arch.cycle, Arch.step, execute_ldr hop, haddr]
    exact congrArg _ (if_pos rfl)
  have hsame := ((hload 0#10).symm.trans (h (i.1, 0#10)).2).trans
    ((h (i.1, 1#10)).2.symm.trans (hload 1#10))
  have hcc := congrArg Arch.cc hsame
  revert hcc
  simp only [result]
  decide

end Arch

open Arch

variable {a b : Arch} {ins : BitVec 16} {d s : BitVec 3} {m : BitVec 16}
  {Q : List Event → Arch → Prop}

/-- **Silent instructions.** -/
theorem Leads.reaches (h : Leads a b) (hb : Reaches machine b Q) : Reaches machine a Q := by
  induction h using Relation.ReflTransGen.head_induction_on with
  | refl => exact hb
  | head hstep _ ih =>
    have hproceeds : Proceeds machine _ Q := fun i => by
      have hcycle : machine.step i _ = _ := (hstep i).2
      have hsilent : machine.out i _ = [] := hstep.events i
      rw [hcycle, hsilent]
      exact ih
    exact hproceeds.reaches

/-- **A pause.** -/
theorem proceeds_pse (hf : a.Fetches ins) (hop : opcode ins = 0b1101#4)
    (h : Reaches machine a.advance fun es t =>
      Q (.pause (ins.extractLsb' 0 10) a.hexData :: es) t) : Proceeds machine a Q := by
  intro i
  have hstep : machine.step i a = a.advance := cycle_pse hf hop
  have hout : machine.out i a = [.pause (ins.extractLsb' 0 10) a.hexData] := by
    change a.events i = _
    rw [Arch.events, rd, if_neg hf.pc, hf.mem, if_pos hop]
  rw [hstep, hout]
  exact h

/-- **The switches.** -/
theorem proceeds_read (hf : a.Fetches ins) (hw : opcode ins = 0b0110#4 ∧ dr ins = d ∧
      baseR ins = s ∧ offset6 ins = m) (hea : a.r s + m = 0xFFFF#16)
    (h : ∀ sw, Reaches machine (a.advance.write d (sw.setWidth 16)) fun es t =>
      Q (.read sw :: es) t) : Proceeds machine a Q := by
  intro i
  have hstep : machine.step i a = a.advance.write d (i.2.setWidth 16) := by
    have hcycle : machine.step i a = a.advance.write d (a.rd i.2 (a.r s + m)) := cycle_ldr hf hw
    rw [hcycle, hea, rd, if_pos rfl]
  have hout : machine.out i a = [.read i.2] := by
    obtain ⟨hop, -, rfl, rfl⟩ := hw
    change a.events i = _
    rw [Arch.events, rd, if_neg hf.pc, hf.mem, if_neg (by rw [hop]; decide), if_pos ⟨hop, hea⟩]
  rw [hstep, hout]
  exact h i.2

end ECE385.Slc3.Isa
