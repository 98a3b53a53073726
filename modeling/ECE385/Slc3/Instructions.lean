import ECE385.Slc3.Program

/-!
# Instructions

One instruction of the reference machine, read off the fields of its word.
-/

namespace ECE385.Slc3.Isa

open Clocked

theorem word_ofNat (p : ℕ) : word (BitVec.ofNat 16 p) = BitVec.ofNat 8 p := by
  apply BitVec.eq_of_toNat_eq
  simp only [word, BitVec.extractLsb'_toNat, BitVec.toNat_ofNat, Nat.shiftRight_zero]
  omega

theorem ofNat_ne_ones {k : ℕ} (hk : k < 256) : BitVec.ofNat 16 k ≠ 0xFFFF#16 := by
  intro h
  have := congrArg BitVec.toNat h
  simp only [BitVec.toNat_ofNat] at this
  omega

namespace Arch

/-- The word at `PC` is `ins`. -/
structure Fetches (a : Arch) (ins : BitVec 16) : Prop where
  pc : a.pc ≠ 0xFFFF#16
  mem : a.mem (word a.pc) = ins

/-- `PC` is incremented. -/
def advance (a : Arch) : Arch := { a with pc := a.pc + 1#16 }

/-- A result in the register `d`. -/
def write (a : Arch) (d : BitVec 3) (v : BitVec 16) : Arch := { a.setReg d v with cc := sign v }

theorem write_cc (a : Arch) (d : BitVec 3) (v : BitVec 16) : (a.write d v).cc = sign v := rfl

variable {a : Arch} {ins : BitVec 16} {i : BitVec 10 × BitVec 10} {d s t : BitVec 3}
  {m : BitVec 16}

theorem Fetches.cycle (h : a.Fetches ins) (i : BitVec 10 × BitVec 10) :
    a.cycle i = a.advance.execute i.2 ins := by
  rw [Arch.cycle, Arch.rd, if_neg h.pc, h.mem]
  rfl

/-- An instruction that neither pauses nor looks at the switches. -/
theorem Fetches.leads {b : Arch} (h : a.Fetches ins) (hop : opcode ins ≠ 0b1101#4)
    (hcycle : ∀ i, a.cycle i = b) : Leads a b := by
  refine .single fun i => ⟨?_, hcycle i⟩
  rw [Arch.rd, if_neg h.pc, h.mem]
  exact hop

theorem cycle_add (h : a.Fetches ins) (hw : opcode ins = 0b0001#4 ∧ dr ins = d ∧ baseR ins = s ∧
    ins.getLsbD 5 = false ∧ sr2 ins = t) : a.cycle i = a.advance.write d (a.r s + a.r t) := by
  obtain ⟨hop, rfl, rfl, h5, rfl⟩ := hw
  rw [h.cycle, execute_add hop, operand2, if_neg (by rw [h5]; decide)]
  rfl

theorem cycle_addi (h : a.Fetches ins) (hw : opcode ins = 0b0001#4 ∧ dr ins = d ∧ baseR ins = s ∧
    ins.getLsbD 5 = true ∧ imm5 ins = m) : a.cycle i = a.advance.write d (a.r s + m) := by
  obtain ⟨hop, rfl, rfl, h5, rfl⟩ := hw
  rw [h.cycle, execute_add hop, operand2, if_pos h5]
  rfl

theorem cycle_and (h : a.Fetches ins) (hw : opcode ins = 0b0101#4 ∧ dr ins = d ∧ baseR ins = s ∧
    ins.getLsbD 5 = false ∧ sr2 ins = t) : a.cycle i = a.advance.write d (a.r s &&& a.r t) := by
  obtain ⟨hop, rfl, rfl, h5, rfl⟩ := hw
  rw [h.cycle, execute_and hop, operand2, if_neg (by rw [h5]; decide)]
  rfl

theorem cycle_andi (h : a.Fetches ins) (hw : opcode ins = 0b0101#4 ∧ dr ins = d ∧ baseR ins = s ∧
    ins.getLsbD 5 = true ∧ imm5 ins = m) : a.cycle i = a.advance.write d (a.r s &&& m) := by
  obtain ⟨hop, rfl, rfl, h5, rfl⟩ := hw
  rw [h.cycle, execute_and hop, operand2, if_pos h5]
  rfl

theorem cycle_not (h : a.Fetches ins) (hw : opcode ins = 0b1001#4 ∧ dr ins = d ∧ baseR ins = s) :
    a.cycle i = a.advance.write d (~~~a.r s) := by
  obtain ⟨hop, rfl, rfl⟩ := hw
  rw [h.cycle, execute_not hop]
  rfl

theorem cycle_br (h : a.Fetches ins) (hw : opcode ins = 0b0000#4 ∧ dr ins = d ∧ offset9 ins = m) :
    a.cycle i = if d &&& a.cc ≠ 0#3 then { a with pc := a.pc + 1#16 + m } else a.advance := by
  obtain ⟨hop, rfl, rfl⟩ := hw
  rw [h.cycle, execute_br hop]
  rfl

theorem cycle_jmp (h : a.Fetches ins) (hw : opcode ins = 0b1100#4 ∧ baseR ins = s) :
    a.cycle i = { a with pc := a.r s } := by
  obtain ⟨hop, rfl⟩ := hw
  rw [h.cycle, execute_jmp hop]
  rfl

theorem cycle_jsr (h : a.Fetches ins) (hw : opcode ins = 0b0100#4 ∧ offset11 ins = m) :
    a.cycle i = { a.setReg 0b111#3 (a.pc + 1#16) with pc := a.pc + 1#16 + m } := by
  obtain ⟨hop, rfl⟩ := hw
  rw [h.cycle, execute_jsr hop]
  rfl

theorem cycle_ldr (h : a.Fetches ins) (hw : opcode ins = 0b0110#4 ∧ dr ins = d ∧ baseR ins = s ∧
    offset6 ins = m) : a.cycle i = a.advance.write d (a.rd i.2 (a.r s + m)) := by
  obtain ⟨hop, rfl, rfl, rfl⟩ := hw
  rw [h.cycle, execute_ldr hop]
  rfl

theorem cycle_str (h : a.Fetches ins) (hw : opcode ins = 0b0111#4 ∧ dr ins = d ∧ baseR ins = s ∧
    offset6 ins = m) : a.cycle i = a.advance.store (a.r s + m) (a.r d) := by
  obtain ⟨hop, rfl, rfl, rfl⟩ := hw
  rw [h.cycle, execute_str hop]
  rfl

theorem cycle_pse (h : a.Fetches ins) (hop : opcode ins = 0b1101#4) : a.cycle i = a.advance := by
  rw [h.cycle, execute_other (by rw [hop]; decide)]

end Arch

end ECE385.Slc3.Isa
