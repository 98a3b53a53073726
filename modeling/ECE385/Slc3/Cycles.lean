import ECE385.Slc3.TestMemory
import ECE385.Slc3.Isa

/-!
# What a clock edge does in each state

One lemma for each state of the sequencer, for an edge with `Reset` low.  They
say all that the edge does: the registers that are not mentioned keep their
values.  Neither `busX` nor `memX` reaches a register in any of them, except
that `memX` is what the memory drives after an edge without a read.
-/

namespace ECE385.Slc3

open Isa (word imm5 offset6 offset9 offset11)

variable {image : BitVec 8 → BitVec 16} {i : Input} {b : Board}

/-- The memory during a cycle that neither reads nor writes. -/
def TestMemory.idle (memX : BitVec 16) (m : TestMemory) : TestMemory := { m with memOut := memX }

/-- The memory after it has been asked for the word at `mar`. -/
def TestMemory.fetch (mar : BitVec 16) (m : TestMemory) : TestMemory :=
  { m with memOut := m.memArray (word mar) }

/-! ### Fetch and decode -/

theorem next_s18 (hr : i.reset = false) (h : b.cpu.isdu = .s18) :
    b.next image i =
      { cpu := { b.cpu with isdu := .s33_1, mar := b.cpu.pc, pc := b.cpu.pc + 1, led := 0 }
        mem := b.mem.idle i.memX } := by
  simp [Board.next, TestMemory.next, TestMemory.idle, Cpu.next, Cpu.control, control, Cpu.oe,
    Cpu.we, Cpu.busOut, bus, nextState, reg, pcMux, hr, h]

/-- The two wait states of a read, in a fetch as in a load. -/
theorem next_wait (hr : i.reset = false)
    (h : b.cpu.isdu ∈ [IState.s33_1, .s33_2, .s25_1, .s25_2]) :
    b.next image i =
      { cpu := { b.cpu with
          isdu := nextState i.run i.continue_ (b.cpu.ir.extractLsb' 12 4) b.cpu.ben b.cpu.isdu
          led := 0 }
        mem := b.mem.fetch b.cpu.mar } := by
  simp only [List.mem_cons, List.not_mem_nil, or_false] at h
  rcases h with h | h | h | h <;>
    simp [Board.next, TestMemory.next, TestMemory.fetch, word, Cpu.next, Cpu.control,
      control, Cpu.oe, Cpu.we, reg, hr, h]

/-- The third state of a read takes the word, or the switches at `xFFFF`. -/
theorem next_take (hr : i.reset = false) (h : b.cpu.isdu ∈ [IState.s33_3, .s25_3]) :
    b.next image i =
      { cpu := { b.cpu with
          isdu := nextState i.run i.continue_ (b.cpu.ir.extractLsb' 12 4) b.cpu.ben b.cpu.isdu
          mdr := if b.cpu.mar = 0xFFFF#16 then i.sw.setWidth 16 else b.mem.memOut
          led := 0 }
        mem := b.mem.fetch b.cpu.mar } := by
  simp only [List.mem_cons, List.not_mem_nil, or_false] at h
  rcases h with h | h <;>
    simp [Board.next, TestMemory.next, TestMemory.fetch, word, Cpu.next, Cpu.control,
      control, Cpu.oe, Cpu.we, Cpu.dataToCPU, mioMux, mux2, reg, hr, h]

theorem next_s35 (hr : i.reset = false) (h : b.cpu.isdu = .s35) :
    b.next image i =
      { cpu := { b.cpu with isdu := .s32, ir := b.cpu.mdr, led := 0 }
        mem := b.mem.idle i.memX } := by
  simp [Board.next, TestMemory.next, TestMemory.idle, Cpu.next, Cpu.control, control, Cpu.oe,
    Cpu.we, Cpu.busOut, bus, nextState, reg, hr, h]

theorem next_s32 (hr : i.reset = false) (h : b.cpu.isdu = .s32) :
    b.next image i =
      { cpu := { b.cpu with
          isdu := dispatch (b.cpu.ir.extractLsb' 12 4)
          ben := newBEN (b.cpu.ir.extractLsb' 9 3) b.cpu.cc
          led := 0 }
        mem := b.mem.idle i.memX } := by
  simp [Board.next, TestMemory.next, TestMemory.idle, Cpu.next, Cpu.control, control, Cpu.oe,
    Cpu.we, nextState, reg, hr, h]

/-! ### Results -/

/-- A result on the bus goes to the destination register and sets the condition
code. -/
def Cpu.writeBack (s : Cpu) (v : BitVec 16) : Cpu :=
  { s with
    r := fun k => if s.ir.extractLsb' 9 3 = k then v else s.r k
    cc := nzp v
    isdu := .s18
    led := 0 }

/-- The second operand of the ALU in `S_01` and `S_05`. -/
def Cpu.operand2 (s : Cpu) : BitVec 16 :=
  if s.ir.getLsbD 5 then imm5 s.ir else s.r (s.ir.extractLsb' 0 3)

theorem next_s01 (hr : i.reset = false) (h : b.cpu.isdu = .s01) :
    b.next image i =
      { cpu := b.cpu.writeBack (b.cpu.r (b.cpu.ir.extractLsb' 6 3) + b.cpu.operand2)
        mem := b.mem.idle i.memX } := by
  simp [Board.next, TestMemory.next, TestMemory.idle, Cpu.next, Cpu.control, control, Cpu.oe,
    Cpu.we, Cpu.busOut, bus, nextState, reg, Cpu.aluOut, alu, Cpu.sr1Out, sr1Mux, mux2, sr2Mux,
    Cpu.sr2Out, Cpu.drMuxOut, drMux, Cpu.writeBack, Cpu.operand2, imm5, hr, h]

theorem next_s05 (hr : i.reset = false) (h : b.cpu.isdu = .s05) :
    b.next image i =
      { cpu := b.cpu.writeBack (b.cpu.r (b.cpu.ir.extractLsb' 6 3) &&& b.cpu.operand2)
        mem := b.mem.idle i.memX } := by
  simp [Board.next, TestMemory.next, TestMemory.idle, Cpu.next, Cpu.control, control, Cpu.oe,
    Cpu.we, Cpu.busOut, bus, nextState, reg, Cpu.aluOut, alu, Cpu.sr1Out, sr1Mux, mux2, sr2Mux,
    Cpu.sr2Out, Cpu.drMuxOut, drMux, Cpu.writeBack, Cpu.operand2, imm5, hr, h]

theorem next_s09 (hr : i.reset = false) (h : b.cpu.isdu = .s09) :
    b.next image i =
      { cpu := b.cpu.writeBack (~~~ b.cpu.r (b.cpu.ir.extractLsb' 6 3))
        mem := b.mem.idle i.memX } := by
  simp [Board.next, TestMemory.next, TestMemory.idle, Cpu.next, Cpu.control, control, Cpu.oe,
    Cpu.we, Cpu.busOut, bus, nextState, reg, Cpu.aluOut, alu, Cpu.sr1Out, sr1Mux, mux2,
    Cpu.drMuxOut, drMux, Cpu.writeBack, hr, h]

theorem next_s27 (hr : i.reset = false) (h : b.cpu.isdu = .s27) :
    b.next image i =
      { cpu := b.cpu.writeBack b.cpu.mdr, mem := b.mem.idle i.memX } := by
  simp [Board.next, TestMemory.next, TestMemory.idle, Cpu.next, Cpu.control, control, Cpu.oe,
    Cpu.we, Cpu.busOut, bus, nextState, reg, Cpu.drMuxOut, drMux, mux2, Cpu.writeBack, hr, h]

/-! ### Loads and stores -/

/-- `S_06` and `S_07` put the effective address into `MAR`. -/
theorem next_address (hr : i.reset = false) (h : b.cpu.isdu ∈ [IState.s06, .s07]) :
    b.next image i =
      { cpu := { b.cpu with
          isdu := nextState i.run i.continue_ (b.cpu.ir.extractLsb' 12 4) b.cpu.ben b.cpu.isdu
          mar := b.cpu.r (b.cpu.ir.extractLsb' 6 3) + offset6 b.cpu.ir
          led := 0 }
        mem := b.mem.idle i.memX } := by
  simp only [List.mem_cons, List.not_mem_nil, or_false] at h
  rcases h with h | h <;>
    simp [Board.next, TestMemory.next, TestMemory.idle, Cpu.next, Cpu.control, control, Cpu.oe,
      Cpu.we, Cpu.busOut, bus, reg, Cpu.marmux, Cpu.addr1Out, Cpu.addr2Out,
      addr1Mux, addr2Mux, Cpu.sr1Out, sr1Mux, mux2, offset6, hr, h]

theorem next_s23 (hr : i.reset = false) (h : b.cpu.isdu = .s23) :
    b.next image i =
      { cpu := { b.cpu with
          isdu := .s16, mdr := b.cpu.r (b.cpu.ir.extractLsb' 9 3), led := 0 }
        mem := b.mem.idle i.memX } := by
  simp [Board.next, TestMemory.next, TestMemory.idle, Cpu.next, Cpu.control, control, Cpu.oe,
    Cpu.we, Cpu.busOut, bus, nextState, reg, mioMux, Cpu.aluOut, alu, Cpu.sr1Out, sr1Mux, mux2,
    hr, h]

/-- `S_16` writes the memory, and the hex display as well at `xFFFF`. -/
theorem next_s16 (hr : i.reset = false) (h : b.cpu.isdu = .s16) :
    b.next image i =
      { cpu := { b.cpu with
          isdu := .s18
          hexData := if b.cpu.mar = 0xFFFF#16 then b.cpu.mdr else b.cpu.hexData
          led := 0 }
        mem := { memArray := fun a => if a = word b.cpu.mar then b.cpu.mdr else b.mem.memArray a
                 memOut := i.memX } } := by
  simp [Board.next, TestMemory.next, word, Cpu.next, Cpu.control, control, Cpu.oe,
    Cpu.we, nextState, reg, hr, h]
  rfl

/-! ### Control transfer -/

theorem next_sBEN (hr : i.reset = false) (h : b.cpu.isdu = .sBEN) :
    b.next image i =
      { cpu := { b.cpu with isdu := if b.cpu.ben then .s22 else .s18, led := 0 }
        mem := b.mem.idle i.memX } := by
  simp [Board.next, TestMemory.next, TestMemory.idle, Cpu.next, Cpu.control, control, Cpu.oe,
    Cpu.we, nextState, reg, hr, h]

theorem next_s22 (hr : i.reset = false) (h : b.cpu.isdu = .s22) :
    b.next image i =
      { cpu := { b.cpu with isdu := .s18, pc := b.cpu.pc + offset9 b.cpu.ir, led := 0 }
        mem := b.mem.idle i.memX } := by
  simp [Board.next, TestMemory.next, TestMemory.idle, Cpu.next, Cpu.control, control, Cpu.oe,
    Cpu.we, nextState, reg, pcMux, Cpu.marmux, Cpu.addr1Out, Cpu.addr2Out, addr1Mux, addr2Mux,
    mux2, offset9, hr, h]

theorem next_s12 (hr : i.reset = false) (h : b.cpu.isdu = .s12) :
    b.next image i =
      { cpu := { b.cpu with isdu := .s18, pc := b.cpu.r (b.cpu.ir.extractLsb' 6 3), led := 0 }
        mem := b.mem.idle i.memX } := by
  simp [Board.next, TestMemory.next, TestMemory.idle, Cpu.next, Cpu.control, control, Cpu.oe,
    Cpu.we, nextState, reg, pcMux, Cpu.marmux, Cpu.addr1Out, Cpu.addr2Out, addr1Mux, addr2Mux,
    Cpu.sr1Out, sr1Mux, mux2, hr, h]

theorem next_s04 (hr : i.reset = false) (h : b.cpu.isdu = .s04) :
    b.next image i =
      { cpu := { b.cpu with
          isdu := .s21, r := fun k => if 0b111#3 = k then b.cpu.pc else b.cpu.r k, led := 0 }
        mem := b.mem.idle i.memX } := by
  simp [Board.next, TestMemory.next, TestMemory.idle, Cpu.next, Cpu.control, control, Cpu.oe,
    Cpu.we, Cpu.busOut, bus, nextState, reg, Cpu.drMuxOut, drMux, mux2, hr, h]

theorem next_s21 (hr : i.reset = false) (h : b.cpu.isdu = .s21) :
    b.next image i =
      { cpu := { b.cpu with isdu := .s18, pc := b.cpu.pc + offset11 b.cpu.ir, led := 0 }
        mem := b.mem.idle i.memX } := by
  simp [Board.next, TestMemory.next, TestMemory.idle, Cpu.next, Cpu.control, control, Cpu.oe,
    Cpu.we, nextState, reg, pcMux, Cpu.marmux, Cpu.addr1Out, Cpu.addr2Out, addr1Mux, addr2Mux,
    mux2, offset11, hr, h]

/-! ### Pause -/

theorem next_pauseIR1 (hr : i.reset = false) (h : b.cpu.isdu = .pauseIR1) :
    b.next image i =
      { cpu := { b.cpu with
          isdu := if i.continue_ then .pauseIR2 else .pauseIR1, led := b.cpu.ir.extractLsb' 0 10 }
        mem := b.mem.idle i.memX } := by
  simp [Board.next, TestMemory.next, TestMemory.idle, Cpu.next, Cpu.control, control, Cpu.oe,
    Cpu.we, nextState, reg, hr, h]

theorem next_pauseIR2 (hr : i.reset = false) (h : b.cpu.isdu = .pauseIR2) :
    b.next image i =
      { cpu := { b.cpu with isdu := if i.continue_ then .pauseIR2 else .s18, led := 0 }
        mem := b.mem.idle i.memX } := by
  simp [Board.next, TestMemory.next, TestMemory.idle, Cpu.next, Cpu.control, control, Cpu.oe,
    Cpu.we, nextState, reg, hr, h]

end ECE385.Slc3
