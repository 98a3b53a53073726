import ECE385.Slc3.TestMemory

/-!
# No undefined value is captured

The design produces an `x` in two places: the bus carries one while no gate is open, and
`test_memory` drives one in the cycle after an edge without a read.  A register only takes the
bus in a state that opens a gate, and `MDR` takes the memory only in the third state of a
read, one edge after the memory has been asked for the word.

* `driven_of_load`: which states take the bus.
* `Agree`: two boards agree on all that is captured, and on the word the memory has answered where
  it is about to be taken.
* `agree_next`: an edge keeps that, whatever the two `x` are.
-/

namespace ECE385.Slc3

open Clocked

/-- What a board has captured: everything but the LEDs and the output of the memory. -/
structure Captured where
  isdu : IState
  pc : BitVec 16
  ir : BitVec 16
  mar : BitVec 16
  mdr : BitVec 16
  r : BitVec 3 → BitVec 16
  cc : BitVec 3
  ben : Bool
  hexData : BitVec 16
  memArray : BitVec 8 → BitVec 16

def Board.captured (b : Board) : Captured where
  isdu := b.cpu.isdu
  pc := b.cpu.pc
  ir := b.cpu.ir
  mar := b.cpu.mar
  mdr := b.cpu.mdr
  r := b.cpu.r
  cc := b.cpu.cc
  ben := b.cpu.ben
  hexData := b.cpu.hexData
  memArray := b.mem.memArray

/-! ### Who drives the bus -/

/-- Some gate is open. -/
def Control.Driven (c : Control) : Prop :=
  c.gatePC = true ∨ c.gateMDR = true ∨ c.gateALU = true ∨ c.gateMARMUX = true

theorem bus_of_driven {c : Control} (h : c.Driven) (pc mdr marmux alu x y : BitVec 16) :
    bus c pc mdr marmux alu x = bus c pc mdr marmux alu y := by
  simp only [bus]
  rcases h with h | h | h | h <;> simp [h]

/-- A state that takes the bus opens a gate. -/
theorem driven_of_load (ir5 : Bool) (st : IState)
    (h : (control ir5 st).ldMAR = true ∨ (control ir5 st).ldIR = true ∨
      (control ir5 st).ldCC = true ∨ (control ir5 st).ldREG = true ∨
      (control ir5 st).ldMDR = true ∧ (control ir5 st).memOE = false) :
    (control ir5 st).Driven := by
  cases st <;> simp_all [control, Control.Driven]

/-- `PC` never takes the bus. -/
theorem pcMUX_ne (ir5 : Bool) (st : IState) : (control ir5 st).pcMUX ≠ 0b01#2 := by
  cases st <;> simp [control]

/-- The states in which `MDR` takes what the memory has answered. -/
def IState.takes : IState → Bool
  | .s33_3 | .s25_3 => true
  | _ => false

theorem takes_of_load (ir5 : Bool) (st : IState) (hmdr : (control ir5 st).ldMDR = true)
    (hoe : (control ir5 st).memOE = true) : st.takes = true := by
  cases st <;> simp_all [control, IState.takes]

/-- They come after a state that asks for it. -/
theorem oe_of_takes (run continue_ : Bool) (opcode : BitVec 4) (ben ir5 : Bool) (st : IState)
    (h : (nextState run continue_ opcode ben st).takes = true) :
    (control ir5 st).memOE = true ∧ (control ir5 st).memWE = false := by
  cases st
  case s32 =>
    simp only [nextState, dispatch] at h
    repeat' split at h
    all_goals cases h
  case halted | pauseIR1 | pauseIR2 | sBEN =>
    simp only [nextState] at h
    split at h <;> cases h
  all_goals first | exact ⟨rfl, rfl⟩ | cases h

/-! ### Two boards -/

/-- The signals of two edges differ at most in the `x`. -/
structure SameSignals (i j : Input) : Prop where
  reset : i.reset = j.reset
  run : i.run = j.run
  continue_ : i.continue_ = j.continue_
  sw : i.sw = j.sw

structure Agree (s t : Board) : Prop where
  captured : s.captured = t.captured
  answer : s.cpu.isdu.takes = true → s.mem.memOut = t.mem.memOut

theorem reg_congr {α : Type} {zero d d' q q' : α} {reset load : Bool}
    (hd : reset = false → load = true → d = d') (hq : q = q') :
    reg zero reset load d q = reg zero reset load d' q' := by
  cases reset <;> cases load <;> simp_all [reg]

variable {image : BitVec 8 → BitVec 16} {i j : Input} {s t : Board}

/-- Boards that have captured the same compute the same. -/
theorem signals_of_captured (h : s.captured = t.captured) :
    s.cpu.control = t.cpu.control ∧ s.cpu.marmux = t.cpu.marmux ∧ s.cpu.drMuxOut = t.cpu.drMuxOut ∧
      (t.cpu.control.Driven → ∀ x y, s.cpu.busOut x = t.cpu.busOut y) := by
  simp only [Board.captured, Captured.mk.injEq] at h
  obtain ⟨hst, hpc, hir, -, hmdr, hr, -, -, -, -⟩ := h
  have hc : s.cpu.control = t.cpu.control := by simp only [Cpu.control, hst, hir]
  have hsr1 : s.cpu.sr1Out = t.cpu.sr1Out := by simp only [Cpu.sr1Out, hc, hir, hr]
  have hmarmux : s.cpu.marmux = t.cpu.marmux := by
    simp only [Cpu.marmux, Cpu.addr1Out, Cpu.addr2Out, hc, hsr1, hpc, hir]
  have halu : s.cpu.aluOut = t.cpu.aluOut := by
    simp only [Cpu.aluOut, Cpu.sr2Out, hc, hsr1, hr, hir]
  refine ⟨hc, hmarmux, by simp only [Cpu.drMuxOut, hc, hir], fun hd x y => ?_⟩
  simp only [Cpu.busOut, hc, hpc, hmdr, hmarmux, halu]
  exact bus_of_driven hd _ _ _ _ _ _

variable (image) in
/-- An edge captures the same on both, whatever the `x` are. -/
theorem captured_next (hij : SameSignals i j) (h : Agree s t) :
    (s.next image i).captured = (t.next image j).captured := by
  obtain ⟨hcap, hans⟩ := h
  obtain ⟨hc, hmarmux, hdr, hbus⟩ := signals_of_captured hcap
  simp only [Board.captured, Captured.mk.injEq] at hcap
  obtain ⟨hst, hpc, hir, hmar, hmdr, hr, hcc, hben, hhex, hmem⟩ := hcap
  have hdriven := driven_of_load (t.cpu.ir.getLsbD 5) t.cpu.isdu
  have hoe : s.cpu.oe = t.cpu.oe := by simp only [Cpu.oe, hc]
  have hwe : s.cpu.we = t.cpu.we := by simp only [Cpu.we, hc]
  simp only [Board.captured, Board.next, Cpu.next, Captured.mk.injEq]
  refine ⟨?_, ?_, ?_, ?_, ?_, ?_, ?_, ?_, ?_, ?_⟩
  · rw [hij.reset, hij.run, hij.continue_, hir, hben, hst]
  · rw [hij.reset, hc, hpc, hmarmux]
    have hmux := pcMUX_ne (t.cpu.ir.getLsbD 5) t.cpu.isdu
    refine reg_congr (fun _ _ => ?_) rfl
    rw [pcMux, pcMux, if_neg (c := t.cpu.control.pcMUX = 0b01#2) hmux,
      if_neg (c := t.cpu.control.pcMUX = 0b01#2) hmux]
  · rw [hij.reset, hc]
    exact reg_congr (fun _ hl => hbus (hdriven (.inr (.inl hl))) _ _) hir
  · rw [hij.reset, hc]
    exact reg_congr (fun _ hl => hbus (hdriven (.inl hl)) _ _) hmar
  · rw [hij.reset, hc, hoe]
    refine reg_congr (fun _ hl => ?_) hmdr
    cases hread : t.cpu.oe with
    | false =>
      simp only [mioMux, mux2]
      exact hbus (hdriven (.inr (.inr (.inr (.inr ⟨hl, hread⟩))))) _ _
    | true =>
      have hword : s.mem.memOut = t.mem.memOut :=
        hans (by rw [hst]; exact takes_of_load _ _ hl hread)
      simp only [mioMux, mux2, Cpu.dataToCPU, hwe, hoe, hmar, hij.sw, hword, if_true]
  · funext k
    rw [hij.reset, hc, hdr]
    refine reg_congr (fun _ hl => ?_) (congrFun hr k)
    rw [Bool.and_eq_true] at hl
    exact hbus (hdriven (.inr (.inr (.inr (.inl hl.1))))) _ _
  · rw [hij.reset, hc]
    exact reg_congr (fun _ hl => congrArg nzp (hbus (hdriven (.inr (.inr (.inl hl)))) _ _)) hcc
  · rw [hij.reset, hc, hir, hcc]
    exact reg_congr (fun _ _ => rfl) hben
  · rw [hij.reset, hwe, hmar, hmdr]
    exact reg_congr (fun _ _ => rfl) hhex
  · rw [hij.reset, hmdr, hmar, hoe, hwe]
    simp only [TestMemory.next]
    split_ifs <;> simp only [hmem]

variable (image) in
/-- Where the next edge takes a word, this one has asked both memories for it. -/
theorem answer_next (hij : SameSignals i j) (h : s.captured = t.captured)
    (htakes : (s.next image i).cpu.isdu.takes = true) :
    (s.next image i).mem.memOut = (t.next image j).mem.memOut := by
  obtain ⟨hc, -, -, -⟩ := signals_of_captured h
  simp only [Board.captured, Captured.mk.injEq] at h
  obtain ⟨-, -, -, hmar, -, -, -, -, -, hmem⟩ := h
  have hreset : i.reset = false := by
    cases hi : i.reset with
    | false => rfl
    | true =>
      simp only [Board.next, Cpu.next, hi] at htakes
      cases htakes
  have hread : s.cpu.oe = true ∧ s.cpu.we = false := by
    simp only [Board.next, Cpu.next, hreset] at htakes
    exact oe_of_takes _ _ _ _ _ _ htakes
  have hread' : t.cpu.oe = true ∧ t.cpu.we = false := by
    rw [Cpu.oe, Cpu.we, ← hc]
    exact hread
  simp [Board.next, TestMemory.next, ← hij.reset, hreset, hread, hread', hmar, hmem]

variable (image) in
/-- **One edge** keeps two boards in agreement. -/
theorem agree_next (hij : SameSignals i j) (h : Agree s t) :
    Agree (s.next image i) (t.next image j) :=
  ⟨captured_next image hij h, answer_next image hij h.captured⟩

/-- Edges with the reset make boards agree, whatever they were. -/
theorem agree_reset (hij : SameSignals i j) (hi : i.reset = true) :
    Agree (s.next image i) (t.next image j) := by
  have hj : j.reset = true := by rw [← hij.reset, hi]
  refine ⟨?_, ?_⟩
  · simp [Board.captured, Board.next, Cpu.next, TestMemory.next, reg, hi, hj]
  · intro htakes
    simp only [Board.next, Cpu.next, hi] at htakes
    cases htakes

/-- **No undefined value is captured.**  From a reset on, under the same signals, the
registers and the memory go through the same values whatever the two `x` are in each cycle,
and whatever the boards were before the reset. -/
theorem captured_unique (image : BitVec 8 → BitVec 16) (w w' : ℕ → Input)
    (hw : ∀ n, SameSignals (w n) (w' n)) (hreset : (w 0).reset = true) (s t : Board) (n : ℕ) :
    (run (Board.next image) w s (n + 1)).captured =
      (run (Board.next image) w' t (n + 1)).captured := by
  have hdelay : ∀ n, SameSignals (delay 1 w n) (delay 1 w' n) := fun n => hw (1 + n)
  have hfirst : Agree (run (Board.next image) w s 1) (run (Board.next image) w' t 1) :=
    agree_reset (hw 0) hreset
  rw [Nat.add_comm n, run_add, run_add]
  exact (run_rel (fun _ _ _ _ => agree_next image) hdelay hfirst n).captured

/-- A reset, and `Run` is pressed; `x` is what the undriven signals carry. -/
def started (x : BitVec 16) : ℕ → Input := fun t =>
  { reset := decide (t = 0), run := true, continue_ := false, sw := 0#10, busX := x, memX := x }

/-- A board with one word everywhere. -/
def holding (v : BitVec 16) : Board where
  cpu := { isdu := .s16, pc := v, mdr := v, mar := v, ir := v, ben := true, cc := 0#3,
           r := fun _ => v, led := 0#10, hexData := v }
  mem := { memArray := fun _ => v, memOut := v }

/-- The first two instructions after a reset. -/
theorem captured_unique_started :
    (run (Board.next fun _ => 0x1261#16) (started 0#16) (holding 0#16) 13).captured =
      (run (Board.next fun _ => 0x1261#16) (started 0xFFFF#16) (holding 0xFFFF#16) 13).captured :=
  captured_unique _ (started 0#16) (started 0xFFFF#16) (fun _ => ⟨rfl, rfl, rfl, rfl⟩) rfl _ _ 12

end ECE385.Slc3
