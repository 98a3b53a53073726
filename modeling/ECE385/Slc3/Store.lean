import ECE385.Slc3.Refine
import ECE385.Slc3.Sramtop

/-!
# Stores

What a `STR` does to the memory and the display, on both boards.  `WE` goes to the memory whatever
the address, so that a store to `xFFFF` reaches the display and the last word of the memory.

* `Running`: the state of `slc3_sramtop` once the loader has finished, outside the reset.
* `run_store`: the nine edges of a store there.
* `store_exactly`: on both boards a store changes the one word it addresses.
-/

namespace ECE385.Slc3

open Clocked Isa

/-- A memory after `v` has been stored at `a`. -/
def stored {n : ℕ} (mem : BitVec n → BitVec 16) (a : BitVec n) (v : BitVec 16) :
    BitVec n → BitVec 16 := fun x => if x = a then v else mem x

namespace Sramtop

/-- The address decoded by the RAM. -/
def ramWord (ea : BitVec 16) : BitVec 10 := ea.extractLsb' 0 10

/-- The RAM has been initialised, and the processor runs. -/
structure Running (s : Sramtop) : Prop where
  reset : s.resetAh = false
  loaded : s.weSelect = false

/-- The processor on a board whose memory drives what the RAM does. -/
def beside (s : Sramtop) : Board where
  cpu := s.cpu
  mem := { memArray := fun _ => 0#16, memOut := s.ram.q }

/-- The inputs of that board. -/
def input (i : TopInput) (s : Sramtop) : Input :=
  { reset := s.resetAh, run := s.runAh, continue_ := s.continueAh, sw := i.sw, busX := i.busX,
    memX := 0#16 }

theorem next_cpu (i : TopInput) (s : Sramtop) :
    (s.next i).cpu = (s.beside.next (fun _ => 0#16) (input i s)).cpu := rfl

variable {i : TopInput} {s : Sramtop}

theorem Running.next (h : Running s) (hi : i.run = true ∨ i.continue_ = true) :
    Running (s.next i) := by
  have hup : (!i.run && !i.continue_) = false := by rcases hi with hi | hi <;> simp [hi]
  refine ⟨hup, ?_⟩
  have hl : s.loader.wren = false := h.loaded
  rw [weSelect, Sramtop.next, h.reset, hup]
  revert hl
  cases hs : s.loader.state <;> simp [Loader.wren, Loader.next, Loader.nextState, hs]

/-- An edge without a write. -/
theorem Running.ram_of_not_we (h : Running s) (hwe : s.cpu.we = false) :
    (s.next i).ram.mem = s.ram.mem ∧
      (s.cpu.oe = true → (s.next i).ram.q = s.ram.mem (ramWord s.cpu.mar)) := by
  have hsel := h.loaded
  refine ⟨?_, fun hoe => ?_⟩
  · simp [Sramtop.next, Ram.next, ramPort, hsel, hwe]
  · simp [Sramtop.next, Ram.next, ramPort, hsel, hwe, hoe, ramWord]

/-- An edge with one. -/
theorem Running.ram_of_we (h : Running s) (hwe : s.cpu.we = true) :
    (s.next i).ram.mem = stored s.ram.mem (ramWord s.cpu.mar) s.cpu.mdr := by
  have hsel := h.loaded
  funext a
  simp [Sramtop.next, Ram.next, ramPort, hsel, hwe, stored, ramWord]
  rfl

/-- `c` is the processor and `m` the memory. -/
structure Holds (s : Sramtop) (c : Cpu) (m : BitVec 10 → BitVec 16) : Prop extends Running s where
  cpu : s.cpu = c
  mem : s.ram.mem = m

variable {c c' : Cpu} {m : BitVec 10 → BitVec 16}

theorem we_eq (c : Cpu) : c.we = decide (c.isdu = .s16) := by
  rw [Cpu.we, Cpu.control]
  cases c.isdu <;> rfl

theorem Running.holds (h : Running s) : Holds s s.cpu s.ram.mem := ⟨h, rfl, rfl⟩

/-- An edge outside `S_16`, which makes `c'` of the processor. -/
theorem Holds.next (h : Holds s c m) (hi : i.run = true ∨ i.continue_ = true)
    (h16 : c.isdu ≠ .s16) {b' : Board} (hb : s.beside.next (fun _ => 0#16) (input i s) = b')
    (hc : b'.cpu = c') : Holds (s.next i) c' m where
  toRunning := h.toRunning.next hi
  cpu := by rw [next_cpu, hb, hc]
  mem := by
    rw [← h.cpu] at h16
    rw [(h.ram_of_not_we (by rw [we_eq]; exact decide_eq_false h16)).1, h.mem]

/-- The processor `k ≤ 5` edges after `S_18`. -/
def fetching (c : Cpu) (isdu : IState) (mdr ir : BitVec 16) : Cpu :=
  { c with isdu := isdu, mar := c.pc, pc := c.pc + 1, mdr := mdr, ir := ir, led := 0 }

/-- The word at `PC`. -/
def wordAtPC (w : ℕ → TopInput) (s : Sramtop) : BitVec 16 :=
  if s.cpu.pc = 0xFFFF#16 then (w 3).sw.setWidth 16 else s.ram.mem (ramWord s.cpu.pc)

variable {w : ℕ → TopInput}

/-- **Fetch and decode**, with the states passed on the way. -/
theorem run_fetch (h : Running s) (hw : ∀ t, (w t).run = true ∨ (w t).continue_ = true)
    (h18 : s.cpu.isdu = .s18) : Holds (run Sramtop.next w s 6)
      { fetching s.cpu (dispatch (opcode (wordAtPC w s))) (wordAtPC w s) (wordAtPC w s) with
        ben := newBEN (dr (wordAtPC w s)) s.cpu.cc } s.ram.mem ∧
      ∀ n, 0 < n → n < 6 → (run Sramtop.next w s n).cpu.isdu ≠ .s18 := by
  have h1 : Holds (run Sramtop.next w s 1) (fetching s.cpu .s33_1 s.cpu.mdr s.cpu.ir) s.ram.mem :=
    h.holds.next (hw 0) (by rw [h18]; decide) (next_s18 h.reset h18) rfl
  have h2 : Holds (run Sramtop.next w s 2) (fetching s.cpu .s33_2 s.cpu.mdr s.cpu.ir) s.ram.mem :=
    h1.next (hw 1) (by simp [fetching]) (next_wait h1.reset (by simp [beside, h1.cpu, fetching]))
      (by simp [beside, h1.cpu, fetching, nextState])
  have h3 : Holds (run Sramtop.next w s 3) (fetching s.cpu .s33_3 s.cpu.mdr s.cpu.ir) s.ram.mem :=
    h2.next (hw 2) (by simp [fetching]) (next_wait h2.reset (by simp [beside, h2.cpu, fetching]))
      (by simp [beside, h2.cpu, fetching, nextState])
  have hq : (run Sramtop.next w s 3).ram.q = s.ram.mem (ramWord s.cpu.pc) := by
    have hoe : (run Sramtop.next w s 2).cpu.oe = true := by rw [h2.cpu]; rfl
    rw [run_succ, (h2.ram_of_not_we (by rw [h2.cpu]; rfl)).2 hoe, h2.mem, h2.cpu]
    rfl
  have h4 : Holds (run Sramtop.next w s 4) (fetching s.cpu .s35 (wordAtPC w s) s.cpu.ir)
      s.ram.mem :=
    h3.next (hw 3) (by simp [fetching]) (next_take h3.reset (by simp [beside, h3.cpu, fetching]))
      (by simp [beside, h3.cpu, fetching, nextState, wordAtPC, hq, input])
  have h5 : Holds (run Sramtop.next w s 5) (fetching s.cpu .s32 (wordAtPC w s) (wordAtPC w s))
      s.ram.mem :=
    h4.next (hw 4) (by simp [fetching]) (next_s35 h4.reset (by simp [beside, h4.cpu, fetching]))
      (by simp [beside, h4.cpu, fetching])
  refine ⟨h5.next (hw 5) (by simp [fetching])
    (next_s32 h5.reset (by simp [beside, h5.cpu, fetching]))
    (by simp only [beside, h5.cpu, fetching]; rfl), fun n h0 hn => ?_⟩
  obtain rfl | rfl | rfl | rfl | rfl : n = 1 ∨ n = 2 ∨ n = 3 ∨ n = 4 ∨ n = 5 := by omega
  · rw [h1.cpu]; exact IState.noConfusion
  · rw [h2.cpu]; exact IState.noConfusion
  · rw [h3.cpu]; exact IState.noConfusion
  · rw [h4.cpu]; exact IState.noConfusion
  · rw [h5.cpu]; exact IState.noConfusion

/-- **The nine edges of a store.** -/
theorem run_store (h : Running s) (hw : ∀ t, (w t).run = true ∨ (w t).continue_ = true)
    (h18 : s.cpu.isdu = .s18) (hop : opcode (wordAtPC w s) = 0b0111#4) {addr v : BitVec 16}
    (haddr : addr = s.cpu.r (baseR (wordAtPC w s)) + offset6 (wordAtPC w s))
    (hv : v = s.cpu.r (dr (wordAtPC w s))) :
    (run Sramtop.next w s 9).cpu.isdu = .s18 ∧
      (∀ n, 0 < n → n < 9 → (run Sramtop.next w s n).cpu.isdu ≠ .s18) ∧
      (run Sramtop.next w s 9).cpu.hexData = (if addr = 0xFFFF#16 then v else s.cpu.hexData) ∧
      (run Sramtop.next w s 9).ram.mem = stored s.ram.mem (ramWord addr) v := by
  obtain ⟨h6, hfirst⟩ := run_fetch h hw h18
  rw [hop] at h6
  have h7 : Holds (run Sramtop.next w s 7)
      { fetching s.cpu .s23 (wordAtPC w s) (wordAtPC w s) with
        ben := newBEN (dr (wordAtPC w s)) s.cpu.cc, mar := addr } s.ram.mem :=
    h6.next (hw 6) (by simp [fetching, dispatch])
      (next_address h6.reset (by simp [beside, h6.cpu, fetching, dispatch]))
      (by simp only [beside, h6.cpu, fetching, haddr]; rfl)
  have h8 : Holds (run Sramtop.next w s 8)
      { fetching s.cpu .s16 v (wordAtPC w s) with
        ben := newBEN (dr (wordAtPC w s)) s.cpu.cc, mar := addr } s.ram.mem :=
    h7.next (hw 7) (by simp [fetching]) (next_s23 h7.reset (by simp [beside, h7.cpu, fetching]))
      (by simp only [beside, h7.cpu, fetching, hv]; rfl)
  have h9 : (run Sramtop.next w s 9).cpu = _ :=
    (next_cpu (w 8) _).trans (congrArg Board.cpu
      (next_s16 h8.reset (by simp [beside, h8.cpu, fetching])))
  have hwe : (run Sramtop.next w s 8).cpu.we = true := by rw [h8.cpu]; rfl
  refine ⟨by rw [h9], fun n h0 hn => ?_, ?_, ?_⟩
  · by_cases hn6 : n < 6
    · exact hfirst n h0 hn6
    · obtain rfl | rfl | rfl : n = 6 ∨ n = 7 ∨ n = 8 := by omega
      · rw [h6.cpu]; exact IState.noConfusion
      · rw [h7.cpu]; exact IState.noConfusion
      · rw [h8.cpu]; exact IState.noConfusion
  · rw [h9]
    simp only [beside, h8.cpu, fetching]
  · rw [run_succ, h8.ram_of_we hwe, h8.mem, h8.cpu]
    rfl

end Sramtop

/-! ### The two boards -/

/-- **A store changes the one word it addresses**, of the 256 words of the test memory or of the
1024 words of the RAM, and the display if its address is `xFFFF`. -/
theorem store_exactly :
    (∀ (image : BitVec 8 → BitVec 16) (w : ℕ → Input) (b : Board), (∀ t, (w t).reset = false) →
      b.cpu.isdu = .s18 → ∀ ins addr v, ins = b.arch.rd (w 3).sw b.cpu.pc →
      opcode ins = 0b0111#4 → addr = b.cpu.r (baseR ins) + offset6 ins → v = b.cpu.r (dr ins) →
      (run (Board.next image) w b 9).cpu.isdu = .s18 ∧
      (∀ n, 0 < n → n < 9 → (run (Board.next image) w b n).cpu.isdu ≠ .s18) ∧
      (run (Board.next image) w b 9).cpu.hexData =
        (if addr = 0xFFFF#16 then v else b.cpu.hexData) ∧
      (run (Board.next image) w b 9).mem.memArray = stored b.mem.memArray (word addr) v) ∧
    ∀ (w : ℕ → TopInput) (s : Sramtop), s.Running →
      (∀ t, (w t).run = true ∨ (w t).continue_ = true) → s.cpu.isdu = .s18 →
      ∀ ins addr v, ins = s.wordAtPC w → opcode ins = 0b0111#4 →
      addr = s.cpu.r (baseR ins) + offset6 ins → v = s.cpu.r (dr ins) →
      (run Sramtop.next w s 9).cpu.isdu = .s18 ∧
      (∀ n, 0 < n → n < 9 → (run Sramtop.next w s n).cpu.isdu ≠ .s18) ∧
      (run Sramtop.next w s 9).cpu.hexData = (if addr = 0xFFFF#16 then v else s.cpu.hexData) ∧
      (run Sramtop.next w s 9).ram.mem = stored s.ram.mem (Sramtop.ramWord addr) v := by
  refine ⟨?_, ?_⟩
  · rintro image w b hr h18 ins addr v hins hop rfl rfl
    have hd := fetched_decoded (b := b) w ins
    have hret : Returns image w 6 (b.fetched w ins) 3
        ((b.fetched w ins).arch.execute 0#10 (b.fetched w ins).cpu.ir) := returns_str hr hd hop
    rw [hins] at hret
    obtain ⟨-, h9, harch, hfirst⟩ := completes_of_returns hr h18 hret
    rw [← hins, Arch.execute_str (w := (b.fetched w ins).cpu.ir) hop] at harch
    exact ⟨h9, hfirst, congrArg Arch.hexData harch, congrArg Arch.mem harch⟩
  · rintro w s hs hw h18 ins addr v rfl hop haddr hv
    exact Sramtop.run_store hs hw h18 hop haddr hv

/-- `STR R1, R0, #-1` everywhere in the memory, with `5` in `R1`. -/
def storing : Cpu where
  isdu := .s18
  pc := 0#16
  mdr := 0#16
  mar := 0#16
  ir := 0#16
  ben := false
  cc := 0b010#3
  r := fun k => if k = 1#3 then 5#16 else 0#16
  led := 0#10
  hexData := 0#16

def storingBoard : Board where
  cpu := storing
  mem := { memArray := fun _ => 0x723F#16, memOut := 0#16 }

def storingTop : Sramtop where
  runS := true
  continueS := true
  cpu := storing
  loader := ⟨.idle, 0x100#16⟩
  ram := { mem := fun _ => 0x723F#16, q := 0#16 }

/-- Both buttons up. -/
def Sramtop.buttonsUp : TopInput :=
  { run := true, continue_ := true, sw := 0#10, busX := 0#16, ramX := 0#16 }

/-- A store to the display is a store to the memory. -/
theorem store_display_writes_memory :
    ¬((∀ (image : BitVec 8 → BitVec 16) (w : ℕ → Input) (b : Board), (∀ t, (w t).reset = false) →
      b.cpu.isdu = .s18 → ∀ ins, ins = b.arch.rd (w 3).sw b.cpu.pc → opcode ins = 0b0111#4 →
      b.cpu.r (baseR ins) + offset6 ins = 0xFFFF#16 →
      (run (Board.next image) w b 9).cpu.hexData = b.cpu.r (dr ins) ∧
      (run (Board.next image) w b 9).mem.memArray = b.mem.memArray) ∧
    ∀ (w : ℕ → TopInput) (s : Sramtop), s.Running →
      (∀ t, (w t).run = true ∨ (w t).continue_ = true) → s.cpu.isdu = .s18 →
      ∀ ins, ins = s.wordAtPC w → opcode ins = 0b0111#4 →
      s.cpu.r (baseR ins) + offset6 ins = 0xFFFF#16 →
      (run Sramtop.next w s 9).cpu.hexData = s.cpu.r (dr ins) ∧
      (run Sramtop.next w s 9).ram.mem = s.ram.mem) := by
  rintro ⟨hboard, -⟩
  have h := (hboard (fun _ => 0#16) press storingBoard (fun _ => rfl) rfl 0x723F#16 rfl (by decide)
    (by decide)).2
  exact absurd (congrFun h 255#8) (by decide +kernel)

theorem store_exactly_display :
    (run (Board.next fun _ => 0#16) press storingBoard 9).cpu.hexData = 5#16 ∧
    (run (Board.next fun _ => 0#16) press storingBoard 9).mem.memArray =
      stored (fun _ => 0x723F#16) 255#8 5#16 ∧
    (run Sramtop.next (fun _ => Sramtop.buttonsUp) storingTop 9).ram.mem =
      stored (fun _ => 0x723F#16) 1023#10 5#16 := by
  obtain ⟨-, -, hhex, hmem⟩ := store_exactly.1 (fun _ => 0#16) press storingBoard (fun _ => rfl) rfl
    0x723F#16 _ _ rfl (by decide) rfl rfl
  obtain ⟨-, -, -, hram⟩ := store_exactly.2 (fun _ => Sramtop.buttonsUp) storingTop ⟨rfl, rfl⟩
    (fun _ => .inl rfl) rfl 0x723F#16 _ _ rfl (by decide) rfl rfl
  exact ⟨hhex, hmem, hram⟩

end ECE385.Slc3
