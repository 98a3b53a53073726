import ECE385.Slc3.Cycles

/-!
# The SLC-3 refines its instruction set

From `S_18`, whatever word the fetch finds, the machine comes back to `S_18`
with the architectural state one `Isa` step further.

* `run_fetch`: six edges take the word at `PC` into `IR`, increment `PC` and
  leave the machine `Decoded`.
* `execute_of_decoded`: from there each opcode takes its own path back, at most
  five edges long; `PSE` waits for `Continue`, `run_pause`.
* `slc3_refines_isa` joins the two.
-/

namespace ECE385.Slc3

open Clocked Isa

/-- The architectural state of a board. -/
def Board.arch (b : Board) : Arch where
  pc := b.cpu.pc
  r := b.cpu.r
  cc := b.cpu.cc
  mem := b.mem.memArray
  hexData := b.cpu.hexData

/-- The instruction in `IR` has been decoded, with `BEN` taken from the condition
code. -/
structure Board.Decoded (b : Board) : Prop where
  isdu : b.cpu.isdu = dispatch (opcode b.cpu.ir)
  ben : b.cpu.ben = newBEN (dr b.cpu.ir) b.cpu.cc

variable {image : BitVec 8 → BitVec 16} {w : ℕ → Input} {b : Board}

/-! ### Fetch -/

/-- The board six edges after `S_18`, with `ins` the word the fetch has read. -/
def Board.fetched (b : Board) (w : ℕ → Input) (ins : BitVec 16) : Board where
  cpu := { b.cpu with
    isdu := dispatch (opcode ins)
    mar := b.cpu.pc
    mdr := ins
    ir := ins
    pc := b.cpu.pc + 1
    ben := newBEN (dr ins) b.cpu.cc
    led := 0 }
  mem := b.mem.idle (w 5).memX

/-- The board `k ≤ 5` edges after `S_18`: `PC` is in `MAR` and incremented. -/
def Board.fetching (b : Board) (isdu : IState) (mdr ir : BitVec 16) (mem : TestMemory) : Board where
  cpu := { b.cpu with
    isdu := isdu
    mar := b.cpu.pc
    pc := b.cpu.pc + 1
    mdr := mdr
    ir := ir
    led := 0 }
  mem := mem

variable (image) in
/-- **Fetch and decode**, with the states passed on the way. -/
theorem run_fetch (hr : ∀ t, (w t).reset = false) (h : b.cpu.isdu = .s18) :
    run (Board.next image) w b 6 = b.fetched w (b.arch.rd (w 3).sw b.cpu.pc) ∧
      ∀ m, 0 < m → m < 6 → (run (Board.next image) w b m).cpu.isdu ≠ .s18 := by
  have h1 : run (Board.next image) w b 1 =
      b.fetching .s33_1 b.cpu.mdr b.cpu.ir (b.mem.idle (w 0).memX) := by
    rw [run_succ, run_zero, next_s18 (hr 0) h]; rfl
  have h2 : run (Board.next image) w b 2 =
      b.fetching .s33_2 b.cpu.mdr b.cpu.ir (b.mem.fetch b.cpu.pc) := by
    rw [run_succ, h1, next_wait (hr 1) (by simp [Board.fetching])]; rfl
  have h3 : run (Board.next image) w b 3 =
      b.fetching .s33_3 b.cpu.mdr b.cpu.ir (b.mem.fetch b.cpu.pc) := by
    rw [run_succ, h2, next_wait (hr 2) (by simp [Board.fetching])]; rfl
  have h4 : run (Board.next image) w b 4 =
      b.fetching .s35 (b.arch.rd (w 3).sw b.cpu.pc) b.cpu.ir (b.mem.fetch b.cpu.pc) := by
    rw [run_succ, h3, next_take (hr 3) (by simp [Board.fetching])]; rfl
  have h5 : run (Board.next image) w b 5 =
      b.fetching .s32 (b.arch.rd (w 3).sw b.cpu.pc) (b.arch.rd (w 3).sw b.cpu.pc)
        (b.mem.idle (w 4).memX) := by
    rw [run_succ, h4, next_s35 (hr 4) rfl]; rfl
  refine ⟨?_, ?_⟩
  · rw [run_succ, h5, next_s32 (hr 5) rfl]; rfl
  · intro m h0 hm
    have : m = 1 ∨ m = 2 ∨ m = 3 ∨ m = 4 ∨ m = 5 := by omega
    rcases this with rfl | rfl | rfl | rfl | rfl
    · rw [h1]; exact IState.noConfusion
    · rw [h2]; exact IState.noConfusion
    · rw [h3]; exact IState.noConfusion
    · rw [h4]; exact IState.noConfusion
    · rw [h5]; exact IState.noConfusion

theorem fetched_decoded (w : ℕ → Input) (ins : BitVec 16) : (b.fetched w ins).Decoded :=
  ⟨rfl, rfl⟩

/-! ### Execute -/

/-- The machine, in the state `b` before edge `t`, enters `S_18` after `n` edges, for
the first time, with the architectural state `a`. -/
structure Returns (image : BitVec 8 → BitVec 16) (w : ℕ → Input) (t : ℕ) (b : Board) (n : ℕ)
    (a : Arch) : Prop where
  back : (run (Board.next image) (delay t w) b n).cpu.isdu = .s18
  arch : (run (Board.next image) (delay t w) b n).arch = a
  first : ∀ m < n, (run (Board.next image) (delay t w) b m).cpu.isdu ≠ .s18

theorem returns_zero {t : ℕ} {a : Arch} (h : b.cpu.isdu = .s18) (ha : b.arch = a) :
    Returns image w t b 0 a :=
  ⟨h, ha, fun _ hm => absurd hm (Nat.not_lt_zero _)⟩

/-- One more edge before a return. -/
theorem Returns.cons {t n : ℕ} {a : Arch} (h : b.cpu.isdu ≠ .s18)
    (hn : Returns image w (t + 1) (b.next image (w t)) n a) : Returns image w t b (n + 1) a := by
  have hrun : ∀ m, run (Board.next image) (delay t w) b (m + 1) =
      run (Board.next image) (delay (t + 1) w) (b.next image (w t)) m := by
    intro m
    rw [Nat.add_comm m, run_add, delay_delay, run_succ, run_zero]
    rfl
  refine ⟨by rw [hrun, hn.back], by rw [hrun, hn.arch], fun m hm => ?_⟩
  cases m with
  | zero => exact h
  | succ m => rw [hrun]; exact hn.first m (Nat.lt_of_succ_lt_succ hm)

theorem nzp_eq_sign (v : BitVec 16) : nzp v = sign v := by
  have h : v.getLsbD 15 = true ↔ v.toInt < 0 := by
    rw [show v.getLsbD 15 = v.msb from rfl, BitVec.msb_eq_toInt, decide_eq_true_iff]
  simp only [nzp, sign, h]

theorem newBEN_iff : ∀ irIn cc : BitVec 3, newBEN irIn cc = true ↔ irIn &&& cc ≠ 0#3 := by
  decide

/-- A write-back is an `Isa` result. -/
theorem arch_writeBack (v x : BitVec 16) (m : TestMemory) :
    ({ cpu := b.cpu.writeBack v, mem := m.idle x } : Board).arch
      = { b.arch with mem := m.memArray }.result b.cpu.ir v := by
  simp only [Board.arch, Cpu.writeBack, nzp_eq_sign]
  rfl

/-- `PSE` and the opcodes without an instruction: where the machine goes after
the decode. -/
theorem decoded_other (hd : b.Decoded)
    (hop : opcode b.cpu.ir ∉ [0b0001#4, 0b0101#4, 0b1001#4, 0b0000#4, 0b1100#4, 0b0100#4,
      0b0110#4, 0b0111#4]) :
    b.cpu.isdu = if opcode b.cpu.ir = 0b1101#4 then .pauseIR1 else .s18 := by
  simp only [List.mem_cons, List.not_mem_nil, or_false, not_or] at hop
  rw [hd.isdu]
  simp [dispatch, hop]

section Opcodes

variable {t : ℕ} {sw : BitVec 10} (hr : ∀ t, (w t).reset = false) (hd : b.Decoded)

include hr hd

theorem returns_add (hop : opcode b.cpu.ir = 0b0001#4) :
    Returns image w t b 1 (b.arch.execute sw b.cpu.ir) := by
  have hs : b.cpu.isdu = .s01 := by rw [hd.isdu, hop]; rfl
  refine .cons (by simp [hs]) ?_
  rw [next_s01 (hr t) hs, Arch.execute_add hop]
  exact returns_zero rfl (arch_writeBack _ _ _)

theorem returns_and (hop : opcode b.cpu.ir = 0b0101#4) :
    Returns image w t b 1 (b.arch.execute sw b.cpu.ir) := by
  have hs : b.cpu.isdu = .s05 := by rw [hd.isdu, hop]; rfl
  refine .cons (by simp [hs]) ?_
  rw [next_s05 (hr t) hs, Arch.execute_and hop]
  exact returns_zero rfl (arch_writeBack _ _ _)

theorem returns_not (hop : opcode b.cpu.ir = 0b1001#4) :
    Returns image w t b 1 (b.arch.execute sw b.cpu.ir) := by
  have hs : b.cpu.isdu = .s09 := by rw [hd.isdu, hop]; rfl
  refine .cons (by simp [hs]) ?_
  rw [next_s09 (hr t) hs, Arch.execute_not hop]
  exact returns_zero rfl (arch_writeBack _ _ _)

/-- A branch that is not taken is back one edge earlier. -/
theorem returns_br (hop : opcode b.cpu.ir = 0b0000#4) :
    Returns image w t b (if dr b.cpu.ir &&& b.cpu.cc ≠ 0#3 then 2 else 1)
      (b.arch.execute sw b.cpu.ir) := by
  have hs : b.cpu.isdu = .sBEN := by rw [hd.isdu, hop]; rfl
  have hben : b.cpu.ben = true ↔ dr b.cpu.ir &&& b.cpu.cc ≠ 0#3 := by
    rw [hd.ben, newBEN_iff]
  rw [Arch.execute_br hop]
  by_cases hc : dr b.cpu.ir &&& b.cpu.cc ≠ 0#3
  · rw [if_pos hc, if_pos (show dr b.cpu.ir &&& b.arch.cc ≠ 0#3 from hc)]
    refine .cons (by simp [hs]) ?_
    rw [next_sBEN (hr t) hs, if_pos (hben.mpr hc)]
    refine .cons (by simp) ?_
    rw [next_s22 (hr (t + 1)) rfl]
    exact returns_zero rfl rfl
  · rw [if_neg hc, if_neg (show ¬ (dr b.cpu.ir &&& b.arch.cc ≠ 0#3) from hc)]
    refine .cons (by simp [hs]) ?_
    rw [next_sBEN (hr t) hs, if_neg (mt hben.mp hc)]
    exact returns_zero rfl rfl

theorem returns_jmp (hop : opcode b.cpu.ir = 0b1100#4) :
    Returns image w t b 1 (b.arch.execute sw b.cpu.ir) := by
  have hs : b.cpu.isdu = .s12 := by rw [hd.isdu, hop]; rfl
  refine .cons (by simp [hs]) ?_
  rw [next_s12 (hr t) hs, Arch.execute_jmp hop]
  exact returns_zero rfl rfl

theorem returns_jsr (hop : opcode b.cpu.ir = 0b0100#4) :
    Returns image w t b 2 (b.arch.execute sw b.cpu.ir) := by
  have hs : b.cpu.isdu = .s04 := by rw [hd.isdu, hop]; rfl
  refine .cons (by simp [hs]) ?_
  rw [next_s04 (hr t) hs]
  refine .cons (by simp) ?_
  rw [next_s21 (hr (t + 1)) rfl, Arch.execute_jsr hop]
  exact returns_zero rfl rfl

/-- A load sees the switches as they are in `S_25_3`, three edges after the
decode. -/
theorem returns_ldr (hop : opcode b.cpu.ir = 0b0110#4) :
    Returns image w t b 5 (b.arch.execute (w (t + 3)).sw b.cpu.ir) := by
  have hs : b.cpu.isdu = .s06 := by rw [hd.isdu, hop]; rfl
  refine .cons (by simp [hs]) ?_
  rw [next_address (hr t) (by simp [hs])]
  refine .cons (by simp [hs, nextState]) ?_
  rw [next_wait (hr (t + 1)) (by simp [hs, nextState])]
  refine .cons (by simp [hs, nextState]) ?_
  rw [next_wait (hr (t + 2)) (by simp [hs, nextState])]
  refine .cons (by simp [hs, nextState]) ?_
  rw [next_take (hr (t + 3)) (by simp [hs, nextState])]
  refine .cons (by simp [hs, nextState]) ?_
  rw [next_s27 (hr (t + 4)) (by simp [hs, nextState]), Arch.execute_ldr hop]
  exact returns_zero rfl (arch_writeBack _ _ _)

theorem returns_str (hop : opcode b.cpu.ir = 0b0111#4) :
    Returns image w t b 3 (b.arch.execute sw b.cpu.ir) := by
  have hs : b.cpu.isdu = .s07 := by rw [hd.isdu, hop]; rfl
  refine .cons (by simp [hs]) ?_
  rw [next_address (hr t) (by simp [hs])]
  refine .cons (by simp [hs, nextState]) ?_
  rw [next_s23 (hr (t + 1)) (by simp [hs, nextState])]
  refine .cons (by simp) ?_
  rw [next_s16 (hr (t + 2)) rfl, Arch.execute_str hop]
  exact returns_zero rfl rfl

end Opcodes

/-! ### Pause -/

theorem returns_pauseIR2 (hr : ∀ t, (w t).reset = false) (k : ℕ) : ∀ (t : ℕ) (b : Board),
    b.cpu.isdu = .pauseIR2 → (∀ s < k, (w (t + s)).continue_ = true) →
    (w (t + k)).continue_ = false → Returns image w t b (k + 1) b.arch := by
  induction k with
  | zero =>
    intro t b h _ hlow
    refine .cons (by simp [h]) ?_
    rw [next_pauseIR2 (hr t) h]
    exact returns_zero (by simpa using hlow) rfl
  | succ k ih =>
    intro t b h hhigh hlow
    refine .cons (by simp [h]) ?_
    have h0 : (w t).continue_ = true := hhigh 0 (Nat.succ_pos k)
    rw [next_pauseIR2 (hr t) h, if_pos h0]
    exact ih (t + 1) _ rfl
      (fun s hs => by have := hhigh (s + 1) (by omega); rwa [Nat.add_right_comm])
      (by rwa [Nat.add_right_comm])

/-- **A pause** ends once `Continue` has been seen high and then low; nothing
else in it changes the architectural state. -/
theorem returns_pauseIR1 (hr : ∀ t, (w t).reset = false) (j k : ℕ) : ∀ (t : ℕ) (b : Board),
    b.cpu.isdu = .pauseIR1 → (∀ s < j, (w (t + s)).continue_ = false) →
    (w (t + j)).continue_ = true → (∀ s < k, (w (t + j + 1 + s)).continue_ = true) →
    (w (t + j + 1 + k)).continue_ = false → Returns image w t b (j + 1 + k + 1) b.arch := by
  induction j with
  | zero =>
    intro t b h _ hpress hhigh hlow
    rw [show 0 + 1 + k + 1 = k + 1 + 1 by omega]
    refine .cons (by simp [h]) ?_
    rw [next_pauseIR1 (hr t) h, if_pos (show (w t).continue_ = true from hpress)]
    exact returns_pauseIR2 hr k (t + 1) _ rfl hhigh hlow
  | succ j ih =>
    intro t b h hidle hpress hhigh hlow
    rw [show j + 1 + 1 + k + 1 = j + 1 + k + 1 + 1 by omega]
    refine .cons (by simp [h]) ?_
    have h0 : (w t).continue_ = false := hidle 0 (Nat.succ_pos j)
    rw [next_pauseIR1 (hr t) h, h0]
    have hadd : ∀ s, t + 1 + s = t + (s + 1) := by intro s; omega
    refine ih (t + 1) _ rfl (fun s hs => ?_) ?_ (fun s hs => ?_) ?_
    · rw [hadd]; exact hidle (s + 1) (by omega)
    · rw [hadd]; exact hpress
    · rw [hadd]; exact hhigh s hs
    · rw [hadd]; exact hlow

/-! ### Fetch, decode and execute -/

/-- From `b` the machine enters `S_18` again after `n` edges, for the first time,
with the architectural state `a`. -/
structure Completes (image : BitVec 8 → BitVec 16) (w : ℕ → Input) (b : Board) (n : ℕ)
    (a : Arch) : Prop where
  pos : 0 < n
  back : (run (Board.next image) w b n).cpu.isdu = .s18
  arch : (run (Board.next image) w b n).arch = a
  first : ∀ m, 0 < m → m < n → (run (Board.next image) w b m).cpu.isdu ≠ .s18

/-- A fetch followed by a return is an instruction. -/
theorem completes_of_returns (hr : ∀ t, (w t).reset = false) (h : b.cpu.isdu = .s18) {n : ℕ}
    {a : Arch} (hn : Returns image w 6 (b.fetched w (b.arch.rd (w 3).sw b.cpu.pc)) n a) :
    Completes image w b (6 + n) a := by
  obtain ⟨hf, hfirst⟩ := run_fetch image hr h
  refine ⟨by omega, ?_, ?_, fun m h0 hm => ?_⟩
  · rw [run_add, hf, hn.back]
  · rw [run_add, hf, hn.arch]
  · by_cases hm6 : m < 6
    · exact hfirst m h0 hm6
    · rw [show m = 6 + (m - 6) by omega, run_add, hf]
      exact hn.first _ (by omega)

variable (image) in
/-- Every instruction but `PSE` returns within five edges of the decode. -/
theorem execute_of_decoded (hr : ∀ t, (w t).reset = false) {t : ℕ} (hd : b.Decoded)
    (hop : opcode b.cpu.ir ≠ 0b1101#4) :
    ∃ n ≤ 5, Returns image w t b n (b.arch.execute (w (t + 3)).sw b.cpu.ir) := by
  by_cases h1 : opcode b.cpu.ir = 0b0001#4
  · exact ⟨1, by omega, returns_add hr hd h1⟩
  by_cases h2 : opcode b.cpu.ir = 0b0101#4
  · exact ⟨1, by omega, returns_and hr hd h2⟩
  by_cases h3 : opcode b.cpu.ir = 0b1001#4
  · exact ⟨1, by omega, returns_not hr hd h3⟩
  by_cases h4 : opcode b.cpu.ir = 0b0000#4
  · exact ⟨_, by split <;> omega, returns_br hr hd h4⟩
  by_cases h5 : opcode b.cpu.ir = 0b1100#4
  · exact ⟨1, by omega, returns_jmp hr hd h5⟩
  by_cases h6 : opcode b.cpu.ir = 0b0100#4
  · exact ⟨2, by omega, returns_jsr hr hd h6⟩
  by_cases h7 : opcode b.cpu.ir = 0b0110#4
  · exact ⟨5, by omega, returns_ldr hr hd h7⟩
  by_cases h8 : opcode b.cpu.ir = 0b0111#4
  · exact ⟨3, by omega, returns_str hr hd h8⟩
  have hother : opcode b.cpu.ir ∉ [0b0001#4, 0b0101#4, 0b1001#4, 0b0000#4, 0b1100#4, 0b0100#4,
      0b0110#4, 0b0111#4] := by
    simp only [List.mem_cons, List.not_mem_nil, or_false, not_or]
    exact ⟨h1, h2, h3, h4, h5, h6, h7, h8⟩
  refine ⟨0, by omega, returns_zero ?_ (Arch.execute_other hother).symm⟩
  rw [decoded_other hd hother, if_neg hop]

/-- From `S_18` every instruction but `PSE` takes at most eleven edges. -/
theorem completes_of_ne_pse (hr : ∀ t, (w t).reset = false) (h18 : b.cpu.isdu = .s18)
    {ins : BitVec 16} (hins : ins = b.arch.rd (w 3).sw b.cpu.pc) (hop : opcode ins ≠ 0b1101#4) :
    ∃ n ≤ 11, Completes image w b n (b.arch.step (w 9).sw ins) := by
  have hd := fetched_decoded (b := b) w ins
  obtain ⟨n, hn, hret⟩ := execute_of_decoded image hr (t := 6) hd hop
  refine ⟨6 + n, by omega, completes_of_returns hr h18 ?_⟩
  rw [← hins]
  exact hret

/-- A `PSE` waits for `Continue` to be high, and then to be low. -/
theorem completes_of_pse (hr : ∀ t, (w t).reset = false) (h18 : b.cpu.isdu = .s18)
    {ins : BitVec 16} (hins : ins = b.arch.rd (w 3).sw b.cpu.pc) (hop : opcode ins = 0b1101#4)
    {j k : ℕ} (hidle : ∀ s < j, (w (6 + s)).continue_ = false)
    (hpress : (w (6 + j)).continue_ = true)
    (hhigh : ∀ s < k, (w (6 + j + 1 + s)).continue_ = true)
    (hlow : (w (6 + j + 1 + k)).continue_ = false) :
    Completes image w b (6 + (j + 1 + k + 1)) (b.arch.step (w 9).sw ins) := by
  have hd := fetched_decoded (b := b) w ins
  have hstep : b.arch.step (w 9).sw ins = (b.fetched w ins).arch.execute (w (6 + 3)).sw ins := rfl
  have hir : opcode (b.fetched w ins).cpu.ir = 0b1101#4 := hop
  have hother : opcode (b.fetched w ins).cpu.ir ∉ [0b0001#4, 0b0101#4, 0b1001#4, 0b0000#4,
      0b1100#4, 0b0100#4, 0b0110#4, 0b0111#4] := by
    rw [hir]; decide
  have hpause : (b.fetched w ins).cpu.isdu = .pauseIR1 := by
    rw [decoded_other hd hother, if_pos hir]
  refine completes_of_returns hr h18 ?_
  rw [← hins, hstep, Arch.execute_other (w := ins) hother]
  exact returns_pauseIR1 hr j k 6 _ hpause hidle hpress hhigh hlow

/-- **The SLC-3 refines its instruction set.**  From `S_18`, with `Reset` low and
`ins` the word found at `PC`, the machine is back after at most eleven edges,
one `Isa` step further; a `PSE` takes until `Continue` has been seen high and
then low. -/
theorem slc3_refines_isa (image : BitVec 8 → BitVec 16) (w : ℕ → Input)
    (hreset : ∀ t, (w t).reset = false) (b : Board) (h18 : b.cpu.isdu = .s18) (ins : BitVec 16)
    (hins : ins = b.arch.rd (w 3).sw b.cpu.pc) :
    (opcode ins ≠ 0b1101#4 →
      ∃ n ≤ 11, Completes image w b n (b.arch.step (w 9).sw ins)) ∧
    (opcode ins = 0b1101#4 → ∀ j k,
      (∀ s < j, (w (6 + s)).continue_ = false) → (w (6 + j)).continue_ = true →
      (∀ s < k, (w (6 + j + 1 + s)).continue_ = true) → (w (6 + j + 1 + k)).continue_ = false →
      Completes image w b (6 + (j + 1 + k + 1)) (b.arch.step (w 9).sw ins)) := by
  refine ⟨?_, ?_⟩
  · exact fun hop => completes_of_ne_pse hreset h18 hins hop
  · intro hop j k hidle hpress hhigh hlow
    exact completes_of_pse hreset h18 hins hop hidle hpress hhigh hlow

/-- `Continue` is pressed for the edge at which `PauseIR1` samples it. -/
def press (t : ℕ) : Input :=
  { reset := false, run := false, continue_ := decide (t = 6), sw := 0#10, busX := 0#16,
    memX := 0#16 }

/-- A board in `S_18` whose memory holds `ins` everywhere. -/
def filled (ins : BitVec 16) : Board where
  cpu := { isdu := .s18, pc := 0#16, mdr := 0#16, mar := 0#16, ir := 0#16, ben := false,
           cc := 0b010#3, r := fun _ => 0#16, led := 0#10, hexData := 0#16 }
  mem := { memArray := fun _ => ins, memOut := 0#16 }

/-- `ADD R1, R1, #1` and a pause that is released at once. -/
theorem slc3_refines_isa_filled :
    (∃ n ≤ 11, Completes (fun _ => 0#16) press (filled 0x1261#16) n
      ((filled 0x1261#16).arch.step 0#10 0x1261#16)) ∧
    Completes (fun _ => 0#16) press (filled 0xD000#16) (6 + (0 + 1 + 0 + 1))
      ((filled 0xD000#16).arch.step 0#10 0xD000#16) :=
  ⟨(slc3_refines_isa (fun _ => 0#16) press (fun _ => rfl) (filled 0x1261#16) rfl 0x1261#16 rfl).1
      (by decide),
    (slc3_refines_isa (fun _ => 0#16) press (fun _ => rfl) (filled 0xD000#16) rfl 0xD000#16 rfl).2
      (by decide) 0 0 (fun _ h => absurd h (Nat.not_lt_zero _)) rfl
      (fun _ h => absurd h (Nat.not_lt_zero _)) rfl⟩

end ECE385.Slc3
