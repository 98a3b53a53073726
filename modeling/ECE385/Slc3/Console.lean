import ECE385.Slc3.Dialogue
import ECE385.Slc3.Multiplier

/-!
# The dialogue at the pins

The processor shows the pattern of a pause on the LEDs and takes the switches into `MDR`.  A pause
counts when `Continue` is pressed, with what the LEDs show after that edge.

* `says_quiet`, `says_ldr`, `says_pauseIR1`: what an instruction adds to the dialogue.
* `trace_instruction`: that is what it adds on the reference machine.
* `dialogue_at_pins`: so the dialogues are the same.
-/

namespace ECE385.Slc3

open Clocked Isa

/-- What the operator sees and does at one edge. -/
def Board.events (image : BitVec 8 → BitVec 16) (i : Input) (b : Board) : List Event :=
  if b.cpu.isdu = .pauseIR1 ∧ (b.next image i).cpu.isdu = .pauseIR2 then
    [.pause (b.next image i).cpu.led b.cpu.hexData]
  else if b.cpu.isdu = .s25_3 ∧ b.cpu.mar = 0xFFFF#16 then [.read i.sw]
  else []

/-- The processor, with its dialogue. -/
def Board.machine (image : BitVec 8 → BitVec 16) : Machine Input Board Event :=
  ⟨Board.next image, Board.events image⟩

variable {image : BitVec 8 → BitVec 16} {w : ℕ → Input} {i : Input} {b : Board}

theorem events_eq_nil (h : b.cpu.isdu ∉ [IState.pauseIR1, .s25_3]) : b.events image i = [] := by
  simp only [List.mem_cons, List.not_mem_nil, or_false, not_or] at h
  rw [Board.events, if_neg (mt And.left h.1), if_neg (mt And.left h.2)]

/-! ### Up to the next instruction -/

/-- Between edge `t` and the next `S_18`, the dialogue is `es`. -/
def Says (image : BitVec 8 → BitVec 16) (w : ℕ → Input) (t : ℕ) (b : Board) (es : List Event) :
    Prop :=
  ∀ n a, Returns image w t b n a → trace (Board.machine image) (delay t w) b n = es

theorem says_s18 {t : ℕ} (h : b.cpu.isdu = .s18) : Says image w t b [] := by
  intro n a hn
  cases n with
  | zero => rfl
  | succ n => exact absurd h (hn.first 0 (Nat.succ_pos n))

theorem trace_succ {t n : ℕ} : trace (Board.machine image) (delay t w) b (n + 1) =
    b.events image (w t) ++
      trace (Board.machine image) (delay (t + 1) w) (b.next image (w t)) n := by
  rw [Nat.add_comm n, trace_add, delay_delay]
  rfl

/-- The same return, seen one edge later. -/
theorem Returns.tail {t n : ℕ} {a : Arch} (h : Returns image w t b (n + 1) a) :
    Returns image w (t + 1) (b.next image (w t)) n a := by
  have hrun : ∀ m, run (Board.next image) (delay t w) b (m + 1) =
      run (Board.next image) (delay (t + 1) w) (b.next image (w t)) m := by
    intro m
    rw [Nat.add_comm m, run_add, delay_delay, run_succ, run_zero]
    rfl
  refine ⟨by rw [← hrun, h.back], by rw [← hrun, h.arch], fun m hm => ?_⟩
  rw [← hrun]
  exact h.first (m + 1) (Nat.succ_lt_succ hm)

/-- One more edge. -/
theorem Says.cons {t : ℕ} {es : List Event} (h : b.cpu.isdu ≠ .s18)
    (hs : Says image w (t + 1) (b.next image (w t)) es) :
    Says image w t b (b.events image (w t) ++ es) := by
  intro n a hn
  cases n with
  | zero => exact absurd hn.back h
  | succ n => rw [trace_succ, hs n a hn.tail]

/-- One more edge without an event. -/
theorem Says.silent {t : ℕ} {es : List Event}
    (h : b.cpu.isdu ∉ [IState.s18, .pauseIR1, .s25_3])
    (hs : Says image w (t + 1) (b.next image (w t)) es) : Says image w t b es := by
  simp only [List.mem_cons, List.not_mem_nil, or_false, not_or] at h
  have hnil : b.events image (w t) = [] :=
    events_eq_nil (by simp only [List.mem_cons, List.not_mem_nil, or_false, not_or]; exact h.2)
  have hcons := Says.cons h.1 hs
  rw [hnil] at hcons
  exact hcons

/-! ### Instructions -/

/-- The states after which nothing is said before the next instruction. -/
def quiet : List IState :=
  [.s01, .s05, .s09, .s27, .s07, .s23, .s16, .sBEN, .s22, .s12, .s04, .s21, .pauseIR2]

theorem next_quiet {run continue_ ben : Bool} {opcode : BitVec 4} {st : IState} (h : st ∈ quiet) :
    nextState run continue_ opcode ben st ∈ quiet ∨
      nextState run continue_ opcode ben st = .s18 := by
  revert run continue_ ben
  simp only [quiet, List.mem_cons, List.not_mem_nil, or_false] at h
  rcases h with rfl | rfl | rfl | rfl | rfl | rfl | rfl | rfl | rfl | rfl | rfl | rfl | rfl
  all_goals
    simp only [nextState]
    decide

theorem isdu_next (hr : i.reset = false) : (b.next image i).cpu.isdu =
    nextState i.run i.continue_ (b.cpu.ir.extractLsb' 12 4) b.cpu.ben b.cpu.isdu := by
  simp only [Board.next, Cpu.next]
  rw [if_neg (by rw [hr]; decide)]

variable (hr : ∀ t, (w t).reset = false)

include hr

theorem says_quiet {t : ℕ} (h : b.cpu.isdu ∈ quiet) : Says image w t b [] := by
  intro n
  induction n generalizing t b with
  | zero => exact fun _ _ => rfl
  | succ n ih =>
    intro a hn
    have hnil : b.events image (w t) = [] := by
      refine events_eq_nil ?_
      revert h
      cases b.cpu.isdu
      all_goals decide
    rw [trace_succ, hnil, List.nil_append]
    have hnext : (b.next image (w t)).cpu.isdu ∈ quiet ∨
        (b.next image (w t)).cpu.isdu = .s18 := by
      rw [isdu_next (hr t)]
      exact next_quiet h
    rcases hnext with hnext | hnext
    · exact ih hnext a hn.tail
    · exact says_s18 hnext n a hn.tail

theorem says_s25_3 {t : ℕ} (h : b.cpu.isdu = .s25_3) : Says image w t b
    (if b.cpu.mar = 0xFFFF#16 then [.read (w t).sw] else []) := by
  have hevents : b.events image (w t) =
      if b.cpu.mar = 0xFFFF#16 then [.read (w t).sw] else [] := by
    rw [Board.events, if_neg (by simp [h])]
    simp only [h, true_and]
  have hs27 : (b.next image (w t)).cpu.isdu = .s27 := by
    rw [isdu_next (hr t), h]
    rfl
  have hcons : Says image w t b (b.events image (w t) ++ []) :=
    .cons (by simp [h]) (says_quiet hr (by rw [hs27]; decide))
  rwa [List.append_nil, hevents] at hcons

/-- **A load** reads the switches, if it is from them. -/
theorem says_ldr {t : ℕ} (hd : b.Decoded) (hop : opcode b.cpu.ir = 0b0110#4) :
    Says image w t b
      (if b.arch.ea b.cpu.ir = 0xFFFF#16 then [.read (w (t + 3)).sw] else []) := by
  have hs : b.cpu.isdu = .s06 := by rw [hd.isdu, hop]; rfl
  refine .silent (by simp [hs]) ?_
  rw [next_address (hr t) (by simp [hs])]
  refine .silent (by simp [hs, nextState]) ?_
  rw [next_wait (hr (t + 1)) (by simp [hs, nextState])]
  refine .silent (by simp [hs, nextState]) ?_
  rw [next_wait (hr (t + 2)) (by simp [hs, nextState])]
  exact says_s25_3 hr (by simp [hs, nextState])

/-- **A pause** shows its pattern when `Continue` is pressed. -/
theorem says_pauseIR1 {t : ℕ} (h : b.cpu.isdu = .pauseIR1) :
    Says image w t b [.pause (b.cpu.ir.extractLsb' 0 10) b.cpu.hexData] := by
  intro n
  induction n generalizing t b with
  | zero =>
    intro a hn
    have hback : b.cpu.isdu = .s18 := hn.back
    rw [h] at hback
    cases hback
  | succ n ih =>
    intro a hn
    have hnext : b.next image (w t) = _ := next_pauseIR1 (hr t) h
    rw [trace_succ]
    cases hpress : (w t).continue_ with
    | false =>
      rw [hpress] at hnext
      have hnil : b.events image (w t) = [] := by
        rw [Board.events, if_neg (by rw [hnext]; simp), if_neg (by simp [h])]
      have htail := ih (b := b.next image (w t)) (by rw [hnext]; rfl) a hn.tail
      rw [hnil, htail, hnext]
      rfl
    | true =>
      rw [hpress] at hnext
      have hevents : b.events image (w t) =
          [.pause (b.cpu.ir.extractLsb' 0 10) b.cpu.hexData] := by
        rw [Board.events, if_pos ⟨h, by rw [hnext]; rfl⟩, hnext]
      have hquiet : Says image w (t + 1) (b.next image (w t)) [] :=
        says_quiet hr (by rw [hnext]; simp [quiet])
      rw [hevents, hquiet n a hn.tail, List.append_nil]

/-- **What an instruction says** after its decode. -/
theorem says_decoded {t : ℕ} (hd : b.Decoded) : Says image w t b
    (if opcode b.cpu.ir = 0b1101#4 then [.pause (b.cpu.ir.extractLsb' 0 10) b.cpu.hexData]
    else if opcode b.cpu.ir = 0b0110#4 ∧ b.arch.ea b.cpu.ir = 0xFFFF#16 then
      [.read (w (t + 3)).sw]
    else []) := by
  by_cases hpse : opcode b.cpu.ir = 0b1101#4
  · rw [if_pos hpse]
    refine says_pauseIR1 hr ?_
    rw [hd.isdu, hpse]
    rfl
  rw [if_neg hpse]
  by_cases hldr : opcode b.cpu.ir = 0b0110#4
  · simp only [hldr, true_and]
    exact says_ldr hr hd hldr
  rw [if_neg (mt And.left hldr)]
  have hcases : b.cpu.isdu ∈ quiet ∨ b.cpu.isdu = .s18 := by
    rw [hd.isdu]
    revert hpse hldr
    generalize opcode b.cpu.ir = op
    revert op
    decide
  rcases hcases with h | h
  · exact says_quiet hr h
  · exact says_s18 h

/-- The fetch is silent. -/
theorem trace_fetch (h : b.cpu.isdu = .s18) : trace (Board.machine image) w b 6 = [] := by
  have hnil : ∀ t st, (run (Board.next image) w b t).cpu.isdu = st →
      st ∉ [IState.pauseIR1, .s25_3] →
      (run (Board.next image) w b t).events image (w t) = [] :=
    fun t st ht hst => events_eq_nil (ht ▸ hst)
  have h1 : (run (Board.next image) w b 1).cpu.isdu = .s33_1 := by
    rw [run_succ, isdu_next (hr 0), run_zero, h]
    rfl
  have h2 : (run (Board.next image) w b 2).cpu.isdu = .s33_2 := by
    rw [run_succ, isdu_next (hr 1), h1]
    rfl
  have h3 : (run (Board.next image) w b 3).cpu.isdu = .s33_3 := by
    rw [run_succ, isdu_next (hr 2), h2]
    rfl
  have h4 : (run (Board.next image) w b 4).cpu.isdu = .s35 := by
    rw [run_succ, isdu_next (hr 3), h3]
    rfl
  have h5 : (run (Board.next image) w b 5).cpu.isdu = .s32 := by
    rw [run_succ, isdu_next (hr 4), h4]
    rfl
  simp only [trace, Board.machine, hnil 0 .s18 h (by decide), hnil 1 _ h1 (by decide),
    hnil 2 _ h2 (by decide), hnil 3 _ h3 (by decide), hnil 4 _ h4 (by decide),
    hnil 5 _ h5 (by decide), List.append_nil]

/-- **One instruction says the same** on the processor and on the reference machine. -/
theorem trace_instruction (h : b.cpu.isdu = .s18) {n : ℕ} {a : Arch}
    (hn : Completes image w b n a) :
    trace (Board.machine image) w b n = b.arch.events ((w 3).sw, (w 9).sw) := by
  obtain ⟨hfetch, hfirst⟩ := run_fetch image hr h
  obtain ⟨m, rfl⟩ : ∃ m, n = 6 + m := by
    refine Nat.exists_eq_add_of_le ?_
    by_contra hlt
    exact hfirst n hn.pos (by omega) hn.back
  have hreturns : Returns image w 6 (b.fetched w (b.arch.rd (w 3).sw b.cpu.pc)) m a := by
    refine ⟨?_, ?_, fun k hk => ?_⟩
    · rw [← hfetch, ← run_add, hn.back]
    · rw [← hfetch, ← run_add, hn.arch]
    · rw [← hfetch, ← run_add]
      exact hn.first (6 + k) (by omega) (by omega)
  rw [trace_add, trace_fetch hr h, List.nil_append]
  change trace (Board.machine image) (delay 6 w) (run (Board.next image) w b 6) m = _
  rw [hfetch, says_decoded hr (fetched_decoded w _) m a hreturns]
  rfl

/-! ### Whole runs -/

/-- The dialogues agree whenever the processor fetches; `τ` counts the edges at which it does. -/
theorem trace_board {τ : ℕ → ℕ} (hmono : StrictMono τ)
    (hs18 : ∀ t, (run (Board.next image) w b t).cpu.isdu = .s18 ↔ ∃ k, t = τ k)
    (harch : ∀ k, (run (Board.next image) w b (τ k)).arch =
      run Arch.cycle (fun k => switches w (τ k)) b.arch k) (h : b.cpu.isdu = .s18) (k : ℕ) :
    trace (Board.machine image) w b (τ k) =
      trace machine (fun k => switches w (τ k)) b.arch k := by
  induction k with
  | zero =>
    obtain ⟨j, hj⟩ := (hs18 0).mp h
    have h0 : τ 0 = 0 := Nat.le_zero.mp ((hmono.monotone (Nat.zero_le j)).trans_eq hj.symm)
    rw [h0]
    rfl
  | succ k ih =>
    have hlt : τ k < τ (k + 1) := hmono (Nat.lt_succ_self k)
    obtain ⟨n, hn⟩ : ∃ n, τ (k + 1) = τ k + n := Nat.exists_eq_add_of_le hlt.le
    have hcompletes : Completes image (delay (τ k) w) (run (Board.next image) w b (τ k)) n
        (run (Board.next image) w b (τ (k + 1))).arch := by
      refine ⟨by omega, ?_, ?_, fun m h0 hm hback => ?_⟩
      · rw [← run_add, ← hn]
        exact (hs18 _).mpr ⟨k + 1, rfl⟩
      · rw [← run_add, ← hn]
      · rw [← run_add] at hback
        obtain ⟨j, hj⟩ := (hs18 _).mp hback
        have hkj : k < j := hmono.lt_iff_lt.mp (by omega)
        have hjk : j < k + 1 := hmono.lt_iff_lt.mp (by omega)
        omega
    have hsame := trace_instruction (fun t => hr (τ k + t)) ((hs18 _).mpr ⟨k, rfl⟩) hcompletes
    rw [hn, trace_add, ih]
    refine congrArg (_ ++ ·) (hsame.trans ?_)
    rw [harch]
    rfl

omit hr in
variable (image) in
/-- **The dialogue of a program is that of its reference machine.**  Whenever an operated processor
fetches, the LEDs and the hex display have shown at the pauses, and the switches have given to the
loads, what the reference machine says. -/
theorem dialogue_at_pins (h : Operated w) (h18 : b.cpu.isdu = .s18) : ∃ τ : ℕ → ℕ, StrictMono τ ∧
    (∀ t, (run (Board.next image) w b t).cpu.isdu = .s18 ↔ ∃ k, t = τ k) ∧
    ∀ k, trace (Board.machine image) w b (τ k) =
      trace machine (fun k => switches w (τ k)) b.arch k := by
  obtain ⟨τ, hmono, hs18, harch⟩ := board_runs image h h18
  exact ⟨τ, hmono, hs18, trace_board h.reset hmono hs18 harch h18⟩

omit hr in
theorem dialogue_at_pins_tapping : ∃ τ : ℕ → ℕ, StrictMono τ ∧
    (∀ t, (run (Board.next atProgram.mem) tapping atProgram.onBoard t).cpu.isdu = .s18 ↔
      ∃ k, t = τ k) ∧
    ∀ k, trace (Board.machine atProgram.mem) tapping atProgram.onBoard (τ k) =
      trace machine (fun k => switches tapping (τ k)) atProgram k :=
  dialogue_at_pins atProgram.mem (b := atProgram.onBoard) operated_tapping rfl

end ECE385.Slc3
