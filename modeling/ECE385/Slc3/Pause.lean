import ECE385.Slc3.Cycles
import ECE385.Slc3.Undefined
import Mathlib.Data.Nat.Count

/-!
# One press of `Continue` for each pause

A `PSE` waits in `PauseIR1` for `Continue` to be high and in `PauseIR2` for it to be low again.
Whatever came before, the sequencer is in `PauseIR2` only if the last edge saw `Continue`
high, so the edge that completes a `PSE` is a falling edge of `Continue`
(`falls_of_releases`), and no two pauses share one.
-/

namespace ECE385.Slc3

open Clocked

/-- A `PSE` is pending. -/
def IState.paused (st : IState) : Prop := st = .pauseIR1 ∨ st = .pauseIR2

/-- `Continue` falls at edge `t`, as the clock samples it. -/
def Falls (w : ℕ → Input) (t : ℕ) : Prop :=
  0 < t ∧ (w (t - 1)).continue_ = true ∧ (w t).continue_ = false

instance (w : ℕ → Input) : DecidablePred (Falls w) := fun t =>
  inferInstanceAs (Decidable (0 < t ∧ (w (t - 1)).continue_ = true ∧ (w t).continue_ = false))

/-- Edge `t` completes a `PSE`. -/
def Releases (image : BitVec 8 → BitVec 16) (w : ℕ → Input) (b : Board) (t : ℕ) : Prop :=
  (run (Board.next image) w b t).cpu.isdu = .pauseIR2 ∧
    (run (Board.next image) w b (t + 1)).cpu.isdu = .s18

instance (image : BitVec 8 → BitVec 16) (w : ℕ → Input) (b : Board) :
    DecidablePred (Releases image w b) := fun _ => inferInstanceAs (Decidable (_ ∧ _))

/-- `Continue` is pressed at edge `s` and released at edge `e`. -/
structure Press (w : ℕ → Input) (s e : ℕ) : Prop where
  begins : s = 0 ∨ (w (s - 1)).continue_ = false
  pos : s < e
  held : ∀ t, s ≤ t → t < e → (w t).continue_ = true
  ends : (w e).continue_ = false

variable {image : BitVec 8 → BitVec 16} {w : ℕ → Input} {i : Input} {b : Board}

/-! ### One edge -/

theorem nextState_eq_pauseIR2 {run continue_ ben : Bool} {opcode : BitVec 4} {st : IState}
    (h : nextState run continue_ opcode ben st = .pauseIR2) : continue_ = true := by
  cases st
  case pauseIR1 | pauseIR2 =>
    simp only [nextState] at h
    split at h
    · assumption
    · cases h
  case s32 =>
    simp only [nextState, dispatch] at h
    repeat' split at h
    all_goals cases h
  case halted | sBEN =>
    simp only [nextState] at h
    split at h <;> cases h
  all_goals cases h

/-- The sequencer comes to `PauseIR2` only where `Continue` is high. -/
theorem continue_of_pauseIR2 (h : (b.next image i).cpu.isdu = .pauseIR2) : i.continue_ = true := by
  simp only [Board.next, Cpu.next] at h
  split at h
  · cases h
  · exact nextState_eq_pauseIR2 h

/-- It leaves for `S_18` only where `Continue` is low. -/
theorem continue_of_release (hb : b.cpu.isdu = .pauseIR2)
    (h : (b.next image i).cpu.isdu = .s18) : i.continue_ = false := by
  simp only [Board.next, Cpu.next, hb, nextState] at h
  cases hc : i.continue_ with
  | false => rfl
  | true =>
    rw [hc] at h
    split at h <;> cases h

/-- A pending `PSE` changes nothing but the sequencer, the LEDs and what the memory drives. -/
theorem captured_of_paused (hr : i.reset = false) (h : b.cpu.isdu.paused) :
    (b.next image i).captured =
      { b.captured with isdu := (b.next image i).cpu.isdu } := by
  rcases h with h | h
  · rw [next_pauseIR1 hr h]
    rfl
  · rw [next_pauseIR2 hr h]
    rfl

/-! ### Runs -/

/-- **A pause ends on a falling edge.** -/
theorem falls_of_releases (hreset : (w 0).reset = true) {t : ℕ} (h : Releases image w b t) :
    Falls w t := by
  obtain ⟨hpause, hback⟩ := h
  cases t with
  | zero =>
    simp only [run_succ, Board.next, Cpu.next, hreset] at hback
    cases hback
  | succ t =>
    rw [run_succ] at hpause
    exact ⟨Nat.succ_pos t, continue_of_pauseIR2 hpause, continue_of_release hpause hback⟩

/-- While `Continue` stays low, a sequencer outside `PauseIR2` stays outside. -/
theorem run_not_pauseIR2 {e : ℕ} (he : (run (Board.next image) w b e).cpu.isdu ≠ .pauseIR2)
    (d : ℕ) (hlow : ∀ u, e ≤ u → u < e + d → (w u).continue_ = false) :
    (run (Board.next image) w b (e + d)).cpu.isdu ≠ .pauseIR2 := by
  cases d with
  | zero => exact he
  | succ d =>
    intro h
    rw [← Nat.add_assoc, run_succ] at h
    have hhigh := continue_of_pauseIR2 h
    rw [hlow (e + d) (by omega) (by omega)] at hhigh
    cases hhigh

/-- **One press, one pause.**  From a reset on, no more `PSE`s have been completed than
`Continue` has fallen; a pending `PSE` leaves everything the board has captured alone, up to
a further reset; and a press that ends while no `PSE` is pending completes none, neither while
`Continue` is high nor up to the next press. -/
theorem one_press_one_pause (image : BitVec 8 → BitVec 16) (w : ℕ → Input) (b : Board)
    (hreset : (w 0).reset = true) :
    (∀ n, Nat.count (Releases image w b) n ≤ Nat.count (Falls w) n) ∧
    (∀ n, (w n).reset = false → (run (Board.next image) w b n).cpu.isdu.paused →
      (run (Board.next image) w b (n + 1)).captured =
        { (run (Board.next image) w b n).captured with
          isdu := (run (Board.next image) w b (n + 1)).cpu.isdu }) ∧
    (∀ s e, Press w s e → ¬(run (Board.next image) w b e).cpu.isdu.paused →
      ∀ t, s ≤ t → (∀ u, e ≤ u → u ≤ t → (w u).continue_ = false) →
        ¬Releases image w b t) := by
  refine ⟨?_, ?_, ?_⟩
  · intro n
    exact Nat.count_mono_left fun t _ ht => falls_of_releases hreset ht
  · intro n hr hpaused
    exact captured_of_paused hr hpaused
  · intro s e hpress hout t hst hlow hrel
    rcases Nat.lt_or_ge t e with hte | het
    · have hfall := (falls_of_releases hreset hrel).2.2
      rw [hpress.held t hst hte] at hfall
      cases hfall
    · obtain ⟨d, rfl⟩ := Nat.exists_eq_add_of_le het
      refine run_not_pauseIR2 (mt .inr hout) d (fun u heu hu => ?_) hrel.1
      exact hlow u heu (Nat.le_of_lt hu)

/-- After a reset and `Run`, `Continue` is pressed at edges `3` and `12`; the program is all
`PSE`. -/
def pressTwice : ℕ → Input := fun t =>
  { reset := decide (t = 0), run := decide (t = 1), continue_ := decide (t = 3 ∨ t = 12),
    sw := 0#10, busX := 0#16, memX := 0#16 }

/-- Only the second press meets a pause. -/
theorem one_press_one_pause_twice :
    Nat.count (Releases (fun _ => 0xD000#16) pressTwice (holding 0#16)) 20 ≤
        Nat.count (Falls pressTwice) 20 ∧
      Nat.count (Releases (fun _ => 0xD000#16) pressTwice (holding 0#16)) 20 = 1 ∧
      Nat.count (Falls pressTwice) 20 = 2 :=
  ⟨(one_press_one_pause (fun _ => 0xD000#16) pressTwice (holding 0#16) rfl).1 20,
    by decide +kernel, by decide +kernel⟩

end ECE385.Slc3
