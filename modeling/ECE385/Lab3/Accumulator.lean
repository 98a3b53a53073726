import ECE385.Clocked.Run
import ECE385.Lab3.Adders
import Mathlib.Algebra.BigOperators.Group.Finset.Basic

/-!
# The accumulator of Lab 3

`adder_toplevel`: `control` lets the register load once for each press of `Run_Accumulate`, at the
second clock edge of the press.  Both buttons are active low.  The reset of `control` is
asynchronous; as here it is looked at clock edges only.

* `curr_state_run`: the state of `control` tells where in a press or a release it is.
* `accumulates_once_per_press`: what `Out` holds, and when it changes.
-/

namespace ECE385.Lab3

open Bits Clocked

/-- `curr_state` of `control`. -/
inductive CState
  | A | B | C
  deriving DecidableEq

/-- `next_state`. -/
def CState.next (run : Bool) : CState → CState
  | .A => if run then .B else .A
  | .B => .C
  | .C => if run then .C else .A

/-- `Run_O`. -/
def CState.run_O (s : CState) : Bool := s = .B

def mux2_1_17 (S : Bool) (A_In : BitVec 16) (B_In : BitVec 17) : BitVec 17 :=
  if S then B_In else BitVec.cons false A_In

def reg_17 (reset load : Bool) (D Data_Out : BitVec 17) : BitVec 17 :=
  if reset then 0#17 else if load then D else Data_Out

/-- The signals at a clock edge. -/
structure Input where
  reset_Clear : Bool
  run_Accumulate : Bool
  SW : BitVec 10

/-- The registers of `adder_toplevel`. -/
structure Toplevel where
  curr_state : CState
  Out : BitVec 17

namespace Toplevel

/-- `S`, with the carry out as its highest bit. -/
def sum (SW : BitVec 10) (Out : BitVec 17) : BitVec 17 :=
  let r := ripple_adder (SW.setWidth 16) (Out.extractLsb' 0 16) false
  BitVec.cons r.2 r.1

/-- One clock edge. -/
def next (i : Input) (s : Toplevel) : Toplevel :=
  let load := s.curr_state.run_O
  { curr_state := if !i.reset_Clear then .A else s.curr_state.next !i.run_Accumulate
    Out := reg_17 (!i.reset_Clear) load
      (mux2_1_17 load (i.SW.setWidth 16) (sum i.SW s.Out)) s.Out }

end Toplevel

/-! ### Presses -/

/-- `Run_Accumulate` is pressed at edge `t`. -/
def Pressed (w : ℕ → Input) (t : ℕ) : Prop := (w t).run_Accumulate = false

/-- A press begins at edge `t`.  Edge `0` is that of the reset. -/
def Starts (w : ℕ → Input) (t : ℕ) : Prop := 1 ≤ t ∧ Pressed w t ∧ (t = 1 ∨ ¬Pressed w (t - 1))

/-- Edge `t` is the second one of a press. -/
def Second (w : ℕ → Input) (t : ℕ) : Prop := Starts w (t - 1)

instance (w : ℕ → Input) : DecidablePred (Pressed w) := fun _ =>
  inferInstanceAs (Decidable (_ = _))

instance (w : ℕ → Input) : DecidablePred (Starts w) := fun _ =>
  inferInstanceAs (Decidable (_ ∧ _))

instance (w : ℕ → Input) : DecidablePred (Second w) := fun _ =>
  inferInstanceAs (Decidable (Starts _ _))

section Runs

variable {w : ℕ → Input} {s : Toplevel}

theorem next_of_reset {i : Input} (h : i.reset_Clear = false) (s : Toplevel) :
    s.next i = ⟨.A, 0#17⟩ := by
  simp only [Toplevel.next, reg_17, h, Bool.not_false, if_true]

theorem next_of_run {i : Input} (h : i.reset_Clear = true) (s : Toplevel) : s.next i =
    ⟨s.curr_state.next !i.run_Accumulate,
      if s.curr_state = .B then Toplevel.sum i.SW s.Out else s.Out⟩ := by
  by_cases hB : s.curr_state = .B
  · simp [Toplevel.next, reg_17, mux2_1_17, CState.run_O, h, hB]
  · simp [Toplevel.next, reg_17, CState.run_O, h, hB]

theorem not_second_succ {n : ℕ} (h : ¬(n = 1 ∨ ¬Pressed w (n - 1))) : ¬Second w (n + 1) :=
  fun hsecond => h hsecond.2.2

/-- A second edge of a press is one with the button down, after another such. -/
theorem not_released_of_second {n : ℕ} (h : Second w n) : ¬(n = 1 ∨ ¬Pressed w (n - 1)) := by
  obtain ⟨hn, hp, -⟩ := h
  rintro (rfl | hnot)
  · exact Nat.not_succ_le_zero 0 hn
  · exact hnot hp

/-- The adder adds the low 16 bits and the switches, and keeps the carry. -/
theorem toNat_sum (SW : BitVec 10) (Out : BitVec 17) :
    (Toplevel.sum SW Out).toNat = SW.toNat + Out.toNat % 2 ^ 16 := by
  have h := (adds_ripple_adder (SW.setWidth 16) (Out.extractLsb' 0 16) false).toNat_cons
  rw [Toplevel.sum, h, BitVec.toNat_setWidth, BitVec.extractLsb'_toNat, Nat.shiftRight_zero,
    Bool.toNat_false, Nat.add_zero, Nat.mod_eq_of_lt (by omega)]

theorem getLsbD_sum (SW : BitVec 10) (Out : BitVec 17) : (Toplevel.sum SW Out).getLsbD 16 =
    decide (2 ^ 16 ≤ SW.toNat + Out.toNat % 2 ^ 16) := by
  rw [BitVec.getLsbD, toNat_sum, Nat.testBit_eq_decide_div_mod_eq]
  have hSW := SW.isLt
  exact decide_eq_decide.mpr (by omega)

/-! ### Runs after a reset -/

variable (hreset : (w 0).reset_Clear = false) (hrun : ∀ t, 1 ≤ t → (w t).reset_Clear = true)
  (hpress : ∀ t, Starts w t → Pressed w (t + 1))

include hreset hrun hpress

/-- **Where `control` is** after edge `n`: in `A` until a press, in `B` at its second edge, in `C`
for what is left of it. -/
theorem curr_state_run (n : ℕ) (hn : 1 ≤ n) :
    (run Toplevel.next w s n).curr_state =
      if n = 1 ∨ ¬Pressed w (n - 1) then .A else if Second w n then .B else .C := by
  induction n, hn using Nat.le_induction with
  | base => rw [run_succ, next_of_reset hreset, if_pos (.inl rfl)]
  | succ n hn ih =>
    rw [run_succ, next_of_run (hrun n hn), ih, Nat.add_sub_cancel]
    have hne : ¬n + 1 = 1 := by omega
    by_cases hp : Pressed w n
    · have hb : (w n).run_Accumulate = false := hp
      rw [if_neg (not_or.mpr ⟨hne, not_not_intro hp⟩), hb]
      by_cases hA : n = 1 ∨ ¬Pressed w (n - 1)
      · have hsecond : Second w (n + 1) := ⟨hn, hp, hA⟩
        rw [if_pos hA, if_pos hsecond]
        rfl
      · rw [if_neg hA, if_neg (not_second_succ hA)]
        by_cases hB : Second w n
        · rw [if_pos hB]
          rfl
        · rw [if_neg hB]
          rfl
    · have hb : (w n).run_Accumulate = true := Bool.eq_true_of_not_eq_false hp
      rw [if_pos (Or.inr hp), hb]
      by_cases hA : n = 1 ∨ ¬Pressed w (n - 1)
      · rw [if_pos hA]
        rfl
      · have hB : ¬Second w n := by
          -- the press would be one of a single edge
          intro hB
          have h := hpress (n - 1) hB
          rw [Nat.sub_add_cancel hn] at h
          exact hp h
        rw [if_neg hA, if_neg hB]
        rfl

/-- **What an edge loads**: the sum at the second edge of a press, nothing at another. -/
theorem Out_run_succ (n : ℕ) (hn : 1 ≤ n) :
    (run Toplevel.next w s (n + 1)).Out =
      if Second w n then Toplevel.sum (w n).SW (run Toplevel.next w s n).Out
      else (run Toplevel.next w s n).Out := by
  have hstate := curr_state_run (s := s) hreset hrun hpress n hn
  rw [run_succ, next_of_run (hrun n hn)]
  by_cases hB : Second w n
  · rw [if_neg (not_released_of_second hB), if_pos hB] at hstate
    rw [if_pos hB]
    exact if_pos hstate
  · rw [if_neg hB] at hstate
    rw [if_neg hB]
    refine if_neg ?_
    rw [hstate]
    split_ifs <;> decide

/-- `Out` waits between two presses. -/
theorem Out_run_eq {m n : ℕ} (hm : 1 ≤ m) (hmn : m ≤ n)
    (hnone : ∀ t, m ≤ t → t < n → ¬Second w t) :
    (run Toplevel.next w s n).Out = (run Toplevel.next w s m).Out := by
  induction n, hmn using Nat.le_induction with
  | base => rfl
  | succ n hmn ih =>
    rw [Out_run_succ hreset hrun hpress n (by omega), if_neg (hnone n hmn (by omega))]
    exact ih fun t hmt htn => hnone t hmt (by omega)

/-- What `Out` has added up. -/
theorem Out_run_mod (n : ℕ) (hn : 1 ≤ n) :
    (run Toplevel.next w s n).Out.toNat % 2 ^ 16 =
      (∑ t ∈ Finset.range n with Second w t, (w t).SW.toNat) % 2 ^ 16 := by
  induction n, hn using Nat.le_induction with
  | base =>
    have hnone : ¬Second w 0 := fun h => Nat.not_succ_le_zero 0 h.1
    rw [run_succ, next_of_reset hreset, Finset.range_one, Finset.filter_singleton, if_neg hnone]
    rfl
  | succ n hn ih =>
    rw [Out_run_succ hreset hrun hpress n hn, Finset.range_add_one, Finset.filter_insert]
    by_cases hB : Second w n
    · rw [if_pos hB, if_pos hB, Finset.sum_insert (by simp), toNat_sum, ih, Nat.add_mod_mod]
    · rw [if_neg hB, if_neg hB, ih]

end Runs

/-- **The accumulator adds once for each press.**  After the reset, with presses of two edges or
more, the low bits of `Out` are the sum of the switches at the second edges of the presses.  It
changes at these edges only, and its highest bit is the carry of the last of the additions. -/
theorem accumulates_once_per_press (w : ℕ → Input) (s : Toplevel)
    (hreset : (w 0).reset_Clear = false) (hrun : ∀ t, 1 ≤ t → (w t).reset_Clear = true)
    (hpress : ∀ t, Starts w t → Pressed w (t + 1)) (n : ℕ) (hn : 1 ≤ n) :
    (run Toplevel.next w s n).Out.toNat % 2 ^ 16 =
      (∑ t ∈ Finset.range n with Second w t, (w t).SW.toNat) % 2 ^ 16 ∧
    (∀ t < n, Second w t → (∀ u < n, t < u → ¬Second w u) →
      (run Toplevel.next w s n).Out.getLsbD 16 =
        decide (2 ^ 16 ≤ (w t).SW.toNat + (run Toplevel.next w s t).Out.toNat % 2 ^ 16)) ∧
    (¬Second w n → (run Toplevel.next w s (n + 1)).Out = (run Toplevel.next w s n).Out) := by
  refine ⟨Out_run_mod hreset hrun hpress n hn, fun t htn hsecond hlast => ?_, fun hnot => ?_⟩
  · have ht : 1 ≤ t := by
      have h := hsecond.1
      omega
    have hwait := Out_run_eq (s := s) hreset hrun hpress (m := t + 1) (n := n) (by omega) htn
      fun u hu hun => hlast u hun hu
    rw [hwait, Out_run_succ hreset hrun hpress t ht, if_pos hsecond]
    exact getLsbD_sum _ _
  · exact (Out_run_succ hreset hrun hpress n hn).trans (if_neg hnot)

/-- The button down at two edges out of three. -/
def twoOfThree (t : ℕ) : Input := ⟨t ≠ 0, t % 3 = 0, 1023#10⟩

/-- Two presses. -/
theorem accumulates_once_per_press_twice :
    (run Toplevel.next twoOfThree ⟨.C, 5#17⟩ 6).Out.toNat % 2 ^ 16 = 2046 :=
  (accumulates_once_per_press twoOfThree ⟨.C, 5#17⟩ rfl
    (fun t ht => decide_eq_true (Nat.ne_of_gt ht))
    (fun t ht => by
      simp only [Starts, Pressed, twoOfThree, decide_eq_false_iff_not] at ht ⊢
      omega) 6 (by decide)).1.trans (by decide)

end ECE385.Lab3
