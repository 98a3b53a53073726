import ECE385.Clocked.Run
import ECE385.Lab22.Processor

/-!
# Bits in series make words

From state `B` to state `J` the two registers turn eight times, which is the word operation by
`serial_iterate_width`; the buttons are seen only in `A` and `F`.

* `run_shifts`: the eight edges.
* `processor_computes`: from `Execute` to its release.
-/

namespace ECE385.Lab22

open Bits Clocked

/-- The bitwise operation that `F` names. -/
def operation (F : BitVec 3) (a b : BitVec 8) : BitVec 8 :=
  match F with
  | 0b000#3 => a &&& b
  | 0b001#3 => a ||| b
  | 0b010#3 => a ^^^ b
  | 0b011#3 => BitVec.allOnes 8
  | 0b100#3 => ~~~(a &&& b)
  | 0b101#3 => ~~~(a ||| b)
  | 0b110#3 => ~~~(a ^^^ b)
  | 0b111#3 => 0#8

/-- Where `R` sends the words. -/
def routed (R : BitVec 2) (a b f : BitVec 8) : BitVec 8 × BitVec 8 :=
  match R with
  | 0b00#2 => (a, b)
  | 0b01#2 => (a, f)
  | 0b10#2 => (f, b)
  | 0b11#2 => (b, a)

/-! ### The words -/

theorem getLsbD_operation (F : BitVec 3) (a b : BitVec 8) {j : ℕ} (hj : j < 8) :
    (operation F a b).getLsbD j = compute F (a.getLsbD j) (b.getLsbD j) := by
  have hF : ∀ F : BitVec 3, F = 0b000#3 ∨ F = 0b001#3 ∨ F = 0b010#3 ∨ F = 0b011#3 ∨
      F = 0b100#3 ∨ F = 0b101#3 ∨ F = 0b110#3 ∨ F = 0b111#3 := by decide
  rcases hF F with rfl | rfl | rfl | rfl | rfl | rfl | rfl | rfl
  all_goals simp [operation, compute, hj, -BitVec.reduceAllOnes]

theorem getLsbD_routed (F : BitVec 3) (R : BitVec 2) (a b : BitVec 8) {j : ℕ} (hj : j < 8) :
    ((routed R a b (operation F a b)).1.getLsbD j,
      (routed R a b (operation F a b)).2.getLsbD j) =
        router R (a.getLsbD j) (b.getLsbD j) (compute F (a.getLsbD j) (b.getLsbD j)) := by
  have hR : ∀ R : BitVec 2, R = 0b00#2 ∨ R = 0b01#2 ∨ R = 0b10#2 ∨ R = 0b11#2 := by decide
  rcases hR R with rfl | rfl | rfl | rfl
  all_goals simp [routed, router, getLsbD_operation F a b hj]

/-! ### The shifts -/

/-- The state `k` edges after `A` has been left. -/
def CState.after (k : ℕ) : CState := [CState.B, .C, .D, .E, .G, .H, .I, .J].getD k .F

theorem next_after (execute : Bool) {k : ℕ} (hk : k < 8) :
    (CState.after k).next execute = CState.after (k + 1) := by
  revert execute k
  decide

theorem control_after (loadA loadB : Bool) {k : ℕ} (hk : k < 8) :
    (CState.after k).control loadA loadB = ⟨true, false, false⟩ := by
  revert loadA loadB k
  decide

/-- The two registers. -/
def words (s : Processor) : BitVec 8 × BitVec 8 := (s.a, s.b)

/-- What comes in at the top of the two registers, from what they give out. -/
def newBit (F : BitVec 3) (R : BitVec 2) (x y : Bool) : Bool × Bool := router R x y (compute F x y)

section Runs

variable {F : BitVec 3} {R : BitVec 2} {w : ℕ → Input} {s : Processor}

theorem next_shift {i : Input} (hr : i.reset = false) {k : ℕ} (hk : k < 8)
    (h : s.curr_state = CState.after k) :
    (s.next F R i).curr_state = CState.after (k + 1) ∧
      words (s.next F R i) =
        serial (fun x y => (newBit F R x y).1) (fun x y => (newBit F R x y).2) (words s) := by
  refine ⟨?_, ?_⟩
  · rw [Processor.next, hr, h, ← next_after i.execute hk]
    rfl
  · rw [words, Processor.next, hr, h, control_after _ _ hk]
    rfl

/-- In `F` nothing is shifted or loaded. -/
theorem next_wait {i : Input} (hr : i.reset = false) (h : s.curr_state = .F) :
    (s.next F R i).curr_state = (if i.execute then .F else .A) ∧
      words (s.next F R i) = words s := by
  refine ⟨?_, ?_⟩
  · rw [Processor.next, hr, h]
    rfl
  · rw [words, Processor.next, hr, h]
    rfl

variable (hreset : ∀ t, (w t).reset = false)

include hreset

theorem run_shifts (hB : s.curr_state = .B) : ∀ k ≤ 8,
    (run (Processor.next F R) w s k).curr_state = CState.after k ∧
      words (run (Processor.next F R) w s k) =
        (serial (fun x y => (newBit F R x y).1) (fun x y => (newBit F R x y).2))^[k] (words s) := by
  intro k
  induction k with
  | zero => exact fun _ => ⟨hB, rfl⟩
  | succ k ih =>
    intro hk
    obtain ⟨hcurr, hwords⟩ := ih (Nat.le_of_succ_le hk)
    rw [run_succ, Function.iterate_succ_apply', ← hwords]
    exact next_shift (hreset k) hk hcurr

/-- The machine waits in `F` for the release of `Execute`, with the words as they are. -/
theorem run_holds (hF : s.curr_state = .F) (n : ℕ) (hhigh : ∀ u < n, (w u).execute = true) :
    (run (Processor.next F R) w s n).curr_state = .F ∧
      words (run (Processor.next F R) w s n) = words s := by
  have hstep : ∀ (i : Input) (t : Processor), i.reset = false ∧ i.execute = true →
      t.curr_state = .F ∧ words t = words s →
      (t.next F R i).curr_state = .F ∧ words (t.next F R i) = words s := by
    rintro i t ⟨hr, hexecute⟩ ⟨hF, hwords⟩
    obtain ⟨hcurr, hkeep⟩ := next_wait (F := F) (R := R) hr hF
    rw [hexecute, if_pos rfl] at hcurr
    exact ⟨hcurr, hkeep.trans hwords⟩
  exact run_invariant hstep ⟨hF, rfl⟩ n fun u hu => ⟨hreset u, hhigh u hu⟩

end Runs

/-- **The processor computes words.**  When `Execute` is seen in `A`, at edge `t`, the machine
shifts at the next eight edges and loads nothing, and comes to `F` with the words that `R` routes.
There it stays while `Execute` is high; the release takes it back to `A`, with the same
words. -/
theorem processor_computes (F : BitVec 3) (R : BitVec 2) (w : ℕ → Input) (s : Processor)
    (hreset : ∀ t, (w t).reset = false) (t : ℕ)
    (hA : (run (Processor.next F R) w s t).curr_state = .A) (hexecute : (w t).execute = true) :
    let S k := run (Processor.next F R) w s (t + 1 + k)
    let result := routed R (S 0).a (S 0).b (operation F (S 0).a (S 0).b)
    (∀ k < 8, (S k).curr_state.control (w (t + 1 + k)).loadA (w (t + 1 + k)).loadB =
      ⟨true, false, false⟩) ∧
    ∀ n, (∀ u < n, (w (t + 1 + 8 + u)).execute = true) →
      ((S (8 + n)).curr_state = .F ∧ words (S (8 + n)) = result) ∧
      ((w (t + 1 + 8 + n)).execute = false →
        (S (8 + n + 1)).curr_state = .A ∧ words (S (8 + n + 1)) = result) := by
  intro S result
  have hB : (S 0).curr_state = .B := by
    change (run (Processor.next F R) w s (t + 1)).curr_state = .B
    rw [run_succ, Processor.next, hreset, hA, hexecute]
    rfl
  have hS : ∀ k, S k = run (Processor.next F R) (delay (t + 1) w) (S 0) k :=
    fun k => run_add _ _ _ _ _
  have hlow : ∀ u, (delay (t + 1) w u).reset = false := fun u => hreset _
  have hresult : words (S 8) = result := by
    rw [hS, (run_shifts hlow hB 8 (Nat.le_refl 8)).2]
    exact serial_iterate_width (n := 7)
      (fun j hj => congrArg Prod.fst (getLsbD_routed F R (S 0).a (S 0).b hj))
      (fun j hj => congrArg Prod.snd (getLsbD_routed F R (S 0).a (S 0).b hj))
  refine ⟨fun k hk => ?_, fun n hhigh => ?_⟩
  · rw [hS, (run_shifts hlow hB k (Nat.le_of_lt hk)).1, control_after _ _ hk]
  · have hF : (S 8).curr_state = .F := by
      rw [hS, (run_shifts hlow hB 8 (Nat.le_refl 8)).1]
      rfl
    have hS8 : S (8 + n) = run (Processor.next F R) (delay (t + 1 + 8) w) (S 8) n := by
      rw [hS, run_add, delay_delay, ← hS]
    have hhold := run_holds (F := F) (R := R) (w := delay (t + 1 + 8) w) (fun u => hreset _) hF n
      hhigh
    rw [← hS8, hresult] at hhold
    refine ⟨hhold, fun hrelease => ?_⟩
    have hnext : S (8 + n + 1) = (S (8 + n)).next F R (w (t + 1 + 8 + n)) := by
      rw [Nat.add_assoc (t + 1)]
      rfl
    obtain ⟨hcurr, hkeep⟩ := next_wait (F := F) (R := R) (hreset (t + 1 + 8 + n)) hhold.1
    rw [← hnext, hrelease] at hcurr
    rw [← hnext] at hkeep
    exact ⟨hcurr, hkeep.trans hhold.2⟩

/-- The first vector of the testbench, with the load buttons held during the shifts. -/
theorem processor_computes_xor :
    let w : ℕ → Input := fun t =>
      ⟨false, decide (0 < t), decide (0 < t), decide (t = 0), 0x00#8⟩
    words (run (Processor.next 0b010 0b10) w ⟨.A, 0x33#8, 0x55#8⟩ 9) = (0x66#8, 0x55#8) := by
  intro w
  have h := processor_computes 0b010 0b10 w ⟨.A, 0x33#8, 0x55#8⟩ (fun _ => rfl) 0 rfl rfl
  exact (h.2 0 fun _ hu => absurd hu (Nat.not_lt_zero _)).1.2.trans (by decide)

end ECE385.Lab22
