import Mathlib.Data.Nat.Notation
import Mathlib.Tactic.Common

/-!
# Runs of a clocked circuit

A clocked circuit is a function `step : I → S → S`: the registers after a clock
edge, from the input signals and the registers before it.  A waveform `w`
gives the inputs of every edge, and `run step w s n` is the state after the
first `n` edges.

* `run_add`: a run can be cut anywhere; the second part is a run under the
  delayed waveform.
* `run_invariant`: what every edge keeps holds all along the run.  The edges may
  be restricted by a guard `Ok`, so that the rule also serves invariants that
  only some edges keep.
* `run_rel`: the same for two runs side by side.
-/

namespace ECE385.Clocked

variable {I J S T : Type*}

/-- The registers after `n` clock edges under the waveform `w`. -/
def run (step : I → S → S) (w : ℕ → I) (s : S) : ℕ → S
  | 0 => s
  | n + 1 => step (w n) (run step w s n)

@[simp] theorem run_zero (step : I → S → S) (w : ℕ → I) (s : S) : run step w s 0 = s := rfl

theorem run_succ (step : I → S → S) (w : ℕ → I) (s : S) (n : ℕ) :
    run step w s (n + 1) = step (w n) (run step w s n) := rfl

/-- The waveform seen from edge `k` on. -/
def delay (k : ℕ) (w : ℕ → I) : ℕ → I := fun t => w (k + t)

@[simp] theorem delay_apply (k : ℕ) (w : ℕ → I) (t : ℕ) : delay k w t = w (k + t) := rfl

theorem delay_delay (k l : ℕ) (w : ℕ → I) : delay l (delay k w) = delay (k + l) w := by
  funext t
  simp only [delay_apply, Nat.add_assoc]

/-- **A run can be cut anywhere.** -/
theorem run_add (step : I → S → S) (w : ℕ → I) (s : S) (m n : ℕ) :
    run step w s (m + n) = run step (delay m w) (run step w s m) n := by
  induction n with
  | zero => rfl
  | succ n ih => rw [← Nat.add_assoc, run_succ, run_succ, ih, delay_apply]

/-- **Invariants.**  What every edge that meets the guard `Ok` keeps holds as
long as the edges of the run meet it. -/
theorem run_invariant {step : I → S → S} {Ok : I → S → Prop} {Inv : S → Prop}
    (hstep : ∀ i s, Ok i s → Inv s → Inv (step i s)) {w : ℕ → I} {s : S} (h0 : Inv s) :
    ∀ n, (∀ t < n, Ok (w t) (run step w s t)) → Inv (run step w s n) := by
  intro n
  induction n with
  | zero => intro _; exact h0
  | succ n ih =>
    intro hok
    exact hstep _ _ (hok n (Nat.lt_succ_self n)) (ih fun t ht => hok t (Nat.lt_succ_of_lt ht))

/-- **Two runs side by side.**  A relation that paired edges keep holds between
the two runs at every edge. -/
theorem run_rel {step : I → S → S} {step' : J → T → T} {R : S → T → Prop} {Q : I → J → Prop}
    (hstep : ∀ i j s t, Q i j → R s t → R (step i s) (step' j t)) {w : ℕ → I} {w' : ℕ → J}
    (hw : ∀ n, Q (w n) (w' n)) {s : S} {t : T} (h0 : R s t) :
    ∀ n, R (run step w s n) (run step' w' t n) := by
  intro n
  induction n with
  | zero => exact h0
  | succ n ih => exact hstep _ _ _ _ (hw n) ih

/-- A step may be followed by any function that changes nothing; one that writes the state in
normal form makes a long run cheap to evaluate. -/
theorem run_normal (step : I → S → S) {norm : S → S} (hnorm : ∀ s, norm s = s) (w : ℕ → I)
    (s : S) (n : ℕ) : run (fun i s => norm (step i s)) w s n = run step w s n := by
  simp only [hnorm]

end ECE385.Clocked
