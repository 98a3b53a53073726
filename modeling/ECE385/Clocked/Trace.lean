import ECE385.Clocked.Run

/-!
# What a machine puts out

A clocked machine may put out something at each edge, as it depends on the input and on the
registers.  A contract says what it comes to, and what it has put out until then, whatever the
inputs are.

* `trace M w s n`: the output of the first `n` edges.
* `Reaches M s Q`: from `s` the machine comes to a state with `Q`; `Proceeds` asks for an edge at
  least.
* `Reaches.step`, `Reaches.bind`: contracts edge by edge, and one after the other.
* `forever`: an invariant that the machine comes back to again and again.
-/

namespace ECE385.Clocked

structure Machine (I S E : Type*) where
  step : I → S → S
  out : I → S → List E

variable {I S E : Type*} {M : Machine I S E}

/-- The output of the first edges. -/
def trace (M : Machine I S E) (w : ℕ → I) (s : S) : ℕ → List E
  | 0 => []
  | n + 1 => trace M w s n ++ M.out (w n) (run M.step w s n)

theorem trace_add (w : ℕ → I) (s : S) (m n : ℕ) :
    trace M w s (m + n) = trace M w s m ++ trace M (delay m w) (run M.step w s m) n := by
  induction n with
  | zero => exact (List.append_nil _).symm
  | succ n ih =>
    rw [← Nat.add_assoc, trace, trace, ih, run_add, List.append_assoc]
    rfl

/-- Whatever the inputs, the machine comes to a state with `Q`, which also speaks of the output
until then. -/
def Reaches (M : Machine I S E) (s : S) (Q : List E → S → Prop) : Prop :=
  ∀ w, ∃ n, Q (trace M w s n) (run M.step w s n)

/-- The same, after an edge at least. -/
def Proceeds (M : Machine I S E) (s : S) (Q : List E → S → Prop) : Prop :=
  ∀ i, Reaches M (M.step i s) fun es t => Q (M.out i s ++ es) t

variable {P Q : List E → S → Prop} {s : S}

theorem Reaches.here (h : Q [] s) : Reaches M s Q := fun _ => ⟨0, h⟩

theorem Reaches.imp (h : Reaches M s P) (hPQ : ∀ es t, P es t → Q es t) : Reaches M s Q := by
  intro w
  obtain ⟨n, hn⟩ := h w
  exact ⟨n, hPQ _ _ hn⟩

/-- **One after the other.** -/
theorem Reaches.bind (h : Reaches M s P)
    (hP : ∀ es t, P es t → Reaches M t fun es' u => Q (es ++ es') u) : Reaches M s Q := by
  intro w
  obtain ⟨m, hm⟩ := h w
  obtain ⟨n, hn⟩ := hP _ _ hm (delay m w)
  refine ⟨m + n, ?_⟩
  rw [trace_add, run_add]
  exact hn

theorem Proceeds.reaches (h : Proceeds M s Q) : Reaches M s Q := by
  intro w
  obtain ⟨n, hn⟩ := h (w 0) (delay 1 w)
  refine ⟨1 + n, ?_⟩
  rw [trace_add, run_add]
  exact hn

theorem Proceeds.imp (h : Proceeds M s P) (hPQ : ∀ es t, P es t → Q es t) : Proceeds M s Q :=
  fun i => (h i).imp fun _ _ => hPQ _ _

theorem Proceeds.bind (h : Proceeds M s P)
    (hP : ∀ es t, P es t → Reaches M t fun es' u => Q (es ++ es') u) : Proceeds M s Q := by
  intro i
  refine (h i).bind fun es t ht => ?_
  simpa only [List.append_assoc] using hP _ t ht

/-- **Again and again.** -/
theorem forever {Inv : List E → S → Prop} (h0 : Reaches M s Inv)
    (hstep : ∀ es t, Inv es t → Proceeds M t fun es' u => Inv (es ++ es') u) (w : ℕ → I) (N : ℕ) :
    ∃ n ≥ N, Inv (trace M w s n) (run M.step w s n) := by
  induction N with
  | zero =>
    obtain ⟨n, hn⟩ := h0 w
    exact ⟨n, Nat.zero_le n, hn⟩
  | succ N ih =>
    obtain ⟨m, hm, hinv⟩ := ih
    obtain ⟨n, hn⟩ := hstep _ _ hinv (w m) (delay (m + 1) w)
    refine ⟨m + 1 + n, by omega, ?_⟩
    rw [trace_add, run_add M.step w s (m + 1) n, run_succ, trace, List.append_assoc]
    exact hn

end ECE385.Clocked
