import ECE385.Clocked.Run

/-!
# Programs that drive a device over a bus

A program is a tree of transfers: it writes, or it reads and goes on with the word
returned.  A device is given by what may happen to its state in an idle stretch
and in each transfer.

* `Prog.eval`: the meaning of a program on an abstract store.
* `Exec`: its executions on a device, with idle edges anywhere.
* `Exec.view_eq`: a device whose transfers act on a view of its state like the store
  does what the program means.
* `exec_exists`: a device that is always ready executes every program.
-/

namespace ECE385.Clocked

/-- Programs that write items of `W` and read words of `R` at addresses of `A`. -/
inductive Prog (W A R : Type*)
  | done
  | write (x : W) (k : Prog W A R)
  | read (a : A) (k : R → Prog W A R)

namespace Prog

variable {W A R M : Type*}

/-- `p`, and then `q`. -/
def seq (q : Prog W A R) : Prog W A R → Prog W A R
  | done => q
  | write x k => write x (seq q k)
  | read a k => read a fun r => seq q (k r)

/-- The meaning of a program, on a store with the writes `wr` and the reads `rd`. -/
def eval (wr : W → M → M) (rd : A → M → R) : Prog W A R → M → M
  | done, m => m
  | write x k, m => eval wr rd k (wr x m)
  | read a k, m => eval wr rd (k (rd a m)) m

theorem eval_seq (wr : W → M → M) (rd : A → M → R) (p q : Prog W A R) (m : M) :
    (seq q p).eval wr rd m = q.eval wr rd (p.eval wr rd m) := by
  induction p generalizing m with
  | done => rfl
  | write x k ih => exact ih (wr x m)
  | read a k ih => exact ih (rd a m) m

end Prog

/-- What may happen to a device in an idle edge, in a write and in a read. -/
structure Device (S W A R : Type*) where
  Idle : S → S → Prop
  Write : W → S → S → Prop
  Read : A → S → R → S → Prop

variable {S W A R M : Type*}

/-- The program, started in one state of the device, may end in another. -/
inductive Exec (d : Device S W A R) : Prog W A R → S → S → Prop
  | done {s : S} : Exec d .done s s
  | idle {p : Prog W A R} {s s' t : S} : d.Idle s s' → Exec d p s' t → Exec d p s t
  | write {x : W} {k : Prog W A R} {s s' t : S} :
    d.Write x s s' → Exec d k s' t → Exec d (.write x k) s t
  | read {a : A} {r : R} {k : R → Prog W A R} {s s' t : S} :
    d.Read a s r s' → Exec d (k r) s' t → Exec d (.read a k) s t

/-- **Refinement.**  A view on which the transfers act like a store turns executions
into the meaning of the program. -/
theorem Exec.view_eq {d : Device S W A R} {view : S → M} {wr : W → M → M} {rd : A → M → R}
    (hidle : ∀ s s', d.Idle s s' → view s' = view s)
    (hwrite : ∀ x s s', d.Write x s s' → view s' = wr x (view s))
    (hread : ∀ a s r s', d.Read a s r s' → r = rd a (view s) ∧ view s' = view s)
    {p : Prog W A R} {s t : S} (h : Exec d p s t) : view t = p.eval wr rd (view s) := by
  induction h with
  | done => rfl
  | idle hs _ ih => rw [ih, hidle _ _ hs]
  | write hs _ ih => rw [ih, hwrite _ _ _ hs]; rfl
  | read hs _ ih =>
    obtain ⟨hr, hv⟩ := hread _ _ _ _ hs
    rw [ih, hv, hr]; rfl

/-- **Progress.**  A device that is always ready executes every program. -/
theorem exec_exists {d : Device S W A R} (hwrite : ∀ x s, ∃ s', d.Write x s s')
    (hread : ∀ a s, ∃ r s', d.Read a s r s') (p : Prog W A R) (s : S) : ∃ t, Exec d p s t := by
  induction p generalizing s with
  | done => exact ⟨s, .done⟩
  | write x k ih =>
    obtain ⟨s', hs⟩ := hwrite x s
    obtain ⟨t, ht⟩ := ih s'
    exact ⟨t, .write hs ht⟩
  | read a k ih =>
    obtain ⟨r, s', hs⟩ := hread a s
    obtain ⟨t, ht⟩ := ih r s'
    exact ⟨t, .read hs ht⟩

end ECE385.Clocked
