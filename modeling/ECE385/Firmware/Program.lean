import Mathlib.Data.Nat.Notation
import Mathlib.Order.Defs.Unbundled
import Mathlib.Tactic.Common

/-!
# Programs that question their environment

A program has variables of its own, and everything else it asks for: a query `q : Q` is answered
by an `R q`, and an environment may let its answers depend on all that has been asked and
answered before.  Queries and answers are put on record, the latest first.

A loop may go on for ever, so a program runs with a bound on the rounds of its loops and
has no result when that is not enough.

* `Returns env n p w a w'`: `p`, started in `w`, returns `a` and leaves `w'`.  The lemmas
  `returns_pure`, `returns_bind`, ... take a program apart.
* `Within env T p`: whatever `p` returns, `T` relates the worlds before and after.  For a preorder
  `T` this goes through programs part by part (`within_bind`, `within_ite`, `within_loop`, ...).
* `returns_loop`: the invariant rule for loops.
* `Run env program w steps w'`: programs called one after the other.
-/

namespace ECE385.Firmware

variable {Q : Type} {R : Q → Type} {σ α β γ : Type}

/-- The queries so far with their answers. -/
abbrev Record (R : Q → Type) : Type := List (Sigma R)

/-- The variables of a program, and what has been asked. -/
structure World (R : Q → Type) (σ : Type) where
  mem : σ
  record : Record R

/-- The answers, as they depend on what has been asked. -/
abbrev Env (R : Q → Type) : Type := Record R → (q : Q) → R q

def Prog (R : Q → Type) (σ α : Type) : Type := Env R → ℕ → World R σ → Option (α × World R σ)

namespace Prog

instance : Monad (Prog R σ) where
  pure a := fun _ _ w => some (a, w)
  bind p k := fun env n w => (p env n w).bind fun (a, w') => k a env n w'

def ask (q : Q) : Prog R σ (R q) := fun env _ w =>
  some (env w.record q, { w with record := ⟨q, env w.record q⟩ :: w.record })

/-- Some of the variables. -/
def load (f : σ → α) : Prog R σ α := fun _ _ w => some (f w.mem, w)

def store (f : σ → σ) : Prog R σ Unit := fun _ _ w => some ((), { w with mem := f w.mem })

/-- At most `m` rounds of a loop. -/
def rounds (body : β → Prog R σ (β ⊕ α)) (env : Env R) (n : ℕ) :
    ℕ → β → World R σ → Option (α × World R σ)
  | 0, _, _ => none
  | m + 1, b, w =>
    match body b env n w with
    | none => none
    | some (.inl b', w') => rounds body env n m b' w'
    | some (.inr a, w') => some (a, w')

/-- A loop, left with `inr`. -/
def loop (body : β → Prog R σ (β ⊕ α)) (b : β) : Prog R σ α := fun env n w =>
  rounds body env n n b w

/-- `p`, if `c`. -/
def when (c : Prop) [Decidable c] (p : Prog R σ Unit) : Prog R σ Unit :=
  if c then p else pure ()

/-- The result is put on record as the query `f`. -/
def announce (f : α → Q) (p : Prog R σ α) : Prog R σ α := do
  let a ← p
  let _ ← ask (f a)
  return a

end Prog

open Prog

/-! ### Results -/

/-- Started in `w`, the program returns `a` and leaves `w'`. -/
def Returns (env : Env R) (n : ℕ) (p : Prog R σ α) (w : World R σ) (a : α) (w' : World R σ) :
    Prop :=
  p env n w = some (a, w')

section Returns

variable {env : Env R} {n : ℕ} {w w' : World R σ} {a b : α}

@[simp] theorem returns_pure :
    Returns env n (pure a : Prog R σ α) w b w' ↔ a = b ∧ w = w' := by
  simp only [Returns, pure, Option.some.injEq, Prod.mk.injEq]

@[simp] theorem returns_bind {p : Prog R σ α} {k : α → Prog R σ β} {c : β} :
    Returns env n (p >>= k) w c w' ↔ ∃ a v, Returns env n p w a v ∧ Returns env n (k a) v c w' := by
  simp only [Returns, bind, Option.bind_eq_some_iff, Prod.exists]

@[simp] theorem returns_map {p : Prog R σ α} {f : α → β} {c : β} :
    Returns env n (f <$> p) w c w' ↔ ∃ a, Returns env n p w a w' ∧ f a = c := by
  constructor
  · intro h
    obtain ⟨a, v, hp, hf⟩ := returns_bind.mp h
    obtain ⟨rfl, rfl⟩ := returns_pure.mp hf
    exact ⟨a, hp, rfl⟩
  · rintro ⟨a, hp, rfl⟩
    exact returns_bind.mpr ⟨a, w', hp, returns_pure.mpr ⟨rfl, rfl⟩⟩

@[simp] theorem returns_ask {q : Q} {r : R q} :
    Returns env n (ask q : Prog R σ (R q)) w r w' ↔
      env w.record q = r ∧ { w with record := ⟨q, env w.record q⟩ :: w.record } = w' := by
  simp only [Returns, ask, Option.some.injEq, Prod.mk.injEq]

@[simp] theorem returns_load {f : σ → α} :
    Returns env n (load f : Prog R σ α) w a w' ↔ f w.mem = a ∧ w = w' := by
  simp only [Returns, load, Option.some.injEq, Prod.mk.injEq]

@[simp] theorem returns_store {f : σ → σ} {u : Unit} :
    Returns env n (store f : Prog R σ Unit) w u w' ↔ { w with mem := f w.mem } = w' := by
  simp only [Returns, store, Option.some.injEq, Prod.mk.injEq, true_and]

theorem returns_ite {c : Prop} [Decidable c] {p q : Prog R σ α} :
    Returns env n (if c then p else q) w a w' ↔
      c ∧ Returns env n p w a w' ∨ ¬c ∧ Returns env n q w a w' := by
  by_cases h : c
  · simp only [h, if_true, true_and, not_true, false_and, or_false]
  · simp only [h, if_false, false_and, not_false_eq_true, true_and, false_or]

theorem returns_when {c : Prop} [Decidable c] {p : Prog R σ Unit} {u : Unit} :
    Returns env n (when c p) w u w' ↔ c ∧ Returns env n p w u w' ∨ ¬c ∧ w = w' := by
  rw [Prog.when, returns_ite, returns_pure]
  simp only [true_and]

theorem returns_announce {f : α → Q} {p : Prog R σ α} :
    Returns env n (announce f p) w a w' ↔
      ∃ v, Returns env n p w a v ∧
        { v with record := ⟨f a, env v.record (f a)⟩ :: v.record } = w' := by
  simp only [announce, returns_bind, returns_ask, returns_pure]
  constructor
  · rintro ⟨a', v, hp, _, v', ⟨rfl, rfl⟩, rfl, rfl⟩
    exact ⟨v, hp, rfl⟩
  · rintro ⟨v, hp, rfl⟩
    exact ⟨a, v, hp, _, _, ⟨rfl, rfl⟩, rfl, rfl⟩

/-- **Invariants of a loop.**  What every round keeps holds when the loop is left. -/
theorem returns_loop {body : β → Prog R σ (β ⊕ α)} {b : β} {I : β → World R σ → Prop}
    {P : α → World R σ → Prop} (h : Returns env n (loop body b) w a w') (h0 : I b w)
    (hround : ∀ b v x v', I b v → Returns env n (body b) v x v' →
      Sum.elim (fun b => I b v') (fun a => P a v') x) :
    P a w' := by
  have key : ∀ m b w, I b w → rounds body env n m b w = some (a, w') → P a w' := by
    intro m
    induction m with
    | zero => intro b w _ h; exact absurd h (by simp [rounds])
    | succ m ih =>
      intro b w hb h
      rw [rounds] at h
      split at h
      case h_1 => exact absurd h (by simp)
      case h_2 b' v' hbody => exact ih b' v' (hround b w (.inl b') v' hb hbody) h
      case h_3 a' v' hbody =>
        rw [Option.some.injEq, Prod.mk.injEq] at h
        obtain ⟨rfl, rfl⟩ := h
        exact hround b w (.inr a') v' hb hbody
  exact key n b w h0 h

end Returns

/-! ### What a program can do to the world -/

/-- Whatever the program returns, `T` relates the worlds before and after. -/
def Within (env : Env R) (T : World R σ → World R σ → Prop) (p : Prog R σ α) : Prop :=
  ∀ n w a w', Returns env n p w a w' → T w w'

section Within

variable {env : Env R} {T : World R σ → World R σ → Prop}

theorem within_ask {q : Q}
    (h : ∀ w : World R σ, T w { w with record := ⟨q, env w.record q⟩ :: w.record }) :
    Within env T (ask q : Prog R σ (R q)) := by
  rintro n w a w' hp
  obtain ⟨-, rfl⟩ := returns_ask.mp hp
  exact h w

theorem within_store {f : σ → σ} (h : ∀ w : World R σ, T w { w with mem := f w.mem }) :
    Within env T (store f : Prog R σ Unit) := by
  rintro n w a w' hp
  obtain rfl := returns_store.mp hp
  exact h w

theorem within_ite {c : Prop} [Decidable c] {p q : Prog R σ α} (hp : c → Within env T p)
    (hq : ¬c → Within env T q) : Within env T (if c then p else q) := by
  by_cases h : c
  · rw [if_pos h]; exact hp h
  · rw [if_neg h]; exact hq h

variable [IsPreorder (World R σ) T]

theorem within_pure (a : α) : Within env T (pure a : Prog R σ α) := by
  rintro n w b w' hp
  obtain ⟨-, rfl⟩ := returns_pure.mp hp
  exact Std.Refl.refl _

theorem within_load (f : σ → α) : Within env T (load f : Prog R σ α) := by
  rintro n w b w' hp
  obtain ⟨-, rfl⟩ := returns_load.mp hp
  exact Std.Refl.refl _

theorem within_when {c : Prop} [Decidable c] {p : Prog R σ Unit} (hp : c → Within env T p) :
    Within env T (when c p) :=
  within_ite hp fun _ => within_pure ()

theorem within_bind {p : Prog R σ α} {k : α → Prog R σ β} (hp : Within env T p)
    (hk : ∀ a, Within env T (k a)) : Within env T (p >>= k) := by
  intro n w b w' h
  obtain ⟨a, v, h1, h2⟩ := returns_bind.mp h
  exact IsTrans.trans _ _ _ (hp n w a v h1) (hk a n v b w' h2)

theorem within_loop {body : β → Prog R σ (β ⊕ α)} (hbody : ∀ b, Within env T (body b)) (b : β) :
    Within env T (loop body b) := by
  intro n w a w' h
  refine returns_loop (I := fun _ v => T w v) (P := fun _ v => T w v) h
    (Std.Refl.refl w) fun b v x v' hv hb => ?_
  have := IsTrans.trans _ _ _ hv (hbody b n v x v' hb)
  cases x <;> exact this

end Within

/-! ### Programs that are the same -/

instance : LawfulMonad (Prog R σ) := by
  refine .mk' _ (fun p => ?_) (fun _ _ => rfl) fun p k l => ?_
  · funext env n w
    exact Option.bind_fun_some _
  · funext env n w
    exact Option.bind_assoc _ _ _

theorem ite_bind {c : Prop} [Decidable c] (p q : Prog R σ α) (k : α → Prog R σ β) :
    (if c then p else q) >>= k = if c then p >>= k else q >>= k := by
  by_cases h : c
  · rw [if_pos h, if_pos h]
  · rw [if_neg h, if_neg h]

/-! ### The record -/

/-- What has been put on record between two worlds. -/
def World.since (w w' : World R σ) : Record R :=
  w'.record.take (w'.record.length - w.record.length)

theorem since_eq {w w' : World R σ} {l : Record R} (h : w'.record = l ++ w.record) :
    w.since w' = l := by
  rw [World.since, h, List.length_append, Nat.add_sub_cancel, List.take_left']
  rfl

/-- Records only grow. -/
def Extends (w w' : World R σ) : Prop := w.record <:+ w'.record

instance : IsPreorder (World R σ) Extends where
  refl w := List.suffix_refl w.record
  trans _ _ _ h h' := List.IsSuffix.trans h h'

theorem Extends.eq_append {w w' : World R σ} (h : Extends w w') :
    w'.record = w.since w' ++ w.record := by
  obtain ⟨l, hl⟩ := h
  rw [since_eq hl.symm, hl]

theorem since_trans {w v w' : World R σ} (h : Extends w v) (h' : Extends v w') :
    w.since w' = v.since w' ++ w.since v :=
  since_eq (by rw [List.append_assoc, ← h.eq_append, ← h'.eq_append])

/-! ### Sequences of calls -/

/-- A call of one of the programs `C`, with the worlds before and after. -/
structure Step (R : Q → Type) (σ C : Type) where
  call : C
  before : World R σ
  after : World R σ

variable {C : Type}

/-- Calls that return, one after the other, the first one started in `w`; the last one leaves
the world given. -/
inductive Run (env : Env R) (program : C → Prog R σ Unit) (w : World R σ) :
    List (Step R σ C) → World R σ → Prop
  | start : Run env program w [] w
  | call {steps : List (Step R σ C)} {v v' : World R σ} {c : C} {n : ℕ} :
    Run env program w steps v → Returns env n (program c) v () v' →
      Run env program w (steps ++ [⟨c, v, v'⟩]) v'

/-- The calls `cs` in turn, with `n` rounds for every loop. -/
def calls (env : Env R) (program : C → Prog R σ Unit) (n : ℕ) :
    List C → World R σ → List (Step R σ C) → Option (List (Step R σ C) × World R σ)
  | [], w, steps => some (steps, w)
  | c :: cs, w, steps =>
    match program c env n w with
    | none => none
    | some (_, w') => calls env program n cs w' (steps ++ [⟨c, w, w'⟩])

theorem run_of_calls {env : Env R} {program : C → Prog R σ Unit} {n : ℕ} {w : World R σ} :
    ∀ (cs : List C) (v : World R σ) (steps steps' : List (Step R σ C)) (w' : World R σ),
      Run env program w steps v → calls env program n cs v steps = some (steps', w') →
      Run env program w steps' w' := by
  intro cs
  induction cs with
  | nil =>
    intro v steps steps' w' hrun h
    obtain ⟨rfl, rfl⟩ : steps = steps' ∧ v = w' := by simpa [calls] using h
    exact hrun
  | cons c cs ih =>
    intro v steps steps' w' hrun h
    rw [calls] at h
    split at h
    case h_1 => exact absurd h (by simp)
    case h_2 u v' hc => exact ih v' _ steps' w' (hrun.call hc) h

end ECE385.Firmware
