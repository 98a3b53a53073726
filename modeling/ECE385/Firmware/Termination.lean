import ECE385.Firmware.Program

/-!
# Programs that come to an end

A program that returns with some bound on its rounds returns the same with every larger one, so
the bound can be left out.

* `Finishes env p w a w'`: with rounds enough, `p` started in `w` returns `a` and leaves `w'`.
* `Straight p`: a program without loops, part by part (`straight_bind`, ...).
* `Lasting p`: more rounds change nothing.  All programs are, part by part (`lasting_bind`, ...).
* `Rounds`: the rounds of a loop that is left, one after the other; `finishes_loop_iff` makes
  inductions over loops inductions over these.
* `Heads`: what a loop comes to before its rounds, whether or not it is ever left.
* `Halts env p w`: it returns something.
* `halts_loop`: a loop ends if every round makes something smaller, `not_halts_loop`: it does not
  if every round leads to another.
-/

namespace ECE385.Firmware

open Prog

variable {Q : Type} {R : Q → Type} {σ α β γ : Type}

/-- With more rounds the program returns the same. -/
def Lasting (p : Prog R σ α) : Prop :=
  ∀ (env : Env R) (n n' : ℕ) (w : World R σ) (a : α) (w' : World R σ), n ≤ n' →
    Returns env n p w a w' → Returns env n' p w a w'

/-- With rounds enough, the program started in `w` returns `a` and leaves `w'`. -/
def Finishes (env : Env R) (p : Prog R σ α) (w : World R σ) (a : α) (w' : World R σ) : Prop :=
  ∃ n, Returns env n p w a w'

def Halts (env : Env R) (p : Prog R σ α) (w : World R σ) : Prop := ∃ a w', Finishes env p w a w'

/-! ### Programs without loops -/

/-- The program needs no rounds: it returns the same with any number. -/
def Straight (p : Prog R σ α) : Prop := ∀ env w, ∃ a w', ∀ n, Returns env n p w a w'

section Straight

theorem straight_pure (a : α) : Straight (pure a : Prog R σ α) := fun _ _ => ⟨_, _, fun _ => rfl⟩

theorem straight_ask (q : Q) : Straight (ask q : Prog R σ (R q)) := fun _ _ => ⟨_, _, fun _ => rfl⟩

theorem straight_load (f : σ → α) : Straight (load f : Prog R σ α) :=
  fun _ _ => ⟨_, _, fun _ => rfl⟩

theorem straight_store (f : σ → σ) : Straight (store f : Prog R σ Unit) :=
  fun _ _ => ⟨_, _, fun _ => rfl⟩

theorem straight_bind {p : Prog R σ α} {k : α → Prog R σ β} (hp : Straight p)
    (hk : ∀ a, Straight (k a)) : Straight (p >>= k) := by
  intro env w
  obtain ⟨a, v, h1⟩ := hp env w
  obtain ⟨b, w', h2⟩ := hk a env v
  exact ⟨b, w', fun n => returns_bind.mpr ⟨a, v, h1 n, h2 n⟩⟩

theorem straight_ite {c : Prop} [Decidable c] {p q : Prog R σ α} (hp : Straight p)
    (hq : Straight q) : Straight (if c then p else q) := by
  by_cases h : c
  · rw [if_pos h]; exact hp
  · rw [if_neg h]; exact hq

theorem Straight.halts {p : Prog R σ α} (h : Straight p) (env : Env R) (w : World R σ) :
    Halts env p w := by
  obtain ⟨a, w', hp⟩ := h env w
  exact ⟨a, w', 0, hp 0⟩

end Straight

/-! ### More rounds -/

section Lasting

theorem Straight.lasting {p : Prog R σ α} (h : Straight p) : Lasting p := by
  intro env n n' w a w' _ hn
  obtain ⟨b, v, hp⟩ := h env w
  obtain ⟨rfl, rfl⟩ := Prod.mk.inj (Option.some.inj ((hp n).symm.trans hn))
  exact hp n'

theorem lasting_bind {p : Prog R σ α} {k : α → Prog R σ β} (hp : Lasting p)
    (hk : ∀ a, Lasting (k a)) : Lasting (p >>= k) := by
  intro env n n' w b w' hn h
  obtain ⟨a, v, h1, h2⟩ := returns_bind.mp h
  exact returns_bind.mpr ⟨a, v, hp env n n' w a v hn h1, hk a env n n' v b w' hn h2⟩

theorem rounds_mono {body : β → Prog R σ (β ⊕ α)} (hbody : ∀ b, Lasting (body b)) {env : Env R}
    {n n' : ℕ} (hn : n ≤ n') {r : α × World R σ} :
    ∀ {m m' : ℕ} {b : β} {w : World R σ}, m ≤ m' → rounds body env n m b w = some r →
      rounds body env n' m' b w = some r := by
  intro m
  induction m with
  | zero => intro m' b w _ h; exact absurd h (by simp [rounds])
  | succ m ih =>
    intro m' b w hm h
    obtain ⟨m', rfl⟩ : ∃ k, m' = k + 1 := ⟨m' - 1, by omega⟩
    rw [rounds] at h ⊢
    split at h
    case h_1 => exact absurd h (by simp)
    case h_2 b' v hround =>
      have hround' : body b env n' w = some (.inl b', v) := hbody b env n n' w _ v hn hround
      rw [hround']
      exact ih (by omega) h
    case h_3 a v hround =>
      have hround' : body b env n' w = some (.inr a, v) := hbody b env n n' w _ v hn hround
      rw [hround']
      exact h

theorem lasting_loop {body : β → Prog R σ (β ⊕ α)} (hbody : ∀ b, Lasting (body b)) (b : β) :
    Lasting (loop body b) :=
  fun _ _ _ _ _ _ hn h => rounds_mono hbody hn hn h

end Lasting

/-! ### The end of a program -/

section Finishes

variable {env : Env R} {w v w' : World R σ}

theorem finishes_bind {p : Prog R σ α} {k : α → Prog R σ β} (hp : Lasting p)
    (hk : ∀ a, Lasting (k a)) {b : β} :
    Finishes env (p >>= k) w b w' ↔ ∃ a v, Finishes env p w a v ∧ Finishes env (k a) v b w' := by
  constructor
  · rintro ⟨n, h⟩
    obtain ⟨a, v, h1, h2⟩ := returns_bind.mp h
    exact ⟨a, v, ⟨n, h1⟩, ⟨n, h2⟩⟩
  · rintro ⟨a, v, ⟨n, h1⟩, m, h2⟩
    exact ⟨max n m, returns_bind.mpr ⟨a, v, hp _ _ _ _ _ _ (Nat.le_max_left n m) h1,
      hk a _ _ _ _ _ _ (Nat.le_max_right n m) h2⟩⟩

theorem Finishes.unique {p : Prog R σ α} (hp : Lasting p) {a b : α} (h : Finishes env p w a v)
    (h' : Finishes env p w b w') : a = b ∧ v = w' := by
  obtain ⟨n, h⟩ := h
  obtain ⟨m, h'⟩ := h'
  have h1 := hp _ _ _ _ _ _ (Nat.le_max_left n m) h
  have h2 := hp _ _ _ _ _ _ (Nat.le_max_right n m) h'
  exact Prod.mk.inj (Option.some.inj (h1.symm.trans h2))

theorem halts_bind {p : Prog R σ α} {k : α → Prog R σ β} (hp : Lasting p)
    (hk : ∀ a, Lasting (k a)) (h : Halts env p w)
    (hnext : ∀ a v, Finishes env p w a v → Halts env (k a) v) : Halts env (p >>= k) w := by
  obtain ⟨a, v, h⟩ := h
  obtain ⟨b, w', h'⟩ := hnext a v h
  exact ⟨b, w', (finishes_bind hp hk).mpr ⟨a, v, h, h'⟩⟩

end Finishes

/-! ### Loops -/

section Loops

variable {env : Env R} {body : β → Prog R σ (β ⊕ α)}

/-- The rounds of a loop that is left. -/
inductive Rounds (env : Env R) (body : β → Prog R σ (β ⊕ α)) :
    β → World R σ → α → World R σ → Prop
  | exit {b : β} {w : World R σ} {a : α} {w' : World R σ} :
    Finishes env (body b) w (.inr a) w' → Rounds env body b w a w'
  | next {b b' : β} {w v : World R σ} {a : α} {w' : World R σ} :
    Finishes env (body b) w (.inl b') v → Rounds env body b' v a w' → Rounds env body b w a w'

variable {b : β} {w w' : World R σ} {a : α}

theorem finishes_loop_iff (hbody : ∀ b, Lasting (body b)) :
    Finishes env (loop body b) w a w' ↔ Rounds env body b w a w' := by
  constructor
  · rintro ⟨n, h⟩
    have key : ∀ m b w, rounds body env n m b w = some (a, w') → Rounds env body b w a w' := by
      intro m
      induction m with
      | zero => intro b w h; exact absurd h (by simp [rounds])
      | succ m ih =>
        intro b w h
        rw [rounds] at h
        split at h
        case h_1 => exact absurd h (by simp)
        case h_2 b' v hround => exact .next ⟨n, hround⟩ (ih b' v h)
        case h_3 a' v hround =>
          rw [Option.some.injEq, Prod.mk.injEq] at h
          obtain ⟨rfl, rfl⟩ := h
          exact .exit ⟨n, hround⟩
    exact key n b w h
  · intro h
    induction h with
    | exit hround =>
      obtain ⟨n, hround⟩ := hround
      refine ⟨n + 1, ?_⟩
      have hlong := hbody _ _ _ _ _ _ _ (Nat.le_succ n) hround
      rw [Returns] at hlong
      rw [Returns, loop, rounds, hlong]
    | next hround _ ih =>
      obtain ⟨n, hround⟩ := hround
      obtain ⟨m, hrest⟩ := ih
      refine ⟨max n m + 1, ?_⟩
      have hlong := hbody _ _ _ (max n m + 1) _ _ _ (by omega) hround
      rw [Returns] at hlong
      rw [Returns, loop, rounds, hlong]
      exact rounds_mono hbody (by omega) (by omega) hrest

/-- What the loop comes to before its rounds, started with `b` in `w`; it may go on for ever. -/
inductive Heads (env : Env R) (body : β → Prog R σ (β ⊕ α)) (b : β) (w : World R σ) :
    β → World R σ → Prop
  | enter : Heads env body b w b w
  | round {c c' : β} {v v' : World R σ} :
    Heads env body b w c v → Finishes env (body c) v (.inl c') v' → Heads env body b w c' v'

theorem Heads.first {b' : β} {v : World R σ} (h : Finishes env (body b) w (.inl b') v) {c : β}
    {v' : World R σ} (hrest : Heads env body b' v c v') : Heads env body b w c v' := by
  induction hrest with
  | enter => exact .round .enter h
  | round _ hlast ih => exact .round ih hlast

theorem Heads.rounds {c : β} {v : World R σ} (h : Heads env body b w c v)
    (hlast : Rounds env body c v a w') : Rounds env body b w a w' := by
  induction h with
  | enter => exact hlast
  | round _ hround ih => exact ih (.next hround hlast)

/-- A loop is left in the last of its rounds. -/
theorem finishes_loop_iff_heads (hbody : ∀ b, Lasting (body b)) :
    Finishes env (loop body b) w a w' ↔
      ∃ c v, Heads env body b w c v ∧ Finishes env (body c) v (.inr a) w' := by
  rw [finishes_loop_iff hbody]
  constructor
  · intro h
    induction h with
    | exit hlast => exact ⟨_, _, .enter, hlast⟩
    | next hround _ ih =>
      obtain ⟨c, v, hheads, hlast⟩ := ih
      exact ⟨c, v, hheads.first hround, hlast⟩
  · rintro ⟨c, v, hheads, hlast⟩
    exact hheads.rounds (.exit hlast)

/-- **Loops that end.**  Every round that leads to another makes `f` smaller, in an order in which
that cannot go on for ever. -/
theorem halts_loop (hbody : ∀ b, Lasting (body b)) {I : β → World R σ → Prop}
    (f : β → World R σ → γ) {r : γ → γ → Prop}
    (hround : ∀ b w, I b w → ∃ x v, Finishes env (body b) w x v ∧
      ∀ b', x = .inl b' → I b' v ∧ r (f b' v) (f b w)) (h0 : I b w) (hacc : Acc r (f b w)) :
    Halts env (loop body b) w := by
  have key : ∀ c, Acc r c → ∀ b w, f b w = c → I b w → ∃ a w', Rounds env body b w a w' := by
    intro c hc
    induction hc with
    | intro c _ ih =>
      intro b w hf hb
      obtain ⟨x, v, hx, hnext⟩ := hround b w hb
      cases x with
      | inr a => exact ⟨a, v, .exit hx⟩
      | inl b' =>
        obtain ⟨hb', hlt⟩ := hnext b' rfl
        obtain ⟨a, w', hrest⟩ := ih (f b' v) (hf ▸ hlt) b' v rfl hb'
        exact ⟨a, w', .next hx hrest⟩
  obtain ⟨a, w', h⟩ := key _ hacc b w rfl h0
  exact ⟨a, w', (finishes_loop_iff hbody).mpr h⟩

/-- **Loops that go on.**  Every round leads to another. -/
theorem not_halts_loop {I : β → World R σ → Prop}
    (hround : ∀ b w x v, I b w → Finishes env (body b) w x v → ∃ b', x = .inl b' ∧ I b' v)
    (h0 : I b w) : ¬Halts env (loop body b) w := by
  rintro ⟨a, w', n, h⟩
  refine returns_loop (P := fun _ _ => False) h h0 fun b v x v' hb hx => ?_
  obtain ⟨b', rfl, hb'⟩ := hround b v x v' hb ⟨n, hx⟩
  exact hb'

end Loops

end ECE385.Firmware
