import ECE385.Firmware.Termination

/-!
# Programs that come to an end with a result

`Ends env p w P`: started in `w`, the program returns for any number of rounds that is large
enough, always the same result, and `P` holds of the result and of the world it leaves.

* `ends_pure`, `ends_ask`, `ends_bind`, ...: the rules, part by part.
* `ends_loop`: a loop with an invariant that also bounds the rounds to come, and what holds when it
  is left.
-/

namespace ECE385.Firmware

open Prog

variable {Q : Type} {R : Q → Type} {σ α β : Type} {env : Env R} {w : World R σ}

/-- With rounds enough the program returns one result, and it satisfies `P`. -/
def Ends (env : Env R) (p : Prog R σ α) (w : World R σ) (P : α → World R σ → Prop) : Prop :=
  ∃ a w', (∃ N, ∀ n, N ≤ n → Returns env n p w a w') ∧ P a w'

theorem Ends.returns {p : Prog R σ α} {P : α → World R σ → Prop} (h : Ends env p w P) :
    ∃ n a w', Returns env n p w a w' ∧ P a w' := by
  obtain ⟨a, w', ⟨N, hN⟩, hP⟩ := h
  exact ⟨N, a, w', hN N (Nat.le_refl N), hP⟩

/-- Whenever it returns, it returns that. -/
theorem Ends.of_returns {p : Prog R σ α} (hp : Lasting p) {P : α → World R σ → Prop}
    (h : Ends env p w P) {n : ℕ} {a : α} {w' : World R σ} (hn : Returns env n p w a w') :
    P a w' := by
  obtain ⟨b, v, ⟨N, hN⟩, hP⟩ := h
  have hmax := hp env n (max n N) w a w' (Nat.le_max_left n N) hn
  obtain ⟨rfl, rfl⟩ := Prod.mk.inj
    (Option.some.inj (hmax.symm.trans (hN (max n N) (Nat.le_max_right n N))))
  exact hP

theorem Ends.imp {p : Prog R σ α} {P P' : α → World R σ → Prop} (h : Ends env p w P)
    (himp : ∀ a w', P a w' → P' a w') : Ends env p w P' := by
  obtain ⟨a, w', hN, hP⟩ := h
  exact ⟨a, w', hN, himp a w' hP⟩

theorem ends_pure {a : α} {P : α → World R σ → Prop} (h : P a w) :
    Ends env (pure a : Prog R σ α) w P :=
  ⟨a, w, ⟨0, fun _ _ => rfl⟩, h⟩

theorem ends_ask {q : Q} {P : R q → World R σ → Prop}
    (h : P (env w.record q) { w with record := ⟨q, env w.record q⟩ :: w.record }) :
    Ends env (ask q : Prog R σ (R q)) w P :=
  ⟨_, _, ⟨0, fun _ _ => rfl⟩, h⟩

theorem ends_bind {p : Prog R σ α} {k : α → Prog R σ β} {P : α → World R σ → Prop}
    {S : β → World R σ → Prop} (hp : Ends env p w P) (hk : ∀ a v, P a v → Ends env (k a) v S) :
    Ends env (p >>= k) w S := by
  obtain ⟨a, v, ⟨N, hN⟩, hP⟩ := hp
  obtain ⟨b, w', ⟨M, hM⟩, hS⟩ := hk a v hP
  refine ⟨b, w', ⟨max N M, fun n hn => returns_bind.mpr ⟨a, v, ?_, ?_⟩⟩, hS⟩
  · exact hN n (Nat.le_trans (Nat.le_max_left N M) hn)
  · exact hM n (Nat.le_trans (Nat.le_max_right N M) hn)

theorem ends_ite {c : Prop} [Decidable c] {p q : Prog R σ α} {P : α → World R σ → Prop}
    (hp : c → Ends env p w P) (hq : ¬c → Ends env q w P) :
    Ends env (if c then p else q) w P := by
  by_cases h : c
  · rw [if_pos h]; exact hp h
  · rw [if_neg h]; exact hq h

theorem ends_when_neg {c : Prop} [Decidable c] {p : Prog R σ Unit} {P : Unit → World R σ → Prop}
    (hc : ¬c) (h : P () w) : Ends env (Prog.when c p) w P := by
  rw [Prog.when, if_neg hc]
  exact ends_pure h

/-- **Loops.**  `I k` holds before a round from which at most `k` are to come: a round that does not
leave the loop makes `k` smaller. -/
theorem ends_loop {body : β → Prog R σ (β ⊕ α)} {I : ℕ → β → World R σ → Prop}
    {P : α → World R σ → Prop}
    (hround : ∀ k b v, I k b v → Ends env (body b) v fun x v' =>
      Sum.elim (fun b' => ∃ j < k, I j b' v') (fun a => P a v') x)
    {k : ℕ} {b : β} (h0 : I k b w) : Ends env (loop body b) w P := by
  have key : ∀ k b v, I k b v → ∃ a w',
      (∃ N, ∀ n m, N ≤ n → N ≤ m → rounds body env n m b v = some (a, w')) ∧ P a w' := by
    intro k
    induction k using Nat.strongRecOn with
    | ind k ih =>
      intro b v hb
      obtain ⟨x, v', ⟨N, hN⟩, hx⟩ := hround k b v hb
      cases x with
      | inl b' =>
        obtain ⟨j, hj, hb'⟩ := hx
        obtain ⟨a, w', ⟨M, hM⟩, hP⟩ := ih j hj b' v' hb'
        refine ⟨a, w', ⟨max N M + 1, fun n m hn hm => ?_⟩, hP⟩
        obtain ⟨m, rfl⟩ : ∃ l, m = l + 1 := ⟨m - 1, by omega⟩
        have hfirst : body b env n v = some (.inl b', v') := hN n (by omega)
        rw [rounds, hfirst]
        exact hM n m (by omega) (by omega)
      | inr a =>
        refine ⟨a, v', ⟨N + 1, fun n m hn hm => ?_⟩, hx⟩
        obtain ⟨m, rfl⟩ : ∃ l, m = l + 1 := ⟨m - 1, by omega⟩
        have hlast : body b env n v = some (.inr a, v') := hN n (by omega)
        rw [rounds, hlast]
  obtain ⟨a, w', ⟨N, hN⟩, hP⟩ := key k b w h0
  exact ⟨a, w', ⟨N, fun n hn => hN n n hn hn⟩, hP⟩

end ECE385.Firmware
