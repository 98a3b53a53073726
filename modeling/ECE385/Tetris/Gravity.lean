import ECE385.Tetris.Press
import Mathlib.Algebra.Order.Floor.Div

/-!
# Gravity

`counter` grows by `speed` in every frame until it reaches `63`; the next frame is one of gravity
and clears it.

* `Paced`: the counter stays far below the range of an `int`.
* `first_reach`: how long a sum takes to reach a bound.
* `gravity_pacing`: how far apart two frames of gravity are.
-/

namespace ECE385.Tetris

open Clocked

/-! ### Counting up to a bound -/

theorem sum_eq_mul {c : ℕ → ℕ} {q n : ℕ} (h0 : c 0 = 0) (hstep : ∀ t < n, c (t + 1) = c t + q) :
    ∀ t ≤ n, c t = q * t := by
  intro t
  induction t with
  | zero => exact fun _ => h0
  | succ t ih =>
    intro ht
    rw [hstep t ht, ih (Nat.le_of_lt ht), Nat.mul_succ]

/-- A sum of equal parts reaches the bound `m` in `m / q` steps, rounded up. -/
theorem first_reach {c : ℕ → ℕ} {m q n : ℕ} (hq : 0 < q) (h0 : c 0 = 0)
    (hstep : ∀ t < n, c (t + 1) = c t + q) (hbelow : ∀ t < n, c t < m) (hreach : m ≤ c n) :
    n = m ⌈/⌉ q := by
  have hsum := sum_eq_mul h0 hstep
  have hle : m ⌈/⌉ q ≤ n := by
    rw [ceilDiv_le_iff_le_mul hq, ← hsum n (Nat.le_refl n)]
    exact hreach
  rcases Nat.eq_or_lt_of_le hle with heq | hlt
  · exact heq.symm
  · have hlow := hbelow _ hlt
    have hhigh : m ≤ q * (m ⌈/⌉ q) := (ceilDiv_le_iff_le_mul hq).mp (Nat.le_refl _)
    rw [hsum _ hle] at hlow
    omega

/-- The frames from one of gravity to the next, with the score `v`. -/
def interval (v : ℕ) : ℕ := 63 ⌈/⌉ (1 + v / 4096) + 1

theorem interval_antitone : Antitone interval := by
  intro v v' h
  have hspeed : 1 + v / 4096 ≤ 1 + v' / 4096 :=
    Nat.add_le_add_left (Nat.div_le_div_right h) 1
  refine Nat.add_le_add_right ?_ 1
  rw [ceilDiv_le_iff_le_mul (by omega)]
  calc 63 ≤ (1 + v / 4096) * (63 ⌈/⌉ (1 + v / 4096)) :=
        (ceilDiv_le_iff_le_mul (by omega)).mp (Nat.le_refl _)
    _ ≤ (1 + v' / 4096) * (63 ⌈/⌉ (1 + v / 4096)) := Nat.mul_le_mul_right _ hspeed

theorem two_le_interval (v : ℕ) : 2 ≤ interval v := by
  refine Nat.succ_le_succ (Nat.pos_of_ne_zero fun hzero => ?_)
  have hreach : 63 ≤ (1 + v / 4096) * (63 ⌈/⌉ (1 + v / 4096)) :=
    (ceilDiv_le_iff_le_mul (by omega)).mp (Nat.le_refl _)
  rw [hzero] at hreach
  omega

namespace Ball

variable {s : Ball} {i : Input} {w : ℕ → Input} {a b t : ℕ}

/-! ### One frame -/

theorem toNat_speed (s : Ball) : s.speed.toNat = 1 + s.score.toNat / 4096 := by
  have hscore := s.score.isLt
  rw [speed, BitVec.toNat_add, BitVec.toNat_udiv, BitVec.toNat_setWidth]
  have hone : (1 : BitVec 32).toNat = 1 := rfl
  have hdiv : (4096 : BitVec 32).toNat = 4096 := rfl
  rw [hone, hdiv]
  omega

theorem move_iff (s : Ball) : s.move = true ↔ 63 ≤ s.counter.toNat := by
  have h63 : (0x3F#32).toNat = 63 := rfl
  rw [move, decide_eq_true_iff, BitVec.le_def, h63]

theorem counter_next (hmove : s.move = false) : (s.next i).counter = s.counternext := by
  simp [next, hmove]

theorem counter_gravity (hmove : s.move = true) : (s.next i).counter = 0 := by
  simp [next, hmove]

/-- The counter and its sum are what they are as `int`s. -/
structure Paced (s : Ball) : Prop where
  counter_le : s.counter.toNat ≤ 62 + 4096
  nonneg : s.counter.toInt = s.counter.toNat
  compare : s.move = decide (63 ≤ s.counter.toInt)
  sum : s.counternext.toInt = s.counter.toInt + s.speed.toInt

theorem toNat_speed_le (s : Ball) : s.speed.toNat ≤ 4096 := by
  have hscore := s.score.isLt
  rw [toNat_speed]
  omega

theorem toNat_counternext (h : s.counter.toNat ≤ 62 + 4096) :
    s.counternext.toNat = s.counter.toNat + s.speed.toNat := by
  have hspeed := s.toNat_speed_le
  rw [counternext, BitVec.toNat_add, Nat.mod_eq_of_lt (by omega)]

theorem paced_of_le (h : s.counter.toNat ≤ 62 + 4096) : Paced s := by
  have hspeed := s.toNat_speed_le
  have hsum := toNat_counternext h
  have hnonneg : s.counter.toInt = s.counter.toNat := BitVec.toInt_eq_toNat_of_lt (by omega)
  refine ⟨h, hnonneg, ?_, ?_⟩
  · rw [Bool.eq_iff_iff, move_iff, decide_eq_true_iff, hnonneg]
    omega
  · rw [hnonneg, BitVec.toInt_eq_toNat_of_lt (by omega), hsum,
      BitVec.toInt_eq_toNat_of_lt (by omega)]
    omega

/-- One frame keeps the counter small: it is increased only below `63`. -/
theorem counter_le_next (h : s.counter.toNat ≤ 62 + 4096) :
    (s.next i).counter.toNat ≤ 62 + 4096 := by
  cases hmove : s.move with
  | true =>
    rw [counter_gravity hmove]
    exact Nat.zero_le _
  | false =>
    have hspeed := s.toNat_speed_le
    have hlow : ¬63 ≤ s.counter.toNat := by
      rw [← move_iff, hmove]
      exact Bool.false_ne_true
    rw [counter_next hmove, toNat_counternext h]
    omega

/-! ### Runs -/

theorem run_counter_le (s : Ball) (w : ℕ → Input) (n : ℕ) :
    (run next w s.reset n).counter.toNat ≤ 62 + 4096 := by
  have hstep : ∀ (i : Input) (s : Ball), True → s.counter.toNat ≤ 62 + 4096 →
      (s.next i).counter.toNat ≤ 62 + 4096 := fun _ _ _ => counter_le_next
  exact run_invariant hstep (Nat.zero_le _) n fun _ _ => trivial

/-- The frames `a` and `b` are frames of gravity, with none between them. -/
structure Falls (w : ℕ → Input) (s : Ball) (a b : ℕ) : Prop where
  lt : a < b
  first : (run next w s a).move = true
  second : (run next w s b).move = true
  between : ∀ t, a < t → t < b → (run next w s t).move = false

/-- **From one frame of gravity to the next.** -/
theorem Falls.apart (h : Falls w s.reset a b) {v : BitVec 24}
    (hscore : ∀ t, a < t → t < b → (run next w s.reset t).score = v) :
    b = a + interval v.toNat := by
  obtain ⟨n, rfl⟩ : ∃ n, b = a + 1 + n := ⟨b - (a + 1), by have := h.lt; omega⟩
  have hn : n = 63 ⌈/⌉ (1 + v.toNat / 4096) := by
    refine first_reach (c := fun t => (run next w s.reset (a + 1 + t)).counter.toNat)
      (by omega) ?_ ?_ ?_ ?_
    · rw [Nat.add_zero, run_succ, counter_gravity h.first]
      rfl
    · intro t ht
      have hmove := h.between (a + 1 + t) (by omega) (by omega)
      rw [← Nat.add_assoc, run_succ, counter_next hmove,
        toNat_counternext (run_counter_le s w (a + 1 + t)), toNat_speed,
        hscore (a + 1 + t) (by omega) (by omega)]
    · intro t ht
      have hmove := h.between (a + 1 + t) (by omega) (by omega)
      by_contra hreach
      have hyes := (move_iff _).mpr (Nat.le_of_not_lt hreach)
      rw [hmove] at hyes
      cases hyes
    · exact (move_iff _).mp h.second
  rw [interval, ← hn]
  omega

/-- **Gravity.**  The counter never leaves its small range, and two frames of gravity are as far
apart as the score between them says: the closer the higher it is, but never in succession. -/
theorem gravity_pacing (s : Ball) (w : ℕ → Input) :
    (∀ n, Paced (run next w s.reset n)) ∧
    (∀ a b v, Falls w s.reset a b →
      (∀ t, a < t → t < b → (run next w s.reset t).score = v) → b = a + interval v.toNat) ∧
    Antitone interval ∧ ∀ v, 2 ≤ interval v :=
  ⟨fun n => paced_of_le (run_counter_le s w n), fun _ _ _ h hscore => h.apart hscore,
    interval_antitone, two_le_interval⟩

/-- Up to the next frame of gravity an empty board keeps the score at `0`. -/
structure Waits (s : Ball) (t : ℕ) : Prop where
  counter : s.counter.toNat = t
  score : s.score = 0
  gameboard : s.gameboard = emptyBoard

theorem Waits.step (h : Waits s t) (ht : t < 63) : Waits (s.next i) (t + 1) := by
  have hmove : s.move = false := by
    rw [Bool.eq_false_iff, ne_eq, move_iff, h.counter]
    omega
  have hnone : lastFull s.gameboard = none := by
    rw [h.gameboard]
    decide
  refine ⟨?_, ?_, ?_⟩
  · have hcounter := h.counter
    rw [counter_next hmove, toNat_counternext (by omega), toNat_speed, h.score, hcounter]
    rfl
  · have hscore := h.score
    simp [next, scoreNext, hnone, locks_of_still hmove, hscore]
  · rw [gameboard_still hmove hnone, h.gameboard]

theorem Waits.all (h : Waits s 0) : ∀ t ≤ 63, Waits (run next w s t) t := by
  intro t
  induction t with
  | zero => exact fun _ => h
  | succ t ih => exact fun ht => (ih (by omega)).step (by omega)

/-- The first two frames of gravity after a reset. -/
theorem falls_reset : Falls (play []) powerUp.reset 63 127 ∧
    ∀ t, 63 < t → t < 127 → (run next (play []) powerUp.reset t).score = 0 := by
  have hfirst : Waits powerUp.reset 0 := ⟨rfl, rfl, rfl⟩
  have hsecond : Waits (run next (play []) powerUp.reset 64) 0 := by
    simp only [← run_normal next normal_eq]
    exact ⟨by decide +kernel, by decide +kernel, by decide +kernel⟩
  have hwaits : ∀ n ≤ 63, Waits (run next (play []) powerUp.reset (64 + n)) n := by
    intro n hn
    rw [run_add]
    exact hsecond.all n hn
  refine ⟨⟨by omega, ?_, ?_, ?_⟩, ?_⟩
  · rw [move_iff, (hfirst.all 63 (Nat.le_refl 63)).counter]
  · rw [move_iff, (hwaits 63 (Nat.le_refl 63)).counter]
  · intro t ht hlt
    obtain ⟨n, rfl⟩ : ∃ n, t = 64 + n := ⟨t - 64, by omega⟩
    rw [Bool.eq_false_iff, ne_eq, move_iff, (hwaits n (by omega)).counter]
    omega
  · intro t ht hlt
    obtain ⟨n, rfl⟩ : ∃ n, t = 64 + n := ⟨t - 64, by omega⟩
    exact (hwaits n (by omega)).score

/-- They are 64 frames apart. -/
theorem gravity_pacing_reset : 127 = 63 + interval (0 : BitVec 24).toNat :=
  (gravity_pacing powerUp (play [])).2.1 63 127 0 falls_reset.1 falls_reset.2

end Ball

end ECE385.Tetris
