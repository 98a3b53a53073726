import ECE385.Bits.ShiftAdd
import ECE385.Lab4.Multiplier
import Mathlib.Tactic.IntervalCases

/-!
# The multiplier multiplies

From `Start` the control alternates an adding and a shifting state, seven times,
and then a subtracting and a shifting one.  Each pair of edges is a round of
`Bits.PartialProduct`, with `A` as the accumulator and `B` as the register.

* `next_add`, `next_shift`: what the edges of a round do to `{X, A}` and to `B`.
* `InRound.next_next`, `InRound.last`: two edges are one round.
* `run_multiply`: the product, seventeen edges after `Start`.
* `multiplies`: the product and what becomes of it.
-/

namespace ECE385.Lab4

open Bits Clocked

/-! ### Words

The nine bits `{X, A}` as a signed number. -/

theorem toNat_getLsbD_zero (a : BitVec 8) : (a.getLsbD 0).toNat = a.toNat % 2 := by
  rw [BitVec.getLsbD, Nat.testBit_zero]
  rcases Nat.mod_two_eq_zero_or_one a.toNat with h | h <;> simp [h]

theorem toNat_cons_shift (y : Bool) (b : BitVec 8) :
    (BitVec.cons y (b.extractLsb' 1 7)).toNat = y.toNat * 2 ^ 7 + b.toNat / 2 := by
  have := b.isLt
  rw [BitVec.toNat_cons', BitVec.extractLsb'_toNat, Nat.shiftRight_eq_div_pow, Nat.shiftLeft_eq]
  omega

theorem toInt_cons (x : Bool) (a : BitVec 8) :
    (BitVec.cons x a).toInt = (a.toNat : ℤ) - x.toNat * 256 := by
  have := a.isLt
  rw [BitVec.toInt_eq_msb_cond, BitVec.msb_cons, BitVec.toNat_cons', Nat.shiftLeft_eq]
  cases x <;> simp
  omega

/-- Shifting the sign bit in halves the nine-bit number. -/
theorem toInt_cons_shift (x : Bool) (a : BitVec 8) :
    (BitVec.cons x (a.extractLsb' 1 7)).toInt = (BitVec.cons x a).toInt / 2 := by
  have := a.isLt
  rw [toInt_cons, BitVec.toInt_eq_msb_cond, BitVec.msb_cons, toNat_cons_shift]
  cases x <;> simp
  omega

theorem toInt_cons_mod_two (x : Bool) (a : BitVec 8) :
    ((BitVec.cons x a).toInt % 2).toNat = (a.getLsbD 0).toNat := by
  rw [toInt_cons, toNat_getLsbD_zero]
  omega

/-- Doubling the sign bit keeps the number. -/
theorem toInt_cons_msb (a : BitVec 8) : (BitVec.cons a.msb a).toInt = a.toInt := by
  rw [toInt_cons, BitVec.toInt_eq_msb_cond]
  cases a.msb <;> simp

theorem toInt_append (a b : BitVec 8) : (a ++ b).toInt = a.toInt * 2 ^ 8 + (b.toNat : ℕ) := by
  have hmsb : (a ++ b).msb = a.msb := by rw [BitVec.msb_append, if_neg (by omega)]
  have hnat : (a ++ b).toNat = 2 ^ 8 * a.toNat + b.toNat := by
    rw [BitVec.toNat_append, Nat.shiftLeft_eq, Nat.mul_comm, Nat.two_pow_add_eq_or_of_lt b.isLt]
  rw [BitVec.toInt_eq_msb_cond, BitVec.toInt_eq_msb_cond, hmsb, hnat]
  split <;> push_cast <;> ring

theorem toInt_bounds (a : BitVec 8) : -128 ≤ a.toInt ∧ a.toInt < 128 := by
  have := BitVec.le_toInt a
  have := BitVec.toInt_lt (x := a)
  omega

/-- **No overflow.**  The nine-bit adder holds every sum and difference of two bytes. -/
theorem adder9_toInt (a d : BitVec 8) (sub : Bool) :
    (adder9 (BitVec.cons a.msb a) (BitVec.cons d.msb d) sub).2.toInt =
      a.toInt + (if sub then -d.toInt else d.toInt) := by
  have ha := toInt_bounds a
  have hd := toInt_bounds d
  cases sub with
  | false =>
    rw [adder9, if_neg Bool.false_ne_true, ripple_add, BitVec.toInt_add, toInt_cons_msb,
      toInt_cons_msb, if_neg Bool.false_ne_true]
    exact Int.bmod_eq_of_le (by omega) (by omega)
  | true =>
    rw [adder9, if_pos rfl, ripple_sub, BitVec.toInt_sub, toInt_cons_msb, toInt_cons_msb,
      if_pos rfl, ← sub_eq_add_neg]
    exact Int.bmod_eq_of_le (by omega) (by omega)

theorem cons_split (v : BitVec 9) : BitVec.cons (v.getLsbD 8) (v.extractLsb' 0 8) = v := by
  apply BitVec.eq_of_getLsbD_eq
  intro i hi
  rw [BitVec.getLsbD_cons]
  split
  · subst i; rfl
  · rw [BitVec.getLsbD_extractLsb', Nat.zero_add]
    simp; omega

/-! ### The states of a round -/

/-- The adding state of round `k`. -/
def addState : ℕ → CState
  | 0 => .add1 | 1 => .add2 | 2 => .add3 | 3 => .add4
  | 4 => .add5 | 5 => .add6 | 6 => .add7 | _ => .subtract

/-- The shifting state of round `k`. -/
def shiftState : ℕ → CState
  | 0 => .shift1 | 1 => .shift2 | 2 => .shift3 | 3 => .shift4
  | 4 => .shift5 | 5 => .shift6 | 6 => .shift7 | _ => .shift8

theorem addState_control {k : ℕ} (hk : k < 8) (m : Bool) :
    (addState k).control m = { add := m, sub := m && decide (k = 7) } := by
  interval_cases k <;> cases m <;> rfl

theorem addState_next {k : ℕ} (hk : k < 8) (r : Bool) : (addState k).next r = shiftState k := by
  interval_cases k <;> rfl

theorem shiftState_control {k : ℕ} (hk : k < 8) (m : Bool) :
    (shiftState k).control m = { shift := true } := by
  interval_cases k <;> rfl

theorem shiftState_next {k : ℕ} (hk : k < 7) (r : Bool) :
    (shiftState k).next r = addState (k + 1) := by
  interval_cases k <;> rfl

theorem round_ne_end {k : ℕ} (hk : k < 8) : addState k ≠ .end_ ∧ shiftState k ≠ .end_ := by
  interval_cases k <;> decide

/-! ### The edges of a round -/

namespace Machine

variable {s : Machine} {k : ℕ}

theorem next_curr (i : Input) (h : s.cloareS = false) :
    (s.next i).curr = s.curr.next s.runS := by
  simp [next, h]

/-- The adding edge: a one bit of `B` adds the switches, or subtracts them in the
last round. -/
theorem next_add (i : Input) (hk : k < 8) (hcurr : s.curr = addState k)
    (hsign : s.x = s.a.msb) :
    (s.next i).b = s.b ∧
    (BitVec.cons (s.next i).x (s.next i).a).toInt =
      s.a.toInt + (if k = 7 then -i.din.toInt else i.din.toInt) * (s.b.toNat % 2 : ℕ) := by
  have hc : s.control = { add := s.b.getLsbD 0, sub := s.b.getLsbD 0 && decide (k = 7) } := by
    rw [control, hcurr, addState_control hk]
  refine ⟨by simp [next, hc, reg8], ?_⟩
  have hsum : (s.sum i.din).toInt =
      s.a.toInt + (if s.control.sub then -i.din.toInt else i.din.toInt) :=
    adder9_toInt s.a i.din s.control.sub
  rw [← toNat_getLsbD_zero]
  cases hb : s.b.getLsbD 0 with
  | false =>
    rw [hb] at hc
    have hx : (s.next i).x = s.a.msb := by simp [next, hc, reg1, hsign]
    have ha : (s.next i).a = s.a := by simp [next, hc, reg8]
    rw [hx, ha, toInt_cons_msb]
    simp
  | true =>
    rw [hb] at hc
    have hx : (s.next i).x = (s.sum i.din).getLsbD 8 := by simp [next, hc, reg1]
    have ha : (s.next i).a = (s.sum i.din).extractLsb' 0 8 := by simp [next, hc, reg8]
    rw [hx, ha, cons_split, hsum, hc]
    simp

/-- The shifting edge, in the nine-bit number and in the register `B`. -/
theorem next_shift (i : Input) (hk : k < 8) (hcurr : s.curr = shiftState k) :
    (s.next i).x = (s.next i).a.msb ∧
    (s.next i).a.toInt = (BitVec.cons s.x s.a).toInt / 2 ∧
    (s.next i).b.toNat =
      ((BitVec.cons s.x s.a).toInt % 2).toNat * 2 ^ 7 + s.b.toNat / 2 := by
  have hc : s.control = { shift := true } := by
    rw [control, hcurr, shiftState_control hk]
  have hx : (s.next i).x = s.x := by simp [next, hc, reg1]
  have ha : (s.next i).a = BitVec.cons s.x (s.a.extractLsb' 1 7) := by simp [next, hc, reg8]
  have hb : (s.next i).b = BitVec.cons (s.a.getLsbD 0) (s.b.extractLsb' 1 7) := by
    simp [next, hc, reg8]
  refine ⟨?_, ?_, ?_⟩
  · rw [hx, ha]
    exact BitVec.msb_cons.symm
  · rw [ha]
    exact toInt_cons_shift s.x s.a
  · rw [hb, toNat_cons_shift, toInt_cons_mod_two]

/-! ### Rounds -/

/-- The invariant in the adding state of round `k`, for the multiplicand `S` and the
multiplier `m`. -/
structure InRound (S m : BitVec 8) (k : ℕ) (s : Machine) : Prop where
  curr : s.curr = addState k
  sign : s.x = s.a.msb
  part : PartialProduct 8 S.toInt m.toNat k s.a.toInt s.b.toNat

variable {S m : BitVec 8} {i j : Input}

theorem InRound.first (hstart : s.curr = .start) (hcl : s.cloareS = false) :
    InRound S s.b 0 (s.next i) := by
  have hc : s.control = { clearA := true } := by rw [control, hstart]; rfl
  have ha : (s.next i).a = 0#8 := by simp [next, hc, reg8]
  have hb : (s.next i).b = s.b := by simp [next, hc, reg8]
  refine ⟨?_, ?_, ?_⟩
  · rw [next_curr i hcl, hstart]; rfl
  · rw [ha]
    simp [next, hc, reg1]
  · rw [ha, hb]
    exact PartialProduct.start _ s.b.isLt

/-- The control through the two edges of a round. -/
theorem InRound.mid_curr (h : InRound S m k s) (hk : k < 8) (hcl : s.cloareS = false) :
    (s.next i).curr = shiftState k := by
  rw [next_curr i hcl, h.curr, addState_next hk]

/-- **Two edges are one round.** -/
theorem InRound.next_next (h : InRound S m k s) (hk : k < 7) (hdin : i.din = S)
    (hcl : s.cloareS = false) (hcl' : (s.next i).cloareS = false) :
    InRound S m (k + 1) ((s.next i).next j) := by
  have hmid := h.mid_curr (i := i) (by omega) hcl
  obtain ⟨hb, hsum⟩ := next_add i (by omega) h.curr h.sign
  obtain ⟨hx', ha', hb'⟩ := next_shift j (by omega) hmid
  rw [if_neg (by omega), hdin] at hsum
  refine ⟨?_, hx', ?_⟩
  · rw [next_curr j hcl', hmid, shiftState_next hk]
  · rw [ha', hb', hb]
    exact h.part.round (by omega) hsum

/-- **The last round** ends in `End`, with the product in `{A, B}`. -/
theorem InRound.last (h : InRound S m 7 s) (hdin : i.din = S)
    (hcl : s.cloareS = false) (hcl' : (s.next i).cloareS = false) :
    ((s.next i).next j).curr = .end_ ∧
    ((s.next i).next j).x = ((s.next i).next j).a.msb ∧
    (((s.next i).next j).a ++ ((s.next i).next j).b).toInt = m.toInt * S.toInt := by
  have hmid := h.mid_curr (i := i) (by omega) hcl
  obtain ⟨hb, hsum⟩ := next_add i (by omega) h.curr h.sign
  obtain ⟨hx', ha', hb'⟩ := next_shift j (by omega) hmid
  rw [if_pos rfl, hdin, Int.neg_mul, ← sub_eq_add_neg] at hsum
  refine ⟨?_, hx', ?_⟩
  · rw [next_curr j hcl', hmid]; rfl
  · have hval := h.part.last m.isLt hsum
    rw [toInt_append, ha', hb', hb, hval, BitVec.toInt_eq_toNat_bmod m, mul_comm]

/-! ### The whole multiplication -/

variable {w : ℕ → Input}

/-- The machine is in round `k` after `2 * k + 1` edges. -/
theorem run_inRound (hstart : s.curr = .start)
    (hdin : ∀ t < 17, (w t).din = S) (hcl : ∀ t < 17, (run next w s t).cloareS = false) :
    ∀ k ≤ 7, InRound S s.b k (run next w s (2 * k + 1)) := by
  intro k
  induction k with
  | zero => intro _; exact InRound.first hstart (hcl 0 (by omega))
  | succ k ih =>
    intro hk
    have hmid := hcl (2 * k + 1 + 1) (by omega)
    rw [run_succ] at hmid
    exact (ih (by omega)).next_next (by omega) (hdin (2 * k + 1) (by omega))
      (hcl (2 * k + 1) (by omega)) hmid

/-- **The product.**  Seventeen edges after `Start` the control is in `End` for the
first time, and `{A, B}` holds the product. -/
theorem run_multiply (hstart : s.curr = .start)
    (hdin : ∀ t < 17, (w t).din = S) (hcl : ∀ t < 17, (run next w s t).cloareS = false) :
    (∀ t < 17, (run next w s t).curr ≠ .end_) ∧
    (run next w s 17).curr = .end_ ∧
    (run next w s 17).x = (run next w s 17).a.msb ∧
    ((run next w s 17).a ++ (run next w s 17).b).toInt = s.b.toInt * S.toInt := by
  have hround := run_inRound hstart hdin hcl
  refine ⟨?_, (hround 7 (by omega)).last (hdin 15 (by omega)) (hcl 15 (by omega))
    (hcl 16 (by omega))⟩
  intro t ht
  rcases Nat.eq_zero_or_pos t with rfl | hpos
  · rw [run_zero, hstart]; decide
  · obtain ⟨k, hk | hk⟩ : ∃ k, t = 2 * k + 1 ∨ t = 2 * k + 1 + 1 := ⟨(t - 1) / 2, by omega⟩
    · rw [hk, (hround k (by omega)).curr]
      exact (round_ne_end (by omega)).1
    · rw [hk, run_succ, (hround k (by omega)).mid_curr (by omega) (hcl _ (by omega))]
      exact (round_ne_end (by omega)).2

/-- The states in which no edge changes `X`, `A` or `B`: the ones outside a
multiplication. -/
def Idle (c : CState) : Prop := c = .end_ ∨ c = .wait

theorem next_idle (i : Input) (h : Idle s.curr) :
    (s.next i).x = s.x ∧ (s.next i).a = s.a ∧ (s.next i).b = s.b := by
  have hc : s.control = {} := by
    rcases h with h | h <;> rw [control, h] <;> rfl
  simp [next, hc, reg1, reg8]

theorem idle_of_next {i : Input} (h : Idle s.curr) (hstart : (s.next i).curr ≠ .start)
    (hinit : (s.next i).curr ≠ .initial) : Idle (s.next i).curr := by
  cases hcl : s.cloareS with
  | true => exact absurd (by simp [next, hcl]) hinit
  | false =>
    rw [next_curr i hcl] at hstart ⊢
    rcases h with h | h <;> cases hr : s.runS <;> simp_all [CState.next, Idle]

/-- **Frame.**  After `End` the product stays until the edge that leaves `Start` or
`Initial`. -/
theorem run_idle (h : s.curr = .end_) :
    ∀ n, (∀ t < n, (run next w s t).curr ≠ .start ∧ (run next w s t).curr ≠ .initial) →
      (run next w s n).x = s.x ∧ (run next w s n).a = s.a ∧ (run next w s n).b = s.b := by
  intro n hn
  have hidle : ∀ t < n, Idle (run next w s t).curr := by
    intro t
    induction t with
    | zero => intro _; exact .inl h
    | succ t ih =>
      intro ht
      obtain ⟨h1, h2⟩ := hn (t + 1) ht
      exact idle_of_next (ih (by omega)) h1 h2
  induction n with
  | zero => exact ⟨rfl, rfl, rfl⟩
  | succ n ih =>
    obtain ⟨hx, ha, hb⟩ := next_idle (w n) (hidle n (by omega))
    obtain ⟨hx', ha', hb'⟩ := ih (fun t ht => hn t (by omega)) fun t ht => hidle t (by omega)
    exact ⟨hx.trans hx', ha.trans ha', hb.trans hb'⟩

/-- With `Run` held and no `Cloare` the control stays in `End`. -/
theorem next_held (i : Input) (s : Machine) (hs : s.runS = true ∧ s.cloareS = false)
    (h : s.curr = .end_) : (next i s).curr = .end_ := by
  rw [next_curr i hs.2, h, hs.1]
  rfl

theorem run_held (h : s.curr = .end_) :
    ∀ n, (∀ t < n, (run next w s t).runS = true ∧ (run next w s t).cloareS = false) →
      (run next w s n).curr = .end_ :=
  run_invariant next_held h

/-- **The multiplier.**  From `Start`, with steady switches `S` and no `Cloare` seen
before `End`, the control is in `End` after seventeen edges and not sooner, with the
signed product in `{A, B}` and its sign in `X`.  From then on `{X, A, B}` is steady up to
the next `Start` or `Initial`; a `Run` that is held starts nothing as long as no
`Cloare` is seen; and the next multiplication, by `S'`, is of the low byte that this one
left. -/
theorem multiplies (s : Machine) (w : ℕ → Input) (S : BitVec 8) (hstart : s.curr = .start)
    (hdin : ∀ t < 17, (w t).din = S) (hcl : ∀ t < 17, (run next w s t).cloareS = false) :
    (∀ t < 17, (run next w s t).curr ≠ .end_) ∧
    (run next w s 17).curr = .end_ ∧
    (run next w s 17).x = (run next w s 17).a.msb ∧
    ((run next w s 17).a ++ (run next w s 17).b).toInt = s.b.toInt * S.toInt ∧
    (∀ n, 17 ≤ n →
      (∀ t, 17 ≤ t → t < n →
        (run next w s t).curr ≠ .start ∧ (run next w s t).curr ≠ .initial) →
      (run next w s n).x = (run next w s 17).x ∧
      (run next w s n).a = (run next w s 17).a ∧
      (run next w s n).b = (run next w s 17).b) ∧
    (∀ n, 17 ≤ n →
      (∀ t, 17 ≤ t → t < n →
        (run next w s t).runS = true ∧ (run next w s t).cloareS = false) →
      (run next w s n).curr = .end_) ∧
    (∀ n S', 17 ≤ n → (run next w s n).curr = .start →
      (∀ t, 17 ≤ t → t < n →
        (run next w s t).curr ≠ .start ∧ (run next w s t).curr ≠ .initial) →
      (∀ t, n ≤ t → t < n + 17 → (w t).din = S' ∧ (run next w s t).cloareS = false) →
      (run next w s (n + 17)).curr = .end_ ∧
      ((run next w s (n + 17)).a ++ (run next w s (n + 17)).b).toInt =
        (run next w s 17).b.toInt * S'.toInt) := by
  obtain ⟨hfirst, hend, hx, hprod⟩ := run_multiply hstart hdin hcl
  have hframe : ∀ n, 17 ≤ n →
      (∀ t, 17 ≤ t → t < n →
        (run next w s t).curr ≠ .start ∧ (run next w s t).curr ≠ .initial) →
      (run next w s n).x = (run next w s 17).x ∧
      (run next w s n).a = (run next w s 17).a ∧
      (run next w s n).b = (run next w s 17).b := by
    intro n hn hquiet
    obtain ⟨d, rfl⟩ := Nat.exists_eq_add_of_le hn
    rw [run_add]
    refine run_idle hend d fun t ht => ?_
    rw [← run_add]
    exact hquiet _ (by omega) (by omega)
  refine ⟨hfirst, hend, hx, hprod, hframe, ?_, ?_⟩
  · intro n hn hheld
    obtain ⟨d, rfl⟩ := Nat.exists_eq_add_of_le hn
    rw [run_add]
    refine run_held hend d fun t ht => ?_
    rw [← run_add]
    exact hheld _ (by omega) (by omega)
  · intro n S' hn hagain hquiet hin
    rw [run_add, ← (hframe n hn hquiet).2.2]
    obtain ⟨-, hend', -, hprod'⟩ := run_multiply (w := delay n w) (S := S') hagain
      (fun t ht => (hin _ (by omega) (by omega)).1)
      fun t ht => by rw [← run_add]; exact (hin _ (by omega) (by omega)).2
    exact ⟨hend', hprod'⟩

/-- After power-up. -/
def powerUp : Machine where
  curr := .initial
  x := false
  a := 0
  b := 0
  runS := false
  cloareS := false
  dinS := 0

/-- `Run` stays pressed, the switches hold `-128`, and `Cloare` is pressed at the
edges `0` and `c`. -/
def heldRun (c : ℕ) : ℕ → Input := fun t =>
  { run := false, cloare := t ≠ 0 && t ≠ c, din := 0x80#8 }

theorem multiplies_powerUp :
    ((run next (delay 4 (heldRun 0)) (run next (heldRun 0) powerUp 4) 17).a ++
      (run next (delay 4 (heldRun 0)) (run next (heldRun 0) powerUp 4) 17).b).toInt =
        (0x80#8).toInt * (0x80#8).toInt :=
  (multiplies (run next (heldRun 0) powerUp 4) (delay 4 (heldRun 0)) 0x80#8 rfl
    (fun _ _ => rfl) (by decide +kernel)).2.2.2.1

/-- `Cloare`, pressed after `End`, sends the control through `Initial` and `Wait` into a
second `Start`, with `Run` seen high all the time. -/
theorem cloare_restarts_held_run :
    (run next (heldRun 21) powerUp 4).curr = .start ∧
    (∀ t < 17, (run next (heldRun 21) powerUp (4 + t)).cloareS = false) ∧
    (run next (heldRun 21) powerUp 21).curr = .end_ ∧
    (∀ t < 26, 4 ≤ t → (run next (heldRun 21) powerUp t).runS = true) ∧
    (run next (heldRun 21) powerUp 25).curr = .start := by
  decide +kernel

end Machine

end ECE385.Lab4
