import ECE385.Spi.Core

/-!
# The shift register of the SPI master

Once a byte is loaded the master needs no help, and nothing disturbs it: `18` states of `10` edges.
`SCLK` rises on leaving the odd states up to `15`, where `MISO` is sampled, and falls on leaving the
even ones, where the sample is shifted in.  All this holds whatever goes on on the bus.

* `Still`, `Sending`: the registers between two bytes, and in state `s` at count `t`.
* `Still.next_still`, `Still.next_load`, `Sending.next`: an edge.
-/

namespace ECE385.Spi

open Bits

/-- The `SCLK` pulses of the bits `got` that have come for `b`. -/
def pulses (b : BitVec 8) (got : List Bool) : List Wire := List.zipWith Wire.bit (msbFirst b) got

/-- The pulses that exchange the bytes `b` and `r`. -/
def exchange (b r : BitVec 8) : List Wire := pulses b (msbFirst r)

/-- The pulses that exchange some bytes with some others. -/
def exchanges (sent answers : List (BitVec 8)) : List Wire :=
  (List.zipWith exchange sent answers).flatten

theorem exchanges_concat {sent answers : List (BitVec 8)} (h : answers.length = sent.length)
    (b rx : BitVec 8) :
    exchanges (sent ++ [b]) (answers ++ [rx]) = exchanges sent answers ++ exchange b rx := by
  rw [exchanges, List.zipWith_append h.symm, List.flatten_append]
  simp [exchanges]

theorem zipWith_concat {α β γ : Type} (f : α → β → γ) (d : α) (y : β) :
    ∀ (xs : List α) (ys : List β), ys.length < xs.length →
      List.zipWith f xs (ys ++ [y]) = List.zipWith f xs ys ++ [f (xs.getD ys.length d) y] := by
  intro xs ys
  induction ys generalizing xs with
  | nil =>
    intro h
    cases xs with
    | nil => exact absurd h (Nat.lt_irrefl 0)
    | cons x xs => simp
  | cons y' ys ih =>
    intro h
    cases xs with
    | nil => exact absurd h (Nat.not_lt_zero _)
    | cons x xs =>
      rw [List.cons_append, List.zipWith_cons_cons, List.zipWith_cons_cons, List.cons_append,
        ih xs (Nat.lt_of_succ_lt_succ h)]
      rfl

namespace Core

/-- A rising edge of `SCLK`. -/
def pulse (i : Port) (c : Core) : List Wire :=
  if !c.SCLK_reg && (c.next i).SCLK_reg then [.bit (c.next i).MOSI i.MISO] else []

/-- No byte is on its way. -/
structure Still (c : Core) : Prop where
  transmitting : c.transmitting = false
  SCLK : c.SCLK_reg = false
  slowcount : c.slowcount = 0
  state : c.state = 0
  stateZero : c.stateZero = true

/-- In state `s` at count `t` of the exchange of `b`, with the bits `got` sampled. -/
structure Sending (b : BitVec 8) (got : List Bool) (s t : ℕ) (c : Core) : Prop where
  transmitting : c.transmitting = true
  state : c.state.toNat = s
  state_le : s ≤ 17
  slowcount : c.slowcount.toNat = t
  slowcount_le : t ≤ 9
  stateZero : c.stateZero = decide (s = 0)
  SCLK : c.SCLK_reg = decide (s % 2 = 0 ∧ s ≠ 0)
  length : got.length = s / 2
  shift : c.shift_reg = (got.take ((s - 1) / 2)).foldl push b
  sample : s % 2 = 0 → s ≠ 0 → got.getLast? = some c.MISO_reg

variable {i : Port} {c : Core} {b rx : BitVec 8} {got : List Bool} {s t : ℕ}

theorem slowclock_eq (h : c.slowcount.toNat = t) : c.slowclock = decide (t = 9) := by
  rw [Core.slowclock, ← h, beq_eq_decide]
  exact decide_eq_decide.mpr BitVec.toNat_inj.symm

theorem last_eq (h : c.state.toNat = s) : (c.state == 17) = decide (s = 17) := by
  rw [← h, beq_eq_decide]
  exact decide_eq_decide.mpr BitVec.toNat_inj.symm

/-! ### Between two bytes -/

section Still

variable (h : Still c)

include h

theorem Still.slowclock : c.slowclock = false := by
  rw [Core.slowclock, h.slowcount]
  rfl

theorem Still.next_rx : (next i c).rx_holding_reg = c.rx_holding_reg := by
  simp only [next, h.slowclock, Bool.false_and, Bool.false_eq_true, if_false]

theorem Still.next_SCLK : (next i c).SCLK_reg = false := by
  simp only [next, h.slowclock, Bool.false_eq_true, if_false, h.SCLK]

theorem Still.next_still (hload : c.write_shift_reg = false) : Still (next i c) := by
  constructor <;> simp [Core.next, p1_slowcount, h.slowclock, hload, h.transmitting, h.SCLK,
    h.state,
    h.stateZero]

/-- The byte is loaded. -/
theorem Still.next_load (hload : c.write_shift_reg = true) :
    Sending c.tx_holding_reg [] 0 0 (next i c) := by
  constructor <;> simp [Core.next, p1_slowcount, h.slowclock, hload, h.transmitting, h.SCLK,
    h.state,
    h.stateZero]

end Still

/-! ### A byte on its way -/

section Sending

variable (h : Sending b got s t c)

include h

theorem Sending.slowclock : c.slowclock = decide (t = 9) := slowclock_eq h.slowcount

theorem Sending.load : c.write_shift_reg = false := by
  rw [write_shift_reg, h.transmitting, Bool.not_true, Bool.and_false]

/-- The bit that is on the wire. -/
theorem Sending.MOSI (hs : s < 17) : c.MOSI = (msbFirst b).getD ((s - 1) / 2) false := by
  have hlen : (got.take ((s - 1) / 2)).length = (s - 1) / 2 := by
    have := h.length
    rw [List.length_take, this]
    omega
  rw [Core.MOSI, h.shift, getLsbD_top_foldl_push b (by omega), hlen]

theorem Sending.not_last (hs : s < 17) : c.state ≠ 17 := by
  intro h17
  have hstate := last_eq h.state
  rw [h17, beq_self_eq_true] at hstate
  have := of_decide_eq_true hstate.symm
  omega

/-- Between the ticks of the slow clock. -/
theorem Sending.next_count (ht : t < 9) : Sending b got s (t + 1) (next i c) := by
  have hslow : c.slowclock = false := by rw [h.slowclock]; exact decide_eq_false (by omega)
  have hload := h.load
  have hcount : (c.slowcount + 1).toNat = t + 1 := by
    rw [BitVec.toNat_add, h.slowcount]; exact Nat.mod_eq_of_lt (show t + 1 < 16 by omega)
  constructor
  case state_le => exact h.state_le
  case slowcount_le => omega
  case length => exact h.length
  case slowcount =>
    simp only [Core.next, p1_slowcount, hslow, h.transmitting, Bool.not_false, Bool.and_true,
      if_true, hcount]
  case sample =>
    simp only [Core.next, hslow, Bool.false_and, Bool.false_eq_true, if_false]
    exact h.sample
  all_goals simp [Core.next, hslow, hload, h.transmitting, h.SCLK, h.state, h.stateZero, h.shift]

/-! At a tick: -/

section Tick

variable (ht : t = 9)

include ht

theorem Sending.tick : c.slowclock = true := by
  rw [h.slowclock]
  exact decide_eq_true ht

theorem Sending.next_state (hs : s < 17) : (next i c).state.toNat = s + 1 := by
  simp only [Core.next, h.transmitting, h.tick ht, Bool.and_true, if_true, h.not_last hs, if_false]
  rw [BitVec.toNat_add, h.state]
  exact Nat.mod_eq_of_lt (show s + 1 < 32 by omega)

theorem Sending.next_SCLK (hs : s < 17) : (next i c).SCLK_reg = decide ((s + 1) % 2 = 0) := by
  have h0 : c.state = 0 ↔ s = 0 := by rw [← h.state]; exact BitVec.toNat_inj.symm
  simp only [Core.next, h.tick ht, if_true, h.not_last hs, if_false, h.transmitting,
    Bool.and_true, decide_not, Bool.not_eq_true', decide_eq_false_iff_not, h0, h.SCLK]
  by_cases hs0 : s = 0
  · rw [if_neg (by simp [hs0])]
    simp [hs0]
  · rw [if_pos hs0, ← decide_not, decide_eq_decide]
    omega

/-- In all but the last state. -/
theorem Sending.next_tick (hs : s < 17) {got' : List Bool} (hlen : got'.length = (s + 1) / 2)
    (hshift : (next i c).shift_reg = (got'.take (s / 2)).foldl push b)
    (hsample : s % 2 = 1 → got'.getLast? = some (next i c).MISO_reg) :
    Sending b got' (s + 1) 0 (next i c) := by
  have hslow := h.tick ht
  have hload := h.load
  have hlast : (c.state == 17) = false := beq_eq_false_iff_ne.mpr (h.not_last hs)
  constructor
  case state => exact h.next_state ht hs
  case state_le => omega
  case slowcount_le => omega
  case length => exact hlen
  case shift => exact hshift
  case sample => intro heven _; exact hsample (by omega)
  case SCLK =>
    rw [h.next_SCLK ht hs, decide_eq_decide]
    omega
  case transmitting =>
    simp only [Core.next, hlast, hload, h.transmitting, Bool.and_false, Bool.false_eq_true,
      if_false]
  case stateZero =>
    simp only [Core.next, hslow, hlast, h.transmitting, Bool.and_true, if_true]
    exact (decide_eq_false (Nat.succ_ne_zero s)).symm
  case slowcount =>
    simp only [Core.next, p1_slowcount, hslow, Bool.not_true, Bool.and_false, Bool.false_eq_true,
      if_false]
    rfl

/-- The clock falls, or the exchange begins. -/
theorem Sending.next_even (hs : s < 17) (heven : s % 2 = 0) :
    Sending b got (s + 1) 0 (next i c) := by
  have hlen := h.length
  refine h.next_tick ht hs (by omega) ?_ (by omega)
  by_cases h0 : s = 0
  · have hSCLK : c.SCLK_reg = false := by rw [h.SCLK]; exact decide_eq_false (by omega)
    simp only [Core.next, hSCLK, h.load, Bool.and_false, Bool.false_eq_true, if_false]
    rw [h.shift, h0]
  · have hSCLK : c.SCLK_reg = true := by rw [h.SCLK]; exact decide_eq_true ⟨heven, h0⟩
    obtain ⟨got', hgot⟩ := List.getLast?_eq_some_iff.mp (h.sample heven h0)
    have hlen' : got'.length = (s - 1) / 2 := by
      rw [hgot, List.length_append, List.length_singleton] at hlen
      omega
    simp only [Core.next, hSCLK, h.tick ht, Bool.and_true, if_true]
    rw [List.take_of_length_le (by omega), h.shift, hgot, List.take_left' hlen', List.foldl_append,
      List.foldl_cons, List.foldl_nil]

/-- The clock rises, and the bit on `MISO` is sampled. -/
theorem Sending.next_odd (hs : s < 17) (hodd : s % 2 = 1) :
    Sending b (got ++ [i.MISO]) (s + 1) 0 (next i c) := by
  have hlen := h.length
  have hSCLK : c.SCLK_reg = false := by rw [h.SCLK]; exact decide_eq_false (by omega)
  refine h.next_tick ht hs (by rw [List.length_append, List.length_singleton]; omega) ?_ fun _ => ?_
  · simp only [Core.next, hSCLK, h.load, Bool.and_false, Bool.false_eq_true, if_false]
    rw [h.shift, List.take_append_of_le_length (by omega)]
    congr 2
    omega
  · simp only [Core.next, h.tick ht, hSCLK, Bool.not_false, Bool.and_true, if_true]
    exact List.getLast?_concat

/-- The answer is there. -/
theorem Sending.next_last (hs : s = 17) :
    Still (next i c) ∧ (next i c).RRDY = true ∧ msbFirst (next i c).rx_holding_reg = got := by
  have hslow := h.tick ht
  have hload := h.load
  have hstate : c.state = 17 := BitVec.eq_of_toNat_eq (by rw [h.state, hs]; rfl)
  have hlen := h.length
  have hshift := h.shift
  rw [List.take_of_length_le (by omega)] at hshift
  refine ⟨?_, ?_, ?_⟩
  · constructor <;> simp [Core.next, p1_slowcount, hslow, hstate, h.transmitting]
  · simp [Core.next, hslow, hstate]
  · simp only [Core.next, hslow, hstate, beq_self_eq_true, Bool.and_true, if_true, hshift]
    exact msbFirst_foldl_push b (by omega)

end Tick

theorem Sending.lt_180 : 10 * s + t < 180 := by
  have hs := h.state_le
  have ht := h.slowcount_le
  omega

/-- Until the last edge neither the answer nor its flag is touched. -/
theorem Sending.last_edge : (c.slowclock && c.state == 17) = decide (10 * s + t = 179) := by
  have hs := h.state_le
  have ht := h.slowcount_le
  rw [h.slowclock, last_eq h.state, ← Bool.decide_and, decide_eq_decide]
  omega

/-- **An edge before the last.** -/
theorem Sending.next (hst : 10 * s + t < 179) :
    ∃ got' s' t', Sending b got' s' t' (next i c) ∧ 10 * s' + t' = 10 * s + t + 1 ∧
      pulses b got' = pulses b got ++ pulse i c := by
  have hle := h.slowcount_le
  have hs := h.state_le
  have hlen := h.length
  rw [pulse, h.SCLK]
  by_cases ht : t = 9
  · by_cases hodd : s % 2 = 1
    · have h' := h.next_odd (i := i) ht (by omega) hodd
      refine ⟨_, _, _, h', by omega, ?_⟩
      rw [h'.SCLK, decide_eq_false (by omega), decide_eq_true (by omega), h'.MOSI (by omega),
        show (s + 1 - 1) / 2 = got.length by omega, Bool.not_false, Bool.true_and, if_pos rfl]
      exact zipWith_concat _ _ _ _ _ (by rw [length_msbFirst]; omega)
    · have h' := h.next_even (i := i) ht (by omega) (by omega)
      refine ⟨_, _, _, h', by omega, ?_⟩
      rw [h'.SCLK, decide_eq_false (p := (s + 1) % 2 = 0 ∧ s + 1 ≠ 0) (by omega), Bool.and_false,
        if_neg Bool.false_ne_true, List.append_nil]
  · have h' := h.next_count (i := i) (by omega)
    refine ⟨_, _, _, h', by omega, ?_⟩
    rw [h'.SCLK, Bool.not_and_self, if_neg Bool.false_ne_true, List.append_nil]

/-- **The last edge.** -/
theorem Sending.done (hst : 10 * s + t = 179) :
    Still (Core.next i c) ∧ (Core.next i c).RRDY = true ∧ pulse i c = [] ∧
      exchange b (Core.next i c).rx_holding_reg = pulses b got := by
  have hle := h.slowcount_le
  have hs := h.state_le
  obtain ⟨hstill, hRRDY, hrx⟩ := h.next_last (i := i) (by omega) (by omega)
  refine ⟨hstill, hRRDY, ?_, by rw [exchange, hrx]⟩
  rw [pulse, hstill.SCLK, Bool.and_false, if_neg Bool.false_ne_true]

end Sending

end Core

end ECE385.Spi
