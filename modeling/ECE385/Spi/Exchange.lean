import ECE385.Spi.Shifter

/-!
# A byte on the wires

Between the accesses of the driver nothing is written: from the moment a byte is in the holding
register the answer is `181` edges away.

* `Progress b n`: `n` edges are left until the answer to `b` can be read.
* `Progress.next`: an edge without a strobe makes it one less.
-/

namespace ECE385.Spi

open Bits

namespace Core

/-- No strobe acts at the next edge. -/
structure Quiet (c : Core) : Prop where
  wr : c.wr_strobe = false
  data_wr : c.data_wr_strobe = false
  data_rd : c.data_rd_strobe = false

/-- The chip is held selected. -/
structure Held (c : Core) : Prop where
  SSO : c.SSO_reg = true
  select : c.spi_slave_select_reg.getLsbD 0 = true
  holding : c.spi_slave_select_holding_reg.getLsbD 0 = true

/-- Nothing to send; the last answer is `rx`. -/
structure Rests (rrdy : Bool) (rx : BitVec 8) (c : Core) : Prop extends Still c where
  primed : c.tx_holding_primed = false
  RRDY : c.RRDY = rrdy
  rx : c.rx_holding_reg = rx

/-- The byte `b` is in the holding register. -/
structure Primed (b : BitVec 8) (c : Core) : Prop extends Still c where
  primed : c.tx_holding_primed = true
  holding : c.tx_holding_reg = b
  RRDY : c.RRDY = false

variable {i : Port} {c : Core} {b rx : BitVec 8}

/-! ### Edges without a strobe -/

section Quiet

variable (hq : Quiet c)

include hq

theorem Quiet.control : control_wr_strobe i c = false := by
  rw [control_wr_strobe, hq.wr, Bool.false_and]

theorem Quiet.status : status_wr_strobe i c = false := by
  rw [status_wr_strobe, hq.wr, Bool.false_and]

theorem Quiet.slaveselect : slaveselect_wr_strobe i c = false := by
  rw [slaveselect_wr_strobe, hq.wr, Bool.false_and]

theorem Quiet.tx_holding : c.write_tx_holding = false := by
  rw [write_tx_holding, hq.data_wr, Bool.false_and]

theorem Quiet.next_primed :
    (next i c).tx_holding_primed = if c.write_shift_reg then false else c.tx_holding_primed := by
  simp only [next, hq.tx_holding, Bool.not_false, Bool.and_true, Bool.false_eq_true, if_false]

theorem Quiet.next_RRDY :
    (next i c).RRDY = if c.slowclock && c.state == 17 then true else c.RRDY := by
  simp only [next, hq.status, hq.data_rd, Bool.false_eq_true, if_false]

end Quiet

/-! ### The selected chip -/

theorem Held.next (h : Held c) (hcontrol : control_wr_strobe i c = false)
    (hselect : slaveselect_wr_strobe i c = false) : Held (next i c) where
  SSO := by simp only [Core.next, hcontrol, Bool.false_eq_true, if_false, h.SSO]
  select := by
    simp only [Core.next]
    split
    · exact h.holding
    · exact h.select
  holding := by simp only [Core.next, hselect, Bool.false_eq_true, if_false, h.holding]

theorem Quiet.held (hq : Quiet c) (h : Held c) : Held (Core.next i c) :=
  h.next hq.control hq.slaveselect

theorem Held.SS_n (h : Held c) : c.SS_n = false := by
  rw [Core.SS_n, h.SSO, Bool.or_true, if_pos rfl, h.select, Bool.not_true]

/-- While the chip is held only the clock can change. -/
theorem Held.events (h : Held c) (h' : Held (Core.next i c)) : events i c = pulse i c := by
  simp only [Core.events, SCLK, h.SS_n, h'.SS_n, Bool.false_and, Bool.and_false, Bool.not_false,
    Bool.false_eq_true, if_false, List.nil_append, List.append_nil]
  rfl

/-! ### Between two bytes -/

/-- An edge at which nothing is written that matters. -/
theorem Rests.next {rrdy : Bool} (h : Rests rrdy rx c) (hstatus : status_wr_strobe i c = false)
    (htx : c.write_tx_holding = false) :
    Rests (rrdy && !c.data_rd_strobe) rx (next i c) := by
  have hload : c.write_shift_reg = false := by rw [write_shift_reg, h.primed, Bool.false_and]
  refine ⟨h.next_still hload, ?_, ?_, h.next_rx.trans h.rx⟩
  · simp only [Core.next, hload, htx, Bool.false_and, Bool.false_eq_true, if_false, h.primed]
  · simp only [Core.next, h.slowclock, hstatus, Bool.false_and, Bool.false_eq_true, if_false,
      h.RRDY]
    cases c.data_rd_strobe
    · rw [if_neg Bool.false_ne_true, Bool.not_false, Bool.and_true]
    · rw [if_pos rfl, Bool.not_true, Bool.and_false]

theorem Quiet.rests {rrdy : Bool} (hq : Quiet c) (h : Rests rrdy rx c) :
    Rests rrdy rx (Core.next i c) := by
  have h' := h.next (i := i) hq.status hq.tx_holding
  rwa [hq.data_rd, Bool.not_false, Bool.and_true] at h'

/-! ### What is left -/

/-- `n` edges are left until the answer to `b` can be read, and `log` is on the wires. -/
inductive Progress (b : BitVec 8) : ℕ → List Wire → Core → Prop
  | primed {c : Core} : Primed b c → Progress b 181 [] c
  | sending {got : List Bool} {s t : ℕ} {c : Core} : Sending b got s t c →
    c.tx_holding_primed = false → c.RRDY = false →
      Progress b (180 - (10 * s + t)) (pulses b got) c
  | done {rx : BitVec 8} {c : Core} : Rests true rx c → Progress b 0 (exchange b rx) c

/-- **An edge without a strobe.** -/
theorem Progress.next {n : ℕ} {log : List Wire} (h : Progress b n log c) (hq : Quiet c)
    (hheld : Held c) : Progress b (n - 1) (log ++ events i c) (next i c) := by
  rw [hheld.events (hq.held hheld)]
  cases h with
  | primed h =>
    have hload : c.write_shift_reg = true := by rw [write_shift_reg, h.primed, h.transmitting]; rfl
    have h' := h.next_load (i := i) hload
    rw [h.holding] at h'
    have hpulse : pulse i c = [] := by
      rw [pulse, h.next_SCLK, Bool.and_false, if_neg Bool.false_ne_true]
    rw [hpulse]
    refine .sending h' ?_ ?_
    · rw [hq.next_primed, hload, if_pos rfl]
    · rw [hq.next_RRDY, h.slowclock, Bool.false_and, if_neg Bool.false_ne_true, h.RRDY]
  | done h =>
    rw [pulse, h.next_SCLK, Bool.and_false, if_neg Bool.false_ne_true, List.append_nil]
    exact .done (hq.rests h)
  | @sending got s t _ h hprimed hRRDY =>
    have hlt := h.lt_180
    have hprimed' : (Core.next i c).tx_holding_primed = false := by
      rw [hq.next_primed, h.load, if_neg Bool.false_ne_true, hprimed]
    by_cases hst : 10 * s + t = 179
    · obtain ⟨hstill, hRRDY', hpulse, hexchange⟩ := h.done (i := i) hst
      rw [hpulse, List.append_nil, ← hexchange, hst]
      exact .done ⟨hstill, hprimed', hRRDY', rfl⟩
    · obtain ⟨got', s', t', h', hst', hlog⟩ := h.next (i := i) (by omega)
      rw [← hlog, show 180 - (10 * s + t) - 1 = 180 - (10 * s' + t') by omega]
      refine .sending h' hprimed' ?_
      rw [hq.next_RRDY, h.last_edge, decide_eq_false hst, if_neg Bool.false_ne_true, hRRDY]

end Core

end ECE385.Spi
