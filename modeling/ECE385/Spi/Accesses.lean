import ECE385.Firmware.Total
import ECE385.Spi.Driver
import ECE385.Spi.Exchange

/-!
# Accesses of the core

Each access as the driver makes it: from one settled situation of the core to another.

* `Ready`: nothing selected, nothing going on.
* `Listening`: the chip is selected and nothing is going on.
* `Exchanging b n`: a byte is on its way, `n` edges to go.
* `ready_slave_sel`, `listening_txdata`, `exchanging_status`, ...: the accesses.
-/

namespace ECE385.Spi

open Bits Firmware

/-- The port reads a register. -/
structure Port.Reads (reg : BitVec 3) (i : Port) : Prop where
  addr : i.mem_addr = reg
  read_n : i.read_n = false
  select : i.spi_select = true
  write_n : i.write_n = true

/-- The port writes a register. -/
structure Port.Writes (reg : BitVec 3) (data : BitVec 16) (i : Port) : Prop where
  addr : i.mem_addr = reg
  data : i.data_from_cpu = data
  read_n : i.read_n = true
  select : i.spi_select = true
  write_n : i.write_n = false

namespace Core

/-- No access is going on. -/
structure Calm (c : Core) : Prop extends Quiet c where
  rd : c.rd_strobe = false

variable {i j : Port} {c : Core} {reg : BitVec 3} {data : BitVec 16} {rrdy : Bool} {rx : BitVec 8}

theorem calm_of {i : Port} {c : Core} (hrd : p1_rd_strobe i c = false)
    (hwr : p1_wr_strobe i c = false) : Calm (next i c) where
  wr := hwr
  data_wr := by simp only [next, p1_data_wr_strobe, hwr, Bool.false_and]
  data_rd := by simp only [next, p1_data_rd_strobe, hrd, Bool.false_and]
  rd := hrd

/-- An edge without an access. -/
theorem calm_of_off (h : i.spi_select = false) : Calm (next i c) :=
  calm_of (by simp [p1_rd_strobe, h]) (by simp [p1_wr_strobe, h])

/-- The second edge of a read, and of a write. -/
theorem calm_of_reads (hi : i.Reads reg) (h : c.rd_strobe = true) : Calm (next i c) :=
  calm_of (by simp [p1_rd_strobe, h]) (by simp [p1_wr_strobe, hi.write_n])

theorem calm_of_writes (hi : i.Writes reg data) (h : c.wr_strobe = true) : Calm (next i c) :=
  calm_of (by simp [p1_rd_strobe, hi.read_n]) (by simp [p1_wr_strobe, h])

/-- The first edge of a read, and of a write. -/
theorem Calm.reads (h : Calm c) (hi : i.Reads reg) :
    (next i c).wr_strobe = false ∧ (next i c).data_wr_strobe = false ∧
      (next i c).data_rd_strobe = (reg == 0) ∧ (next i c).rd_strobe = true := by
  simp [next, p1_wr_strobe, p1_data_wr_strobe, p1_data_rd_strobe, p1_rd_strobe, hi.select, hi.addr,
    hi.read_n, hi.write_n, h.rd]

theorem Calm.writes (h : Calm c) (hi : i.Writes reg data) :
    (next i c).wr_strobe = true ∧ (next i c).data_wr_strobe = (reg == 1) ∧
      (next i c).data_rd_strobe = false := by
  simp [next, p1_wr_strobe, p1_data_wr_strobe, p1_data_rd_strobe, p1_rd_strobe, hi.select, hi.addr,
    hi.read_n, hi.write_n, h.wr]

/-! ### The wires -/

/-- Nothing is on the way. -/
theorem Rests.SS_n (h : Rests rrdy rx c) :
    c.SS_n = !(c.SSO_reg && c.spi_slave_select_reg.getLsbD 0) := by
  rw [Core.SS_n, enableSS, h.transmitting, Bool.false_and, Bool.false_or]
  cases c.SSO_reg
  · rfl
  · rw [if_pos rfl, Bool.true_and]

theorem Rests.events (h : Rests rrdy rx c) (h' : (Core.next i c).SCLK_reg = false) :
    events i c = (if c.SS_n && !(Core.next i c).SS_n then [.select] else []) ++
      (if !c.SS_n && (Core.next i c).SS_n then [.release] else []) := by
  simp only [Core.events, Core.SCLK, h.SCLK, h', Bool.and_false, Bool.false_eq_true, if_false,
    List.append_nil]

/-! ### The status word -/

theorem spi_status_bits :
    (c.spi_status.setWidth 16 &&& ALTERA_AVALON_SPI_STATUS_TRDY_MSK = 0 ↔ c.TRDY = false) ∧
    (c.spi_status.setWidth 16 &&& ALTERA_AVALON_SPI_STATUS_RRDY_MSK = 0 ↔ c.RRDY = false) ∧
    (c.spi_status.setWidth 16 &&& ALTERA_AVALON_SPI_STATUS_TMT_MSK = 0 ↔ c.TMT = false) := by
  unfold spi_status
  generalize c.EOP = a, c.E = b, c.RRDY = d, c.TRDY = e, c.TMT = f, c.TOE = g, c.ROE = h
  revert a b d e f g h
  decide

/-- What the first edge of a read puts on `data_to_cpu`. -/
theorem data_status (hi : i.Reads 2) : (next i c).data_to_cpu = c.spi_status.setWidth 16 := by
  simp only [next, p1_data_to_cpu, hi.addr, if_true]

theorem data_rx (hi : i.Reads 0) : (next i c).data_to_cpu = c.rx_holding_reg.setWidth 16 := by
  simp [next, p1_data_to_cpu, hi.addr]

end Core

open ECE385.Spi.Core

/-! ### Situations -/

/-- Nothing is selected and nothing is going on. -/
structure Ready (log : List Wire) (out : List String) (s : Sim) : Prop where
  rests : ∃ rrdy rx, Rests rrdy rx s.core
  SSO : s.core.SSO_reg = false
  wires : s.wires = log
  console : s.console = out

/-- The chip can be selected. -/
structure Chosen (log : List Wire) (out : List String) (s : Sim) : Prop
    extends Ready log out s where
  holding : s.core.spi_slave_select_holding_reg.getLsbD 0 = true

/-- The chip is selected and nothing is going on. -/
structure Listening (rrdy : Bool) (rx : BitVec 8) (log : List Wire) (out : List String) (s : Sim) :
    Prop where
  rests : Rests rrdy rx s.core
  held : Held s.core
  wires : s.wires = log
  console : s.console = out

/-- The byte `b` is on its way. -/
structure Exchanging (b : BitVec 8) (n : ℕ) (log : List Wire) (out : List String) (s : Sim) :
    Prop where
  progress : ∃ l, s.wires = log ++ l ∧ Progress b n l s.core
  held : Held s.core
  console : s.console = out

variable {B : Bench} {s : Sim} {i : Port} {log : List Wire} {out : List String} {rrdy : Bool}
  {reg : BitVec 3} {data : BitVec 16} {rx b : BitVec 8} {n : ℕ}

theorem ready_reset : Ready [] [] .reset :=
  ⟨⟨false, 0, ⟨rfl, rfl, rfl, rfl, rfl⟩, rfl, rfl, rfl⟩, rfl, rfl, rfl⟩

theorem calm_reset : Calm Sim.reset.core := ⟨⟨rfl, rfl, rfl⟩, rfl⟩

/-! ### Edges -/

theorem Ready.tick (h : Ready log out s) (hstatus : status_wr_strobe i s.core = false)
    (htx : s.core.write_tx_holding = false) (hcontrol : control_wr_strobe i s.core = false) :
    Ready log out (s.tick i) := by
  obtain ⟨rrdy, rx, hrests⟩ := h.rests
  have hrests' := hrests.next hstatus htx
  have hSSO : (Core.next i s.core).SSO_reg = false := by
    simp only [Core.next, hcontrol, Bool.false_eq_true, if_false, h.SSO]
  refine ⟨⟨_, _, hrests'⟩, hSSO, ?_, h.console⟩
  rw [Sim.tick, hrests.events hrests'.SCLK, hrests.SS_n, hrests'.SS_n, h.SSO, hSSO, h.wires]
  exact List.append_nil log

theorem Listening.tick (h : Listening rrdy rx log out s)
    (hstatus : status_wr_strobe i s.core = false) (htx : s.core.write_tx_holding = false)
    (hcontrol : control_wr_strobe i s.core = false)
    (hselect : slaveselect_wr_strobe i s.core = false) :
    Listening (rrdy && !s.core.data_rd_strobe) rx log out (s.tick i) := by
  have hrests' := h.rests.next hstatus htx
  have hheld' := h.held.next hcontrol hselect
  refine ⟨hrests', hheld', ?_, h.console⟩
  rw [Sim.tick, h.rests.events hrests'.SCLK, h.held.SS_n, hheld'.SS_n, h.wires]
  exact List.append_nil log

theorem Exchanging.tick (h : Exchanging b n log out s) (hq : Quiet s.core) :
    Exchanging b (n - 1) log out (s.tick i) := by
  obtain ⟨l, hwires, hl⟩ := h.progress
  refine ⟨⟨_, ?_, hl.next hq h.held⟩, hq.held h.held, h.console⟩
  rw [Sim.tick, hwires, List.append_assoc]

theorem Ready.quiet (h : Ready log out s) (hq : Quiet s.core) : Ready log out (s.tick i) :=
  h.tick hq.status hq.tx_holding hq.control

theorem Chosen.quiet (h : Chosen log out s) (hq : Quiet s.core) : Chosen log out (s.tick i) where
  toReady := h.toReady.quiet hq
  holding := by
    simp only [Sim.tick, Core.next, hq.slaveselect, Bool.false_eq_true, if_false, h.holding]

theorem Listening.quiet (h : Listening rrdy rx log out s) (hq : Quiet s.core) :
    Listening rrdy rx log out (s.tick i) := by
  have h' := h.tick (i := i) hq.status hq.tx_holding hq.control hq.slaveselect
  rwa [hq.data_rd, Bool.not_false, Bool.and_true] at h'

/-! ### Idle stretches -/

/-- What idle edges keep holds after a stretch of them. -/
theorem wait_induction {P : Sim → Prop}
    (hidle : ∀ s (i : Port), Quiet s.core → P s → P (s.tick i))
    (hcount : ∀ s k, P s → P { s with accesses := k }) (hcalm : Calm s.core) (h : P s) :
    Calm (s.wait B).core ∧ P (s.wait B) := by
  have key : ∀ k, Calm ((Sim.idle B)^[k] s).core ∧ P ((Sim.idle B)^[k] s) := by
    intro k
    induction k with
    | zero => exact ⟨hcalm, h⟩
    | succ k ih =>
      rw [Function.iterate_succ_apply']
      exact ⟨calm_of_off rfl, hidle _ _ ih.1.toQuiet ih.2⟩
  obtain ⟨hcalm', h'⟩ := key (B.gap s.accesses)
  exact ⟨hcalm', hcount _ _ h'⟩

theorem Ready.wait (h : Ready log out s) (hcalm : Calm s.core) :
    Calm (s.wait B).core ∧ Ready log out (s.wait B) :=
  wait_induction (fun _ _ hq h => h.quiet hq)
    (fun _ _ h => ⟨h.rests, h.SSO, h.wires, h.console⟩) hcalm h

theorem Chosen.wait (h : Chosen log out s) (hcalm : Calm s.core) :
    Calm (s.wait B).core ∧ Chosen log out (s.wait B) :=
  wait_induction (fun _ _ hq h => h.quiet hq)
    (fun _ _ h => ⟨⟨h.rests, h.SSO, h.wires, h.console⟩, h.holding⟩) hcalm h

theorem Listening.wait (h : Listening rrdy rx log out s) (hcalm : Calm s.core) :
    Calm (s.wait B).core ∧ Listening rrdy rx log out (s.wait B) :=
  wait_induction (fun _ _ hq h => h.quiet hq)
    (fun _ _ h => ⟨h.rests, h.held, h.wires, h.console⟩) hcalm h

theorem Exchanging.wait (h : Exchanging b n log out s) (hcalm : Calm s.core) :
    Calm (s.wait B).core ∧ ∃ m ≤ n, Exchanging b m log out (s.wait B) :=
  wait_induction (P := fun s => ∃ m ≤ n, Exchanging b m log out s)
    (fun _ _ hq ⟨m, hm, h⟩ => ⟨m - 1, Nat.le_trans (Nat.sub_le m 1) hm, h.tick hq⟩)
    (fun _ _ ⟨m, hm, h⟩ => ⟨m, hm, h.progress, h.held, h.console⟩) hcalm ⟨n, Nat.le_refl n, h⟩

/-! ### Accesses -/

theorem Bench.reads_reads (B : Bench) (reg : BitVec 3) (t : ℕ) : (B.reads reg t).Reads reg :=
  ⟨rfl, rfl, rfl, rfl⟩

theorem Bench.writes_writes (B : Bench) (reg : BitVec 3) (data : BitVec 16) (t : ℕ) :
    (B.writes reg data t).Writes reg data :=
  ⟨rfl, rfl, rfl, rfl, rfl⟩

/-- What a read of the status returns. -/
theorem serve_status (s : Sim) :
    (s.serve B (.rd ALTERA_AVALON_SPI_STATUS_REG)).1 = (s.wait B).core.spi_status.setWidth 16 :=
  data_status (B.reads_reads _ (s.wait B).edges)

/-- After the first edge of a read no write acts. -/
theorem reading_quiet (hcalm : Calm s.core) (hreg : reg ≠ 0) : Quiet (s.reading B reg).core := by
  obtain ⟨hwr, hdata, hrx, -⟩ := hcalm.reads (B.reads_reads reg s.edges)
  exact ⟨hwr, hdata, by rw [Sim.reading, Sim.tick, hrx, beq_eq_false_iff_ne]; exact hreg⟩

theorem reading_reading_calm (hcalm : Calm s.core) :
    Calm ((s.reading B reg).reading B reg).core :=
  calm_of_reads (B.reads_reads reg _) (hcalm.reads (B.reads_reads reg _)).2.2.2

theorem writing_writing_calm (B : Bench) (reg : BitVec 3) (data : BitVec 16) (hcalm : Calm s.core) :
    Calm ((s.writing B reg data).writing B reg data).core :=
  calm_of_writes (B.writes_writes reg data _) (hcalm.writes (B.writes_writes reg data _)).1

/-- The status of a core with a byte on its way. -/
theorem Progress.status {l : List Wire} {c : Core} (h : Progress b n l c) :
    c.TRDY = true ∧ (c.RRDY = false ↔ n ≠ 0) := by
  cases h with
  | primed h => simp [TRDY, h.transmitting, h.RRDY]
  | sending h hprimed hRRDY =>
    have := h.lt_180
    simp only [TRDY, hprimed, hRRDY, Bool.and_false, Bool.not_false, true_and, true_iff]
    omega
  | done h => simp [TRDY, h.transmitting, h.RRDY]

/-- **A poll while a byte is on its way.** -/
theorem Exchanging.serve_status (h : Exchanging b n log out s) (hcalm : Calm s.core) :
    ∃ (status : BitVec 16) (s' : Sim),
      s.serve B (.rd ALTERA_AVALON_SPI_STATUS_REG) = (status, s') ∧ Calm s'.core ∧
      status &&& ALTERA_AVALON_SPI_STATUS_TRDY_MSK ≠ 0 ∧
      (status &&& ALTERA_AVALON_SPI_STATUS_RRDY_MSK = 0 →
        ∃ m < n, Exchanging b m log out s') ∧
      (status &&& ALTERA_AVALON_SPI_STATUS_RRDY_MSK ≠ 0 → Exchanging b 0 log out s') := by
  obtain ⟨hcalm', m, hm, h'⟩ := h.wait (B := B) hcalm
  obtain ⟨l, -, hl⟩ := h'.progress
  obtain ⟨hTRDY, hRRDY⟩ := Spi.Progress.status hl
  have h2 : Exchanging b (m - 1 - 1) log out (s.serve B (.rd ALTERA_AVALON_SPI_STATUS_REG)).2 :=
    Exchanging.tick (h'.tick hcalm'.toQuiet) (reading_quiet hcalm' (by decide))
  refine ⟨(s.wait B).core.spi_status.setWidth 16, _, Prod.ext (Spi.serve_status s) rfl,
    reading_reading_calm hcalm', ?_, fun hz => ?_, fun hz => ?_⟩
  · rw [ne_eq, spi_status_bits.1, hTRDY]
    exact Bool.noConfusion
  · rw [spi_status_bits.2.1, hRRDY] at hz
    exact ⟨m - 1 - 1, by omega, h2⟩
  · rw [ne_eq, spi_status_bits.2.1, hRRDY, not_not] at hz
    subst hz
    exact h2

/-- The answer. -/
theorem Exchanging.done (h : Exchanging b 0 log out s) :
    ∃ rx, Listening true rx (log ++ exchange b rx) out s := by
  obtain ⟨l, hwires, hl⟩ := h.progress
  generalize hn : 0 = n at hl
  cases hl with
  | primed _ => exact absurd hn (by decide)
  | sending h' =>
    have := h'.state_le
    have := h'.slowcount_le
    omega
  | @done rx _ hrests => exact ⟨rx, hrests, h.held, hwires, h.console⟩

/-- **A poll when nothing is going on.** -/
theorem Listening.serve_status (h : Listening rrdy rx log out s) (hcalm : Calm s.core) :
    ∃ (status : BitVec 16) (s' : Sim),
      s.serve B (.rd ALTERA_AVALON_SPI_STATUS_REG) = (status, s') ∧ Calm s'.core ∧
      status &&& ALTERA_AVALON_SPI_STATUS_TRDY_MSK ≠ 0 ∧
      (status &&& ALTERA_AVALON_SPI_STATUS_RRDY_MSK = 0 ↔ rrdy = false) ∧
      status &&& ALTERA_AVALON_SPI_STATUS_TMT_MSK ≠ 0 ∧ Listening rrdy rx log out s' := by
  obtain ⟨hcalm', h'⟩ := h.wait (B := B) hcalm
  have h2 : Listening rrdy rx log out (s.serve B (.rd ALTERA_AVALON_SPI_STATUS_REG)).2 :=
    Listening.quiet (h'.quiet hcalm'.toQuiet) (reading_quiet hcalm' (by decide))
  refine ⟨(s.wait B).core.spi_status.setWidth 16, _, Prod.ext (Spi.serve_status s) rfl,
    reading_reading_calm hcalm', ?_, ?_, ?_, h2⟩
  · rw [ne_eq, spi_status_bits.1, TRDY, h'.rests.transmitting]
    exact Bool.noConfusion
  · rw [spi_status_bits.2.1, h'.rests.RRDY]
  · rw [ne_eq, spi_status_bits.2.2, TMT, h'.rests.transmitting, h'.rests.primed]
    decide

/-- **The answer is fetched.** -/
theorem Listening.serve_rxdata (h : Listening rrdy rx log out s) (hcalm : Calm s.core) :
    ∃ s', s.serve B (.rd ALTERA_AVALON_SPI_RXDATA_REG) = (rx.setWidth 16, s') ∧ Calm s'.core ∧
      Listening false rx log out s' := by
  obtain ⟨hcalm', h'⟩ := h.wait (B := B) hcalm
  obtain ⟨hwr, hdata, hrx, -⟩ := hcalm'.reads
    (B.reads_reads ALTERA_AVALON_SPI_RXDATA_REG (s.wait B).edges)
  have h1 : Listening rrdy rx log out ((s.wait B).reading B ALTERA_AVALON_SPI_RXDATA_REG) :=
    h'.quiet hcalm'.toQuiet
  have hoff : ∀ v : BitVec 3, (((s.wait B).reading B ALTERA_AVALON_SPI_RXDATA_REG).core.wr_strobe &&
      ALTERA_AVALON_SPI_RXDATA_REG == v) = false := fun v => by
    rw [Sim.reading, Sim.tick, hwr, Bool.false_and]
  have hrx' : ((s.wait B).reading B ALTERA_AVALON_SPI_RXDATA_REG).core.data_rd_strobe = true := hrx
  have h2 : Listening (rrdy && !((s.wait B).reading B _).core.data_rd_strobe) rx log out
      (s.serve B (.rd ALTERA_AVALON_SPI_RXDATA_REG)).2 :=
    h1.tick (hoff 2) (by rw [write_tx_holding, Sim.reading, Sim.tick, hdata, Bool.false_and])
      (hoff 3) (hoff 5)
  rw [hrx', Bool.not_true, Bool.and_false] at h2
  refine ⟨_, Prod.ext ?_ rfl, reading_reading_calm hcalm', h2⟩
  exact (data_rx (B.reads_reads _ (s.wait B).edges)).trans (congrArg _ h'.rests.rx)

/-- The strobes after the first edge of a write. -/
theorem writing_strobes (B : Bench) (reg : BitVec 3) (data : BitVec 16) (hcalm : Calm s.core) :
    (s.writing B reg data).core.wr_strobe = true ∧
      (s.writing B reg data).core.data_wr_strobe = (reg == 1) ∧
      (s.writing B reg data).core.data_rd_strobe = false :=
  hcalm.writes (B.writes_writes reg data _)

/-- **A byte is sent.** -/
theorem Listening.serve_txdata (h : Listening false rx log out s) (hcalm : Calm s.core) :
    ∃ s', s.serve B (.wr ALTERA_AVALON_SPI_TXDATA_REG data) = ((), s') ∧ Calm s'.core ∧
      Exchanging (data.setWidth 8) 181 log out s' := by
  obtain ⟨hcalm', h'⟩ := h.wait (B := B) hcalm
  obtain ⟨hwr, hdata, hrx⟩ := writing_strobes B ALTERA_AVALON_SPI_TXDATA_REG data hcalm'
  have h1 := h'.quiet (i := B.writes ALTERA_AVALON_SPI_TXDATA_REG data (s.wait B).edges)
    hcalm'.toQuiet
  generalize hs1 : (s.wait B).writing B ALTERA_AVALON_SPI_TXDATA_REG data = s1 at hwr hdata hrx
  change Listening false rx log out ((s.wait B).writing B ALTERA_AVALON_SPI_TXDATA_REG data) at h1
  rw [hs1] at h1
  have hslow := h1.rests.slowclock
  have hload : s1.core.write_shift_reg = false := by
    rw [write_shift_reg, h1.rests.primed, Bool.false_and]
  have htx : s1.core.write_tx_holding = true := by
    rw [write_tx_holding, hdata, TRDY, h1.rests.transmitting]; rfl
  have hprimed : Primed (data.setWidth 8)
      (s1.core.next (B.writes ALTERA_AVALON_SPI_TXDATA_REG data s1.edges)) := by
    refine ⟨h1.rests.next_still hload, ?_, ?_, ?_⟩ <;>
      simp [Core.next, hslow, hload, htx, h1.rests.RRDY, Bench.writes]
  have hheld : Held (s1.core.next (B.writes ALTERA_AVALON_SPI_TXDATA_REG data s1.edges)) :=
    h1.held.next (by rw [control_wr_strobe, hwr]; rfl) (by rw [slaveselect_wr_strobe, hwr]; rfl)
  refine ⟨s1.writing B ALTERA_AVALON_SPI_TXDATA_REG data, by rw [← hs1]; rfl, ?_, ?_⟩
  · rw [← hs1]
    exact writing_writing_calm B _ _ hcalm'
  · refine ⟨⟨[], ?_, .primed hprimed⟩, hheld, h1.console⟩
    rw [Sim.writing, Sim.tick, h1.held.events hheld, pulse, hprimed.SCLK, Bool.and_false,
      if_neg Bool.false_ne_true, h1.wires]

/-- The slave is chosen. -/
theorem Ready.serve_slave_sel (h : Ready log out s) (hcalm : Calm s.core)
    (hdata : data.getLsbD 0 = true) :
    ∃ s', s.serve B (.wr ALTERA_AVALON_SPI_SLAVE_SEL_REG data) = ((), s') ∧ Calm s'.core ∧
      Chosen log out s' := by
  obtain ⟨hcalm', h'⟩ := h.wait (B := B) hcalm
  obtain ⟨hwr, htx, -⟩ := writing_strobes B ALTERA_AVALON_SPI_SLAVE_SEL_REG data hcalm'
  have h1 : Ready log out ((s.wait B).writing B ALTERA_AVALON_SPI_SLAVE_SEL_REG data) :=
    h'.quiet hcalm'.toQuiet
  refine ⟨_, rfl, writing_writing_calm B _ _ hcalm', h1.tick ?_ ?_ ?_, ?_⟩
  · rw [status_wr_strobe, hwr]; rfl
  · rw [write_tx_holding, htx]; rfl
  · rw [control_wr_strobe, hwr]; rfl
  · have hselect : slaveselect_wr_strobe (B.writes ALTERA_AVALON_SPI_SLAVE_SEL_REG data
        ((s.wait B).writing B ALTERA_AVALON_SPI_SLAVE_SEL_REG data).edges)
        ((s.wait B).writing B ALTERA_AVALON_SPI_SLAVE_SEL_REG data).core = true := by
      rw [slaveselect_wr_strobe, hwr]; rfl
    rw [Sim.writing, Sim.tick]
    simp only [Core.next, hselect, if_true]
    exact hdata

/-- **The chip is selected.** -/
theorem Chosen.serve_select (h : Chosen log out s) (hcalm : Calm s.core) :
    ∃ s',
      s.serve B (.wr ALTERA_AVALON_SPI_CONTROL_REG ALTERA_AVALON_SPI_CONTROL_SSO_MSK) = ((), s') ∧
      Calm s'.core ∧ ∃ rrdy rx, Listening rrdy rx (log ++ [.select]) out s' := by
  obtain ⟨hcalm', h'⟩ := h.wait (B := B) hcalm
  obtain ⟨hwr, htx, -⟩ := writing_strobes B ALTERA_AVALON_SPI_CONTROL_REG
    ALTERA_AVALON_SPI_CONTROL_SSO_MSK hcalm'
  have h1 : Chosen log out ((s.wait B).writing B ALTERA_AVALON_SPI_CONTROL_REG
      ALTERA_AVALON_SPI_CONTROL_SSO_MSK) := h'.quiet hcalm'.toQuiet
  have hlast := writing_writing_calm B ALTERA_AVALON_SPI_CONTROL_REG
    ALTERA_AVALON_SPI_CONTROL_SSO_MSK hcalm'
  refine ⟨_, rfl, hlast, ?_⟩
  generalize (s.wait B).writing B ALTERA_AVALON_SPI_CONTROL_REG ALTERA_AVALON_SPI_CONTROL_SSO_MSK
    = s1 at hwr htx h1
  obtain ⟨rrdy, rx, hrests⟩ := h1.rests
  set i := B.writes ALTERA_AVALON_SPI_CONTROL_REG ALTERA_AVALON_SPI_CONTROL_SSO_MSK s1.edges with hi
  have hcontrol : control_wr_strobe i s1.core = true := by rw [control_wr_strobe, hwr]; rfl
  have hselect : slaveselect_wr_strobe i s1.core = false := by rw [slaveselect_wr_strobe, hwr]; rfl
  have hSSO : i.data_from_cpu.getLsbD 10 = true :=
    show ALTERA_AVALON_SPI_CONTROL_SSO_MSK.getLsbD 10 = true by decide
  have hrests' := hrests.next (i := i) (by rw [status_wr_strobe, hwr]; rfl)
    (by rw [write_tx_holding, htx]; rfl)
  have hheld : Held (s1.core.next i) := by
    constructor <;> simp [Core.next, hcontrol, hselect, hSSO, h1.SSO, h1.holding]
  refine ⟨_, _, hrests', hheld, ?_, h1.console⟩
  rw [Sim.writing, Sim.tick, hrests.events hrests'.SCLK, hrests.SS_n, h1.SSO, hheld.SS_n, h1.wires]
  rfl

/-- **The chip is released.** -/
theorem Listening.serve_release (h : Listening rrdy rx log out s) (hcalm : Calm s.core) :
    ∃ s', s.serve B (.wr ALTERA_AVALON_SPI_CONTROL_REG 0) = ((), s') ∧ Calm s'.core ∧
      Ready (log ++ [.release]) out s' := by
  obtain ⟨hcalm', h'⟩ := h.wait (B := B) hcalm
  obtain ⟨hwr, htx, -⟩ := writing_strobes B ALTERA_AVALON_SPI_CONTROL_REG 0 hcalm'
  have h1 : Listening rrdy rx log out ((s.wait B).writing B ALTERA_AVALON_SPI_CONTROL_REG 0) :=
    h'.quiet hcalm'.toQuiet
  have hlast := writing_writing_calm B ALTERA_AVALON_SPI_CONTROL_REG 0 hcalm'
  refine ⟨_, rfl, hlast, ?_⟩
  generalize (s.wait B).writing B ALTERA_AVALON_SPI_CONTROL_REG 0 = s1 at hwr htx h1
  set i := B.writes ALTERA_AVALON_SPI_CONTROL_REG 0 s1.edges with hi
  have hcontrol : control_wr_strobe i s1.core = true := by rw [control_wr_strobe, hwr]; rfl
  have hrests' := h1.rests.next (i := i) (by rw [status_wr_strobe, hwr]; rfl)
    (by rw [write_tx_holding, htx]; rfl)
  have hSSO : (s1.core.next i).SSO_reg = false := by
    simp only [Core.next, hcontrol, if_true]
    exact show (0 : BitVec 16).getLsbD 10 = false by decide
  refine ⟨⟨_, _, hrests'⟩, hSSO, ?_, h1.console⟩
  rw [Sim.writing, Sim.tick, h1.rests.events hrests'.SCLK, h1.held.SS_n, hrests'.SS_n, hSSO,
    h1.wires]
  rfl

end ECE385.Spi
