import ECE385.Spi.Accesses

/-!
# A transaction

`alt_avalon_spi_command` selects the chip, exchanges its bytes one after the other and releases it.
At any time at most one byte is on its way: the credit of the main loop is spent when a byte is sent
and comes back with the answer.

* `Between`, `Underway`: the loop between two bytes, and with a byte on its way.
* `ends_round`: a round leads from one to the other.
* `ends_alt_avalon_spi_command`: what is on the wires, and what is returned.
-/

namespace ECE385.Spi

open Bits Firmware Prog ECE385.Spi.Core

variable {B : Bench} {w : State} {log : List Wire} {out : List String}

/-- What holds of the core and its wires. -/
def On (B : Bench) (P : Sim → Prop) (w : State) : Prop :=
  Calm (Sim.after B w.record).core ∧ P (Sim.after B w.record)

theorem ends_IORD {reg : BitVec 3} {v : BitVec 16} {s' : Sim} {P : BitVec 16 → State → Prop}
    (h : (Sim.after B w.record).serve B (.rd reg) = (v, s'))
    (hP : ∀ w', Sim.after B w'.record = s' → P v w') : Ends (hardware B) (IORD reg) w P := by
  have hv : hardware B w.record (Query.rd reg) = v := congrArg Prod.fst h
  refine ends_ask ?_
  rw [hv]
  exact hP _ (congrArg Prod.snd h)

theorem ends_IOWR {reg : BitVec 3} {data : BitVec 16} {s' : Sim} {P : Unit → State → Prop}
    (h : (Sim.after B w.record).serve B (.wr reg data) = ((), s'))
    (hP : ∀ w', Sim.after B w'.record = s' → P () w') : Ends (hardware B) (IOWR reg data) w P :=
  ends_ask (hP _ (congrArg Prod.snd h))

/-! ### Polls -/

/-- A poll with a credit, when nothing is going on. -/
theorem ends_poll_listening {rx : BitVec 8} {credits : ℤ} (hcredits : credits ≠ 0)
    (h : On B (Listening false rx log out) w) :
    Ends (hardware B) (poll credits) w fun status w' =>
      status &&& ALTERA_AVALON_SPI_STATUS_TRDY_MSK ≠ 0 ∧
        status &&& ALTERA_AVALON_SPI_STATUS_RRDY_MSK = 0 ∧
        On B (Listening false rx log out) w' := by
  refine ends_loop (I := fun _ _ w => On B (Listening false rx log out) w) (k := 0) ?_ h
  intro _ _ v hv
  obtain ⟨status, s', hserve, hcalm, hTRDY, hRRDY, -, hs⟩ := hv.2.serve_status hv.1
  refine ends_bind (ends_IORD (P := fun r w' => r = status ∧ Sim.after B w'.record = s') hserve
    fun w' hw' => ⟨rfl, hw'⟩) fun r w' hr => ?_
  obtain ⟨rfl, hw'⟩ := hr
  refine ends_ite (fun hgo => (hgo.1.elim hTRDY hcredits).elim) fun _ => ?_
  refine ends_pure ⟨hTRDY, hRRDY.mpr rfl, ?_⟩
  rw [On, hw']
  exact ⟨hcalm, hs⟩

/-- A poll without a credit, while a byte is on its way. -/
theorem ends_poll_exchanging {b : BitVec 8} {n : ℕ} (h : On B (Exchanging b n log out) w) :
    Ends (hardware B) (poll 0) w fun status w' =>
      status &&& ALTERA_AVALON_SPI_STATUS_RRDY_MSK ≠ 0 ∧
        ∃ rx, On B (Listening true rx (log ++ exchange b rx) out) w' := by
  refine ends_loop (I := fun k _ w => On B (Exchanging b k log out) w) ?_ h
  intro k _ v hv
  obtain ⟨status, s', hserve, hcalm, -, hgo, hdone⟩ := hv.2.serve_status hv.1
  refine ends_bind (ends_IORD (P := fun r w' => r = status ∧ Sim.after B w'.record = s') hserve
    fun w' hw' => ⟨rfl, hw'⟩) fun r w' hr => ?_
  obtain ⟨rfl, hw'⟩ := hr
  refine ends_ite (fun hz => ?_) fun hz => ?_
  · obtain ⟨m, hm, hs⟩ := hgo hz.2
    refine ends_pure ⟨m, hm, ?_⟩
    rw [On, hw']
    exact ⟨hcalm, hs⟩
  · have hne : r &&& ALTERA_AVALON_SPI_STATUS_RRDY_MSK ≠ 0 := fun h => hz ⟨.inr rfl, h⟩
    obtain ⟨rx, hs⟩ := (hdone hne).done
    refine ends_pure ⟨hne, rx, ?_⟩
    rw [On, hw']
    exact ⟨hcalm, hs⟩

/-! ### The main loop -/

/-- What is still to be sent. -/
def Command.pending (c : Command) : List (BitVec 8) :=
  c.write_data ++ List.replicate c.write_zeros 0

/-- The loop with the bytes `sent` exchanged for `answers`. -/
structure Exchanged (write_length : ℕ) (sent answers : List (BitVec 8)) (c : Command) : Prop where
  length : answers.length = sent.length
  read_ignore : c.read_ignore = write_length - answers.length
  read_data : c.read_data = answers.drop write_length

theorem Exchanged.got {write_length : ℕ} {sent answers : List (BitVec 8)} {c : Command}
    (h : Exchanged write_length sent answers c) (b rx : BitVec 8) :
    Exchanged write_length (sent ++ [b]) (answers ++ [rx]) (c.got (rx.setWidth 16)) := by
  have hrx : (rx.setWidth 16).setWidth 8 = rx := by
    rw [BitVec.setWidth_setWidth_of_le _ (by omega), BitVec.setWidth_eq]
  have hignore := h.read_ignore
  have hlen : (answers ++ [rx]).length = answers.length + 1 := by
    rw [List.length_append, List.length_singleton]
  have hsent : (answers ++ [rx]).length = (sent ++ [b]).length := by
    rw [hlen, h.length, List.length_append, List.length_singleton]
  rw [Command.got]
  by_cases hpos : c.read_ignore > 0
  · rw [if_pos hpos]
    refine ⟨hsent, ?_, ?_⟩
    · rw [hlen]
      exact (congrArg (· - 1) hignore).trans (Nat.sub_sub _ _ _)
    · exact h.read_data.trans
        (by rw [List.drop_of_length_le (by omega), List.drop_of_length_le (by omega)])
  · rw [if_neg hpos]
    refine ⟨hsent, ?_, ?_⟩
    · rw [hlen]
      exact (Nat.eq_zero_of_not_pos hpos).trans (by omega)
    · rw [h.read_data, hrx, List.drop_append_of_le_length (by omega)]

@[simp] theorem got_pending (rxdata : BitVec 16) (c : Command) :
    (c.got rxdata).pending = c.pending := by
  rw [Command.got]
  split <;> rfl

theorem got_credits (rxdata : BitVec 16) (c : Command) :
    (c.got rxdata).credits = c.credits + 1 := by
  rw [Command.got]
  split <;> rfl

section Loop

variable (B log out) (write_length : ℕ) (total : List (BitVec 8))

/-- Between two bytes, with `k + 1` to go. -/
structure Between (k : ℕ) (sent answers : List (BitVec 8)) (c : Command) (w : State) : Prop
    extends Exchanged write_length sent answers c where
  pending : c.pending.length = k + 1
  total : sent ++ c.pending = total
  credits : c.credits = 1
  wires : ∃ rx, On B (Listening false rx (log ++ exchanges sent answers) out) w

/-- The byte `b` is on its way, with `k` to go after it. -/
structure Underway (b : BitVec 8) (k : ℕ) (sent answers : List (BitVec 8)) (c : Command)
    (w : State) : Prop extends Exchanged write_length sent answers c where
  pending : c.pending.length = k
  total : sent ++ b :: c.pending = total
  credits : c.credits = 0
  wires : ∃ n, On B (Exchanging b n (log ++ exchanges sent answers) out) w

variable {B log out write_length total} {c : Command} {sent answers : List (BitVec 8)} {k : ℕ}

theorem spend_pos {status : BitVec 16} (hTRDY : status &&& ALTERA_AVALON_SPI_STATUS_TRDY_MSK ≠ 0)
    (hcredits : 0 < c.credits) : spend status c = send c :=
  if_pos ⟨hTRDY, hcredits⟩

/-- **A byte is sent.** -/
theorem ends_send (h : Between B log out write_length total k sent answers c w) :
    Ends (hardware B) (send c) w fun c' w' =>
      ∃ b, Underway B log out write_length total b k sent answers c' w' := by
  obtain ⟨rx, hw⟩ := h.wires
  have hpending := h.pending
  have htotal := h.total
  have hcredits : c.credits - 1 = 0 := by rw [h.credits]; rfl
  rw [Command.pending] at hpending htotal
  have hsend : ∀ (data : BitVec 16) (c' : Command), c'.pending.length = k →
      sent ++ data.setWidth 8 :: c'.pending = total → c'.credits = 0 →
      Exchanged write_length sent answers c' →
      Ends (hardware B) (do IOWR ALTERA_AVALON_SPI_TXDATA_REG data; return c') w fun c' w' =>
        ∃ b, Underway B log out write_length total b k sent answers c' w' := by
    intro data c' hk htotal' hcredits' hex
    obtain ⟨s', hserve, hcalm, hs⟩ := Listening.serve_txdata (B := B) hw.2 hw.1
    refine ends_bind (ends_IOWR (P := fun _ w' => Sim.after B w'.record = s') hserve
      fun w' hw' => hw') fun _ w' hw' =>
        ends_pure ⟨data.setWidth 8, hex, hk, htotal', hcredits', 181, ?_⟩
    rw [On, hw']
    exact ⟨hcalm, hs⟩
  rw [send]
  split
  case h_1 b write_data hdata =>
    rw [hdata] at hpending htotal
    refine hsend (b.setWidth 16) { c with write_data := write_data, credits := c.credits - 1 }
      (Nat.succ.inj hpending) ?_ hcredits ⟨h.length, h.read_ignore, h.read_data⟩
    rw [BitVec.setWidth_setWidth_of_le _ (by omega), BitVec.setWidth_eq]
    exact htotal
  case h_2 hdata =>
    rw [hdata, List.nil_append, List.length_replicate] at hpending
    rw [hdata, List.nil_append, hpending, List.replicate_succ] at htotal
    rw [if_pos (by omega)]
    refine hsend 0 { c with write_zeros := c.write_zeros - 1, credits := c.credits - 1 } ?_ ?_
      hcredits ⟨h.length, h.read_ignore, h.read_data⟩
    · simp [Command.pending, hdata, hpending]
    · simp only [Command.pending, hdata, hpending, List.nil_append, Nat.add_sub_cancel]
      exact htotal

/-- All bytes have been exchanged. -/
def Complete (B : Bench) (log : List Wire) (out : List String) (write_length : ℕ)
    (total : List (BitVec 8)) (read_data : List (BitVec 8)) (w : State) : Prop :=
  ∃ answers : List (BitVec 8), answers.length = total.length ∧
    read_data = answers.drop write_length ∧
    ∃ rx, On B (Listening false rx (log ++ exchanges total answers) out) w

/-- **An answer is fetched.** -/
theorem ends_receive {read_length : ℕ} (htotal : total.length = write_length + read_length)
    {b rx : BitVec 8} (hex : Exchanged write_length sent answers c) (hcredits : c.credits = 0)
    (hbytes : sent ++ b :: c.pending = total)
    (hw : On B (Listening true rx (log ++ exchanges sent answers ++ exchange b rx) out) w) :
    Ends (hardware B) (receive read_length c) w fun x w' =>
      Sum.elim
        (fun c' => ∃ k, c.pending.length = k + 1 ∧
          Between B log out write_length total k (sent ++ [b]) (answers ++ [rx]) c' w')
        (fun read_data => Complete B log out write_length total read_data w') x := by
  obtain ⟨s', hserve, hcalm, hs⟩ := hw.2.serve_rxdata hw.1
  have hlen := hex.length
  have hsum : sent.length + (c.pending.length + 1) = write_length + read_length := by
    rw [← htotal, ← hbytes, List.length_append, List.length_cons]
  rw [List.append_assoc, ← exchanges_concat hlen] at hs
  refine ends_bind (ends_IORD
    (P := fun r w' => r = rx.setWidth 16 ∧ Sim.after B w'.record = s') hserve
    fun w' hw' => ⟨rfl, hw'⟩) fun r w' hr => ?_
  obtain ⟨rfl, hw'⟩ := hr
  have hex' := hex.got b rx
  have hw'' :
      On B (Listening false rx (log ++ exchanges (sent ++ [b]) (answers ++ [rx])) out) w' := by
    rw [On, hw']
    exact ⟨hcalm, hs⟩
  have hlen' : (answers ++ [rx]).length = sent.length + 1 := by
    rw [List.length_append, List.length_singleton, hlen]
  have hignore := hex'.read_ignore
  have hdata : (c.got (rx.setWidth 16)).read_data.length = sent.length + 1 - write_length := by
    rw [hex'.read_data, List.length_drop, hlen']
  rw [hlen'] at hignore
  refine ends_ite (fun hlast => ends_pure ?_) fun hmore => ends_pure ?_
  · have hpending : c.pending = [] := List.eq_nil_of_length_eq_zero (by omega)
    rw [hpending] at hbytes
    exact ⟨answers ++ [rx], by rw [htotal]; omega, hex'.read_data, rx, hbytes ▸ hw''⟩
  · obtain ⟨k, hk⟩ : ∃ k, c.pending.length = k + 1 := ⟨c.pending.length - 1, by omega⟩
    refine ⟨k, hk, hex', by rw [got_pending, hk], ?_, by rw [got_credits, hcredits]; rfl, rx, hw''⟩
    rw [got_pending, List.append_assoc]
    exact hbytes

/-- **A round.** -/
theorem ends_round {read_length : ℕ} (htotal : total.length = write_length + read_length) {m : ℕ}
    (h : (∃ k sent answers, m = 2 * k + 2 ∧
        Between B log out write_length total k sent answers c w) ∨
      ∃ b k sent answers, m = 2 * k + 1 ∧
        Underway B log out write_length total b k sent answers c w) :
    Ends (hardware B) (round read_length c) w fun x w' =>
      Sum.elim
        (fun c' => ∃ m' < m, (∃ k sent answers, m' = 2 * k + 2 ∧
            Between B log out write_length total k sent answers c' w') ∨
          ∃ b k sent answers, m' = 2 * k + 1 ∧
            Underway B log out write_length total b k sent answers c' w')
        (fun read_data => Complete B log out write_length total read_data w') x := by
  rcases h with ⟨k, sent, answers, rfl, h⟩ | ⟨b, k, sent, answers, rfl, h⟩
  · obtain ⟨rx, hw⟩ := h.wires
    refine ends_bind (ends_poll_listening (by rw [h.credits]; decide) hw) fun status v hstatus => ?_
    obtain ⟨hTRDY, hRRDY, hv⟩ := hstatus
    have hspend := ends_send { h with wires := ⟨rx, hv⟩ }
    rw [← spend_pos hTRDY (by rw [h.credits]; decide)] at hspend
    refine ends_bind hspend fun c' v' hc' => ?_
    obtain ⟨b, hc'⟩ := hc'
    exact ends_ite (fun hne => absurd hRRDY hne) fun _ =>
      ends_pure ⟨2 * k + 1, by omega, .inr ⟨b, k, sent, answers, rfl, hc'⟩⟩
  · obtain ⟨n, hw⟩ := h.wires
    have hpoll := ends_poll_exchanging hw
    rw [← h.credits] at hpoll
    refine ends_bind hpoll fun status v hstatus => ?_
    obtain ⟨hRRDY, rx, hv⟩ := hstatus
    have hspend : spend status c = pure c :=
      if_neg fun hc => absurd (h.credits ▸ hc.2) (Int.lt_irrefl 0)
    refine ends_bind (P := fun c' v' => c' = c ∧ v' = v) (hspend ▸ ends_pure ⟨rfl, rfl⟩)
      fun c' v' hc' => ?_
    obtain ⟨rfl, rfl⟩ := hc'
    refine ends_ite (fun _ => ?_) fun hz => absurd hRRDY hz
    refine (ends_receive htotal h.toExchanged h.credits h.total hv).imp fun x w' hx => ?_
    cases x with
    | inl c'' =>
      obtain ⟨j, hj, hnext⟩ := hx
      have := h.pending
      exact ⟨2 * j + 2, by omega, .inl ⟨j, _, _, rfl, hnext⟩⟩
    | inr read_data => exact hx

end Loop

/-! ### The command -/

/-- The chip is selected, the bytes `sent` are exchanged for `answers`, and it is released. -/
def transaction (sent answers : List (BitVec 8)) : List Wire :=
  .select :: (exchanges sent answers ++ [.release])

theorem ends_waitTMT {rx : BitVec 8} (h : On B (Listening false rx log out) w) :
    Ends (hardware B) waitTMT w fun _ w' => On B (Listening false rx log out) w' := by
  refine ends_loop (I := fun _ _ w => On B (Listening false rx log out) w) (k := 0) ?_ h
  intro _ _ v hv
  obtain ⟨status, s', hserve, hcalm, -, -, hTMT, hs⟩ := hv.2.serve_status hv.1
  refine ends_bind (ends_IORD (P := fun r w' => r = status ∧ Sim.after B w'.record = s') hserve
    fun w' hw' => ⟨rfl, hw'⟩) fun r w' hr => ?_
  obtain ⟨rfl, hw'⟩ := hr
  rw [if_neg hTMT]
  refine ends_pure ?_
  rw [Sum.elim_inr, On, hw']
  exact ⟨hcalm, hs⟩

theorem ends_select (h : On B (Ready log out) w) :
    Ends (hardware B) (select 0 0) w fun _ w' =>
      ∃ rx, On B (Listening false rx (log ++ [.select]) out) w' := by
  obtain ⟨s1, hserve1, hcalm1, hs1⟩ := h.2.serve_slave_sel (B := B) h.1
    (show (1 <<< 0 : BitVec 16).getLsbD 0 = true by decide)
  refine ends_bind (ends_IOWR (P := fun _ v => Sim.after B v.record = s1) hserve1 fun v hv => hv)
    fun _ v1 hv1 => ?_
  obtain ⟨s2, hserve2, hcalm2, _, rx, hs2⟩ := hs1.serve_select hcalm1
  refine ends_bind (P := fun _ v => Sim.after B v.record = s2)
    (ends_ite (fun _ => ends_IOWR (hv1 ▸ hserve2) fun v hv => hv) fun hne => absurd (by decide) hne)
    fun _ v2 hv2 => ?_
  obtain ⟨s3, hserve3, hcalm3, hs3⟩ := hs2.serve_rxdata hcalm2
  refine ends_bind (ends_IORD (P := fun _ v => Sim.after B v.record = s3) (hv2 ▸ hserve3)
    fun v hv => hv) fun _ v3 hv3 => ends_pure ⟨rx, ?_⟩
  rw [On, hv3]
  exact ⟨hcalm3, hs3⟩

/-- **A transaction.**  Unless there is nothing to do, the bytes written and then as many zeros as
are to be read are exchanged, and the answers to the zeros are returned. -/
theorem ends_alt_avalon_spi_command (write_data : List (BitVec 8)) (read_length : ℕ)
    (hlength : 0 < write_data.length + read_length) (h : On B (Ready log out) w) :
    Ends (hardware B) (alt_avalon_spi_command 0 write_data read_length 0) w fun r w' =>
      ∃ answers : List (BitVec 8), answers.length = write_data.length + read_length ∧
        r = ((BitVec.ofNat 32 read_length).toInt, answers.drop write_data.length) ∧
        On B (Ready (log ++ transaction (write_data ++ List.replicate read_length 0) answers) out)
          w' := by
  have htotal : (write_data ++ List.replicate read_length (0 : BitVec 8)).length =
      write_data.length + read_length := by rw [List.length_append, List.length_replicate]
  refine ends_bind (ends_select h) fun _ v3 hv3 => ?_
  obtain ⟨rx, hv3⟩ := hv3
  have h0 : Between B (log ++ [.select]) out write_data.length
      (write_data ++ List.replicate read_length 0) (write_data.length + read_length - 1) [] []
      ⟨write_data, read_length, write_data.length, [], 1⟩ v3 := by
    refine ⟨⟨rfl, rfl, List.drop_nil.symm⟩, ?_, rfl, rfl, rx, ?_⟩
    · rw [Command.pending, htotal]
      omega
    · rw [exchanges, List.zipWith_nil_left, List.flatten_nil, List.append_nil]
      exact hv3
  refine ends_bind (ends_loop (fun m c v hm => ends_round htotal hm) (.inl ⟨_, _, _, rfl, h0⟩))
    fun read_data v4 hv4 => ?_
  obtain ⟨answers, hanswers, rfl, rx', hv4⟩ := hv4
  refine ends_bind (ends_waitTMT hv4) fun _ v5 hv5 => ?_
  obtain ⟨s6, hserve6, hcalm6, hs6⟩ := hv5.2.serve_release hv5.1
  refine ends_bind (P := fun _ v => Sim.after B v.record = s6)
    (ends_ite (fun _ => ends_IOWR hserve6 fun v hv => hv) fun hne => absurd (by decide) hne)
    fun _ v6 hv6 => ?_
  refine ends_pure ⟨answers, by rw [hanswers, htotal], rfl, ?_⟩
  rw [List.append_assoc, List.append_assoc] at hs6
  rw [On, hv6]
  exact ⟨hcalm6, hs6⟩

/-! ### Nothing to do -/

theorem lasting_select (slave : ℕ) (flags : BitVec 32) : Lasting (select slave flags) :=
  Straight.lasting (straight_bind (straight_ask _) fun _ =>
    straight_bind (straight_ite (straight_ask _) (straight_pure _)) fun _ =>
      straight_bind (straight_ask _) fun _ => straight_pure _)

theorem lasting_round (read_length : ℕ) (c : Command) : Lasting (round read_length c) := by
  have hpoll : Lasting (poll c.credits) := lasting_loop (fun _ => Straight.lasting
    (straight_bind (straight_ask _) fun _ => straight_ite (straight_pure _) (straight_pure _))) _
  have hsend : Straight (send c) := by
    rw [send]
    split
    · exact straight_bind (straight_ask _) fun _ => straight_pure _
    · exact straight_ite (straight_bind (straight_ask _) fun _ => straight_pure _) (straight_pure _)
  exact lasting_bind hpoll fun _ => Straight.lasting
    (straight_bind (straight_ite hsend (straight_pure _)) fun _ =>
      straight_ite (straight_bind (straight_ask _) fun _ =>
        straight_ite (straight_pure _) (straight_pure _)) (straight_pure _))

/-- The loop with no byte to send and none to come. -/
structure Stuck (B : Bench) (log : List Wire) (out : List String) (c : Command) (w : State) :
    Prop where
  write_data : c.write_data = []
  write_zeros : c.write_zeros = 0
  credits : c.credits ≠ 0
  wires : ∃ rx, On B (Listening false rx log out) w

theorem ends_round_stuck {read_length : ℕ} {c : Command} (h : Stuck B log out c w) :
    Ends (hardware B) (round read_length c) w fun x w' =>
      ∃ c', x = .inl c' ∧ Stuck B log out c' w' := by
  obtain ⟨rx, hw⟩ := h.wires
  refine ends_bind (ends_poll_listening h.credits hw) fun status v hstatus => ?_
  obtain ⟨-, hRRDY, hv⟩ := hstatus
  refine ends_bind (P := fun c' v' => Stuck B log out c' v')
    (ends_ite (fun _ => ?_) fun _ => ends_pure { h with wires := ⟨rx, hv⟩ }) fun c' v' hc' =>
      ends_ite (fun hne => absurd hRRDY hne) fun _ => ends_pure ⟨c', rfl, hc'⟩
  rw [send, h.write_data, h.write_zeros]
  exact ends_pure ⟨rfl, rfl, show (-1024 : ℤ) ≠ 0 by decide, rx, hv⟩

/-- **Nothing to do.**  With neither a byte to write nor one to read the command does not return. -/
theorem not_returns_alt_avalon_spi_command (h : On B (Ready log out) w) {n : ℕ}
    {r : ℤ × List (BitVec 8)} {w' : State} :
    ¬Returns (hardware B) n (alt_avalon_spi_command 0 [] 0 0) w r w' := by
  intro hr
  obtain ⟨_, v, hselect, hr⟩ := returns_bind.mp hr
  obtain ⟨read_data, v', hloop, -⟩ := returns_bind.mp hr
  obtain ⟨rx, hv⟩ := (ends_select h).of_returns (lasting_select 0 0) hselect
  refine returns_loop (I := fun c v => Stuck B (log ++ [.select]) out c v)
    (P := fun _ _ => False) hloop ⟨rfl, rfl, by decide, rx, hv⟩ fun c u x u' hc hx => ?_
  obtain ⟨c', rfl, hc'⟩ := (ends_round_stuck hc).of_returns (lasting_round 0 c) hx
  exact hc'

/-! ### The result -/

/-- **The driver and the core.**  If there is something to do, the command comes to an end; the
wires show one transaction with its bytes, most significant bit first, and the answers to the zeros
are what it returns.  If there is nothing to do it never returns. -/
theorem command_exchanges (B : Bench) (w : State) (log : List Wire) (out : List String)
    (h : On B (Ready log out) w) (write_data : List (BitVec 8)) (read_length : ℕ) :
    (0 < write_data.length + read_length → ∃ answers w', ∃ N,
      answers.length = write_data.length + read_length ∧
      (∀ n, N ≤ n → Returns (hardware B) n (alt_avalon_spi_command 0 write_data read_length 0) w
        ((BitVec.ofNat 32 read_length).toInt, answers.drop write_data.length) w') ∧
      On B (Ready (log ++ transaction (write_data ++ List.replicate read_length 0) answers) out)
        w') ∧
    (write_data.length + read_length = 0 → ∀ n r w',
      ¬Returns (hardware B) n (alt_avalon_spi_command 0 write_data read_length 0) w r w') := by
  refine ⟨fun hlength => ?_, fun hlength n r w' => ?_⟩
  · obtain ⟨r, w', ⟨N, hN⟩, answers, hanswers, rfl, hw'⟩ :=
      ends_alt_avalon_spi_command write_data read_length hlength h
    exact ⟨answers, w', N, hanswers, hN, hw'⟩
  · obtain rfl : write_data = [] := List.eq_nil_of_length_eq_zero (by omega)
    obtain rfl : read_length = 0 := by omega
    exact not_returns_alt_avalon_spi_command h

/-- A core that is never left alone, with `MISO` high. -/
def bench : Bench := ⟨fun _ => 0, fun _ => ⟨true, 0, 0, true, false, true⟩⟩

theorem command_exchanges_bench : ∃ answers w', ∃ N, answers.length = 2 ∧
    (∀ n, N ≤ n → Returns (hardware bench) n (alt_avalon_spi_command 0 [0x6a] 1 0) ⟨(), []⟩
      (1, answers.drop 1) w') ∧
    On bench (Ready (transaction [0x6a, 0] answers) []) w' :=
  (command_exchanges bench ⟨(), []⟩ [] [] ⟨calm_reset, ready_reset⟩ [0x6a] 1).1 (by decide)

end ECE385.Spi
