import ECE385.Usb.Deadline
import Mathlib.Data.List.GetD

/-!
# What a transfer delivers

`XferInTransfer` copies each packet to where the one before it ended, as long as the chip says it
is, and only then looks whether all has come.

* `received`: the bytes that have come, packet after packet.
* `Offers`: the packets that a device has, `Unfinished`: packets after which a transfer needs
  another one.
* `round_cases`: a round of the transfer, `finishes_transferRound_iff`: in terms of the device.
* `transfer_received`: the bytes received are at `data` afterwards, and what was there before
  follows.
* `goes_of_heads`, `heads_of_offers`: the packets so far, before every round that a call comes to.
* `delivers_iff`: all stays inside the `nbytes` asked for, whether or not the call returns, exactly
  if the packets have no more.
-/

namespace ECE385.Usb

open Firmware Prog

/-- The bytes read from the receive FIFO, in the order in which they came. -/
def received : Record Query.Reply → List BYTE
  | [] => []
  | ⟨.bytesRd _ nbytes, bytes⟩ :: l => received l ++ (List.range nbytes.toNat).map bytes
  | _ :: l => received l

/-! ### Packets -/

/-- What `XferInTransfer` reads when `XferDispatchPkt` has returned. -/
def packetResult (rcode : BYTE) : Program (BYTE ⊕ (BYTE × Buf)) := do
  if rcode ≠ 0 then return .inl rcode
  else if (← MAXreg_rd rHIRQ) &&& bmRCVDAVIRQ = 0 then return .inl 0xf0
  else
    let pktsize ← MAXreg_rd rRCVBC
    let bytes ← ask (.bytesRd rRCVFIFO pktsize)
    MAXreg_wr rHIRQ bmRCVDAVIRQ
    return .inr (pktsize, bytes)

/-- What `XferInTransfer` does for a packet: it comes to an error, or to the number of bytes and
the bytes. -/
def packetIn (ep : BYTE) : Program (BYTE ⊕ (BYTE × Buf)) := do
  packetResult (← XferDispatchPkt tokIN ep)

/-- From `w` on, the device has packets of these sizes for a driver that asks for one after the
other, with no regard to what has come. -/
inductive Offers (env : Hardware) (ep : BYTE) (w : State) : List BYTE → State → Prop
  | none : Offers env ep w [] w
  | packet {pkts : List BYTE} {v v' : State} {pktsize : BYTE} {bytes : Buf} :
    Offers env ep w pkts v → Finishes env (packetIn ep) v (.inr (pktsize, bytes)) v' →
      Offers env ep w (pkts ++ [pktsize]) v'

/-- The bytes of packets of these sizes. -/
def bytesOf : List BYTE → ℕ
  | [] => 0
  | pktsize :: pkts => pktsize.toNat + bytesOf pkts

/-- Packets after which a transfer needs another one: none at all, or full ones with fewer bytes
than were asked for. -/
def Unfinished (nbytes : WORD) (maxpktsize : BYTE) (pkts : List BYTE) : Prop :=
  pkts = [] ∨ (∀ pktsize ∈ pkts, maxpktsize ≤ pktsize) ∧ bytesOf pkts < nbytes.toNat

/-- The toggle of the chip has been set. -/
def begun (addr ep : BYTE) (w : State) : State := ⟨w.mem, toggled addr ep w⟩

/-- The packets of the device that a transfer comes to need have no more bytes than were asked
for. -/
def Fits (env : Hardware) (addr ep : BYTE) (nbytes : WORD) (maxpktsize : BYTE) (w : State) : Prop :=
  ∀ pkts pktsize v, Offers env ep (begun addr ep w) (pkts ++ [pktsize]) v →
    Unfinished nbytes maxpktsize pkts → bytesOf pkts + pktsize.toNat ≤ nbytes.toNat

/-! ### What is delivered -/

/-- A call started in `w` comes to have `out` at `data`: before one of its rounds, also when it
never returns, or when it does. -/
inductive Puts (env : Hardware) (addr ep : BYTE) (nbytes : WORD) (data : Buf) (maxpktsize : BYTE)
    (w : State) : Buf → Prop
  | round {out : Buf} {pos : ℕ} {xfrlen : WORD} {v : State} :
    Heads env (transferRound addr ep nbytes maxpktsize) (data, 0, 0) (begun addr ep w)
      (out, pos, xfrlen) v → Puts env addr ep nbytes data maxpktsize w out
  | returned {rcode : BYTE} {out : Buf} {v : State} :
    Finishes env (XferInTransfer addr ep nbytes data maxpktsize) w (rcode, out) v →
      Puts env addr ep nbytes data maxpktsize w out

/-- Calls started in `w` write nothing beyond `nbytes`, whether or not they return, and what they
write when they succeed are the bytes received, cut at `nbytes`. -/
structure Delivers (env : Hardware) (addr ep : BYTE) (nbytes : WORD) (maxpktsize : BYTE)
    (w : State) : Prop where
  inside : ∀ data out, Puts env addr ep nbytes data maxpktsize w out →
    ∀ k, nbytes.toNat ≤ k → out k = data k
  bytes : ∀ n data out v,
    Returns env n (XferInTransfer addr ep nbytes data maxpktsize) w (0, out) v →
    ∀ k, k < nbytes.toNat → out k = (received (w.since v)).getD k (data k)

/-! ### A round -/

variable {env : Hardware} {n : ℕ} {addr ep maxpktsize : BYTE} {nbytes : WORD} {w v v' : State}
  {data : Buf}

theorem received_append (l l' : Record Query.Reply) :
    received (l ++ l') = received l' ++ received l := by
  induction l with
  | nil => rw [List.nil_append, received, List.append_nil]
  | cons a l ih =>
    obtain ⟨q, r⟩ := a
    cases q with
    | bytesRd reg nbytes => simp only [List.cons_append, received, ih, List.append_assoc]
    | _ => simpa only [List.cons_append, received] using ih

/-- What goes on record holds no packet. -/
def NoPacket (w v : State) : Prop :=
  ∃ l, v.record = l ++ w.record ∧ sizes l = [] ∧ received l = []

instance : IsPreorder State NoPacket where
  refl _ := ⟨[], rfl, rfl, rfl⟩
  trans := by
    rintro w u v ⟨l, hl, hsizes, hreceived⟩ ⟨l', hl', hsizes', hreceived'⟩
    refine ⟨l' ++ l, by rw [hl', hl, List.append_assoc], ?_, ?_⟩
    · rw [sizes, List.filterMap_append]
      exact (congrArg₂ _ hsizes' hsizes).trans (List.append_nil _)
    · rw [received_append, hreceived, hreceived', List.append_nil]

theorem noPacket_quiet (q : Query) (hq : q.Quiet) : Within env NoPacket (ask q) := by
  refine within_ask fun w => ⟨[⟨q, env w.record q⟩], rfl, ?_⟩
  cases q with
  | rd reg =>
    refine ⟨?_, rfl⟩
    exact List.filterMap_cons_none (if_neg hq)
  | wr | alt_nticks | alt_ticks_per_second => exact ⟨rfl, rfl⟩
  | _ => exact hq.elim

/-- What goes on record holds one packet, with the size that the hardware gave it. -/
structure OnePacket (env : Hardware) (pktsize : BYTE) (bytes : Buf) (w v : State) : Prop where
  record : ∃ l, v.record = l ++ w.record ∧ sizes l = [pktsize] ∧
    received l = (List.range pktsize.toNat).map bytes
  size : ∃ u, NoPacket w u ∧ pktsize = env u.record (.rd rRCVBC)

theorem NoPacket.packet (h : NoPacket w v) {pktsize : BYTE}
    (hsize : pktsize = env v.record (.rd rRCVBC)) (bytes : Buf) :
    OnePacket env pktsize bytes w (packetRead pktsize bytes v) := by
  have hwait := h
  obtain ⟨l, hl, hsizes, hreceived⟩ := h
  refine ⟨⟨⟨.bytesRd rRCVFIFO pktsize, bytes⟩ :: ⟨.rd rRCVBC, pktsize⟩ :: l, ?_, ?_, ?_⟩, _,
    hwait, hsize⟩
  · rw [packetRead, hl]
    rfl
  · exact congrArg (pktsize :: ·) hsizes
  · simp only [received, hreceived, List.nil_append]

theorem OnePacket.waits {pktsize : BYTE} {bytes : Buf} (h : OnePacket env pktsize bytes w v)
    (hw : NoPacket v v') : OnePacket env pktsize bytes w v' := by
  obtain ⟨⟨l, hl, hsizes, hreceived⟩, hsize⟩ := h
  obtain ⟨l', hl', hsizes', hreceived'⟩ := hw
  refine ⟨⟨l' ++ l, by rw [hl', hl, List.append_assoc], ?_, ?_⟩, hsize⟩
  · rw [sizes, List.filterMap_append]
    exact congrArg₂ _ hsizes' hsizes
  · rw [received_append, hreceived', List.append_nil, hreceived]

/-- A round fails without a packet, or takes one, which may be the last. -/
theorem round_cases {pos : ℕ} {xfrlen : WORD} {x : (Buf × ℕ × WORD) ⊕ (BYTE × Buf)}
    (h : Returns env n (transferRound addr ep nbytes maxpktsize (data, pos, xfrlen)) v x v') :
    (∃ rcode, x = .inr (rcode, data) ∧ NoPacket v v' ∧
      ((∃ u, Returns env n (XferDispatchPkt tokIN ep) v rcode u ∧ rcode ≠ 0) ∨
        ∃ l, env l (.rd rHIRQ) &&& bmRCVDAVIRQ = 0)) ∨
    ∃ pktsize bytes, OnePacket env pktsize bytes v v' ∧
      ((pktsize < maxpktsize ∨ nbytes ≤ xfrlen + pktsize.setWidth 16) ∧
          x = .inr (0, data.put pos pktsize bytes) ∨
        ¬(pktsize < maxpktsize ∨ nbytes ≤ xfrlen + pktsize.setWidth 16) ∧
          x = .inl (data.put pos pktsize bytes, pos + pktsize.toNat,
            xfrlen + pktsize.setWidth 16)) := by
  rcases transferRound_cases noPacket_quiet h with hfail |
    ⟨pktsize, bytes, u, u', htakes, ⟨hlast, rfl, rfl⟩ | ⟨hmore, rfl, rfl⟩⟩
  · exact .inl hfail
  · have hp := (htakes.before.packet htakes.size bytes).waits htakes.after
    have hsaved : NoPacket u' (saved env addr ep u') := ⟨[⟨.rd rHRSL, _⟩], rfl, rfl, rfl⟩
    exact .inr ⟨pktsize, bytes, hp.waits hsaved, .inl ⟨hlast, rfl⟩⟩
  · have hp := (htakes.before.packet htakes.size bytes).waits htakes.after
    exact .inr ⟨pktsize, bytes, hp, .inr ⟨hmore, rfl⟩⟩

/-! ### A transfer -/

/-- Since `w` the packets have come that are in the buffer up to `pos`. -/
structure Copied (data₀ : Buf) (w : State) (data : Buf) (pos : ℕ) (v : State) : Prop where
  ext : Extends w v
  length : (received (w.since v)).length = pos
  bytes : ∀ k, data k = (received (w.since v)).getD k (data₀ k)

variable {data₀ out : Buf} {pos : ℕ} {rcode pktsize : BYTE} {bytes : Buf}

theorem copied_start (data₀ : Buf) (w : State) : Copied data₀ w data₀ 0 w := by
  have hsince : w.since w = [] := since_eq rfl
  refine ⟨List.suffix_refl _, ?_, fun k => ?_⟩
  · rw [hsince]; rfl
  · rw [hsince]; rfl

theorem Copied.waits (h : Copied data₀ w data pos v) (hw : NoPacket v v') :
    Copied data₀ w data pos v' := by
  obtain ⟨l, hl, hsizes, hreceived⟩ := hw
  have hext : Extends v v' := ⟨l, hl.symm⟩
  have hsince : w.since v' = l ++ w.since v := by
    rw [since_trans h.ext hext, since_eq hl]
  have hsame : received (w.since v') = received (w.since v) := by
    rw [hsince, received_append, hreceived, List.append_nil]
  refine ⟨IsTrans.trans _ _ _ h.ext hext, ?_, ?_⟩
  · rw [hsame, h.length]
  · rw [hsame]
    exact h.bytes

theorem Copied.packet (h : Copied data₀ w data pos v) (hp : OnePacket env pktsize bytes v v') :
    Copied data₀ w (data.put pos pktsize bytes) (pos + pktsize.toNat) v' := by
  obtain ⟨⟨l, hl, hsizes, hreceived⟩, -⟩ := hp
  have hext : Extends v v' := ⟨l, hl.symm⟩
  have hsince : w.since v' = l ++ w.since v := by
    rw [since_trans h.ext hext, since_eq hl]
  have hmore : received (w.since v') =
      received (w.since v) ++ (List.range pktsize.toNat).map bytes := by
    rw [hsince, received_append, hreceived]
  refine ⟨IsTrans.trans _ _ _ h.ext hext, ?_, fun k => ?_⟩
  · rw [hmore, List.length_append, h.length, List.length_map, List.length_range]
  · rw [hmore, Buf.put]
    by_cases hk : k < pos
    · rw [if_neg (by omega), List.getD_append _ _ _ _ (by rw [h.length]; exact hk), h.bytes]
    · rw [List.getD_append_right _ _ _ _ (by rw [h.length]; omega), h.length]
      by_cases hin : k < pos + pktsize.toNat
      · rw [if_pos ⟨by omega, hin⟩, List.getD_eq_getElem _ _ (by
          rw [List.length_map, List.length_range]; omega), List.getElem_map, List.getElem_range]
      · rw [if_neg (by omega), h.bytes, List.getD_eq_default _ _ (by rw [h.length]; omega),
          List.getD_eq_default _ _ (by rw [List.length_map, List.length_range]; omega)]

/-- **The bytes received are at `data`** in their order, and beyond them is what was there. -/
theorem transfer_received
    (h : Returns env n (XferInTransfer addr ep nbytes data₀ maxpktsize) w (rcode, out) v) :
    ∃ pos, Copied data₀ w out pos v := by
  obtain ⟨_, w₁, hload, h⟩ := returns_bind.mp (XferInTransfer_eq .. ▸ h)
  obtain ⟨rfl, rfl⟩ := returns_load.mp hload
  obtain ⟨_, w₂, hset, h⟩ := returns_bind.mp h
  obtain ⟨_, hw₂⟩ := returns_ask.mp hset
  have hnone : NoPacket w w₂ := ⟨[_], by rw [← hw₂]; rfl, rfl, rfl⟩
  refine returns_loop (I := fun b v => Copied data₀ w b.1 b.2.1 v)
    (P := fun r v => ∃ pos, Copied data₀ w r.2 pos v) h
    ((copied_start data₀ w).waits hnone) ?_
  rintro ⟨data, pos, xfrlen⟩ v x v' hv hround
  rcases round_cases hround with ⟨rcode, rfl, hw, -⟩ | ⟨pktsize, bytes, hp, ⟨-, rfl⟩ | ⟨-, rfl⟩⟩
  · exact ⟨pos, hv.waits hw⟩
  · exact ⟨_, hv.packet hp⟩
  · exact hv.packet hp

/-! ### The packets of a transfer -/

/-- What `XferInTransfer` does with a packet. -/
def packetTaken (addr ep : BYTE) (nbytes : WORD) (maxpktsize : BYTE) (b : Buf × ℕ × WORD)
    (pktsize : BYTE) (bytes : Buf) : Program ((Buf × ℕ × WORD) ⊕ (BYTE × Buf)) := do
  let data := b.1.put b.2.1 pktsize bytes
  let xfrlen := b.2.2 + pktsize.setWidth 16
  if pktsize < maxpktsize ∨ nbytes ≤ xfrlen then
    let toggle := if (← MAXreg_rd rHRSL) &&& bmRCVTOGRD ≠ 0 then bmRCVTOG1 else bmRCVTOG0
    store (Mem.setEpinfo addr ep.toNat fun e => { e with rcvToggle := toggle })
    return .inr (0, data)
  else return .inl (data, b.2.1 + pktsize.toNat, xfrlen)

theorem transferRound_eq (b : Buf × ℕ × WORD) : transferRound addr ep nbytes maxpktsize b =
    packetIn ep >>= Sum.elim (fun rcode => pure (.inr (rcode, b.1)))
      fun p => packetTaken addr ep nbytes maxpktsize b p.1 p.2 := by
  simp only [transferRound, transferResult, packetIn, packetResult, MAXbytes_rd, bind_assoc,
    ite_bind, pure_bind, Sum.elim_inl, Sum.elim_inr]
  rfl

theorem straight_packetResult (rcode : BYTE) : Straight (packetResult rcode) := by
  refine straight_ite (straight_pure _) (straight_bind (straight_ask _) fun _ => ?_)
  refine straight_ite (straight_pure _) (straight_bind (straight_ask _) fun _ => ?_)
  exact straight_bind (straight_ask _) fun _ => straight_bind (straight_ask _) fun _ =>
    straight_pure _

theorem lasting_packetIn (ep : BYTE) : Lasting (packetIn ep) :=
  lasting_bind (lasting_dispatch tokIN ep) fun rcode => (straight_packetResult rcode).lasting

theorem straight_packetTaken (b : Buf × ℕ × WORD) (pktsize : BYTE) (bytes : Buf) :
    Straight (packetTaken addr ep nbytes maxpktsize b pktsize bytes) := by
  refine straight_ite (straight_bind (straight_ask _) fun _ => ?_) (straight_pure _)
  exact straight_bind (straight_store _) fun _ => straight_pure _

theorem straight_packet (b : Buf × ℕ × WORD) (x : BYTE ⊕ (BYTE × Buf)) :
    Straight (x.elim (fun rcode => pure (.inr (rcode, b.1)))
      fun p => packetTaken addr ep nbytes maxpktsize b p.1 p.2) := by
  cases x with
  | inl rcode => exact straight_pure _
  | inr p => exact straight_packetTaken b p.1 p.2

theorem lasting_transferRound (b : Buf × ℕ × WORD) :
    Lasting (transferRound addr ep nbytes maxpktsize b) := by
  rw [transferRound_eq]
  exact lasting_bind (lasting_packetIn ep) fun x => (straight_packet b x).lasting

/-- A round comes to its end if its packet does. -/
theorem halts_transferRound (h : Halts env (XferDispatchPkt tokIN ep) v) (b : Buf × ℕ × WORD) :
    Halts env (transferRound addr ep nbytes maxpktsize b) v := by
  rw [transferRound_eq]
  refine halts_bind (lasting_packetIn ep) (fun x => (straight_packet b x).lasting) ?_
    fun x u _ => (straight_packet b x).halts env u
  exact halts_bind (lasting_dispatch tokIN ep) (fun rcode => (straight_packetResult rcode).lasting)
    h fun rcode u _ => (straight_packetResult rcode).halts env u

theorem finishes_packetTaken_iff {b : Buf × ℕ × WORD} {x : (Buf × ℕ × WORD) ⊕ (BYTE × Buf)} :
    Finishes env (packetTaken addr ep nbytes maxpktsize b pktsize bytes) v x v' ↔
      (pktsize < maxpktsize ∨ nbytes ≤ b.2.2 + pktsize.setWidth 16) ∧
          x = .inr (0, b.1.put b.2.1 pktsize bytes) ∧ v' = saved env addr ep v ∨
        ¬(pktsize < maxpktsize ∨ nbytes ≤ b.2.2 + pktsize.setWidth 16) ∧
          x = .inl (b.1.put b.2.1 pktsize bytes, b.2.1 + pktsize.toNat,
            b.2.2 + pktsize.setWidth 16) ∧ v' = v := by
  constructor
  · rintro ⟨n, h⟩
    rcases returns_ite.mp h with ⟨hlast, h⟩ | ⟨hmore, h⟩
    · obtain ⟨hrsl, v₁, hrd, h⟩ := returns_bind.mp h
      obtain ⟨rfl, rfl⟩ := returns_ask.mp hrd
      obtain ⟨_, v₂, hstore, h⟩ := returns_bind.mp h
      obtain rfl := returns_store.mp hstore
      obtain ⟨rfl, rfl⟩ := returns_pure.mp h
      exact .inl ⟨hlast, rfl, rfl⟩
    · obtain ⟨rfl, rfl⟩ := returns_pure.mp h
      exact .inr ⟨hmore, rfl, rfl⟩
  · rintro (⟨hlast, rfl, rfl⟩ | ⟨hmore, rfl, rfl⟩)
    · refine ⟨0, returns_ite.mpr (.inl ⟨hlast, ?_⟩)⟩
      exact returns_bind.mpr ⟨_, _, returns_ask.mpr ⟨rfl, rfl⟩, returns_bind.mpr
        ⟨(), _, returns_store.mpr rfl, returns_pure.mpr ⟨rfl, rfl⟩⟩⟩
    · exact ⟨0, returns_ite.mpr (.inr ⟨hmore, returns_pure.mpr ⟨rfl, rfl⟩⟩)⟩

/-- A round in terms of the device. -/
theorem finishes_transferRound_iff {b : Buf × ℕ × WORD}
    {x : (Buf × ℕ × WORD) ⊕ (BYTE × Buf)} :
    Finishes env (transferRound addr ep nbytes maxpktsize b) v x v' ↔
      (∃ rcode, Finishes env (packetIn ep) v (.inl rcode) v' ∧ x = .inr (rcode, b.1)) ∨
        ∃ pktsize bytes u, Finishes env (packetIn ep) v (.inr (pktsize, bytes)) u ∧
          Finishes env (packetTaken addr ep nbytes maxpktsize b pktsize bytes) u x v' := by
  rw [transferRound_eq, finishes_bind (lasting_packetIn ep) fun x => (straight_packet b x).lasting]
  constructor
  · rintro ⟨rcode | ⟨pktsize, bytes⟩, u, hin, hx⟩
    · obtain ⟨_, hx⟩ := hx
      obtain ⟨rfl, rfl⟩ := returns_pure.mp hx
      exact .inl ⟨rcode, hin, rfl⟩
    · exact .inr ⟨pktsize, bytes, u, hin, hx⟩
  · rintro (⟨rcode, hin, rfl⟩ | ⟨pktsize, bytes, u, hin, hx⟩)
    · exact ⟨_, _, hin, 0, returns_pure.mpr ⟨rfl, rfl⟩⟩
    · exact ⟨_, u, hin, hx⟩

theorem finishes_transfer_iff {r : BYTE × Buf} :
    Finishes env (XferInTransfer addr ep nbytes data maxpktsize) w r v ↔
      Finishes env (loop (transferRound addr ep nbytes maxpktsize) (data, 0, 0))
        (begun addr ep w) r v := by
  refine exists_congr fun n => ?_
  rw [XferInTransfer_eq]
  constructor
  · intro h
    obtain ⟨_, w₁, hload, h⟩ := returns_bind.mp h
    obtain ⟨rfl, rfl⟩ := returns_load.mp hload
    obtain ⟨_, w₂, hset, h⟩ := returns_bind.mp h
    obtain ⟨_, rfl⟩ := returns_ask.mp hset
    exact h
  · exact fun h => returns_bind.mpr ⟨_, w, returns_load.mpr ⟨rfl, rfl⟩,
      returns_bind.mpr ⟨(), _, returns_ask.mpr ⟨rfl, rfl⟩, h⟩⟩

/-! ### Bytes and `xfrlen` -/

variable {pkts : List BYTE}

theorem bytesOf_append (pkts : List BYTE) (pktsize : BYTE) :
    bytesOf (pkts ++ [pktsize]) = bytesOf pkts + pktsize.toNat := by
  induction pkts with
  | nil => exact Nat.add_comm pktsize.toNat 0
  | cons first pkts ih => rw [List.cons_append, bytesOf, ih, bytesOf, Nat.add_assoc]

theorem Unfinished.le (h : Unfinished nbytes maxpktsize pkts) : bytesOf pkts ≤ nbytes.toNat := by
  rcases h with rfl | ⟨-, hless⟩
  · exact Nat.zero_le _
  · exact hless.le

theorem unfinished_append_iff : Unfinished nbytes maxpktsize (pkts ++ [pktsize]) ↔
    Unfinished nbytes maxpktsize pkts ∧ maxpktsize ≤ pktsize ∧
      bytesOf pkts + pktsize.toNat < nbytes.toNat := by
  rw [Unfinished, bytesOf_append, Unfinished, or_iff_right (List.append_ne_nil_of_right_ne_nil _
    (List.cons_ne_nil _ _)), List.forall_mem_append, List.forall_mem_singleton]
  constructor
  · rintro ⟨⟨hfull, hlast⟩, hless⟩
    exact ⟨.inr ⟨hfull, by omega⟩, hlast, hless⟩
  · rintro ⟨rfl | ⟨hfull, -⟩, hlast, hless⟩
    · exact ⟨⟨fun _ h => absurd h (List.not_mem_nil), hlast⟩, hless⟩
    · exact ⟨⟨hfull, hlast⟩, hless⟩

/-- While the bytes are no more than were asked for, `xfrlen` does not wrap: the transfer goes on
exactly if the packets do not end it. -/
theorem goes_on_iff (hun : Unfinished nbytes maxpktsize pkts)
    (hle : bytesOf pkts + pktsize.toNat ≤ nbytes.toNat) :
    ¬(pktsize < maxpktsize ∨
        nbytes ≤ BitVec.ofNat 16 (bytesOf pkts) + pktsize.setWidth 16) ↔
      Unfinished nbytes maxpktsize (pkts ++ [pktsize]) := by
  have hn := nbytes.isLt
  have hxfrlen : (BitVec.ofNat 16 (bytesOf pkts) + pktsize.setWidth 16).toNat =
      bytesOf pkts + pktsize.toNat := by
    rw [← BitVec.ofNat_toNat, ← BitVec.ofNat_add, BitVec.toNat_ofNat]
    exact Nat.mod_eq_of_lt (by omega)
  rw [unfinished_append_iff, and_iff_right hun, not_or, BitVec.not_lt, BitVec.not_le,
    BitVec.lt_def, hxfrlen]

theorem xfrlen_append (pkts : List BYTE) (pktsize : BYTE) :
    BitVec.ofNat 16 (bytesOf pkts) + pktsize.setWidth 16 =
      BitVec.ofNat 16 (bytesOf (pkts ++ [pktsize])) := by
  rw [bytesOf_append, BitVec.ofNat_add, BitVec.ofNat_toNat]

/-! ### Round after round -/

/-- Before a round: the packets so far are at `data`, and there must be another. -/
structure Goes (env : Hardware) (addr ep : BYTE) (nbytes : WORD) (data : Buf) (maxpktsize : BYTE)
    (w : State) (pkts : List BYTE) (b : Buf × ℕ × WORD) (v : State) : Prop where
  offers : Offers env ep (begun addr ep w) pkts v
  unfinished : Unfinished nbytes maxpktsize pkts
  pos : b.2.1 = bytesOf pkts
  xfrlen : b.2.2 = BitVec.ofNat 16 (bytesOf pkts)
  beyond : ∀ k, bytesOf pkts ≤ k → b.1 k = data k

theorem Goes.put_beyond {b : Buf × ℕ × WORD}
    (h : Goes env addr ep nbytes data maxpktsize w pkts b v) (pktsize : BYTE) (bytes : Buf) {k : ℕ}
    (hk : bytesOf pkts + pktsize.toNat ≤ k) : b.1.put b.2.1 pktsize bytes k = data k := by
  rw [Buf.put, h.pos, if_neg (by omega)]
  exact h.beyond k (by omega)

/-- A packet after which the transfer goes on. -/
theorem Goes.packet {b : Buf × ℕ × WORD}
    (h : Goes env addr ep nbytes data maxpktsize w pkts b v)
    (hin : Finishes env (packetIn ep) v (.inr (pktsize, bytes)) v')
    (hun : Unfinished nbytes maxpktsize (pkts ++ [pktsize])) :
    Goes env addr ep nbytes data maxpktsize w (pkts ++ [pktsize])
      (b.1.put b.2.1 pktsize bytes, b.2.1 + pktsize.toNat, b.2.2 + pktsize.setWidth 16) v' where
  offers := .packet h.offers hin
  unfinished := hun
  pos := by rw [bytesOf_append, h.pos]
  xfrlen := by rw [h.xfrlen, xfrlen_append]
  beyond k hk := h.put_beyond pktsize bytes (by rwa [bytesOf_append] at hk)

theorem goes_begun : Goes env addr ep nbytes data maxpktsize w [] (data, 0, 0) (begun addr ep w) :=
  ⟨.none, .inl rfl, rfl, rfl, fun _ _ => rfl⟩

/-- If the packets fit, this holds before every round that the call comes to. -/
theorem goes_of_heads (hfits : Fits env addr ep nbytes maxpktsize w) {b : Buf × ℕ × WORD}
    (h : Heads env (transferRound addr ep nbytes maxpktsize) (data, 0, 0) (begun addr ep w) b v) :
    ∃ pkts, Goes env addr ep nbytes data maxpktsize w pkts b v := by
  induction h with
  | enter => exact ⟨[], goes_begun⟩
  | round _ hround ih =>
    obtain ⟨pkts, hgoes⟩ := ih
    rcases finishes_transferRound_iff.mp hround with
      ⟨rcode, -, hx⟩ | ⟨pktsize, bytes, u, hin, htaken⟩
    · exact absurd hx (by simp)
    rcases finishes_packetTaken_iff.mp htaken with ⟨-, hx, -⟩ | ⟨hmore, hx, rfl⟩
    · exact absurd hx (by simp)
    obtain rfl := Sum.inl.inj hx
    have hle := hfits pkts pktsize _ (.packet hgoes.offers hin) hgoes.unfinished
    rw [hgoes.xfrlen] at hmore
    exact ⟨_, hgoes.packet hin ((goes_on_iff hgoes.unfinished hle).mp hmore)⟩

/-- Whatever packets a device offers, a transfer that they leave unfinished takes them all. -/
theorem heads_of_offers (data : Buf) (h : Offers env ep (begun addr ep w) pkts v) :
    Unfinished nbytes maxpktsize pkts → ∃ b, Goes env addr ep nbytes data maxpktsize w pkts b v ∧
      Heads env (transferRound addr ep nbytes maxpktsize) (data, 0, 0) (begun addr ep w) b v := by
  induction h with
  | none => exact fun _ => ⟨_, goes_begun, .enter⟩
  | packet _ hin ih =>
    intro hun
    obtain ⟨hbefore, -, hless⟩ := unfinished_append_iff.mp hun
    obtain ⟨b, hgoes, hheads⟩ := ih hbefore
    refine ⟨_, hgoes.packet hin hun, .round hheads (finishes_transferRound_iff.mpr (.inr
      ⟨_, _, _, hin, finishes_packetTaken_iff.mpr (.inr ⟨?_, rfl, rfl⟩)⟩))⟩
    rw [hgoes.xfrlen]
    exact (goes_on_iff hbefore hless.le).mpr hun

/-- A packet is put at `data` as a whole, whether or not it is the last. -/
theorem Goes.puts {b : Buf × ℕ × WORD} (h : Goes env addr ep nbytes data maxpktsize w pkts b v)
    (hheads : Heads env (transferRound addr ep nbytes maxpktsize) (data, 0, 0) (begun addr ep w)
      b v) (hin : Finishes env (packetIn ep) v (.inr (pktsize, bytes)) v') :
    Puts env addr ep nbytes data maxpktsize w (b.1.put (bytesOf pkts) pktsize bytes) := by
  rw [← h.pos]
  by_cases hlast : pktsize < maxpktsize ∨ nbytes ≤ b.2.2 + pktsize.setWidth 16
  · refine .returned (finishes_transfer_iff.mpr ((finishes_loop_iff_heads
      lasting_transferRound).mpr ⟨b, v, hheads, finishes_transferRound_iff.mpr (.inr
        ⟨_, _, _, hin, finishes_packetTaken_iff.mpr (.inl ⟨hlast, rfl, rfl⟩)⟩)⟩))
  · exact .round (.round hheads (finishes_transferRound_iff.mpr (.inr
      ⟨_, _, _, hin, finishes_packetTaken_iff.mpr (.inr ⟨hlast, rfl, rfl⟩)⟩)))

theorem inside_of_fits (hfits : Fits env addr ep nbytes maxpktsize w)
    (h : Puts env addr ep nbytes data maxpktsize w out) {k : ℕ} (hk : nbytes.toNat ≤ k) :
    out k = data k := by
  cases h with
  | round hheads =>
    obtain ⟨pkts, hgoes⟩ := goes_of_heads hfits hheads
    exact hgoes.beyond k (Nat.le_trans hgoes.unfinished.le hk)
  | returned h =>
    obtain ⟨b, u, hheads, hround⟩ :=
      (finishes_loop_iff_heads lasting_transferRound).mp (finishes_transfer_iff.mp h)
    obtain ⟨pkts, hgoes⟩ := goes_of_heads hfits hheads
    rcases finishes_transferRound_iff.mp hround with
      ⟨rcode, -, hx⟩ | ⟨pktsize, bytes, u', hin, htaken⟩
    · obtain ⟨rfl, rfl⟩ := Prod.mk.inj (Sum.inr.inj hx)
      exact hgoes.beyond k (Nat.le_trans hgoes.unfinished.le hk)
    · rcases finishes_packetTaken_iff.mp htaken with ⟨-, hx, -⟩ | ⟨-, hx, -⟩
      · obtain ⟨rfl, rfl⟩ := Prod.mk.inj (Sum.inr.inj hx)
        have hle := hfits pkts pktsize _ (.packet hgoes.offers hin) hgoes.unfinished
        exact hgoes.put_beyond pktsize bytes (Nat.le_trans hle hk)
      · exact absurd hx (by simp)

theorem delivers_of_fits (hfits : Fits env addr ep nbytes maxpktsize w) :
    Delivers env addr ep nbytes maxpktsize w := by
  refine ⟨fun data out h k hk => inside_of_fits hfits h hk, fun n data out v h k _ => ?_⟩
  obtain ⟨pos, hcopied⟩ := transfer_received h
  exact hcopied.bytes k

/-- **A transfer stays in its buffer** exactly if the packets that the device has for it have no
more bytes than were asked for. -/
theorem delivers_iff (env : Hardware) (addr ep : BYTE) (nbytes : WORD) (maxpktsize : BYTE)
    (w : State) :
    Delivers env addr ep nbytes maxpktsize w ↔ Fits env addr ep nbytes maxpktsize w := by
  refine ⟨fun hdelivers pkts pktsize v hoffers hun => ?_, delivers_of_fits⟩
  by_contra hlong
  generalize hall : pkts ++ [pktsize] = all at hoffers
  cases hoffers with
  | none => exact absurd hall (by simp)
  | packet hoffers hin =>
    rename_i earlier u pktsize' bytes
    obtain ⟨rfl, hsame⟩ := List.append_inj' hall rfl
    obtain rfl := List.singleton_inj.mp hsame
    -- over any other byte the one received would be seen
    let other : BYTE := bytes (nbytes.toNat - bytesOf pkts) + 1
    obtain ⟨b, hgoes, hheads⟩ := heads_of_offers (fun _ => other) hoffers hun
    have hkept := hdelivers.inside _ _ (hgoes.puts hheads hin) nbytes.toNat (Nat.le_refl _)
    have hle := hun.le
    rw [Buf.put, if_pos ⟨hle, by omega⟩] at hkept
    exact absurd (BitVec.add_right_eq_self.mp hkept.symm) (by decide)

/-! ### Whole packets -/

theorem packetIn_size (h : Finishes env (packetIn ep) v (.inr (pktsize, bytes)) v') :
    ∃ l, pktsize = env l (.rd rRCVBC) := by
  obtain ⟨n, h⟩ := h
  obtain ⟨rcode, v₁, -, h⟩ := returns_bind.mp h
  rcases returns_ite.mp h with ⟨-, h⟩ | ⟨-, h⟩
  · exact absurd (returns_pure.mp h).1 (by simp)
  obtain ⟨hirq, v₂, -, h⟩ := returns_bind.mp h
  rcases returns_ite.mp h with ⟨-, h⟩ | ⟨-, h⟩
  · exact absurd (returns_pure.mp h).1 (by simp)
  obtain ⟨size, v₃, hrd, h⟩ := returns_bind.mp h
  obtain ⟨_, v₄, -, h⟩ := returns_bind.mp h
  obtain ⟨_, v₅, -, h⟩ := returns_bind.mp h
  obtain ⟨rfl, -⟩ := Prod.mk.inj (Sum.inr.inj (returns_pure.mp h).1)
  exact ⟨_, (returns_ask.mp hrd).1.symm⟩

theorem Offers.size_le (hsize : ∀ l, env l (.rd rRCVBC) ≤ maxpktsize)
    (h : Offers env ep w pkts v) : ∀ pktsize ∈ pkts, pktsize ≤ maxpktsize := by
  induction h with
  | none => exact fun _ h => absurd h List.not_mem_nil
  | packet _ hin ih =>
    obtain ⟨l, rfl⟩ := packetIn_size hin
    exact List.forall_mem_append.mpr ⟨ih, List.forall_mem_singleton.mpr (hsize l)⟩

theorem bytesOf_full (h : ∀ pktsize ∈ pkts, pktsize = maxpktsize) :
    bytesOf pkts = pkts.length * maxpktsize.toNat := by
  rw [List.eq_replicate_of_mem h, List.length_replicate]
  induction pkts.length with
  | zero => exact (Nat.zero_mul _).symm
  | succ k ih => rw [List.replicate_succ, bytesOf, ih, Nat.succ_mul, Nat.add_comm]

/-- **Reports of whole packets fit**: an endpoint that keeps to its packet size sends no more than
is asked for, if that is a number of full packets. -/
theorem delivers_of_dvd (hpos : 0 < nbytes.toNat) (hdvd : maxpktsize.toNat ∣ nbytes.toNat)
    (hsize : ∀ l, env l (.rd rRCVBC) ≤ maxpktsize) :
    Delivers env addr ep nbytes maxpktsize w := by
  refine delivers_of_fits fun pkts pktsize v hoffers hun => ?_
  have hle := List.forall_mem_append.mp (hoffers.size_le hsize)
  have hlast : pktsize.toNat ≤ maxpktsize.toNat := hle.2 pktsize (List.mem_singleton_self _)
  obtain ⟨b, hb⟩ := hdvd
  have hless : bytesOf pkts < nbytes.toNat := by
    rcases hun with rfl | ⟨-, hless⟩
    · exact hpos
    · exact hless
  have hfull : ∀ pktsize ∈ pkts, pktsize = maxpktsize := by
    rcases hun with rfl | ⟨hfull, -⟩
    · exact fun _ h => absurd h List.not_mem_nil
    · exact fun p hp => BitVec.le_antisymm (hle.1 p hp) (hfull p hp)
  rw [bytesOf_full hfull, Nat.mul_comm, hb] at hless
  have hroom := Nat.mul_le_mul_left maxpktsize.toNat (Nat.lt_of_mul_lt_mul_left hless)
  rw [bytesOf_full hfull, Nat.mul_comm, hb]
  rw [Nat.mul_succ] at hroom
  omega

/-- Of two bytes asked for four are copied. -/
theorem not_delivers : ¬∀ (env : Hardware) (addr ep : BYTE) (nbytes : WORD) (maxpktsize : BYTE)
    (w : State), Delivers env addr ep nbytes maxpktsize w := by
  intro hall
  have h : (XferInTransfer 1 1 2 (fun _ => 1) 4 (fourBytes fun _ => true) 8 polling).map
      (fun x => x.1.2 2) = some 0 := by decide +kernel
  obtain ⟨⟨⟨rcode, out⟩, v⟩, hr, hout⟩ := Option.map_eq_some_iff.mp h
  have hsame := (hall _ 1 1 2 4 polling).inside _ out (.returned ⟨8, hr⟩) 2 (Nat.le_refl _)
  rw [show out 2 = 0 from hout] at hsame
  exact absurd hsame (by decide)

end ECE385.Usb
