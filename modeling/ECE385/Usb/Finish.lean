import ECE385.Bits.Wrapping
import ECE385.Usb.Deadline
import ECE385.Usb.Delivery

/-!
# Transfers that end

`XferInTransfer` goes on as long as the packets are full and fewer than `nbytes` bytes have come.
Packets of no bytes are full when `maxpktsize` is 0, and `xfrlen` wraps.

* `Continues`: the values of `xfrlen`, round after round.
* `transferEnds_of_acc`: a transfer ends if these come to an end,
  `acc_of_transferEnds`: some device goes on for ever if they do not.
* `acc_iff`: when they do.
* `halts_transfer`: a transfer that ends because its packets do and `xfrlen` does.
* `transfers_end_iff`: the packets and the transfers that end.
-/

namespace ECE385.Usb

open Bits Firmware Prog

/-- The transfer goes on from `xfrlen` to `next`, with a packet that the chip may report. -/
def Continues (nbytes : WORD) (maxpktsize largest : BYTE) (next xfrlen : WORD) : Prop :=
  ∃ pktsize, maxpktsize ≤ pktsize ∧ pktsize ≤ largest ∧ next = xfrlen + pktsize.setWidth 16 ∧
    next < nbytes

/-- A transfer whose packets end does so too, whatever the device sends in packets of at most
`largest` bytes. -/
def TransferEnds (addr ep : BYTE) (nbytes : WORD) (maxpktsize largest : BYTE) : Prop :=
  ∀ env w data, (∀ l, env l (.rd rRCVBC) ≤ largest) →
    (∀ v, Extends w v → Halts env (XferDispatchPkt tokIN ep) v) →
    Halts env (XferInTransfer addr ep nbytes data maxpktsize) w

/-- Nothing is asked for; or no packet is full; or full packets have bytes, and no packet takes
`xfrlen` past all values from `nbytes` on.  Packets of one size come to the multiples of its
greatest common divisor with `2 ^ 16`. -/
def Bounded (nbytes : WORD) (maxpktsize largest : BYTE) : Prop :=
  nbytes = 0 ∨ largest < maxpktsize ∨ 0 < maxpktsize.toNat ∧
    nbytes.toNat ≤
      2 ^ 16 - if maxpktsize = largest then Nat.gcd largest.toNat (2 ^ 16) else largest.toNat

variable {addr ep maxpktsize largest : BYTE} {nbytes : WORD}

/-! ### Rounds -/

theorem OnePacket.extends {env : Hardware} {pktsize : BYTE} {bytes : Buf} {w v : State}
    (h : OnePacket env pktsize bytes w v) : Extends w v := by
  obtain ⟨l, hl, -⟩ := h.record
  exact ⟨l, hl.symm⟩

/-- **A transfer ends** if the values of `xfrlen` do. -/
theorem transferEnds_of_acc (hacc : Acc (Continues nbytes maxpktsize largest) 0) :
    TransferEnds addr ep nbytes maxpktsize largest := by
  intro env w data hsize hdispatch
  rw [XferInTransfer_eq]
  have hloop : Lasting (loop (transferRound addr ep nbytes maxpktsize) (data, 0, 0)) :=
    lasting_loop lasting_transferRound _
  refine halts_bind (straight_load _).lasting (fun _ => lasting_bind (straight_ask _).lasting
    fun _ => hloop) ((straight_load _).halts env w) fun _ v ⟨_, hv⟩ => ?_
  obtain ⟨rfl, rfl⟩ := returns_load.mp hv
  refine halts_bind (straight_ask _).lasting (fun _ => hloop) ((straight_ask _).halts env _)
    fun _ v ⟨_, hv⟩ => ?_
  obtain ⟨-, rfl⟩ := returns_ask.mp hv
  refine halts_loop lasting_transferRound (I := fun _ v => Extends w v) (fun b _ => b.2.2)
    (r := Continues nbytes maxpktsize largest) ?_ (List.suffix_cons _ _) hacc
  rintro ⟨data, pos, xfrlen⟩ v hext
  obtain ⟨x, v', n, hround⟩ : Halts env (transferRound addr ep nbytes maxpktsize
      (data, pos, xfrlen)) v := halts_transferRound (hdispatch v hext) _
  refine ⟨x, v', ⟨n, hround⟩, fun b' hx => ?_⟩
  rcases round_cases hround with ⟨rcode, rfl, -⟩ | ⟨pktsize, bytes, hp, ⟨-, rfl⟩ | ⟨hmore, rfl⟩⟩
  · exact absurd hx (by simp)
  · exact absurd hx (by simp)
  · obtain rfl := Sum.inl.inj hx
    obtain ⟨u, -, hu⟩ := hp.size
    rw [not_or, BitVec.not_lt, BitVec.not_le] at hmore
    exact ⟨IsTrans.trans _ _ _ hext hp.extends, pktsize, hmore.1, hu ▸ hsize u.record, rfl, hmore.2⟩

/-! ### The values of `xfrlen` -/

theorem toNat_add_pktsize (xfrlen : WORD) (pktsize : BYTE) :
    (xfrlen + pktsize.setWidth 16).toNat = (xfrlen.toNat + pktsize.toNat) % 2 ^ 16 := by
  rw [BitVec.toNat_add, BitVec.toNat_setWidth_of_le (by decide)]

theorem continues_iff {next xfrlen : WORD} : Continues nbytes maxpktsize largest next xfrlen ↔
    Progresses (2 ^ 16) nbytes.toNat maxpktsize.toNat largest.toNat next.toNat xfrlen.toNat := by
  constructor
  · rintro ⟨pktsize, hfull, hle, rfl, hmore⟩
    exact ⟨pktsize.toNat, hfull, hle, toNat_add_pktsize xfrlen pktsize, hmore⟩
  · rintro ⟨k, hfull, hle, hnext, hmore⟩
    have hk : (BitVec.ofNat 8 k).toNat = k :=
      (BitVec.toNat_ofNat k 8).trans (Nat.mod_eq_of_lt (Nat.lt_of_le_of_lt hle largest.isLt))
    refine ⟨BitVec.ofNat 8 k, ?_, ?_, ?_, hmore⟩
    · rw [BitVec.le_def, hk]; exact hfull
    · rw [BitVec.le_def, hk]; exact hle
    · apply BitVec.eq_of_toNat_eq
      rw [toNat_add_pktsize, hk, hnext]

theorem acc_continues_iff {xfrlen : WORD} : Acc (Continues nbytes maxpktsize largest) xfrlen ↔
    Acc (Progresses (2 ^ 16) nbytes.toNat maxpktsize.toNat largest.toNat) xfrlen.toNat := by
  constructor
  · intro hacc
    induction hacc with
    | intro xfrlen _ ih =>
      refine .intro _ fun next hnext => ?_
      have hword : (BitVec.ofNat 16 next).toNat = next := by
        obtain ⟨_, -, -, rfl, -⟩ := hnext
        rw [BitVec.toNat_ofNat, Nat.mod_mod]
      rw [← hword] at hnext ⊢
      exact ih _ (continues_iff.mpr hnext)
  · intro hacc
    generalize hs : xfrlen.toNat = s at hacc
    induction hacc generalizing xfrlen with
    | intro s _ ih =>
      subst hs
      exact .intro _ fun next hnext => ih _ (continues_iff.mp hnext) rfl

/-- **When the values of `xfrlen` come to an end.** -/
theorem acc_iff : Acc (Continues nbytes maxpktsize largest) 0 ↔
    Bounded nbytes maxpktsize largest := by
  have hm := maxpktsize.isLt
  have hlargest := largest.isLt
  have hroom : (maxpktsize.toNat - 1) * (maxpktsize.toNat + 1) ≤ 2 ^ 16 - largest.toNat :=
    calc (maxpktsize.toNat - 1) * (maxpktsize.toNat + 1) ≤ 254 * 256 :=
          Nat.mul_le_mul (by omega) (by omega)
      _ ≤ 2 ^ 16 - largest.toNat := by omega
  have hzero : nbytes.toNat = 0 ↔ nbytes = 0 :=
    ⟨fun h => BitVec.eq_of_toNat_eq h, fun h => congrArg BitVec.toNat h⟩
  have hone : maxpktsize.toNat = largest.toNat ↔ maxpktsize = largest :=
    ⟨BitVec.eq_of_toNat_eq, congrArg BitVec.toNat⟩
  rw [acc_continues_iff, show (0 : WORD).toNat = 0 from rfl, acc_progresses_iff (by omega) hroom,
    Bounded, hzero, BitVec.lt_def]
  simp only [hone]

/-! ### A device that goes on -/

/-- A device that always has a packet, whose size depends on the bytes it has sent. -/
def packets (size : WORD → BYTE) : Hardware
  | l, .rd reg =>
    if reg = rRCVBC then size (total (sizes l))
    else if reg = rHIRQ then bmHXFRDNIRQ ||| bmRCVDAVIRQ
    else 0
  | l, q => silent l q

/-- The first look at `HIRQ` ends the wait. -/
theorem packets_waitRound (size : WORD → BYTE) (n : ℕ) (u : Unit) (w : State) :
    ∃ v, Returns (packets size) n (waitRound USB_XFER_TIMEOUT u) w (.inr 0) v := by
  have hearly : 0#32 < USB_XFER_TIMEOUT := by decide
  have hreg : rHIRQ ≠ rRCVBC := by decide
  have hdone : ¬(bmHXFRDNIRQ ||| bmRCVDAVIRQ) &&& bmHXFRDNIRQ = 0#8 := by decide
  simp [waitRound, now, packets, silent, MAXreg_rd, MAXreg_wr, hearly, hreg, hdone]

theorem packets_result (size : WORD → BYTE) (n : ℕ) (w : State) :
    ∃ v, Returns (packets size) n (dispatchResult (0, 0) 0) w (.inr 0) v := by
  have hreg : rHRSL ≠ rRCVBC ∧ rHRSL ≠ rHIRQ := by decide
  have hrsl : 0#8 ≠ hrNAK ∧ 0#8 ≠ hrTIMEOUT := by decide
  simp [dispatchResult, packets, MAXreg_rd, hreg, hrsl]

/-- All packets succeed at once. -/
theorem packets_dispatch (size : WORD → BYTE) (ep : BYTE) (w : State) :
    ∃ v, Finishes (packets size) (XferDispatchPkt tokIN ep) w 0 v := by
  obtain ⟨v, hnow⟩ : ∃ v, Returns (packets size) 0 now w 0 v := by simp [now, packets, silent]
  let launched : State := { v with record := ⟨.wr rHXFR (tokIN ||| ep), ()⟩ :: v.record }
  obtain ⟨v', hwait⟩ := packets_waitRound size 0 () launched
  obtain ⟨v'', hresult⟩ := packets_result size 0 v'
  have hround : Finishes (packets size) (dispatchRound tokIN ep USB_XFER_TIMEOUT (0, 0)) v
      (.inr 0) v'' := by
    refine (finishes_bind (straight_ask _).lasting fun _ => lasting_bind (lasting_waitDone _)
      fun _ => (straight_dispatchResult _ _).lasting).mpr
        ⟨(), launched, ⟨0, returns_ask.mpr ⟨rfl, rfl⟩⟩, ?_⟩
    refine (finishes_bind (lasting_waitDone _) fun _ => (straight_dispatchResult _ _).lasting).mpr
      ⟨0, v', ?_, 0, hresult⟩
    exact (finishes_loop_iff fun u => (straight_waitRound _ u).lasting).mpr (.exit ⟨0, hwait⟩)
  refine ⟨v'', ?_⟩
  rw [XferDispatchPkt_eq]
  refine (finishes_bind straight_now.lasting fun _ =>
    lasting_loop (lasting_dispatchRound tokIN ep _) _).mpr ⟨0, v, ⟨0, hnow⟩, ?_⟩
  exact (finishes_loop_iff (lasting_dispatchRound tokIN ep _)).mpr (.exit hround)

theorem total_cons (pktsize : BYTE) (l : List BYTE) :
    total (pktsize :: l) = total l + pktsize.setWidth 16 := rfl

/-- If the values of `xfrlen` may go on, so does a device that chooses its packets accordingly. -/
theorem acc_of_transferEnds (h : TransferEnds addr ep nbytes maxpktsize largest) :
    Acc (Continues nbytes maxpktsize largest) 0 := by
  by_contra hnot
  have hnext : ∀ xfrlen, ∃ pktsize ≤ largest,
      ¬Acc (Continues nbytes maxpktsize largest) xfrlen →
        maxpktsize ≤ pktsize ∧ xfrlen + pktsize.setWidth 16 < nbytes ∧
          ¬Acc (Continues nbytes maxpktsize largest) (xfrlen + pktsize.setWidth 16) := by
    intro xfrlen
    by_cases hacc : Acc (Continues nbytes maxpktsize largest) xfrlen
    · exact ⟨0, BitVec.le_def.mpr (Nat.zero_le _), fun hno => absurd hacc hno⟩
    · by_contra hnone
      refine hacc (.intro xfrlen ?_)
      rintro next ⟨pktsize, hfull, hle, rfl, hmore⟩
      by_contra hno
      exact hnone ⟨pktsize, hle, fun _ => ⟨hfull, hmore, hno⟩⟩
  choose size hle hgo using hnext
  have hhalts := h (packets size) ⟨Mem.start, []⟩ (fun _ => 0)
    (fun l => hle _) (fun v _ => ⟨0, packets_dispatch size ep v⟩)
  rw [XferInTransfer_eq] at hhalts
  obtain ⟨r, v, n, hreturns⟩ := hhalts
  obtain ⟨_, w₁, hload, hreturns⟩ := returns_bind.mp hreturns
  obtain ⟨rfl, rfl⟩ := returns_load.mp hload
  obtain ⟨_, w₂, hset, hloop⟩ := returns_bind.mp hreturns
  obtain ⟨_, rfl⟩ := returns_ask.mp hset
  refine not_halts_loop (I := fun b v => b.2.2 = total (sizes v.record) ∧
    ¬Acc (Continues nbytes maxpktsize largest) b.2.2) ?_ ⟨rfl, hnot⟩ ⟨r, v, n, hloop⟩
  rintro ⟨data, pos, xfrlen⟩ v x v' ⟨hxfrlen, hno⟩ ⟨n, hround⟩
  simp only at hxfrlen hno
  rcases round_cases hround with
    ⟨rcode, -, -, ⟨u, hd, hfail⟩ | ⟨l, hnone⟩⟩ | ⟨pktsize, bytes, hp, hx⟩
  · obtain ⟨u', hzero⟩ := packets_dispatch size ep v
    exact absurd (Finishes.unique (lasting_dispatch tokIN ep) ⟨n, hd⟩ hzero).1 hfail
  · exact absurd hnone (show (bmHXFRDNIRQ ||| bmRCVDAVIRQ) &&& bmRCVDAVIRQ ≠ 0 by decide)
  · obtain ⟨u, ⟨l, hl, hsizes, -⟩, hu⟩ := hp.size
    have hsame : sizes u.record = sizes v.record := by
      rw [hl, sizes, List.filterMap_append]
      exact congrArg (· ++ sizes v.record) hsizes
    have hchosen : pktsize = size xfrlen := by
      rw [hu, hxfrlen, ← hsame]
      rfl
    obtain ⟨hfull, hmore, hno'⟩ := hgo xfrlen hno
    rw [← hchosen] at hfull hmore hno'
    rcases hx with ⟨hlast, -⟩ | ⟨-, rfl⟩
    · rcases hlast with hshort | hall
      · exact absurd hshort (BitVec.not_lt.mpr hfull)
      · exact absurd hmore (BitVec.not_lt.mpr hall)
    · refine ⟨_, rfl, ?_, hno'⟩
      obtain ⟨l', hl', hsizes', -⟩ := hp.record
      rw [hl', sizes, List.filterMap_append]
      show xfrlen + pktsize.setWidth 16 = total (sizes l' ++ sizes v.record)
      rw [hsizes', List.singleton_append, total_cons, hxfrlen]

/-! ### All transfers -/

/-- **Where the two meet**: by a clock that comes to every deadline a transfer from a device with
packets of at most `largest` bytes returns, if it is bounded. -/
theorem halts_transfer {env : Hardware} {rate : DWORD} {gap : ℕ} {time : ℕ → ℕ}
    (hclock : Clock env rate gap time) (hreach : ∀ i, Reachable rate gap (deadline rate (time i)))
    (hsize : ∀ l, env l (.rd rRCVBC) ≤ largest) (hbounded : Bounded nbytes maxpktsize largest)
    (data : Buf) (w : State) : Halts env (XferInTransfer addr ep nbytes data maxpktsize) w := by
  refine transferEnds_of_acc (acc_iff.mpr hbounded) env w data hsize fun v _ => ?_
  obtain ⟨r, u, hpacket, -⟩ :=
    dispatchEnds_of_reachable (hreach (looks v.record)) env time v hclock rfl
  exact ⟨r, u, hpacket⟩

/-- **The packets and the transfers that end.** -/
theorem transfers_end_iff (token ep : BYTE) (rate : DWORD) (gap t₀ : ℕ) (addr : BYTE)
    (nbytes : WORD) (maxpktsize largest : BYTE) :
    (DispatchEnds token ep rate gap t₀ ↔ Reachable rate gap (deadline rate t₀)) ∧
      (TransferEnds addr ep nbytes maxpktsize largest ↔ Bounded nbytes maxpktsize largest) := by
  refine ⟨⟨reachable_of_dispatchEnds, dispatchEnds_of_reachable⟩, ?_⟩
  rw [← acc_iff]
  exact ⟨acc_of_transferEnds, transferEnds_of_acc⟩

/-- At 1000 ticks a second the last tick before the time wraps; and empty packets of an endpoint
with `MaxPktSize` 0. -/
theorem not_transfers_end :
    (¬∀ (token ep : BYTE) (rate : DWORD) (t₀ : ℕ), 0 < rate.toNat →
      DispatchEnds token ep rate 1 t₀) ∧
    ¬∀ (addr ep : BYTE) (nbytes : WORD) (maxpktsize : BYTE),
      TransferEnds addr ep nbytes maxpktsize 64 := by
  constructor
  · intro h
    have hreach := reachable_of_dispatchEnds (h tokIN 1 1000 4294967 (by decide))
    exact absurd ((reachable_one_iff (by decide)).mp hreach) (by decide)
  · intro h
    have hbounded := acc_iff.mp (acc_of_transferEnds (h 1 1 8 0))
    rcases hbounded with hnothing | hshort | ⟨hfull, -⟩
    · exact absurd hnothing (by decide)
    · exact absurd hshort (by decide)
    · exact absurd hfull (by decide)

end ECE385.Usb
