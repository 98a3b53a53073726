import ECE385.Usb.Descriptor
import ECE385.Usb.Toggle
import Mathlib.Data.Nat.Find
import Mathlib.Order.Monotone.Basic

/-!
# The deadline of a packet

`XferDispatchPkt` waits for a packet until the time has come to a deadline, 5000 ms after it
started.  The time wraps with the tick counter, and before it is divided; a deadline beyond the
last value before the wrap never comes.

* `Clock`: what the tick counter shows, look by look.
* `dispatchLoop_counted`: the launches of a packet, `halts_dispatchLoop`: it comes to an end, both
  if the deadline comes.
* `dispatchEnds_of_reachable`: so it does if the deadline is reachable.
* `reachable_of_dispatchEnds`: only then.
-/

namespace ECE385.Usb

open Firmware Prog

/-- How often the clock has been looked at. -/
def looks (l : Record Query.Reply) : ℕ :=
  l.countP fun a => match a.1 with
    | .alt_nticks => true
    | _ => false

/-- A clock that ticks at `rate` and is looked at in every `gap` ticks: `time i` ticks have passed
at look `i`. -/
structure Clock (env : Hardware) (rate : DWORD) (gap : ℕ) (time : ℕ → ℕ) : Prop where
  shows : ∀ l, env l .alt_nticks = BitVec.ofNat 32 (time (looks l))
  rate_eq : ∀ l, env l .alt_ticks_per_second = rate
  mono : ∀ i, time i ≤ time (i + 1)
  gap_le : ∀ i, time (i + 1) ≤ time i + gap
  passes : ∀ t, ∃ i, t ≤ time i

/-- The milliseconds that `now` makes of `t` ticks. -/
def millis (rate : DWORD) (t : ℕ) : DWORD := BitVec.ofNat 32 t * 1000 / rate

/-- The deadline of a packet dispatched after `t` ticks. -/
def deadline (rate : DWORD) (t : ℕ) : DWORD := millis rate t + USB_XFER_TIMEOUT

/-- The time stays at `timeout` or later for `gap` ticks, so that a look falls into them. -/
def Reachable (rate : DWORD) (gap : ℕ) (timeout : DWORD) : Prop :=
  ∃ t, ∀ j < gap, timeout ≤ millis rate (t + j)

/-- A packet dispatched after `t₀` ticks ends, whatever the device does: it is launched
`USB_NAK_LIMIT + USB_RETRY_LIMIT - 1` times at most, and all looks are in a bounded number of
ticks. -/
def DispatchEnds (token ep : BYTE) (rate : DWORD) (gap t₀ : ℕ) : Prop :=
  ∀ env time w, Clock env rate gap time → time (looks w.record) = t₀ →
    ∃ r v, Finishes env (XferDispatchPkt token ep) w r v ∧
      launches (w.since v) ≤ USB_NAK_LIMIT.toNat + USB_RETRY_LIMIT.toNat - 1 ∧
      ∀ i < looks v.record, time i < t₀ + 2 ^ 29 + gap

/-! ### Rounds -/

/-- A round of `waitDone`. -/
def waitRound (timeout : DWORD) (_ : Unit) : Program (Unit ⊕ BYTE) := do
  if (← now) < timeout then
    let tmpdata ← MAXreg_rd rHIRQ
    if tmpdata &&& bmHXFRDNIRQ ≠ 0 then
      MAXreg_wr rHIRQ bmHXFRDNIRQ
      return .inr 0x00
    else return .inl ()
  else return .inr 0xff

theorem waitDone_eq (timeout : DWORD) : waitDone timeout = loop (waitRound timeout) () := rfl

/-- What `XferDispatchPkt` makes of the end of the wait, with `retry_count` and `nak_count`. -/
def dispatchResult (b : BYTE × BYTE) (rcode : BYTE) : Program ((BYTE × BYTE) ⊕ BYTE) := do
  if rcode ≠ 0x00 then return .inr rcode
  else
    let rcode := (← MAXreg_rd rHRSL) &&& 0x0f
    if rcode = hrNAK then
      if b.2 + 1 = USB_NAK_LIMIT then return .inr rcode
      else return .inl (b.1, b.2 + 1)
    else if rcode = hrTIMEOUT then
      if b.1 + 1 = USB_RETRY_LIMIT then return .inr rcode
      else return .inl (b.1 + 1, b.2)
    else return .inr rcode

/-- A round of `XferDispatchPkt`. -/
def dispatchRound (token ep : BYTE) (timeout : DWORD) (b : BYTE × BYTE) :
    Program ((BYTE × BYTE) ⊕ BYTE) := do
  MAXreg_wr rHXFR (token ||| ep)
  dispatchResult b (← waitDone timeout)

theorem XferDispatchPkt_eq (token ep : BYTE) : XferDispatchPkt token ep = (do
    let timeout := (← now) + USB_XFER_TIMEOUT
    loop (dispatchRound token ep timeout) (0, 0)) := rfl

variable {env : Hardware} {n : ℕ} {token ep : BYTE} {timeout rate : DWORD} {gap t₀ : ℕ}
  {time : ℕ → ℕ} {w v : State}

theorem straight_now : Straight now :=
  straight_bind (straight_ask _) fun _ => straight_bind (straight_ask _) fun _ => straight_pure _

theorem straight_waitRound (timeout : DWORD) (u : Unit) : Straight (waitRound timeout u) := by
  refine straight_bind straight_now fun _ => straight_ite ?_ (straight_pure _)
  refine straight_bind (straight_ask _) fun _ => straight_ite ?_ (straight_pure _)
  exact straight_bind (straight_ask _) fun _ => straight_pure _

theorem straight_dispatchResult (b : BYTE × BYTE) (rcode : BYTE) :
    Straight (dispatchResult b rcode) := by
  refine straight_ite (straight_pure _) (straight_bind (straight_ask _) fun _ => ?_)
  refine straight_ite ?_ (straight_ite ?_ (straight_pure _))
  · exact straight_ite (straight_pure _) (straight_pure _)
  · exact straight_ite (straight_pure _) (straight_pure _)

theorem lasting_waitDone (timeout : DWORD) : Lasting (waitDone timeout) :=
  lasting_loop (fun u => (straight_waitRound timeout u).lasting) ()

theorem lasting_dispatchRound (token ep : BYTE) (timeout : DWORD) (b : BYTE × BYTE) :
    Lasting (dispatchRound token ep timeout b) :=
  lasting_bind (straight_ask _).lasting fun _ => lasting_bind (lasting_waitDone timeout) fun _ =>
    (straight_dispatchResult b _).lasting

theorem lasting_dispatch (token ep : BYTE) : Lasting (XferDispatchPkt token ep) :=
  lasting_bind straight_now.lasting fun _ => lasting_loop (lasting_dispatchRound token ep _) _

/-! ### Looks and launches -/

/-- From `w` to `v` the clock has been looked at `i` times, and `j` packets launched. -/
def Counted (i j : ℕ) (w v : State) : Prop :=
  ∃ l, v.record = l ++ w.record ∧ looks l = i ∧ launches l = j

variable {i j i' j' : ℕ} {u : State}

theorem Counted.trans (h : Counted i j w u) (h' : Counted i' j' u v) :
    Counted (i + i') (j + j') w v := by
  obtain ⟨l, hl, rfl, rfl⟩ := h
  obtain ⟨l', hl', rfl, rfl⟩ := h'
  refine ⟨l' ++ l, by rw [hl', hl, List.append_assoc], ?_, ?_⟩
  · rw [looks, List.countP_append, Nat.add_comm]; rfl
  · rw [launches, List.countP_append, Nat.add_comm]; rfl

theorem Counted.looks_eq (h : Counted i j w v) : looks v.record = looks w.record + i := by
  obtain ⟨l, hl, rfl, -⟩ := h
  rw [hl, looks, List.countP_append, Nat.add_comm]
  rfl

theorem Counted.launches_eq (h : Counted i j w v) : launches (w.since v) = j := by
  obtain ⟨l, hl, -, rfl⟩ := h
  rw [since_eq hl]

theorem counted_refl (w : State) : Counted 0 0 w w := ⟨[], rfl, rfl, rfl⟩

theorem counted_ask {q : Query} {r : q.Reply} (h : Returns env n (ask q) w r v) :
    Counted (looks [⟨q, r⟩]) (launches [⟨q, r⟩]) w v := by
  obtain ⟨rfl, rfl⟩ := returns_ask.mp h
  exact ⟨[⟨q, env w.record q⟩], rfl, rfl, rfl⟩

theorem now_counted (hclock : Clock env rate gap time) {t : DWORD} (h : Returns env n now w t v) :
    t = millis rate (time (looks w.record)) ∧ Counted 1 0 w v := by
  obtain ⟨ticks, w₁, hticks, h⟩ := returns_bind.mp h
  obtain ⟨rate', w₂, hrate, h⟩ := returns_bind.mp h
  obtain ⟨rfl, rfl⟩ := returns_pure.mp h
  refine ⟨?_, (counted_ask hticks).trans (counted_ask hrate)⟩
  rw [← (returns_ask.mp hticks).1, ← (returns_ask.mp hrate).1, hclock.shows, hclock.rate_eq]
  rfl

/-- A round of waiting looks at the clock, and ends the wait at the deadline or with the packet. -/
theorem waitRound_cases (hclock : Clock env rate gap time) {x : Unit ⊕ BYTE}
    (h : Returns env n (waitRound timeout ()) w x v) : Counted 1 0 w v ∧
      (x = .inr 0xff ∧ ¬millis rate (time (looks w.record)) < timeout ∨
        millis rate (time (looks w.record)) < timeout ∧
          (x = .inr 0x00 ∧ (∃ l, env l (.rd rHIRQ) &&& bmHXFRDNIRQ ≠ 0) ∨ x = .inl ())) := by
  obtain ⟨t, w₁, hnow, h⟩ := returns_bind.mp h
  obtain ⟨rfl, h₁⟩ := now_counted hclock hnow
  rcases returns_ite.mp h with ⟨hearly, h⟩ | ⟨hlate, h⟩
  · obtain ⟨hirq, w₂, hrd, h⟩ := returns_bind.mp h
    have h₂ := h₁.trans (counted_ask hrd)
    rcases returns_ite.mp h with ⟨hdone, h⟩ | ⟨-, h⟩
    · obtain ⟨_, w₃, hwr, h⟩ := returns_bind.mp h
      obtain ⟨rfl, rfl⟩ := returns_pure.mp h
      obtain ⟨rfl, -⟩ := returns_ask.mp hrd
      exact ⟨h₂.trans (counted_ask hwr), .inr ⟨hearly, .inl ⟨rfl, _, hdone⟩⟩⟩
    · obtain ⟨rfl, rfl⟩ := returns_pure.mp h
      exact ⟨h₂, .inr ⟨hearly, .inr rfl⟩⟩
  · obtain ⟨rfl, rfl⟩ := returns_pure.mp h
    exact ⟨h₁, .inl ⟨rfl, hlate⟩⟩

/-! ### A packet whose deadline comes -/

section Late

variable (hclock : Clock env rate gap time) {last : ℕ}
  (hlate : ¬millis rate (time last) < timeout)

include hclock hlate

/-- At look `last` the wait is over. -/
theorem waitDone_counted {r : BYTE} (h : Returns env n (waitDone timeout) w r v)
    (hw : looks w.record ≤ last) : ∃ i, Counted i 0 w v ∧
      (r = 0xff ∧ looks v.record ≤ last + 1 ∨ r = 0x00 ∧ looks v.record ≤ last) := by
  rw [waitDone_eq] at h
  refine returns_loop (I := fun _ v => ∃ i, Counted i 0 w v ∧ looks v.record ≤ last)
    (P := fun r v => ∃ i, Counted i 0 w v ∧
      (r = 0xff ∧ looks v.record ≤ last + 1 ∨ r = 0x00 ∧ looks v.record ≤ last))
    h ⟨0, counted_refl w, hw⟩ ?_
  rintro b v x v' ⟨i, hv, hle⟩ hround
  obtain ⟨hcount, hcases⟩ := waitRound_cases hclock hround
  have hlooks := hcount.looks_eq
  rcases hcases with ⟨rfl, -⟩ | ⟨hearly, hx⟩
  · exact ⟨_, hv.trans hcount, .inl ⟨rfl, by omega⟩⟩
  · have hne : looks v.record ≠ last := by
      rintro heq
      exact hlate (heq ▸ hearly)
    have hle' : looks v'.record ≤ last := by omega
    rcases hx with ⟨rfl, -⟩ | rfl
    · exact ⟨_, hv.trans hcount, .inr ⟨rfl, hle'⟩⟩
    · exact ⟨_, hv.trans hcount, hle'⟩

theorem halts_waitDone (hw : looks w.record ≤ last) : Halts env (waitDone timeout) w := by
  rw [waitDone_eq]
  refine halts_loop (fun u => (straight_waitRound timeout u).lasting)
    (I := fun _ v => looks v.record ≤ last) (fun _ v => last - looks v.record) (r := (· < ·))
    (fun b v hv => ?_) hw (Nat.lt_wfRel.wf.apply _)
  obtain ⟨x, v', n, hround⟩ := (straight_waitRound timeout b).halts env v
  refine ⟨x, v', ⟨n, hround⟩, fun b' hx => ?_⟩
  obtain ⟨hcount, hcases⟩ := waitRound_cases hclock hround
  have hlooks := hcount.looks_eq
  have hearly : millis rate (time (looks v.record)) < timeout := by
    rcases hcases with ⟨hexit, -⟩ | ⟨hearly, -⟩
    · exact absurd (hexit.symm.trans hx) (by simp)
    · exact hearly
  have hne : looks v.record ≠ last := by
    rintro heq
    exact hlate (heq ▸ hearly)
  constructor
  · omega
  · show last - looks v'.record < last - looks v.record
    omega

omit hclock hlate in
theorem toNat_succ {k limit : BYTE} (hlt : k.toNat < limit.toNat) (hne : k + 1 ≠ limit) :
    (k + 1).toNat = k.toNat + 1 ∧ (k + 1).toNat < limit.toNat := by
  have hlimit := limit.isLt
  have hsucc : (k + 1).toNat = k.toNat + 1 := by
    rw [BitVec.toNat_add]
    exact Nat.mod_eq_of_lt (by rw [show (1 : BYTE).toNat = 1 from rfl]; omega)
  exact ⟨hsucc, Nat.lt_of_le_of_ne (by omega) fun heq => hne (BitVec.eq_of_toNat_eq heq)⟩

/-- The packets launched are those counted, and the next one. -/
theorem dispatchRound_cases {b : BYTE × BYTE} {x : (BYTE × BYTE) ⊕ BYTE}
    (h : Returns env n (dispatchRound token ep timeout b) w x v) (hw : looks w.record ≤ last) :
    ∃ i, Counted i 1 w v ∧ ((∃ r, x = .inr r) ∧ looks v.record ≤ last + 1 ∨
      looks v.record ≤ last ∧ (x = .inl (b.1, b.2 + 1) ∧ b.2 + 1 ≠ USB_NAK_LIMIT ∨
        x = .inl (b.1 + 1, b.2) ∧ b.1 + 1 ≠ USB_RETRY_LIMIT)) := by
  obtain ⟨_, w₁, hwr, h⟩ := returns_bind.mp h
  have h₁ : Counted 0 1 w w₁ := counted_ask hwr
  have hw₁ : looks w₁.record ≤ last := by rw [h₁.looks_eq]; exact hw
  obtain ⟨rcode, w₂, hwait, h⟩ := returns_bind.mp h
  obtain ⟨i, h₂, hcases⟩ := waitDone_counted hclock hlate hwait hw₁
  have h₂ := h₁.trans h₂
  rcases returns_ite.mp h with ⟨-, h⟩ | ⟨hok, h⟩
  · obtain ⟨rfl, rfl⟩ := returns_pure.mp h
    exact ⟨_, h₂, .inl ⟨⟨_, rfl⟩, hcases.elim (·.2) fun hr => Nat.le_succ_of_le hr.2⟩⟩
  have hle : looks w₂.record ≤ last :=
    hcases.elim (fun hr => absurd (hr.1.symm.trans (not_not.mp hok)) (by decide)) (·.2)
  obtain ⟨hrsl, w₃, hrd, h⟩ := returns_bind.mp h
  have h₃ := h₂.trans (counted_ask hrd)
  have hle₃ : looks w₃.record ≤ last := by
    rw [(counted_ask hrd).looks_eq]
    exact hle
  rcases returns_ite.mp h with ⟨-, h⟩ | ⟨-, h⟩
  · rcases returns_ite.mp h with ⟨-, h⟩ | ⟨hne, h⟩
    · obtain ⟨rfl, rfl⟩ := returns_pure.mp h
      exact ⟨_, h₃, .inl ⟨⟨_, rfl⟩, Nat.le_succ_of_le hle₃⟩⟩
    · obtain ⟨rfl, rfl⟩ := returns_pure.mp h
      exact ⟨_, h₃, .inr ⟨hle₃, .inl ⟨rfl, hne⟩⟩⟩
  rcases returns_ite.mp h with ⟨-, h⟩ | ⟨-, h⟩
  · rcases returns_ite.mp h with ⟨-, h⟩ | ⟨hne, h⟩
    · obtain ⟨rfl, rfl⟩ := returns_pure.mp h
      exact ⟨_, h₃, .inl ⟨⟨_, rfl⟩, Nat.le_succ_of_le hle₃⟩⟩
    · obtain ⟨rfl, rfl⟩ := returns_pure.mp h
      exact ⟨_, h₃, .inr ⟨hle₃, .inr ⟨rfl, hne⟩⟩⟩
  · obtain ⟨rfl, rfl⟩ := returns_pure.mp h
    exact ⟨_, h₃, .inl ⟨⟨_, rfl⟩, Nat.le_succ_of_le hle₃⟩⟩

/-- **Every launch but the last is one that a counter has counted.** -/
theorem dispatchLoop_counted {r : BYTE}
    (h : Returns env n (loop (dispatchRound token ep timeout) (0, 0)) w r v)
    (hw : looks w.record ≤ last) : ∃ i j, Counted i j w v ∧ looks v.record ≤ last + 1 ∧
      j ≤ USB_NAK_LIMIT.toNat + USB_RETRY_LIMIT.toNat - 1 := by
  refine returns_loop
    (I := fun b v => ∃ i, Counted i (b.1.toNat + b.2.toNat) w v ∧ looks v.record ≤ last ∧
      b.1.toNat < USB_RETRY_LIMIT.toNat ∧ b.2.toNat < USB_NAK_LIMIT.toNat)
    (P := fun _ v => ∃ i j, Counted i j w v ∧ looks v.record ≤ last + 1 ∧
      j ≤ USB_NAK_LIMIT.toNat + USB_RETRY_LIMIT.toNat - 1)
    h ⟨0, counted_refl w, hw, by decide, by decide⟩ ?_
  rintro b v x v' ⟨i, hv, hle, hretry, hnak⟩ hround
  obtain ⟨i', hcount, ⟨⟨r, rfl⟩, hle'⟩ | ⟨hle', ⟨rfl, hne⟩ | ⟨rfl, hne⟩⟩⟩ :=
    dispatchRound_cases hclock hlate hround hle
  · exact ⟨_, _, hv.trans hcount, hle', by omega⟩
  · obtain ⟨hsucc, hlt⟩ := toNat_succ hnak hne
    refine ⟨i + i', ?_, hle', hretry, hlt⟩
    show Counted _ (b.1.toNat + (b.2 + 1).toNat) w v'
    rw [hsucc]
    exact hv.trans hcount
  · obtain ⟨hsucc, hlt⟩ := toNat_succ hretry hne
    refine ⟨i + i', ?_, hle', hlt, hnak⟩
    show Counted _ ((b.1 + 1).toNat + b.2.toNat) w v'
    rw [hsucc, Nat.add_right_comm]
    exact hv.trans hcount

theorem halts_dispatchRound (token ep : BYTE) (b : BYTE × BYTE) (hw : looks w.record ≤ last) :
    Halts env (dispatchRound token ep timeout b) w := by
  refine halts_bind (straight_ask _).lasting (fun _ => ?_) ((straight_ask _).halts env w)
    fun _ v ⟨n, hv⟩ => ?_
  · exact lasting_bind (lasting_waitDone timeout) fun _ => (straight_dispatchResult b _).lasting
  refine halts_bind (lasting_waitDone timeout) (fun _ => (straight_dispatchResult b _).lasting) ?_
    fun _ _ _ => (straight_dispatchResult b _).halts env _
  refine halts_waitDone hclock hlate ?_
  have hcount : Counted 0 1 w v := counted_ask hv
  rw [hcount.looks_eq]
  exact hw

theorem halts_dispatchLoop (token ep : BYTE) (hw : looks w.record ≤ last) :
    Halts env (loop (dispatchRound token ep timeout) (0, 0)) w := by
  refine halts_loop (lasting_dispatchRound token ep timeout)
    (I := fun b v => looks v.record ≤ last ∧ b.1.toNat < USB_RETRY_LIMIT.toNat ∧
      b.2.toNat < USB_NAK_LIMIT.toNat)
    (fun b _ => USB_RETRY_LIMIT.toNat - b.1.toNat + (USB_NAK_LIMIT.toNat - b.2.toNat))
    (r := (· < ·)) ?_ ⟨hw, by decide, by decide⟩ (Nat.lt_wfRel.wf.apply _)
  rintro b v ⟨hle, hretry, hnak⟩
  obtain ⟨x, v', n, hround⟩ := halts_dispatchRound hclock hlate token ep b hle
  refine ⟨x, v', ⟨n, hround⟩, fun b' hx => ?_⟩
  obtain ⟨i, -, ⟨⟨r, rfl⟩, -⟩ | ⟨hle', ⟨rfl, hne⟩ | ⟨rfl, hne⟩⟩⟩ :=
    dispatchRound_cases hclock hlate hround hle
  · exact absurd hx (by simp)
  · obtain rfl := Sum.inl.inj hx
    obtain ⟨hsucc, hlt⟩ := toNat_succ hnak hne
    refine ⟨⟨hle', hretry, hlt⟩, ?_⟩
    show _ - b.1.toNat + (_ - (b.2 + 1).toNat) < _
    omega
  · obtain rfl := Sum.inl.inj hx
    obtain ⟨hsucc, hlt⟩ := toNat_succ hretry hne
    refine ⟨⟨hle', hlt, hnak⟩, ?_⟩
    show _ - (b.1 + 1).toNat + (_ - b.2.toNat) < _
    omega

end Late

/-! ### The time -/

/-- The time shown comes again after `2 ^ 29` ticks: then `1000` times the ticks is a multiple of
`2 ^ 32`. -/
theorem millis_congr {t t' : ℕ} (h : t % 2 ^ 29 = t' % 2 ^ 29) :
    millis rate t = millis rate t' := by
  have hticks : ∀ t, BitVec.ofNat 32 t * 1000 = BitVec.ofNat 32 (8 * (125 * (t % 2 ^ 29))) := by
    intro t
    apply BitVec.eq_of_toNat_eq
    rw [BitVec.toNat_mul, BitVec.toNat_ofNat, BitVec.toNat_ofNat,
      show (1000 : DWORD).toNat = 1000 from rfl]
    omega
  rw [millis, millis, hticks t, hticks t', h]

/-- Looked at in every tick, the clock comes to all deadlines up to the last value before it
wraps. -/
theorem reachable_one_iff (hrate : 0 < rate.toNat) :
    Reachable rate 1 timeout ↔ timeout.toNat * rate.toNat ≤ 2 ^ 32 - 8 := by
  have hmillis : ∀ t, timeout ≤ millis rate t ↔
      timeout.toNat * rate.toNat ≤ 8 * (125 * t % 2 ^ 29) := by
    intro t
    have hticks : (BitVec.ofNat 32 t * 1000).toNat = 8 * (125 * t % 2 ^ 29) := by
      rw [BitVec.toNat_mul, BitVec.toNat_ofNat, show (1000 : DWORD).toNat = 1000 from rfl]
      omega
    rw [millis, BitVec.le_def, BitVec.toNat_udiv, hticks, Nat.le_div_iff_mul_le hrate]
  constructor
  · rintro ⟨t, ht⟩
    have hle := (hmillis (t + 0)).mp (ht 0 Nat.one_pos)
    omega
  · intro hle
    -- `1000` times this many ticks is `2 ^ 32 - 8`
    refine ⟨420906795, fun j hj => ?_⟩
    obtain rfl := Nat.lt_one_iff.mp hj
    exact (hmillis _).mpr hle

/-- A look falls into any `gap` ticks to come. -/
theorem Clock.look (hclock : Clock env rate gap time) {i t : ℕ} (ht : time i < t) :
    ∃ k, i < k ∧ t ≤ time k ∧ time k < t + gap := by
  have hex := hclock.passes t
  have hmono := monotone_nat_of_le_succ hclock.mono
  have hlt : i < Nat.find hex := by
    by_contra hle
    have hbefore := Nat.lt_of_le_of_lt (hmono (Nat.le_of_not_lt hle)) ht
    exact absurd (Nat.find_spec hex) (Nat.not_le_of_lt hbefore)
  refine ⟨Nat.find hex, hlt, Nat.find_spec hex, ?_⟩
  obtain ⟨k, hk⟩ : ∃ k, Nat.find hex = k + 1 := ⟨Nat.find hex - 1, by omega⟩
  have hbefore := Nat.find_min hex (show k < Nat.find hex by omega)
  have hgap := hclock.gap_le k
  rw [hk]
  omega

/-- The look at which a reachable deadline has come. -/
theorem Clock.late (hclock : Clock env rate gap time) (hreach : Reachable rate gap timeout)
    (i : ℕ) : ∃ last, i < last ∧ time last < time i + 2 ^ 29 + gap ∧
      ¬millis rate (time last) < timeout := by
  obtain ⟨t, ht⟩ := hreach
  -- the same time shows again after look `i`
  obtain ⟨t', hlt, hle, hmod⟩ :
      ∃ t', time i < t' ∧ t' ≤ time i + 2 ^ 29 ∧ t' % 2 ^ 29 = t % 2 ^ 29 :=
    ⟨time i + 1 + (t + (2 ^ 29 - (time i + 1) % 2 ^ 29)) % 2 ^ 29, by omega, by omega, by omega⟩
  obtain ⟨last, hlast, hfrom, hto⟩ := hclock.look hlt
  refine ⟨last, hlast, by omega, ?_⟩
  have hagain : millis rate (time last) = millis rate (t + (time last - t')) :=
    millis_congr (by omega)
  rw [BitVec.not_lt, hagain]
  exact ht _ (by omega)

/-- **A packet whose deadline is reachable ends.** -/
theorem dispatchEnds_of_reachable (hreach : Reachable rate gap (deadline rate t₀)) :
    DispatchEnds token ep rate gap t₀ := by
  rintro env time w hclock rfl
  obtain ⟨last, hlast, hbound, hlate⟩ := hclock.late hreach (looks w.record)
  have hmono := monotone_nat_of_le_succ hclock.mono
  obtain ⟨t, w₁, n₁, hnow⟩ := straight_now.halts env w
  obtain ⟨rfl, hcount⟩ := now_counted hclock hnow
  have hw₁ : looks w₁.record ≤ last := by
    rw [hcount.looks_eq]
    omega
  obtain ⟨r, v, n, hloop⟩ := halts_dispatchLoop hclock hlate token ep hw₁
  obtain ⟨i, j, hcount', hle, hj⟩ := dispatchLoop_counted hclock hlate hloop hw₁
  have hall := hcount.trans hcount'
  refine ⟨r, v, ?_, ?_, fun k hk => ?_⟩
  · rw [XferDispatchPkt_eq]
    exact (finishes_bind straight_now.lasting fun _ =>
      lasting_loop (lasting_dispatchRound token ep _) _).mpr ⟨_, _, ⟨n₁, hnow⟩, n, hloop⟩
  · rw [hall.launches_eq]
    omega
  · exact Nat.lt_of_le_of_lt (hmono (show k ≤ last by omega)) hbound

/-! ### A packet whose deadline does not come -/

/-- Hardware that answers zeros, with a clock. -/
def ticking (rate : DWORD) (time : ℕ → ℕ) : Hardware
  | l, .alt_nticks => BitVec.ofNat 32 (time (looks l))
  | _, .alt_ticks_per_second => rate
  | l, q => silent l q

theorem not_halts_waitDone (hclock : Clock env rate gap time)
    (hnever : ∀ l, env l (.rd rHIRQ) &&& bmHXFRDNIRQ = 0)
    (hearly : ∀ i, looks w.record ≤ i → millis rate (time i) < timeout) :
    ¬Halts env (waitDone timeout) w := by
  rw [waitDone_eq]
  refine not_halts_loop (I := fun _ v => looks w.record ≤ looks v.record) ?_ (Nat.le_refl _)
  rintro b v x v' hle ⟨n, hround⟩
  obtain ⟨hcount, ⟨-, hlate⟩ | ⟨-, ⟨-, l, hdone⟩ | rfl⟩⟩ := waitRound_cases hclock hround
  · exact absurd (hearly _ hle) hlate
  · exact absurd (hnever l) hdone
  · exact ⟨(), rfl, by rw [hcount.looks_eq]; omega⟩

/-- **A packet whose deadline is not reachable may never end**: a device that does not answer keeps
the driver waiting. -/
theorem reachable_of_dispatchEnds (h : DispatchEnds token ep rate gap t₀) :
    Reachable rate gap (deadline rate t₀) := by
  by_contra hunreach
  -- from every tick the next look can avoid the deadline
  have hnext : ∀ t, ∃ t', t < t' ∧ t' ≤ t + gap ∧ millis rate t' < deadline rate t₀ := by
    intro t
    by_contra hnone
    refine hunreach ⟨t + 1, fun j hj => ?_⟩
    rw [← BitVec.not_lt]
    exact fun hlt => hnone ⟨t + 1 + j, by omega, by omega, hlt⟩
  choose next hlt hle hearly using hnext
  let time : ℕ → ℕ := fun i => next^[i] t₀
  have hsucc : ∀ i, time (i + 1) = next (time i) := fun i => Function.iterate_succ_apply' next i t₀
  have hpasses : ∀ i, i ≤ time i := by
    intro i
    induction i with
    | zero => exact Nat.zero_le _
    | succ i ih =>
      have := hlt (time i)
      rw [hsucc]
      omega
  have hclock : Clock (ticking rate time) rate gap time := by
    refine ⟨fun _ => rfl, fun _ => rfl, fun i => ?_, fun i => ?_, fun t => ⟨t, hpasses t⟩⟩
    · rw [hsucc]
      exact (hlt _).le
    · rw [hsucc]
      exact hle _
  obtain ⟨r, v, ⟨n, hfinish⟩, -⟩ := h _ time ⟨Mem.start, []⟩ hclock rfl
  rw [XferDispatchPkt_eq] at hfinish
  obtain ⟨t, w₁, hnow, hloop⟩ := returns_bind.mp hfinish
  obtain ⟨rfl, hcount⟩ := now_counted hclock hnow
  refine not_halts_loop (I := fun _ v => 1 ≤ looks v.record) ?_ ?_ ⟨r, v, n, hloop⟩
  · rintro b w x v hw ⟨n, hround⟩
    obtain ⟨_, w₂, hwr, hround⟩ := returns_bind.mp hround
    obtain ⟨rcode, w₃, hwait, -⟩ := returns_bind.mp hround
    have hnever : ∀ l, ticking rate time l (.rd rHIRQ) &&& bmHXFRDNIRQ = 0 := by
      intro l
      show (0 : BYTE) &&& bmHXFRDNIRQ = 0
      decide
    refine absurd ⟨rcode, w₃, n, hwait⟩ (not_halts_waitDone hclock hnever fun i hi => ?_)
    have hcount : Counted 0 1 w w₂ := counted_ask hwr
    rw [hcount.looks_eq] at hi
    obtain ⟨i, rfl⟩ : ∃ k, i = k + 1 := ⟨i - 1, by omega⟩
    rw [hsucc]
    exact hearly _
  · rw [hcount.looks_eq]
    omega

end ECE385.Usb
