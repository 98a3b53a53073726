import ECE385.Usb.Driver

/-!
# Transfers

`transfer.c` up to the state machine, and the request macros of `transfer.h`.

* `transferRound_cases`: what a round of `XferInTransfer` can do.
* `XferCtrlReq_returned`, ...: what control transfers can do.
-/

namespace ECE385.Usb

open Firmware Prog

/-- The wait of `XferDispatchPkt` for the end of a packet. -/
def waitDone (timeout : DWORD) : Program BYTE :=
  loop (β := Unit) (fun _ => do
    if (← now) < timeout then
      let tmpdata ← MAXreg_rd rHIRQ
      if tmpdata &&& bmHXFRDNIRQ ≠ 0 then
        MAXreg_wr rHIRQ bmHXFRDNIRQ
        return .inr 0x00
      else return .inl ()
    else return .inr 0xff) ()

/-- The loop has `retry_count` and `nak_count`. -/
def XferDispatchPkt (token ep : BYTE) : Program BYTE := do
  let timeout := (← now) + USB_XFER_TIMEOUT
  loop (β := BYTE × BYTE) (fun (retry_count, nak_count) => do
    MAXreg_wr rHXFR (token ||| ep)
    let rcode ← waitDone timeout
    if rcode ≠ 0x00 then return .inr rcode
    else
      let rcode := (← MAXreg_rd rHRSL) &&& 0x0f
      if rcode = hrNAK then
        if nak_count + 1 = USB_NAK_LIMIT then return .inr rcode
        else return .inl (retry_count, nak_count + 1)
      else if rcode = hrTIMEOUT then
        if retry_count + 1 = USB_RETRY_LIMIT then return .inr rcode
        else return .inl (retry_count + 1, nak_count)
      else return .inr rcode) (0, 0)

/-- Bytes go to `data`; the loop has the data received, the number of bytes and `xfrlen`. -/
def XferInTransfer (addr ep : BYTE) (nbytes : WORD) (data : Buf) (maxpktsize : BYTE) :
    Program (BYTE × Buf) := do
  MAXreg_wr rHCTL (← load (Mem.epinfo addr ep.toNat)).rcvToggle
  loop (β := Buf × ℕ × WORD) (fun (data, pos, xfrlen) => do
    let rcode ← XferDispatchPkt tokIN ep
    if rcode ≠ 0 then return .inr (rcode, data)
    else if (← MAXreg_rd rHIRQ) &&& bmRCVDAVIRQ = 0 then return .inr (0xf0, data)
    else
      let pktsize ← MAXreg_rd rRCVBC
      let data ← MAXbytes_rd rRCVFIFO pktsize data pos
      MAXreg_wr rHIRQ bmRCVDAVIRQ
      let xfrlen := xfrlen + pktsize.setWidth 16
      if pktsize < maxpktsize ∨ nbytes ≤ xfrlen then
        let toggle := if (← MAXreg_rd rHRSL) &&& bmRCVTOGRD ≠ 0 then bmRCVTOG1 else bmRCVTOG0
        store (Mem.setEpinfo addr ep.toNat fun e => { e with rcvToggle := toggle })
        return .inr (0, data)
      else return .inl (data, pos + pktsize.toNat, xfrlen)) (data, 0, 0)

/-- Control transfer with data stage. -/
def XferCtrlData (addr ep : BYTE) (nbytes : WORD) (dataptr : Buf) (direction : Bool) :
    Program (BYTE × Buf) := do
  if direction then
    store (Mem.setEpinfo addr ep.toNat fun e => { e with rcvToggle := bmRCVTOG1 })
    let maxpktsize := (← load (Mem.epinfo addr ep.toNat)).MaxPktSize.setWidth 8
    let (rcode, dataptr) ← XferInTransfer addr ep nbytes dataptr maxpktsize
    if rcode ≠ 0 then return (rcode, dataptr)
    else return (← XferDispatchPkt tokOUTHS ep, dataptr)
  else return (0xff, dataptr)

/-- Control transfer with status stage and no data stage. -/
def XferCtrlND (ep : BYTE) (direction : Bool) : Program BYTE :=
  if direction then XferDispatchPkt tokOUTHS ep else XferDispatchPkt tokINHS ep

/-- `SETUP_PKT`. -/
def setup_pkt (bmReqType bRequest wValLo wValHi : BYTE) (wInd nbytes : WORD) : List BYTE :=
  [bmReqType, bRequest, wValLo, wValHi, wInd.setWidth 8, (wInd >>> 8).setWidth 8,
    nbytes.setWidth 8, (nbytes >>> 8).setWidth 8]

/-- The area at `dataptr` is returned as the transfer leaves it; `none` is the null pointer. -/
def XferCtrlReq (addr ep bmReqType bRequest wValLo wValHi : BYTE) (wInd nbytes : WORD)
    (dataptr : Option Buf) : Program (BYTE × Option Buf) :=
  announce (fun r => .returned (.XferCtrlReq addr bRequest wValLo r.1)) do
    MAXreg_wr rPERADDR addr
    let direction := bmReqType &&& 0x80 ≠ 0
    MAXbytes_wr rSUDFIFO (setup_pkt bmReqType bRequest wValLo wValHi wInd nbytes)
    let rcode ← XferDispatchPkt tokSETUP ep
    if rcode ≠ 0 then return (rcode, dataptr)
    else
      match dataptr with
      | none => return (← XferCtrlND ep direction, none)
      | some data =>
        let (rcode, data) ← XferCtrlData addr ep nbytes data direction
        return (rcode, some data)

/-! ### Requests -/

def USB_REQUEST_SET_ADDRESS : BYTE := 5
def USB_REQUEST_GET_DESCRIPTOR : BYTE := 6
def USB_REQUEST_SET_CONFIGURATION : BYTE := 9
def HID_REQUEST_SET_PROTOCOL : BYTE := 0x0B

def USB_DESCRIPTOR_DEVICE : BYTE := 0x01
def USB_DESCRIPTOR_CONFIGURATION : BYTE := 0x02
def USB_DESCRIPTOR_STRING : BYTE := 0x03
def USB_DESCRIPTOR_INTERFACE : BYTE := 0x04
def USB_DESCRIPTOR_ENDPOINT : BYTE := 0x05

def LANG_EN_US : WORD := 0x0409

def bmREQ_GET_DESCR : BYTE := 0x80
def bmREQ_SET : BYTE := 0x00
def bmREQ_HIDOUT : BYTE := 0x21

/-- A request with no data stage. -/
def request (addr ep bmReqType bRequest wValLo wValHi : BYTE) (wInd : WORD) : Program BYTE := do
  let (rcode, _) ← XferCtrlReq addr ep bmReqType bRequest wValLo wValHi wInd 0x0000 none
  return rcode

def XferSetAddr (oldaddr ep newaddr : BYTE) : Program BYTE :=
  request oldaddr ep bmREQ_SET USB_REQUEST_SET_ADDRESS newaddr 0x00 0x0000

def XferSetConf (addr ep conf_value : BYTE) : Program BYTE :=
  request addr ep bmREQ_SET USB_REQUEST_SET_CONFIGURATION conf_value 0x00 0x0000

def XferSetProto (addr ep interface protocol : BYTE) : Program BYTE :=
  request addr ep bmREQ_HIDOUT HID_REQUEST_SET_PROTOCOL protocol 0x00 (interface.setWidth 16)

/-- The requests for descriptors, of which `wValHi` tells the kind. -/
def getDescr (addr ep wValLo wValHi : BYTE) (wInd nbytes : WORD) (dataptr : Buf) :
    Program (BYTE × Buf) := do
  let (rcode, data) ← XferCtrlReq addr ep bmREQ_GET_DESCR USB_REQUEST_GET_DESCRIPTOR wValLo wValHi
    wInd nbytes (some dataptr)
  return (rcode, data.getD dataptr)

def XferGetDevDescr (addr ep : BYTE) (nbytes : WORD) (dataptr : Buf) : Program (BYTE × Buf) :=
  getDescr addr ep 0x00 USB_DESCRIPTOR_DEVICE 0x0000 nbytes dataptr

def XferGetConfDescr (addr ep : BYTE) (nbytes : WORD) (conf : BYTE) (dataptr : Buf) :
    Program (BYTE × Buf) :=
  getDescr addr ep conf USB_DESCRIPTOR_CONFIGURATION 0x0000 nbytes dataptr

def XferGetStrDescr (addr ep : BYTE) (nbytes : WORD) (index : BYTE) (langid : WORD)
    (dataptr : Buf) : Program (BYTE × Buf) :=
  getDescr addr ep index USB_DESCRIPTOR_STRING langid nbytes dataptr

/-! ### What transfers can do -/

/-- The accesses of `XferDispatchPkt` are among these. -/
def Query.Quiet : Query → Prop
  | wr reg _ => reg ≠ rHCTL
  | rd reg => reg ≠ rRCVBC
  | alt_nticks => True
  | alt_ticks_per_second => True
  | _ => False

/-! ### A round of a transfer -/

/-- What `XferInTransfer` makes of a packet, with the data, the number of bytes and `xfrlen`. -/
def transferResult (addr ep : BYTE) (nbytes : WORD) (maxpktsize : BYTE) (b : Buf × ℕ × WORD)
    (rcode : BYTE) : Program ((Buf × ℕ × WORD) ⊕ (BYTE × Buf)) := do
  if rcode ≠ 0 then return .inr (rcode, b.1)
  else if (← MAXreg_rd rHIRQ) &&& bmRCVDAVIRQ = 0 then return .inr (0xf0, b.1)
  else
    let pktsize ← MAXreg_rd rRCVBC
    let data ← MAXbytes_rd rRCVFIFO pktsize b.1 b.2.1
    MAXreg_wr rHIRQ bmRCVDAVIRQ
    let xfrlen := b.2.2 + pktsize.setWidth 16
    if pktsize < maxpktsize ∨ nbytes ≤ xfrlen then
      let toggle := if (← MAXreg_rd rHRSL) &&& bmRCVTOGRD ≠ 0 then bmRCVTOG1 else bmRCVTOG0
      store (Mem.setEpinfo addr ep.toNat fun e => { e with rcvToggle := toggle })
      return .inr (0, data)
    else return .inl (data, b.2.1 + pktsize.toNat, xfrlen)

/-- A round of `XferInTransfer`. -/
def transferRound (addr ep : BYTE) (nbytes : WORD) (maxpktsize : BYTE) (b : Buf × ℕ × WORD) :
    Program ((Buf × ℕ × WORD) ⊕ (BYTE × Buf)) := do
  transferResult addr ep nbytes maxpktsize b (← XferDispatchPkt tokIN ep)

theorem XferInTransfer_eq (addr ep : BYTE) (nbytes : WORD) (data : Buf) (maxpktsize : BYTE) :
    XferInTransfer addr ep nbytes data maxpktsize = (do
      MAXreg_wr rHCTL (← load (Mem.epinfo addr ep.toNat)).rcvToggle
      loop (transferRound addr ep nbytes maxpktsize) (data, 0, 0)) := rfl

/-- The buffer with a packet put at `pos`. -/
def Buf.put (data : Buf) (pos : ℕ) (pktsize : BYTE) (bytes : Buf) : Buf := fun k =>
  if pos ≤ k ∧ k < pos + pktsize.toNat then bytes (k - pos) else data k

/-- The bytes of a packet have been read, and before that how many. -/
def packetRead (pktsize : BYTE) (bytes : Buf) (u : State) : State :=
  { u with
    record := ⟨.bytesRd rRCVFIFO pktsize, bytes⟩ :: ⟨.rd rRCVBC, pktsize⟩ :: u.record }

/-- The toggle that `HRSL` shows has been saved. -/
def saved (env : Hardware) (addr ep : BYTE) (u : State) : State where
  mem := u.mem.setEpinfo addr ep.toNat fun e =>
    { e with
      rcvToggle := if env u.record (.rd rHRSL) &&& bmRCVTOGRD ≠ 0 then bmRCVTOG1 else bmRCVTOG0 }
  record := ⟨.rd rHRSL, env u.record (.rd rHRSL)⟩ :: u.record

/-- A round takes a packet in `u`; its other accesses are in `T`. -/
structure Takes (env : Hardware) (T : State → State → Prop) (pktsize : BYTE) (bytes : Buf)
    (v u u' : State) : Prop where
  before : T v u
  size : pktsize = env u.record (.rd rRCVBC)
  bytes_eq : bytes =
    env (⟨.rd rRCVBC, pktsize⟩ :: u.record) (.bytesRd rRCVFIFO pktsize)
  after : T (packetRead pktsize bytes u) u'

section Within

variable {env : Hardware} {T : State → State → Prop} [IsPreorder State T]

theorem now_within (hq : ∀ q : Query, q.Quiet → Within env T (ask q)) : Within env T now :=
  within_bind (hq _ trivial) fun _ => within_bind (hq _ trivial) fun _ => within_pure _

theorem waitDone_within (hq : ∀ q : Query, q.Quiet → Within env T (ask q)) (timeout : DWORD) :
    Within env T (waitDone timeout) := by
  refine within_loop (fun _ => ?_) ()
  refine within_bind (now_within hq) fun _ => within_ite (fun _ => ?_) fun _ => within_pure _
  refine within_bind (hq _ (show rHIRQ ≠ rRCVBC by decide)) fun _ =>
    within_ite (fun _ => ?_) fun _ => within_pure _
  exact within_bind (hq _ (show rHIRQ ≠ rHCTL by decide)) fun _ => within_pure _

theorem XferDispatchPkt_within (hq : ∀ q : Query, q.Quiet → Within env T (ask q))
    (token ep : BYTE) : Within env T (XferDispatchPkt token ep) := by
  refine within_bind (now_within hq) fun t => within_loop (fun (retry_count, nak_count) => ?_) _
  refine within_bind (hq _ (show rHXFR ≠ rHCTL by decide)) fun _ => ?_
  refine within_bind (waitDone_within hq _) fun rcode =>
    within_ite (fun _ => within_pure _) fun _ => ?_
  refine within_bind (hq _ (show rHRSL ≠ rRCVBC by decide)) fun hrsl =>
    within_ite (fun _ => ?_) fun _ => within_ite (fun _ => ?_) fun _ => within_pure _
  · exact within_ite (fun _ => within_pure _) fun _ => within_pure _
  · exact within_ite (fun _ => within_pure _) fun _ => within_pure _

theorem XferCtrlND_within (hq : ∀ q : Query, q.Quiet → Within env T (ask q)) (ep : BYTE)
    (direction : Bool) : Within env T (XferCtrlND ep direction) :=
  within_ite (fun _ => XferDispatchPkt_within hq _ _) fun _ => XferDispatchPkt_within hq _ _

/-- **A round of a transfer** fails without a packet, or takes one, which may be the last. -/
theorem transferRound_cases (hq : ∀ q : Query, q.Quiet → Within env T (ask q)) {n : ℕ}
    {addr ep maxpktsize : BYTE} {nbytes : WORD} {b : Buf × ℕ × WORD} {v v' : State}
    {x : (Buf × ℕ × WORD) ⊕ (BYTE × Buf)}
    (h : Returns env n (transferRound addr ep nbytes maxpktsize b) v x v') :
    (∃ rcode, x = .inr (rcode, b.1) ∧ T v v' ∧
      ((∃ u, Returns env n (XferDispatchPkt tokIN ep) v rcode u ∧ rcode ≠ 0) ∨
        ∃ l, env l (.rd rHIRQ) &&& bmRCVDAVIRQ = 0)) ∨
    ∃ pktsize bytes u u', Takes env T pktsize bytes v u u' ∧
      ((pktsize < maxpktsize ∨ nbytes ≤ b.2.2 + pktsize.setWidth 16) ∧
          x = .inr (0, b.1.put b.2.1 pktsize bytes) ∧ v' = saved env addr ep u' ∨
        ¬(pktsize < maxpktsize ∨ nbytes ≤ b.2.2 + pktsize.setWidth 16) ∧
          x = .inl (b.1.put b.2.1 pktsize bytes, b.2.1 + pktsize.toNat,
            b.2.2 + pktsize.setWidth 16) ∧ v' = u') := by
  obtain ⟨rcode, v₁, hd, h⟩ := returns_bind.mp h
  have h₁ := XferDispatchPkt_within hq _ _ n v rcode v₁ hd
  rcases returns_ite.mp h with ⟨hfail, h⟩ | ⟨-, h⟩
  · obtain ⟨rfl, rfl⟩ := returns_pure.mp h
    exact .inl ⟨_, rfl, h₁, .inl ⟨_, hd, hfail⟩⟩
  obtain ⟨hirq, v₂, hrd, h⟩ := returns_bind.mp h
  have h₂ := IsTrans.trans _ _ _ h₁
    (hq (.rd rHIRQ) (show rHIRQ ≠ rRCVBC by decide) n v₁ hirq v₂ hrd)
  rcases returns_ite.mp h with ⟨hnone, h⟩ | ⟨-, h⟩
  · obtain ⟨rfl, rfl⟩ := returns_pure.mp h
    obtain ⟨rfl, -⟩ := returns_ask.mp hrd
    exact .inl ⟨_, rfl, h₂, .inr ⟨_, hnone⟩⟩
  obtain ⟨pktsize, v₃, hrd, h⟩ := returns_bind.mp h
  obtain ⟨rfl, rfl⟩ := returns_ask.mp hrd
  obtain ⟨data, v₄, hbytes, h⟩ := returns_bind.mp h
  obtain ⟨bytes, v₅, hfifo, hdata⟩ := returns_bind.mp hbytes
  obtain ⟨rfl, rfl⟩ := returns_pure.mp hdata
  obtain ⟨rfl, rfl⟩ := returns_ask.mp hfifo
  obtain ⟨_, v₆, hwr, h⟩ := returns_bind.mp h
  have h₆ := hq (.wr rHIRQ bmRCVDAVIRQ) (show rHIRQ ≠ rHCTL by decide) n _ _ v₆ hwr
  refine .inr ⟨_, _, v₂, v₆, ⟨h₂, rfl, rfl, h₆⟩, ?_⟩
  rcases returns_ite.mp h with ⟨hlast, h⟩ | ⟨hmore, h⟩
  · obtain ⟨hrsl, v₇, hrd, h⟩ := returns_bind.mp h
    obtain ⟨rfl, rfl⟩ := returns_ask.mp hrd
    obtain ⟨_, v₈, hstore, h⟩ := returns_bind.mp h
    obtain rfl := returns_store.mp hstore
    obtain ⟨rfl, rfl⟩ := returns_pure.mp h
    exact .inl ⟨hlast, rfl, rfl⟩
  · obtain ⟨rfl, rfl⟩ := returns_pure.mp h
    exact .inr ⟨hmore, rfl, rfl⟩

/-- `T` lets pass all accesses, and the assignments to the receive toggle of the endpoint. -/
structure Toggles (env : Hardware) (T : State → State → Prop) (addr ep : BYTE) : Prop where
  ask : ∀ q : Query, (∀ r, q ≠ .returned r) → Within env T (ask q)
  store : ∀ t, Within env T (store (Mem.setEpinfo addr ep.toNat fun e => { e with rcvToggle := t }))

/-- `T` lets pass all accesses, and all assignments to variables other than `usb_task_state`. -/
structure Passes (env : Hardware) (T : State → State → Prop) : Prop where
  ask : ∀ q : Query, (∀ r, q ≠ .returned r) → Within env T (ask q)
  store : ∀ f : Mem → Mem, (∀ m, (f m).usb_task_state = m.usb_task_state) →
    Within env T (store f)

variable {addr ep : BYTE}

omit [IsPreorder State T] in
theorem Passes.toggles (h : Passes env T) : Toggles env T addr ep :=
  ⟨h.ask, fun _ => h.store _ fun _ => rfl⟩

omit [IsPreorder State T] in
theorem Toggles.quiet (h : Toggles env T addr ep) (q : Query) (hq : q.Quiet) :
    Within env T (Prog.ask q) :=
  h.ask q (by rintro r rfl; exact hq)

variable (h : Toggles env T addr ep)

include h

theorem XferInTransfer_within (nbytes : WORD) (data : Buf) (maxpktsize : BYTE) :
    Within env T (XferInTransfer addr ep nbytes data maxpktsize) := by
  refine within_bind (within_load _) fun e => within_bind (h.ask _ nofun) fun _ => ?_
  refine within_loop (fun (data, pos, xfrlen) => ?_) _
  refine within_bind (XferDispatchPkt_within h.quiet _ _) fun rcode =>
    within_ite (fun _ => within_pure _) fun _ => ?_
  refine within_bind (h.ask _ nofun) fun _ => within_ite (fun _ => within_pure _) fun _ => ?_
  refine within_bind (h.ask _ nofun) fun pktsize => ?_
  refine within_bind (within_bind (h.ask _ nofun) fun _ => within_pure _) fun data => ?_
  refine within_bind (h.ask _ nofun) fun _ => within_ite (fun _ => ?_) fun _ => within_pure _
  exact within_bind (h.ask _ nofun) fun _ => within_bind (h.store _) fun _ => within_pure _

theorem XferCtrlData_within (nbytes : WORD) (dataptr : Buf) (direction : Bool) :
    Within env T (XferCtrlData addr ep nbytes dataptr direction) := by
  refine within_ite (fun _ => ?_) fun _ => within_pure _
  refine within_bind (h.store _) fun _ => within_bind (within_load _) fun _ => ?_
  refine within_bind (XferInTransfer_within h _ _ _) fun (rcode, data) => ?_
  refine within_ite (fun _ => within_pure _) fun _ => ?_
  exact within_bind (XferDispatchPkt_within h.quiet _ _) fun _ => within_pure _

/-- A control transfer, and then its return. -/
theorem XferCtrlReq_returned {bmReqType bRequest wValLo wValHi : BYTE} {wInd nbytes : WORD}
    {dataptr : Option Buf} {n : ℕ} {w w' : State} {r : BYTE × Option Buf}
    (hr : Returns env n (XferCtrlReq addr ep bmReqType bRequest wValLo wValHi wInd nbytes dataptr)
      w r w') :
    ∃ v, T w v ∧ { v with
      record := ⟨.returned (.XferCtrlReq addr bRequest wValLo r.1), ()⟩ :: v.record } = w' := by
  obtain ⟨v, hv, rfl⟩ := returns_announce.mp hr
  refine ⟨v, ?_, rfl⟩
  refine (?_ : Within env T _) n w r v hv
  refine within_bind (h.ask _ nofun) fun _ => within_bind (h.ask _ nofun) fun _ => ?_
  refine within_bind (XferDispatchPkt_within h.quiet _ _) fun rcode =>
    within_ite (fun _ => within_pure _) fun _ => ?_
  cases dataptr with
  | none => exact within_bind (XferCtrlND_within h.quiet _ _) fun _ => within_pure _
  | some data => exact within_bind (XferCtrlData_within h _ _ _) fun _ => within_pure _

theorem request_returned {bmReqType bRequest wValLo wValHi : BYTE} {wInd : WORD} {n : ℕ}
    {w w' : State} {rcode : BYTE}
    (hr : Returns env n (request addr ep bmReqType bRequest wValLo wValHi wInd) w rcode w') :
    ∃ v, T w v ∧ { v with
      record := ⟨.returned (.XferCtrlReq addr bRequest wValLo rcode), ()⟩ :: v.record } = w' := by
  obtain ⟨r, v, hv, hp⟩ := returns_bind.mp hr
  obtain ⟨rfl, rfl⟩ := returns_pure.mp hp
  exact XferCtrlReq_returned h hv

theorem getDescr_returned {wValLo wValHi : BYTE} {wInd nbytes : WORD} {dataptr : Buf}
    {n : ℕ} {w w' : State} {r : BYTE × Buf}
    (hr : Returns env n (getDescr addr ep wValLo wValHi wInd nbytes dataptr) w r w') :
    ∃ v, T w v ∧ { v with
      record := ⟨.returned (.XferCtrlReq addr USB_REQUEST_GET_DESCRIPTOR wValLo r.1), ()⟩ ::
        v.record } = w' := by
  obtain ⟨r', v, hv, hp⟩ := returns_bind.mp hr
  obtain ⟨rfl, rfl⟩ := returns_pure.mp hp
  exact XferCtrlReq_returned h hv

variable (hret : ∀ r : Return, Within env T (ask (.returned r)))

include hret

theorem request_within (bmReqType bRequest wValLo wValHi : BYTE) (wInd : WORD) :
    Within env T (request addr ep bmReqType bRequest wValLo wValHi wInd) := by
  intro n w rcode w' hr
  obtain ⟨v, hv, rfl⟩ := request_returned h hr
  exact IsTrans.trans _ _ _ hv (hret _ n v () _ (returns_ask.mpr ⟨rfl, rfl⟩))

theorem getDescr_within (wValLo wValHi : BYTE) (wInd nbytes : WORD) (dataptr : Buf) :
    Within env T (getDescr addr ep wValLo wValHi wInd nbytes dataptr) := by
  intro n w r w' hr
  obtain ⟨v, hv, rfl⟩ := getDescr_returned h hr
  exact IsTrans.trans _ _ _ hv (hret _ n v () _ (returns_ask.mpr ⟨rfl, rfl⟩))

end Within

end ECE385.Usb
