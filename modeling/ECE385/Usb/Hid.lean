import ECE385.Usb.Transfer

/-!
# The HID class driver

`HID.c`.  The probes of mouse and keyboard differ in the protocol they look for and the class
they enter.
-/

namespace ECE385.Usb

open Firmware Prog

def CONF_DESCR_LEN : WORD := 9

def HID_INTF : BYTE := 0x03
def BOOT_INTF_SUBCLASS : BYTE := 0x01
def HID_PROTOCOL_KEYBOARD : BYTE := 0x01
def HID_PROTOCOL_MOUSE : BYTE := 0x02

def BOOT_PROTOCOL : BYTE := 0x00

def HID_K : BYTE := 1
def HID_M : BYTE := 2

/-- A `WORD` in memory, the low byte first. -/
def Buf.word (b : Buf) (k : ℕ) : WORD := b (k + 1) ++ b k

def HID_init : Program Unit :=
  store (Mem.setEp .hid_ep 1 fun e => { e with sndToggle := bmSNDTOG0, rcvToggle := bmRCVTOG0 })

/-- The loops of the probes: `byte_ptr`, an offset into `bigbuf`, goes from descriptor to
descriptor until one is of type `ty`. -/
def skipTo (ty : BYTE) (total_length : ℕ) (byte_ptr : ℕ) : Program (Option ℕ) :=
  loop (fun byte_ptr => do
    if byte_ptr < total_length then
      let bigbuf ← load Mem.bigbuf
      if bigbuf (byte_ptr + 1) ≠ ty then return .inl (byte_ptr + (bigbuf byte_ptr).toNat)
      else return .inr (some byte_ptr)
    else return .inr none) byte_ptr

/-- `XferGetConfDescr` into `bigbuf`. -/
def getConf (addr : BYTE) (nbytes : WORD) : Program BYTE := do
  let (rcode, data) ← XferGetConfDescr addr 0 nbytes 0 (← load Mem.bigbuf)
  store fun m => { m with bigbuf := data }
  return rcode

/-- The interface at `byte_ptr` is of the class: switch to `hid_ep`. -/
def enterInterface (devclass addr : BYTE) (byte_ptr : ℕ) : Program Unit := do
  store (Mem.setDev addr fun d => { d with devclass := devclass })
  let tmpbyte : BYTE := (← load (Mem.epinfo addr 0)).MaxPktSize.setWidth 8
  HID_init
  store (Mem.setDev addr fun d => { d with epinfo := .hid_ep })
  store (Mem.setEpinfo addr 0 fun e => { e with MaxPktSize := tmpbyte.setWidth 16 })
  store fun m => { m with hid_device := ⟨addr, m.bigbuf (byte_ptr + 2)⟩ }

/-- The endpoint at `byte_ptr` is entered and the device configured. -/
def enterEndpoint (addr confvalue : BYTE) (byte_ptr : ℕ) : Program Bool := do
  let bigbuf ← load Mem.bigbuf
  store (Mem.setEpinfo addr 1 fun e =>
    { e with
      epAddr := bigbuf (byte_ptr + 2)
      Attr := bigbuf (byte_ptr + 3)
      MaxPktSize := bigbuf.word (byte_ptr + 4)
      Interval := bigbuf (byte_ptr + 6) })
  let rcode ← XferSetConf addr 0 confvalue
  if rcode ≠ 0 then return false
  else
    let rcode ← XferSetProto addr 0 (← load Mem.hid_device).interface BOOT_PROTOCOL
    return rcode = 0

/-- The probe for the boot protocol `proto`. -/
def HIDProbe (proto devclass addr : BYTE) : Program Bool := do
  let rcode ← getConf addr CONF_DESCR_LEN
  if rcode ≠ 0 then return false
  else
    let wTotalLength := (← load Mem.bigbuf).word 2
    let total_length : WORD := if wTotalLength > 256 then 256 else wTotalLength
    let rcode ← getConf addr total_length
    if rcode ≠ 0 then return false
    else
      let confvalue := (← load Mem.bigbuf) 5
      match ← skipTo USB_DESCRIPTOR_INTERFACE total_length.toNat 0 with
      | none => return false
      | some byte_ptr =>
        let bigbuf ← load Mem.bigbuf
        if bigbuf (byte_ptr + 5) = HID_INTF ∧ bigbuf (byte_ptr + 6) = BOOT_INTF_SUBCLASS ∧
            bigbuf (byte_ptr + 7) = proto then
          enterInterface devclass addr byte_ptr
          match ← skipTo USB_DESCRIPTOR_ENDPOINT total_length.toNat
              (byte_ptr + (bigbuf byte_ptr).toNat) with
          | none => return false
          | some byte_ptr => enterEndpoint addr confvalue byte_ptr
        else return false

def HIDMProbe (addr : BYTE) : Program Bool := HIDProbe HID_PROTOCOL_MOUSE HID_M addr

def HIDKProbe (addr : BYTE) : Program Bool := HIDProbe HID_PROTOCOL_KEYBOARD HID_K addr

/-- The body of both polls. -/
def poll (buf : Buf) : Program (BYTE × Buf) := do
  MAXreg_wr rPERADDR (← load Mem.hid_device).addr
  let addr := (← load Mem.hid_device).addr
  XferInTransfer addr 1 8 buf ((← load (Mem.epinfo addr 1)).MaxPktSize.setWidth 8)

def mousePoll (buf : Buf) : Program (BYTE × Buf) := poll buf

def kbdPoll (buf : Buf) : Program (BYTE × Buf) := poll buf

/-! ### What a probe can do -/

section Within

variable {env : Hardware} {T : State → State → Prop} [IsPreorder State T]

theorem skipTo_within (ty : BYTE) (total_length byte_ptr : ℕ) :
    Within env T (skipTo ty total_length byte_ptr) := by
  refine within_loop (fun byte_ptr => within_ite (fun _ => ?_) fun _ => within_pure _) _
  refine within_bind (within_load _) fun bigbuf => ?_
  exact within_ite (fun _ => within_pure _) fun _ => within_pure _

variable (h : Passes env T)

include h

theorem enterInterface_within (devclass addr : BYTE) (byte_ptr : ℕ) :
    Within env T (enterInterface devclass addr byte_ptr) := by
  refine within_bind (h.store _ fun _ => rfl) fun _ => within_bind (within_load _) fun _ => ?_
  refine within_bind (h.store _ fun _ => rfl) fun _ =>
    within_bind (h.store _ fun _ => rfl) fun _ => ?_
  exact within_bind (h.store _ fun _ => rfl) fun _ => h.store _ fun _ => rfl

variable (hret : ∀ r : Return, Within env T (ask (.returned r)))

include hret

theorem getConf_within (addr : BYTE) (nbytes : WORD) : Within env T (getConf addr nbytes) := by
  refine within_bind (within_load _) fun _ => ?_
  refine within_bind (getDescr_within h.toggles hret _ _ _ _ _) fun (rcode, data) => ?_
  exact within_bind (h.store _ fun _ => rfl) fun _ => within_pure _

theorem enterEndpoint_within (addr confvalue : BYTE) (byte_ptr : ℕ) :
    Within env T (enterEndpoint addr confvalue byte_ptr) := by
  refine within_bind (within_load _) fun _ => within_bind (h.store _ fun _ => rfl) fun _ => ?_
  refine within_bind (request_within h.toggles hret _ _ _ _ _) fun rcode =>
    within_ite (fun _ => within_pure _) fun _ => within_bind (within_load _) fun _ => ?_
  exact within_bind (request_within h.toggles hret _ _ _ _ _) fun _ => within_pure _

theorem HIDProbe_within (proto devclass addr : BYTE) :
    Within env T (HIDProbe proto devclass addr) := by
  refine within_bind (getConf_within h hret _ _) fun rcode =>
    within_ite (fun _ => within_pure _) fun _ => within_bind (within_load _) fun bigbuf => ?_
  refine within_bind (getConf_within h hret _ _) fun rcode =>
    within_ite (fun _ => within_pure _) fun _ => within_bind (within_load _) fun bigbuf => ?_
  refine within_bind (skipTo_within _ _ _) fun found => ?_
  cases found with
  | none => exact within_pure _
  | some byte_ptr =>
    refine within_bind (within_load _) fun bigbuf => within_ite (fun _ => ?_) fun _ => within_pure _
    refine within_bind (enterInterface_within h _ _ _) fun _ => ?_
    refine within_bind (skipTo_within _ _ _) fun found => ?_
    cases found with
    | none => exact within_pure _
    | some byte_ptr => exact enterEndpoint_within h hret _ _ _

end Within

end ECE385.Usb
