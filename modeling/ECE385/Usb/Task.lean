import ECE385.Usb.Hid
import Mathlib.Data.List.Range

/-!
# The state machine

`USB_Task` of `transfer.c`, `MAX_busprobe` and `MaxIntHandler` of `MAX3421E.c`.
-/

namespace ECE385.Usb

open Firmware Prog

def USB_STATE_MASK : BYTE := 0xf0
def USB_STATE_DETACHED : BYTE := 0x00
def USB_DETACHED_SUBSTATE_INITIALIZE : BYTE := 0x01
def USB_DETACHED_SUBSTATE_WAIT_FOR_DEVICE : BYTE := 0x03
def USB_DETACHED_SUBSTATE_ILLEGAL : BYTE := 0x04
def USB_STATE_ATTACHED : BYTE := 0x10
def USB_ATTACHED_SUBSTATE_SETTLE : BYTE := 0x11
def USB_ATTACHED_SUBSTATE_RESET_DEVICE : BYTE := 0x12
def USB_ATTACHED_SUBSTATE_WAIT_RESET_COMPLETE : BYTE := 0x13
def USB_ATTACHED_SUBSTATE_WAIT_SOF : BYTE := 0x14
def USB_ATTACHED_SUBSTATE_GET_DEVICE_DESCRIPTOR_SIZE : BYTE := 0x15
def USB_STATE_ADDRESSING : BYTE := 0x20
def USB_STATE_CONFIGURING : BYTE := 0x30
def USB_STATE_RUNNING : BYTE := 0x40
def USB_STATE_ERROR : BYTE := 0xff

def USB_NUMDEVICES : ℕ := 8

/-- `usb_task_state = v`. -/
def setState (v : BYTE) : Program Unit := store fun m => { m with usb_task_state := v }

/-- An error is noted, with the state it occurred in. -/
def fail (rcode : BYTE) : Program Unit := do
  store fun m => { m with usb_error := rcode, last_usb_task_state := m.usb_task_state }
  setState USB_STATE_ERROR

def USB_init : Program Unit :=
  store fun m =>
    { m with
      devtable := fun i =>
        if i = 0 then ⟨.dev0ep, 0⟩
        else if i.toNat < USB_NUMDEVICES + 1 then ⟨.NULL, 0⟩ else m.devtable i
      ep := (m.setEp .dev0ep 0 fun e =>
        { e with MaxPktSize := 0, sndToggle := bmSNDTOG0, rcvToggle := bmRCVTOG0 }).ep }

/-- The loop of `ConvUTF8ToStr` from `i` on, with `n` rounds to go. -/
def convLoop : ℕ → ℕ → Buf → Buf
  | _, 0, utf8 => utf8
  | i, n + 1, utf8 => convLoop (i + 1) n (fun k => if k = i then utf8 (2 * i) else utf8 k)

def ConvUTF8ToStr (utf8 : Buf) (length : BYTE) : Buf :=
  let utf8 := convLoop 0 length.toNat utf8
  fun k => if k = length.toNat then 0x00 else utf8 k

/-- A string descriptor is read and printed; its string starts at byte `2`. -/
def printString (index : BYTE) : Program Unit := do
  let strDesc ← ask .uninitialised
  let (_, strDesc) ← XferGetStrDescr 0 0 2 index LANG_EN_US strDesc
  let (_, strDesc) ← XferGetStrDescr 0 0 ((strDesc 0).setWidth 16) index LANG_EN_US strDesc
  let _ ← ask (.printf (ConvUTF8ToStr (fun k => strDesc (k + 2)) (strDesc 0 >>> 1 - 1)))

/-! ### `USB_Task` -/

/-- `case( USB_ATTACHED_SUBSTATE_GET_DEVICE_DESCRIPTOR_SIZE )`; `bMaxPacketSize0` is at byte `7`,
`iManufacturer` and `iProduct` are at `14` and `15`. -/
def getDeviceDescriptor : Program Unit := do
  let buf ← ask .uninitialised
  store (Mem.setEpinfo 0 0 fun e => { e with MaxPktSize := 0x0008 })
  let (rcode, buf) ← XferGetDevDescr 0 0 8 buf
  if rcode = 0 then
    store (Mem.setEpinfo 0 0 fun e => { e with MaxPktSize := (buf 7).setWidth 16 })
    -- what this and the string requests return is not looked at
    let (_, buf) ← XferGetDevDescr 0 0 ((buf 0).setWidth 16) buf
    when (buf 14 ≠ 0) (printString (buf 14))
    when (buf 15 ≠ 0) (printString (buf 15))
    setState USB_STATE_ADDRESSING
  else fail rcode

/-- The loop of `case( USB_STATE_ADDRESSING )` over the addresses. -/
def setAddress : List BYTE → Program Unit
  | [] => return
  | i :: rest => do
    if ((← load Mem.devtable) i).epinfo = .NULL then
      store fun m => m.setDev i fun d => { d with epinfo := (m.devtable 0).epinfo }
      let rcode ← XferSetAddr 0 0 i
      if rcode = 0 then
        store fun m => { m with tmp_addr := i }
        setState USB_STATE_CONFIGURING
      else fail rcode
    else setAddress rest

def MSDProbe (_addr : BYTE) : Program Bool := return false

def DummyProbe (_addr : BYTE) : Program Bool := return false

/-- The `Initialize` entries. -/
def ClientDriverTable : List (BYTE → Program Bool) := [MSDProbe, HIDMProbe, HIDKProbe, DummyProbe]

/-- The loop of `case( USB_STATE_CONFIGURING )` over the drivers, from number `i` on. -/
def runProbes (addr : BYTE) : ℕ → List (BYTE → Program Bool) → Program Unit
  | _, [] => return
  | i, probe :: rest => do
    if ← announce (fun found => .returned (.Initialize i found)) (probe addr) then
      setState USB_STATE_RUNNING
    else runProbes addr (i + 1) rest

/-- The inner `switch( usb_task_state )` of the detached states. -/
def detached (s : BYTE) : Program Unit :=
  if s = USB_DETACHED_SUBSTATE_INITIALIZE then do
    USB_init
    setState USB_DETACHED_SUBSTATE_WAIT_FOR_DEVICE
  else if s = USB_DETACHED_SUBSTATE_WAIT_FOR_DEVICE then MAXreg_wr rHCTL bmSAMPLEBUS
  else return

/-- The inner `switch( usb_task_state )` of the attached states. -/
def attached (s : BYTE) : Program Unit :=
  if s = USB_STATE_ATTACHED then do
    let t ← now
    store fun m => { m with usb_delay := t + 200 }
    setState USB_ATTACHED_SUBSTATE_SETTLE
  else if s = USB_ATTACHED_SUBSTATE_SETTLE then do
    if (← now) > (← load Mem.usb_delay) then setState USB_ATTACHED_SUBSTATE_RESET_DEVICE
  else if s = USB_ATTACHED_SUBSTATE_RESET_DEVICE then do
    MAXreg_wr rHIRQ bmBUSEVENTIRQ
    MAXreg_wr rHCTL bmBUSRST
    setState USB_ATTACHED_SUBSTATE_WAIT_RESET_COMPLETE
  else if s = USB_ATTACHED_SUBSTATE_WAIT_RESET_COMPLETE then do
    if (← MAXreg_rd rHCTL) &&& bmBUSRST = 0 then
      let tmpdata := (← MAXreg_rd rMODE) ||| bmSOFKAENAB
      MAXreg_wr rMODE tmpdata
      setState USB_ATTACHED_SUBSTATE_WAIT_SOF
  else if s = USB_ATTACHED_SUBSTATE_WAIT_SOF then do
    if (← MAXreg_rd rHIRQ) ||| bmFRAMEIRQ ≠ 0 then
      setState USB_ATTACHED_SUBSTATE_GET_DEVICE_DESCRIPTOR_SIZE
  else if s = USB_ATTACHED_SUBSTATE_GET_DEVICE_DESCRIPTOR_SIZE then getDeviceDescriptor
  else return

/-- `case( USB_STATE_ADDRESSING )`. -/
def addressing : Program Unit := do
  setAddress ((List.range' 1 (USB_NUMDEVICES - 1)).map (BitVec.ofNat 8))
  if (← load Mem.usb_task_state) = USB_STATE_ADDRESSING then fail 0xfe

/-- `case( USB_STATE_CONFIGURING )`. -/
def configuring : Program Unit := do
  runProbes (← load Mem.tmp_addr) 0 ClientDriverTable
  if (← load Mem.usb_task_state) = USB_STATE_CONFIGURING then fail 0xfd

def USB_Task : Program Unit := do
  let s ← load Mem.usb_task_state
  if s &&& USB_STATE_MASK = USB_STATE_DETACHED then detached s
  else if s &&& USB_STATE_MASK = USB_STATE_ATTACHED then attached s
  else if s &&& USB_STATE_MASK = USB_STATE_ADDRESSING then addressing
  else if s &&& USB_STATE_MASK = USB_STATE_CONFIGURING then configuring
  -- `USB_STATE_RUNNING`, `USB_STATE_ERROR` and the rest
  else return

/-! ### Interrupts -/

/-- The two connected cases of `MAX_busprobe`, with the modes for a low-speed bit that is clear and
one that is set. -/
def connected (mode mode' : BYTE) : Program Unit := do
  if (← load Mem.usb_task_state) ≠ USB_ATTACHED_SUBSTATE_WAIT_RESET_COMPLETE then
    MAXreg_wr rMODE (if (← MAXreg_rd rMODE) &&& bmLOWSPEED = 0 then mode else mode')
    setState USB_STATE_ATTACHED

def MAX_busprobe : Program Unit := do
  let bus_sample := (← MAXreg_rd rHRSL) &&& (bmJSTATUS ||| bmKSTATUS)
  if bus_sample = bmJSTATUS then connected MODE_FS_HOST MODE_LS_HOST
  else if bus_sample = bmKSTATUS then connected MODE_LS_HOST MODE_FS_HOST
  else if bus_sample = bmSE1 then setState USB_DETACHED_SUBSTATE_ILLEGAL
  else if bus_sample = bmSE0 then
    if (← load Mem.usb_task_state) &&& USB_STATE_MASK ≠ USB_STATE_DETACHED then
      setState USB_DETACHED_SUBSTATE_INITIALIZE
    else
      MAXreg_wr rMODE MODE_FS_HOST
      setState USB_DETACHED_SUBSTATE_WAIT_FOR_DEVICE

def MaxIntHandler : Program Unit := do
  let HIRQ ← MAXreg_rd rHIRQ
  when (HIRQ &&& bmCONDETIRQ ≠ 0) MAX_busprobe
  when (HIRQ &&& bmSNDBAVIRQ ≠ 0) (MAXreg_wr rSNDBC 0x00)
  when (HIRQ &&& bmBUSEVENTIRQ ≠ 0)
    (store fun m => { m with usb_task_state := m.usb_task_state + 1 })
  -- `HIRQ_sendback` has the bits of the causes handled
  MAXreg_wr rHIRQ (HIRQ &&& (bmFRAMEIRQ ||| bmCONDETIRQ ||| bmBUSEVENTIRQ))

end ECE385.Usb
