import ECE385.Firmware.Program

/-!
# The USB driver: variables and registers

`MAX3421E.c`, `transfer.c` and `HID.c` with their headers.  This module has the data of the driver,
what it asks of the hardware and the register accesses.

The answers of the hardware are those of an environment: the bytes a register read returns, the
bytes of a FIFO, the tick counter.  So are the values of variables that the program has not
initialised.  The program also puts on record what `XferCtrlReq` and the class probes return.
-/

namespace ECE385.Usb

open Firmware Prog

abbrev BYTE := BitVec 8

abbrev WORD := BitVec 16

abbrev DWORD := BitVec 32

/-- A stretch of memory from a pointer on. -/
abbrev Buf := ℕ → BYTE

/-! ### Registers of the MAX3421E -/

def rRCVFIFO : BYTE := 0x08
def rSUDFIFO : BYTE := 0x20
def rRCVBC : BYTE := 0x30
def rSNDBC : BYTE := 0x38
def rHIRQ : BYTE := 0xc8
def rMODE : BYTE := 0xd8
def rPERADDR : BYTE := 0xe0
def rHCTL : BYTE := 0xe8
def rHXFR : BYTE := 0xf0
def rHRSL : BYTE := 0xf8

def bmBUSEVENTIRQ : BYTE := 0x01
def bmRCVDAVIRQ : BYTE := 0x04
def bmSNDBAVIRQ : BYTE := 0x08
def bmCONDETIRQ : BYTE := 0x20
def bmFRAMEIRQ : BYTE := 0x40
def bmHXFRDNIRQ : BYTE := 0x80

def bmHOST : BYTE := 0x01
def bmLOWSPEED : BYTE := 0x02
def bmSOFKAENAB : BYTE := 0x08
def bmDMPULLDN : BYTE := 0x40
def bmDPPULLDN : BYTE := 0x80
def MODE_FS_HOST : BYTE := bmDPPULLDN ||| bmDMPULLDN ||| bmHOST ||| bmSOFKAENAB
def MODE_LS_HOST : BYTE := bmDPPULLDN ||| bmDMPULLDN ||| bmHOST ||| bmLOWSPEED ||| bmSOFKAENAB

def bmBUSRST : BYTE := 0x01
def bmSAMPLEBUS : BYTE := 0x04
def bmRCVTOG0 : BYTE := 0x10
def bmRCVTOG1 : BYTE := 0x20
def bmSNDTOG0 : BYTE := 0x40

def tokSETUP : BYTE := 0x10
def tokIN : BYTE := 0x00
def tokINHS : BYTE := 0x80
def tokOUTHS : BYTE := 0xA0

def bmRCVTOGRD : BYTE := 0x10
def bmKSTATUS : BYTE := 0x40
def bmJSTATUS : BYTE := 0x80
def bmSE0 : BYTE := 0x00
def bmSE1 : BYTE := 0xc0

def hrNAK : BYTE := 0x04
def hrTIMEOUT : BYTE := 0x0E

def USB_XFER_TIMEOUT : DWORD := 5000
def USB_NAK_LIMIT : BYTE := 200
def USB_RETRY_LIMIT : BYTE := 3

/-! ### Variables -/

structure EP_RECORD where
  epAddr : BYTE
  Attr : BYTE
  MaxPktSize : WORD
  Interval : BYTE
  sndToggle : BYTE
  rcvToggle : BYTE

/-- The pointers to endpoint records. -/
inductive EpInfo
  | NULL | dev0ep | hid_ep
  deriving DecidableEq

structure DEV_RECORD where
  epinfo : EpInfo
  devclass : BYTE

structure HID_DEVICE where
  addr : BYTE
  interface : BYTE

/-- The variables of the driver.  `ep p k` is the record `p[k]`. -/
structure Mem where
  usb_task_state : BYTE
  usb_error : BYTE
  last_usb_task_state : BYTE
  usb_delay : DWORD
  tmp_addr : BYTE
  devtable : BYTE → DEV_RECORD
  ep : EpInfo → ℕ → EP_RECORD
  hid_device : HID_DEVICE
  bigbuf : Buf

/-- `devtable[addr].epinfo[ep]`. -/
def Mem.epinfo (addr : BYTE) (k : ℕ) (m : Mem) : EP_RECORD := m.ep (m.devtable addr).epinfo k

def Mem.setEp (p : EpInfo) (k : ℕ) (f : EP_RECORD → EP_RECORD) (m : Mem) : Mem :=
  { m with ep := fun q j => if q = p ∧ j = k then f (m.ep q j) else m.ep q j }

/-- An assignment to fields of `devtable[addr].epinfo[ep]`. -/
def Mem.setEpinfo (addr : BYTE) (k : ℕ) (f : EP_RECORD → EP_RECORD) (m : Mem) : Mem :=
  m.setEp (m.devtable addr).epinfo k f

def Mem.setDev (addr : BYTE) (f : DEV_RECORD → DEV_RECORD) (m : Mem) : Mem :=
  { m with devtable := fun a => if a = addr then f (m.devtable a) else m.devtable a }

/-! ### What the driver asks -/

/-- What functions of the driver return. -/
inductive Return
  | XferCtrlReq (addr bRequest wValLo rcode : BYTE)
  | Initialize (driver : ℕ) (found : Bool)

inductive Query
  | wr (reg val : BYTE)
  | rd (reg : BYTE)
  | bytesWr (reg : BYTE) (data : List BYTE)
  | bytesRd (reg nbytes : BYTE)
  | alt_nticks
  | alt_ticks_per_second
  | uninitialised
  | printf (string : Buf)
  | returned (r : Return)

abbrev Query.Reply : Query → Type
  | wr _ _ => Unit
  | rd _ => BYTE
  | bytesWr _ _ => Unit
  | bytesRd _ _ => Buf
  | alt_nticks => DWORD
  | alt_ticks_per_second => DWORD
  | uninitialised => Buf
  | printf _ => Unit
  | returned _ => Unit

abbrev Program := Prog Query.Reply Mem

abbrev Hardware := Env Query.Reply

abbrev State := World Query.Reply Mem

def MAXreg_wr (reg val : BYTE) : Program Unit := ask (Query.wr reg val)

def MAXreg_rd (reg : BYTE) : Program BYTE := ask (Query.rd reg)

def MAXbytes_wr (reg : BYTE) (data : List BYTE) : Program Unit := ask (Query.bytesWr reg data)

/-- The bytes are put at `pos` of the buffer `data`. -/
def MAXbytes_rd (reg nbytes : BYTE) (data : Buf) (pos : ℕ) : Program Buf := do
  let bytes ← ask (Query.bytesRd reg nbytes)
  return fun k => if pos ≤ k ∧ k < pos + nbytes.toNat then bytes (k - pos) else data k

/-- `(alt_nticks()*1000)/alt_ticks_per_second()`. -/
def now : Program DWORD := do
  let ticks ← ask Query.alt_nticks
  let rate ← ask Query.alt_ticks_per_second
  return ticks * 1000 / rate

end ECE385.Usb
