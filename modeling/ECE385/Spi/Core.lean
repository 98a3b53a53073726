import ECE385.Bits.MsbFirst

/-!
# The SPI master

`lab62_soc_spi_0.v`: the registers, the wires and what a clock edge does.  Where several
assignments of a block meet, the last one counts.

* `Core.next`: the registers after a clock edge.
* `Core.events`: what happens on `SS_n` and `SCLK` at an edge, as the chip on the other side sees
  it.
-/

namespace ECE385.Spi

open Bits

/-- The inputs, without clock and reset. -/
structure Port where
  MISO : Bool
  data_from_cpu : BitVec 16
  mem_addr : BitVec 3
  read_n : Bool
  spi_select : Bool
  write_n : Bool

structure Core where
  rd_strobe : Bool
  data_rd_strobe : Bool
  wr_strobe : Bool
  data_wr_strobe : Bool
  iEOP_reg : Bool
  iE_reg : Bool
  iRRDY_reg : Bool
  iTRDY_reg : Bool
  iTMT_reg : Bool
  iTOE_reg : Bool
  iROE_reg : Bool
  SSO_reg : Bool
  irq_reg : Bool
  spi_slave_select_reg : BitVec 16
  spi_slave_select_holding_reg : BitVec 16
  slowcount : BitVec 4
  endofpacketvalue_reg : BitVec 16
  data_to_cpu : BitVec 16
  state : BitVec 5
  stateZero : Bool
  shift_reg : BitVec 8
  rx_holding_reg : BitVec 8
  EOP : Bool
  RRDY : Bool
  ROE : Bool
  TOE : Bool
  tx_holding_reg : BitVec 8
  tx_holding_primed : Bool
  transmitting : Bool
  SCLK_reg : Bool
  MISO_reg : Bool

namespace Core

/-- The registers while `reset_n` is low. -/
def reset : Core where
  rd_strobe := false
  data_rd_strobe := false
  wr_strobe := false
  data_wr_strobe := false
  iEOP_reg := false
  iE_reg := false
  iRRDY_reg := false
  iTRDY_reg := false
  iTMT_reg := false
  iTOE_reg := false
  iROE_reg := false
  SSO_reg := false
  irq_reg := false
  spi_slave_select_reg := 1
  spi_slave_select_holding_reg := 1
  slowcount := 0
  endofpacketvalue_reg := 0
  data_to_cpu := 0
  state := 0
  stateZero := true
  shift_reg := 0
  rx_holding_reg := 0
  EOP := false
  RRDY := false
  ROE := false
  TOE := false
  tx_holding_reg := 0
  tx_holding_primed := false
  transmitting := false
  SCLK_reg := false
  MISO_reg := false

variable (i : Port) (c : Core)

/-! ### Wires -/

def p1_rd_strobe : Bool := !c.rd_strobe && i.spi_select && !i.read_n

def p1_data_rd_strobe : Bool := p1_rd_strobe i c && i.mem_addr == 0

def p1_wr_strobe : Bool := !c.wr_strobe && i.spi_select && !i.write_n

def p1_data_wr_strobe : Bool := p1_wr_strobe i c && i.mem_addr == 1

def control_wr_strobe : Bool := c.wr_strobe && i.mem_addr == 3

def status_wr_strobe : Bool := c.wr_strobe && i.mem_addr == 2

def slaveselect_wr_strobe : Bool := c.wr_strobe && i.mem_addr == 5

def endofpacketvalue_wr_strobe : Bool := c.wr_strobe && i.mem_addr == 6

def TMT : Bool := !c.transmitting && !c.tx_holding_primed

def E : Bool := c.ROE || c.TOE

def TRDY : Bool := !(c.transmitting && c.tx_holding_primed)

def spi_status : BitVec 11 :=
  0#1 ++ BitVec.ofBool c.EOP ++ BitVec.ofBool c.E ++ BitVec.ofBool c.RRDY ++
    BitVec.ofBool c.TRDY ++ BitVec.ofBool c.TMT ++ BitVec.ofBool c.TOE ++ BitVec.ofBool c.ROE ++ 0#3

def spi_control : BitVec 11 :=
  BitVec.ofBool c.SSO_reg ++ BitVec.ofBool c.iEOP_reg ++ BitVec.ofBool c.iE_reg ++
    BitVec.ofBool c.iRRDY_reg ++ BitVec.ofBool c.iTRDY_reg ++ 0#1 ++ BitVec.ofBool c.iTOE_reg ++
    BitVec.ofBool c.iROE_reg ++ 0#3

def slowclock : Bool := c.slowcount == 9

def p1_slowcount : BitVec 4 := if c.transmitting && !c.slowclock then c.slowcount + 1 else 0

def p1_data_to_cpu : BitVec 16 :=
  if i.mem_addr = 2 then c.spi_status.setWidth 16
  else if i.mem_addr = 3 then c.spi_control.setWidth 16
  else if i.mem_addr = 6 then c.endofpacketvalue_reg
  else if i.mem_addr = 5 then c.spi_slave_select_reg
  else c.rx_holding_reg.setWidth 16

def write_tx_holding : Bool := c.data_wr_strobe && c.TRDY

def write_shift_reg : Bool := c.tx_holding_primed && !c.transmitting

def enableSS : Bool := c.transmitting && !c.stateZero

def MOSI : Bool := c.shift_reg.getLsbD 7

def SS_n : Bool := if c.enableSS || c.SSO_reg then !c.spi_slave_select_reg.getLsbD 0 else true

def SCLK : Bool := c.SCLK_reg

def irq : Bool := c.irq_reg

/-! ### A clock edge -/

def next : Core where
  rd_strobe := p1_rd_strobe i c
  data_rd_strobe := p1_data_rd_strobe i c
  wr_strobe := p1_wr_strobe i c
  data_wr_strobe := p1_data_wr_strobe i c
  iEOP_reg := if control_wr_strobe i c then i.data_from_cpu.getLsbD 9 else c.iEOP_reg
  iE_reg := if control_wr_strobe i c then i.data_from_cpu.getLsbD 8 else c.iE_reg
  iRRDY_reg := if control_wr_strobe i c then i.data_from_cpu.getLsbD 7 else c.iRRDY_reg
  iTRDY_reg := if control_wr_strobe i c then i.data_from_cpu.getLsbD 6 else c.iTRDY_reg
  iTMT_reg := if control_wr_strobe i c then i.data_from_cpu.getLsbD 5 else c.iTMT_reg
  iTOE_reg := if control_wr_strobe i c then i.data_from_cpu.getLsbD 4 else c.iTOE_reg
  iROE_reg := if control_wr_strobe i c then i.data_from_cpu.getLsbD 3 else c.iROE_reg
  SSO_reg := if control_wr_strobe i c then i.data_from_cpu.getLsbD 10 else c.SSO_reg
  irq_reg :=
    c.EOP && c.iEOP_reg || (c.TOE || c.ROE) && c.iE_reg || c.RRDY && c.iRRDY_reg ||
      c.TRDY && c.iTRDY_reg || c.TOE && c.iTOE_reg || c.ROE && c.iROE_reg
  spi_slave_select_reg :=
    if c.write_shift_reg || control_wr_strobe i c && i.data_from_cpu.getLsbD 10 && !c.SSO_reg then
      c.spi_slave_select_holding_reg
    else c.spi_slave_select_reg
  spi_slave_select_holding_reg :=
    if slaveselect_wr_strobe i c then i.data_from_cpu else c.spi_slave_select_holding_reg
  slowcount := c.p1_slowcount
  endofpacketvalue_reg :=
    if endofpacketvalue_wr_strobe i c then i.data_from_cpu else c.endofpacketvalue_reg
  data_to_cpu := p1_data_to_cpu i c
  state :=
    if c.transmitting && c.slowclock then if c.state = 17 then 0 else c.state + 1 else c.state
  stateZero := if c.transmitting && c.slowclock then c.state == 17 else c.stateZero
  shift_reg :=
    if c.slowclock && c.SCLK_reg then push c.shift_reg c.MISO_reg
    else if c.write_shift_reg then c.tx_holding_reg
    else c.shift_reg
  rx_holding_reg := if c.slowclock && c.state == 17 then c.shift_reg else c.rx_holding_reg
  EOP :=
    if status_wr_strobe i c then false
    else if p1_data_rd_strobe i c && c.rx_holding_reg.setWidth 16 == c.endofpacketvalue_reg ||
        p1_data_wr_strobe i c &&
          (i.data_from_cpu.setWidth 8).setWidth 16 == c.endofpacketvalue_reg then true
    else c.EOP
  RRDY :=
    if c.slowclock && c.state == 17 then true
    else if status_wr_strobe i c then false
    else if c.data_rd_strobe then false
    else c.RRDY
  ROE :=
    if c.slowclock && c.state == 17 && c.RRDY then true
    else if status_wr_strobe i c then false
    else c.ROE
  TOE :=
    if status_wr_strobe i c then false
    else if c.data_wr_strobe && !c.TRDY then true
    else c.TOE
  tx_holding_reg := if c.write_tx_holding then i.data_from_cpu.setWidth 8 else c.tx_holding_reg
  tx_holding_primed :=
    if c.write_shift_reg && !c.write_tx_holding then false
    else if c.write_tx_holding then true
    else c.tx_holding_primed
  transmitting :=
    if c.slowclock && c.state == 17 then false
    else if c.write_shift_reg then true
    else c.transmitting
  SCLK_reg :=
    if c.slowclock then
      if c.state = 17 then false
      else if c.state ≠ 0 && c.transmitting then !c.SCLK_reg
      else c.SCLK_reg
    else c.SCLK_reg
  MISO_reg := if c.slowclock && !c.SCLK_reg then i.MISO else c.MISO_reg

end Core

/-! ### The wires to the chip -/

/-- `SS_n` falls; it rises; `SCLK` rises. -/
inductive Wire
  | select
  | release
  | bit (mosi miso : Bool)
  deriving DecidableEq

/-- What happens on the wires at an edge. -/
def Core.events (i : Port) (c : Core) : List Wire :=
  let c' := c.next i
  (if c.SS_n && !c'.SS_n then [.select] else []) ++
    (if !c.SCLK && c'.SCLK then [.bit c'.MOSI i.MISO] else []) ++
    (if !c.SS_n && c'.SS_n then [.release] else [])

end ECE385.Spi
