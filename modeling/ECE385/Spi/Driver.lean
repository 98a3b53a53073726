import ECE385.Firmware.Program
import ECE385.Spi.Core
import Mathlib.Data.Int.Notation
import Mathlib.Logic.Function.Iterate

/-!
# The driver of the SPI master

`altera_avalon_spi.c` and the register accesses of `MAX3421E.c`, with the port of the core they go
through.  A read or a write of a register takes two clock edges; before it the core may be left
alone for any number of edges, and what the chip has on `MISO` is arbitrary.

* `serve`: the clock edges of an access, and what a read returns.
* `alt_avalon_spi_command`: one transaction.
* `hardware`: the answers of the core, as they depend on all accesses before.
-/

namespace ECE385.Spi

open Firmware Prog

/-! ### The port -/

inductive Query
  | rd (reg : BitVec 3)
  | wr (reg : BitVec 3) (data : BitVec 16)
  | alt_printf (text : String)

abbrev Query.Reply : Query → Type
  | rd _ => BitVec 16
  | wr _ _ => Unit
  | alt_printf _ => Unit

/-- What the core meets: how long it is left alone before each access, and at every edge `MISO` and
the other signals where the bus does not determine them. -/
structure Bench where
  gap : ℕ → ℕ
  port : ℕ → Port

namespace Bench

variable (B : Bench)

/-- An edge without an access. -/
def off (t : ℕ) : Port := { B.port t with spi_select := false }

/-- An edge of a read. -/
def reads (reg : BitVec 3) (t : ℕ) : Port :=
  { B.port t with mem_addr := reg, read_n := false, spi_select := true, write_n := true }

/-- An edge of a write. -/
def writes (reg : BitVec 3) (data : BitVec 16) (t : ℕ) : Port :=
  { B.port t with
    data_from_cpu := data, mem_addr := reg, read_n := true, spi_select := true, write_n := false }

end Bench

/-- The core after some edges and accesses, with all that has been on the wires and all that has
been printed. -/
structure Sim where
  edges : ℕ
  accesses : ℕ
  core : Core
  wires : List Wire
  console : List String

namespace Sim

variable (B : Bench)

/-- After the reset. -/
def reset : Sim := ⟨0, 0, .reset, [], []⟩

/-- A clock edge. -/
def tick (i : Port) (s : Sim) : Sim :=
  { s with edges := s.edges + 1, core := s.core.next i, wires := s.wires ++ s.core.events i }

def idle (s : Sim) : Sim := tick (B.off s.edges) s

/-- The stretch before an access. -/
def wait (s : Sim) : Sim :=
  { (idle B)^[B.gap s.accesses] s with accesses := s.accesses + 1 }

def reading (reg : BitVec 3) (s : Sim) : Sim := tick (B.reads reg s.edges) s

def writing (reg : BitVec 3) (data : BitVec 16) (s : Sim) : Sim :=
  tick (B.writes reg data s.edges) s

/-- An access.  A read returns what is on `data_to_cpu` at its second edge. -/
def serve (s : Sim) : (q : Query) → q.Reply × Sim
  | .rd reg => ((reading B reg (wait B s)).core.data_to_cpu,
      reading B reg (reading B reg (wait B s)))
  | .wr reg data => ((), writing B reg data (writing B reg data (wait B s)))
  | .alt_printf text => ((), { s with console := s.console ++ [text] })

/-- After what is on record, from the reset on. -/
def after : Record Query.Reply → Sim
  | [] => reset
  | ⟨q, _⟩ :: record => (serve B (after record) q).2

end Sim

def hardware (B : Bench) : Env Query.Reply := fun record q => (Sim.serve B (Sim.after B record) q).1

/-! ### `altera_avalon_spi_regs.h` -/

abbrev Program := Prog Query.Reply Unit

abbrev State := World Query.Reply Unit

def ALTERA_AVALON_SPI_RXDATA_REG : BitVec 3 := 0
def ALTERA_AVALON_SPI_TXDATA_REG : BitVec 3 := 1
def ALTERA_AVALON_SPI_STATUS_REG : BitVec 3 := 2
def ALTERA_AVALON_SPI_CONTROL_REG : BitVec 3 := 3
def ALTERA_AVALON_SPI_SLAVE_SEL_REG : BitVec 3 := 5

def ALTERA_AVALON_SPI_STATUS_TMT_MSK : BitVec 16 := 0x20
def ALTERA_AVALON_SPI_STATUS_TRDY_MSK : BitVec 16 := 0x40
def ALTERA_AVALON_SPI_STATUS_RRDY_MSK : BitVec 16 := 0x80
def ALTERA_AVALON_SPI_CONTROL_SSO_MSK : BitVec 16 := 0x400

def ALT_AVALON_SPI_COMMAND_MERGE : BitVec 32 := 0x01
def ALT_AVALON_SPI_COMMAND_TOGGLE_SS_N : BitVec 32 := 0x02

def IORD (reg : BitVec 3) : Program (BitVec 16) := ask (Query.rd reg)

def IOWR (reg : BitVec 3) (data : BitVec 16) : Program Unit := ask (Query.wr reg data)

/-! ### `alt_avalon_spi_command` -/

/-- The variables of the command: what is left of `write_data`, and what has been stored from
`read_data` on. -/
structure Command where
  write_data : List (BitVec 8)
  write_zeros : ℕ
  read_ignore : ℕ
  read_data : List (BitVec 8)
  credits : ℤ

/-- Until there is something to do. -/
def poll (credits : ℤ) : Program (BitVec 16) :=
  loop (fun _ : Unit => do
    let status ← IORD ALTERA_AVALON_SPI_STATUS_REG
    if (status &&& ALTERA_AVALON_SPI_STATUS_TRDY_MSK = 0 ∨ credits = 0) ∧
        status &&& ALTERA_AVALON_SPI_STATUS_RRDY_MSK = 0 then
      return .inl ()
    else return .inr status) ()

/-- The next byte is sent. -/
def send (c : Command) : Program Command :=
  match c.write_data with
  | b :: write_data => do
    IOWR ALTERA_AVALON_SPI_TXDATA_REG (b.setWidth 16)
    return { c with write_data := write_data, credits := c.credits - 1 }
  | [] =>
    if c.write_zeros > 0 then do
      IOWR ALTERA_AVALON_SPI_TXDATA_REG 0
      return { c with write_zeros := c.write_zeros - 1, credits := c.credits - 1 }
    else return { c with credits := -1024 }

/-- A byte is sent if the interface is ready for it and there is a credit. -/
def spend (status : BitVec 16) (c : Command) : Program Command :=
  if status &&& ALTERA_AVALON_SPI_STATUS_TRDY_MSK ≠ 0 ∧ c.credits > 0 then send c else return c

/-- A byte is ignored or stored. -/
def Command.got (rxdata : BitVec 16) (c : Command) : Command :=
  if c.read_ignore > 0 then
    { c with read_ignore := c.read_ignore - 1, credits := c.credits + 1 }
  else
    { c with read_data := c.read_data ++ [rxdata.setWidth 8], credits := c.credits + 1 }

/-- A byte is fetched; the loop is left with the last one. -/
def receive (read_length : ℕ) (c : Command) : Program (Command ⊕ List (BitVec 8)) := do
  let rxdata ← IORD ALTERA_AVALON_SPI_RXDATA_REG
  let c := c.got rxdata
  if c.read_ignore = 0 ∧ c.read_data.length = read_length then return .inr c.read_data
  else return .inl c

/-- A round of the main loop. -/
def round (read_length : ℕ) (c : Command) : Program (Command ⊕ List (BitVec 8)) := do
  let status ← poll c.credits
  let c ← spend status c
  if status &&& ALTERA_AVALON_SPI_STATUS_RRDY_MSK ≠ 0 then receive read_length c
  else return .inl c

/-- Until the interface has finished transmitting. -/
def waitTMT : Program Unit :=
  loop (fun _ : Unit => do
    let status ← IORD ALTERA_AVALON_SPI_STATUS_REG
    if status &&& ALTERA_AVALON_SPI_STATUS_TMT_MSK = 0 then return .inl () else return .inr ()) ()

/-- The chip is selected, and what may be left in `RXDATA` is discarded. -/
def select (slave : ℕ) (flags : BitVec 32) : Program Unit := do
  IOWR ALTERA_AVALON_SPI_SLAVE_SEL_REG (1 <<< slave)
  when (flags &&& ALT_AVALON_SPI_COMMAND_TOGGLE_SS_N = 0)
    (IOWR ALTERA_AVALON_SPI_CONTROL_REG ALTERA_AVALON_SPI_CONTROL_SSO_MSK)
  let _ ← IORD ALTERA_AVALON_SPI_RXDATA_REG
  return ()

/-- With what the function returns the bytes it has put at `read_data`. -/
def alt_avalon_spi_command (slave : ℕ) (write_data : List (BitVec 8)) (read_length : ℕ)
    (flags : BitVec 32) : Program (ℤ × List (BitVec 8)) := do
  select slave flags
  let read_data ← loop (round read_length) ⟨write_data, read_length, write_data.length, [], 1⟩
  waitTMT
  when (flags &&& ALT_AVALON_SPI_COMMAND_MERGE = 0) (IOWR ALTERA_AVALON_SPI_CONTROL_REG 0)
  return ((BitVec.ofNat 32 read_length).toInt, read_data)

/-! ### `MAX3421E.c` -/

def MAXreg_wr (reg val : BitVec 8) : Program Unit := do
  let (readLength, _) ← alt_avalon_spi_command 0 [reg + 2, val] 0 0
  when (readLength < 0) (ask (Query.alt_printf "Error: Write unsuccessful"))

def MAXbytes_wr (reg : BitVec 8) (data : List (BitVec 8)) : Program Unit := do
  let (readLength, _) ← alt_avalon_spi_command 0 ((reg + 2) :: data) 0 0
  when (readLength < 0) (ask (Query.alt_printf "Error: Write unsuccessful"))

/-- The variable `val` has whatever it had if nothing has been read. -/
def MAXreg_rd (val : BitVec 8) (reg : BitVec 8) : Program (BitVec 8) := do
  let (readLength, read_data) ← alt_avalon_spi_command 0 [reg] 1 0
  when (readLength < 0) (ask (Query.alt_printf "Error: Read unsuccessful"))
  return read_data.headD val

/-- With the bytes put at `data`. -/
def MAXbytes_rd (reg nbytes : BitVec 8) : Program (List (BitVec 8)) := do
  let (readLength, read_data) ← alt_avalon_spi_command 0 [reg] nbytes.toNat 0
  when (readLength < 0) (ask (Query.alt_printf "Error: Read unsuccessful"))
  return read_data

end ECE385.Spi
