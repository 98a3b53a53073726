import ECE385.Usb.States
import Mathlib.Algebra.Group.Nat.Even
import Mathlib.Data.Nat.Bits

/-!
# Data toggles

The packets of an endpoint carry toggle bits in turn, and a packet with the wrong one is taken for
a duplicate.  The MAX3421E keeps the toggle that it expects while a transfer goes on; between
transfers `XferInTransfer` keeps it in the endpoint record.

* `Max3421e env`: a chip behind the answers `env`.
* `InStep l l'`: from `l` to `l'` every packet has flipped the toggle, and nothing else has.
* `Follows`: the endpoint record has the toggle that the chip expects.
* `rcvToggle_follows`: a transfer that comes to its end saves the toggle; of any other the number of
  packets must have been even.
-/

namespace ECE385.Usb

open Firmware Prog

/-- The toggle as `HCTL` is given it. -/
def toggle (b : Bool) : BYTE := if b then bmRCVTOG1 else bmRCVTOG0

/-- The receive toggle of a chip.  What the chip has come to is a function of the record; what
happens between two accesses counts for the later one. -/
structure Max3421e (env : Hardware) where
  /-- The toggle of the next packet is to be 1. -/
  expects : Record Query.Reply → Bool
  /-- The packets received successfully. -/
  received : Record Query.Reply → ℕ
  received_le : ∀ l q, received l ≤ received (⟨q, env l q⟩ :: l)
  flips : ∀ l q, (∀ v, q ≠ .wr rHCTL v) → expects (⟨q, env l q⟩ :: l) =
    (expects l ^^ (received (⟨q, env l q⟩ :: l) - received l).bodd)
  sets : ∀ l b, expects (⟨.wr rHCTL (toggle b), ()⟩ :: l) = b
  shows : ∀ l, env l (.rd rHRSL) &&& bmRCVTOGRD ≠ 0 ↔
    expects (⟨.rd rHRSL, env l (.rd rHRSL)⟩ :: l) = true

/-- The packet sizes read from `RCVBC`, the latest first. -/
def sizes (l : Record Query.Reply) : List BYTE :=
  l.filterMap fun
    | ⟨.rd reg, v⟩ => if reg = rRCVBC then some v else none
    | _ => none

/-- `xfrlen` after packets of the sizes given. -/
def total (sizes : List BYTE) : WORD := sizes.foldr (fun pktsize n => n + pktsize.setWidth 16) 0

/-- The last packet ends the transfer: it is short, or all has come. -/
def Ends (nbytes : WORD) (maxpktsize : BYTE) : List BYTE → Prop
  | [] => False
  | pktsize :: earlier => pktsize < maxpktsize ∨ nbytes ≤ total (pktsize :: earlier)

instance (nbytes : WORD) (maxpktsize : BYTE) : DecidablePred (Ends nbytes maxpktsize)
  | [] => inferInstanceAs (Decidable False)
  | _ :: _ => inferInstanceAs (Decidable (_ ∨ _))

variable {env : Hardware} (chip : Max3421e env)

/-- The record as it is when `XferInTransfer` has set the toggle of the chip. -/
def toggled (addr ep : BYTE) (w : State) : Record Query.Reply :=
  ⟨.wr rHCTL (w.mem.epinfo addr ep.toNat).rcvToggle, ()⟩ :: w.record

namespace Max3421e

/-- The endpoint record has the toggle that the chip expects. -/
def Follows (addr ep : BYTE) (w : State) : Prop :=
  (w.mem.epinfo addr ep.toNat).rcvToggle = toggle (chip.expects w.record)

/-- Of a call of `XferInTransfer`: the packets received make up a transfer, or they are even
in number and the toggle they began with was one. -/
def Settles (addr ep : BYTE) (nbytes : WORD) (maxpktsize : BYTE) (w w' : State) : Prop :=
  Ends nbytes maxpktsize (sizes (w.since w')) ∨
    (∃ b, (w.mem.epinfo addr ep.toNat).rcvToggle = toggle b) ∧
      Even (chip.received w'.record - chip.received (toggled addr ep w))

end Max3421e

/-! ### Polls -/

/-- The calls of a sequence of polls. -/
inductive Poll
  | mousePoll (buf : Buf)
  | kbdPoll (buf : Buf)

def Poll.program : Poll → Program Unit
  | mousePoll buf => do
    let _ ← Usb.mousePoll buf
    return ()
  | kbdPoll buf => do
    let _ ← Usb.kbdPoll buf
    return ()

/-- `rPERADDR` has been written. -/
def addressed (w : State) : State :=
  { w with record := ⟨.wr rPERADDR w.mem.hid_device.addr, ()⟩ :: w.record }

namespace Max3421e

variable (chip : Max3421e env)

/-- Of a poll: nothing comes in before the toggle is set, and the transfer settles. -/
def Regular (s : Step Query.Reply Mem Poll) : Prop :=
  let addr := s.before.mem.hid_device.addr
  chip.received (toggled addr 1 (addressed s.before)) = chip.received s.before.record ∧
    chip.Settles addr 1 8 ((s.before.mem.epinfo addr 1).MaxPktSize.setWidth 8)
      (addressed s.before) s.after

/-! ### Packets flip the toggle -/

/-- Between `l` and `l'` the toggle expected is that of `l`, flipped by each packet. -/
def InStep (l l' : Record Query.Reply) : Prop :=
  l <:+ l' ∧ ∀ m, l <:+ m → m <:+ l' → chip.received l ≤ chip.received m ∧
    chip.expects m = (chip.expects l ^^ (chip.received m - chip.received l).bodd)

theorem inStep_cons {l : Record Query.Reply} {q : Query} (hq : ∀ v, q ≠ .wr rHCTL v) :
    chip.InStep l (⟨q, env l q⟩ :: l) := by
  refine ⟨List.suffix_cons _ l, fun m hm hm' => ?_⟩
  rcases List.suffix_cons_iff.mp hm' with rfl | hm'
  · exact ⟨chip.received_le l q, chip.flips l q hq⟩
  · obtain rfl := hm.eq_of_length (le_antisymm hm.length_le hm'.length_le)
    exact ⟨le_rfl, by simp⟩

theorem inStep_refl (l : Record Query.Reply) : chip.InStep l l := by
  refine ⟨List.suffix_refl l, fun m hm hm' => ?_⟩
  obtain rfl := hm.eq_of_length (le_antisymm hm.length_le hm'.length_le)
  exact ⟨le_rfl, by simp⟩

variable {chip}

theorem InStep.trans {l m l' : Record Query.Reply} (h : chip.InStep l m) (h' : chip.InStep m l') :
    chip.InStep l l' := by
  refine ⟨h.1.trans h'.1, fun k hk hk' => ?_⟩
  rcases List.suffix_or_suffix_of_suffix hk' h'.1 with hkm | hmk
  · exact h.2 k hk hkm
  · obtain ⟨hle, hm⟩ := h.2 m h.1 (List.suffix_refl m)
    obtain ⟨hle', hk⟩ := h'.2 k hmk hk'
    refine ⟨Nat.le_trans hle hle', ?_⟩
    rw [hk, hm, Bool.xor_assoc, ← Nat.bodd_add]
    congr 2
    omega

/-- Accesses that leave the variables as they are and that neither set the toggle nor read the size
of a packet. -/
structure Waits (chip : Max3421e env) (w w' : State) : Prop where
  mem : w'.mem = w.mem
  inStep : chip.InStep w.record w'.record
  sizes : sizes w'.record = sizes w.record

instance : IsPreorder State chip.Waits where
  refl w := ⟨rfl, chip.inStep_refl w.record, rfl⟩
  trans _ _ _ h h' :=
    ⟨h'.mem.trans h.mem, h.inStep.trans h'.inStep, h'.sizes.trans h.sizes⟩

theorem waits_ask {q : Query} (hwr : ∀ v, q ≠ .wr rHCTL v) (hrd : q ≠ .rd rRCVBC) :
    Within env chip.Waits (ask q) := by
  refine within_ask fun w => ⟨rfl, chip.inStep_cons hwr, ?_⟩
  rw [Usb.sizes, List.filterMap_cons_none]
  · rfl
  · cases q with
    | rd reg => exact if_neg fun h => hrd (congrArg Query.rd h)
    | _ => rfl

theorem waits_quiet (q : Query) (hq : q.Quiet) : Within env chip.Waits (ask q) := by
  refine waits_ask ?_ ?_
  · rintro v rfl; exact hq rfl
  · rintro rfl; exact hq rfl

/-! ### One transfer -/

/-- Since `w` packets of sizes `pkts` have come, and the toggle has not been saved. -/
structure Underway (chip : Max3421e env) (w : State) (pkts : List BYTE) (v : State) : Prop where
  mem : v.mem = w.mem
  inStep : chip.InStep w.record v.record
  sizes : sizes v.record = pkts ++ sizes w.record

variable {w v v' : State} {pkts : List BYTE}

theorem Underway.waits (h : chip.Underway w pkts v) (hw : chip.Waits v v') :
    chip.Underway w pkts v' where
  mem := hw.mem.trans h.mem
  inStep := h.inStep.trans hw.inStep
  sizes := hw.sizes.trans h.sizes

/-- A packet has been taken. -/
theorem Underway.takes (h : chip.Underway w pkts v) {pktsize : BYTE} {bytes : Buf} {u u' : State}
    (ht : Takes env chip.Waits pktsize bytes v u u') : chip.Underway w (pktsize :: pkts) u' := by
  have hu := h.waits ht.before
  have hread : chip.Underway w (pktsize :: pkts) (packetRead pktsize bytes u) := by
    refine ⟨hu.mem, ?_, congrArg (pktsize :: ·) hu.sizes⟩
    rw [packetRead, ht.bytes_eq, ht.size]
    exact (hu.inStep.trans (chip.inStep_cons (q := .rd rRCVBC) nofun)).trans
      (chip.inStep_cons (q := .bytesRd rRCVFIFO _) nofun)
  exact hread.waits ht.after

/-- What `rHRSL` shows is the toggle expected. -/
theorem shown (chip : Max3421e env) (l : Record Query.Reply) :
    (if env l (.rd rHRSL) &&& bmRCVTOGRD ≠ 0 then bmRCVTOG1 else bmRCVTOG0) =
      toggle (chip.expects (⟨.rd rHRSL, env l (.rd rHRSL)⟩ :: l)) := by
  rw [toggle]
  exact if_congr (chip.shows l) rfl rfl

variable {nbytes : WORD} {maxpktsize addr ep : BYTE}

/-- Packets of some sizes come in a transfer, and the toggle is saved if they end it. -/
def Transfers (chip : Max3421e env) (addr ep : BYTE) (nbytes : WORD) (maxpktsize : BYTE)
    (w v : State) : Prop :=
  ∃ pkts, Usb.sizes v.record = pkts ++ Usb.sizes w.record ∧
    chip.InStep (toggled addr ep w) v.record ∧
    v.mem = if Ends nbytes maxpktsize pkts then
      w.mem.setEpinfo addr ep.toNat fun e => { e with rcvToggle := toggle (chip.expects v.record) }
      else w.mem

theorem XferInTransfer_transfers {n : ℕ} {data : Buf} {r : BYTE × Buf}
    (h : Returns env n (XferInTransfer addr ep nbytes data maxpktsize) w r v) :
    chip.Transfers addr ep nbytes maxpktsize w v := by
  rw [XferInTransfer_eq] at h
  obtain ⟨t, w₁, ht, h⟩ := returns_bind.mp h
  obtain ⟨rfl, rfl⟩ := returns_load.mp ht
  obtain ⟨_, w₂, hset, h⟩ := returns_bind.mp h
  obtain ⟨_, rfl⟩ := returns_ask.mp hset
  refine returns_loop
    (I := fun b v => ∃ pkts, chip.Underway ⟨w.mem, toggled addr ep w⟩ pkts v ∧
      total pkts = b.2.2 ∧ ¬Ends nbytes maxpktsize pkts)
    (P := fun _ v => chip.Transfers addr ep nbytes maxpktsize w v) h
    ⟨[], ⟨rfl, chip.inStep_refl _, rfl⟩, rfl, id⟩ ?_
  rintro ⟨data, pos, xfrlen⟩ v x v' ⟨pkts, hv, rfl, hends⟩ hround
  rcases transferRound_cases waits_quiet hround with ⟨rcode, rfl, hw, -⟩ |
    ⟨pktsize, bytes, u, u', htakes, ⟨hends', rfl, rfl⟩ | ⟨hends', rfl, rfl⟩⟩
  · have h := hv.waits hw
    exact ⟨pkts, h.sizes, h.inStep, by rw [if_neg hends]; exact h.mem⟩
  · have h := hv.takes htakes
    have hsaved := h.waits (waits_quiet (.rd rHRSL) (show rHRSL ≠ rRCVBC by decide) n u' _ _
      (returns_ask.mpr ⟨rfl, rfl⟩))
    refine ⟨_, hsaved.sizes, hsaved.inStep, ?_⟩
    rw [if_pos (show Ends _ _ (_ :: _) from hends'), saved, chip.shown]
    rw [← (show u'.mem = w.mem from h.mem)]
  · exact ⟨_, hv.takes htakes, rfl, hends'⟩

theorem rcvToggle_setEpinfo (m : Mem) (addr : BYTE) (k : ℕ) (t : BYTE) :
    ((m.setEpinfo addr k fun e => { e with rcvToggle := t }).epinfo addr k).rcvToggle = t := by
  rw [Mem.epinfo, Mem.setEpinfo, Mem.setEp]
  exact congrArg EP_RECORD.rcvToggle (if_pos ⟨rfl, rfl⟩)

theorem even_iff_bodd (n : ℕ) : Even n ↔ n.bodd = false := by
  rw [Nat.even_iff, Nat.mod_two_of_bodd]
  cases n.bodd <;> decide

/-- **The toggle saved is the one expected exactly when the transfer settles.** -/
theorem Transfers.follows_iff (h : chip.Transfers addr ep nbytes maxpktsize w v) :
    chip.Follows addr ep v ↔ chip.Settles addr ep nbytes maxpktsize w v := by
  obtain ⟨pkts, hsizes, hstep, hmem⟩ := h
  have hext : Extends w v := (List.suffix_cons _ _).trans hstep.1
  have hpkts : Usb.sizes (w.since v) = pkts := by
    rw [hext.eq_append, Usb.sizes, List.filterMap_append] at hsizes
    exact List.append_cancel_right hsizes
  rw [Settles, hpkts, Follows, hmem]
  by_cases hends : Ends nbytes maxpktsize pkts
  · rw [if_pos hends, rcvToggle_setEpinfo]
    exact iff_of_true rfl (.inl hends)
  · rw [if_neg hends, or_iff_right hends]
    obtain ⟨-, hexp⟩ := hstep.2 v.record hstep.1 (List.suffix_refl _)
    constructor
    · intro hsaved
      refine ⟨⟨_, hsaved⟩, ?_⟩
      rw [even_iff_bodd]
      have hset : chip.expects (toggled addr ep w) = chip.expects v.record := by
        rw [toggled, hsaved, chip.sets]
      rw [hset] at hexp
      exact Bool.xor_right_inj.mp (hexp.symm.trans (Bool.xor_false _).symm)
    · rintro ⟨⟨b, hb⟩, heven⟩
      rw [hexp, (even_iff_bodd _).mp heven, Bool.xor_false, toggled, hb, chip.sets]

/-! ### Any number of polls -/

theorem inStep_toggled (chip : Max3421e env) (hfollows : chip.Follows addr ep w)
    (hset : chip.received (toggled addr ep (addressed w)) = chip.received w.record) :
    chip.InStep w.record (toggled addr ep (addressed w)) := by
  have hadr : chip.InStep w.record (addressed w).record := chip.inStep_cons nofun
  have hexp : chip.expects (toggled addr ep (addressed w)) = chip.expects w.record := by
    rw [toggled, show ((addressed w).mem.epinfo addr ep.toNat).rcvToggle = _ from hfollows]
    exact chip.sets _ _
  refine ⟨hadr.1.trans (List.suffix_cons _ _), fun m hm hm' => ?_⟩
  rcases List.suffix_cons_iff.mp hm' with rfl | hm'
  · rw [← toggled, hexp, hset, Nat.sub_self, Nat.bodd_zero, Bool.xor_false]
    exact ⟨Nat.le_refl _, rfl⟩
  · exact hadr.2 m hm hm'

theorem poll_transfers {n : ℕ} {buf : Buf} {r : BYTE × Buf} (h : Returns env n (poll buf) w r v) :
    chip.Transfers w.mem.hid_device.addr 1 8
      ((w.mem.epinfo w.mem.hid_device.addr 1).MaxPktSize.setWidth 8) (addressed w) v := by
  obtain ⟨_, w₁, hl, h⟩ := returns_bind.mp h
  obtain ⟨rfl, rfl⟩ := returns_load.mp hl
  obtain ⟨_, w₂, ha, h⟩ := returns_bind.mp h
  obtain ⟨_, rfl⟩ := returns_ask.mp ha
  obtain ⟨_, w₃, hl, h⟩ := returns_bind.mp h
  obtain ⟨rfl, rfl⟩ := returns_load.mp hl
  obtain ⟨_, w₄, hl, h⟩ := returns_bind.mp h
  obtain ⟨rfl, rfl⟩ := returns_load.mp hl
  exact XferInTransfer_transfers h

theorem hid_device_of_transfers (h : chip.Transfers addr ep nbytes maxpktsize w v) :
    v.mem.hid_device = w.mem.hid_device := by
  obtain ⟨pkts, -, -, hmem⟩ := h
  rw [hmem]
  split_ifs <;> rfl

/-- One poll. -/
theorem program_inStep {n : ℕ} {p : Poll} (h : Returns env n p.program w () v)
    (hfollows : chip.Follows w.mem.hid_device.addr 1 w) (hreg : chip.Regular ⟨p, w, v⟩) :
    chip.InStep w.record v.record ∧ chip.Follows v.mem.hid_device.addr 1 v := by
  obtain ⟨hset, hsettles⟩ := hreg
  obtain ⟨buf, r, hp⟩ : ∃ buf r, Returns env n (poll buf) w r v := by
    cases p
    all_goals
      obtain ⟨r, v₁, hp, hr⟩ := returns_bind.mp h
      obtain ⟨-, rfl⟩ := returns_pure.mp hr
      exact ⟨_, r, hp⟩
  have hx : chip.Transfers _ 1 8 _ (addressed w) v := poll_transfers hp
  have hdev : v.mem.hid_device = w.mem.hid_device := (hid_device_of_transfers hx).trans rfl
  rw [hdev]
  exact ⟨(inStep_toggled chip hfollows hset).trans hx.choose_spec.2.1, hx.follows_iff.mpr hsettles⟩

theorem run_inStep {steps : List (Step Query.Reply Mem Poll)}
    (h : Run env Poll.program w steps v) (hfollows : chip.Follows w.mem.hid_device.addr 1 w)
    (hreg : ∀ s ∈ steps, chip.Regular s) :
    (∀ s ∈ steps, chip.Follows s.after.mem.hid_device.addr 1 s.after) ∧
      chip.Follows v.mem.hid_device.addr 1 v ∧ chip.InStep w.record v.record := by
  induction h with
  | start => exact ⟨by simp, hfollows, chip.inStep_refl _⟩
  | call _ hc ih =>
    rw [List.forall_mem_append, List.forall_mem_singleton] at hreg
    obtain ⟨hall, hv, hstep⟩ := ih hreg.1
    obtain ⟨hstep', hv'⟩ := program_inStep hc hv hreg.2
    rw [List.forall_mem_append, List.forall_mem_singleton]
    exact ⟨⟨hall, hv'⟩, hv', hstep.trans hstep'⟩

end Max3421e

/-- **The saved toggle follows the chip.**  After a transfer exactly when it settles; and in regular
polls the chip is always at the toggle that the packets received lead to. -/
theorem rcvToggle_follows (chip : Max3421e env) :
    (∀ {n : ℕ} {addr ep maxpktsize : BYTE} {nbytes : WORD} {data : Buf} {r : BYTE × Buf}
        {w v : State}, Returns env n (XferInTransfer addr ep nbytes data maxpktsize) w r v →
      (chip.Follows addr ep v ↔ chip.Settles addr ep nbytes maxpktsize w v)) ∧
    ∀ {steps : List (Step Query.Reply Mem Poll)} {w v : State}, Run env Poll.program w steps v →
      chip.Follows w.mem.hid_device.addr 1 w → (∀ s ∈ steps, chip.Regular s) →
      (∀ s ∈ steps, chip.Follows s.after.mem.hid_device.addr 1 s.after) ∧
      ∀ l, w.record <:+ l → l <:+ v.record → chip.expects l =
        (chip.expects w.record ^^ (chip.received l - chip.received w.record).bodd) := by
  refine ⟨fun h => (Max3421e.XferInTransfer_transfers h).follows_iff, fun h hfollows hreg => ?_⟩
  obtain ⟨hall, -, hstep⟩ := Max3421e.run_inStep h hfollows hreg
  exact ⟨hall, fun l hl hl' => (hstep.2 l hl hl').2⟩

/-! ### Packets of four bytes -/

def launches (l : Record Query.Reply) : ℕ :=
  l.countP fun
    | ⟨.wr reg _, _⟩ => reg == rHXFR
    | _ => false

/-- The toggle of a chip that receives a packet at the launches of `answers`. -/
def expected (answers : ℕ → Bool) : Record Query.Reply → Bool
  | [] => false
  | ⟨.wr reg v, _⟩ :: l =>
    if reg = rHCTL then
      if v = bmRCVTOG1 then true else if v = bmRCVTOG0 then false else expected answers l
    else expected answers l ^^ (reg == rHXFR && answers (launches l))
  | _ :: l => expected answers l

def arrived (answers : ℕ → Bool) : Record Query.Reply → ℕ
  | [] => 0
  | ⟨.wr reg _, _⟩ :: l => arrived answers l + (reg == rHXFR && answers (launches l)).toNat
  | _ :: l => arrived answers l

/-- An endpoint with packets of four bytes, which has data at the launches of `answers`. -/
def fourBytes (answers : ℕ → Bool) : Hardware
  | l, .rd reg =>
    if reg = rHIRQ then bmHXFRDNIRQ ||| bmRCVDAVIRQ
    else if reg = rHRSL then
      (if answers (launches l - 1) then 0 else hrNAK) |||
        if expected answers l then bmRCVTOGRD else 0
    else if reg = rRCVBC then 4
    else 0
  | _, .wr _ _ => ()
  | _, .bytesWr _ _ => ()
  | _, .bytesRd _ _ => fun _ => 0
  | l, .alt_nticks => BitVec.ofNat 32 (300 * l.length)
  | _, .alt_ticks_per_second => 1000
  | _, .uninitialised => fun _ => 0
  | _, .printf _ => ()
  | _, .returned _ => ()

def fourBytesChip (answers : ℕ → Bool) : Max3421e (fourBytes answers) where
  expects := expected answers
  received := arrived answers
  received_le l q := by
    cases q with
    | wr reg v => exact Nat.le_add_right _ _
    | _ => exact Nat.le_refl _
  flips l q hq := by
    cases q with
    | wr reg v =>
      have hreg : reg ≠ rHCTL := fun h => hq v (h ▸ rfl)
      rw [expected, if_neg hreg, arrived, Nat.add_sub_cancel_left]
      cases (reg == rHXFR && answers (launches l)) <;> rfl
    | _ => simp [expected, arrived]
  sets l b := by cases b <;> rfl
  shows l := by
    have hshow : ∀ a b : Bool,
        ((if a then (0 : BYTE) else hrNAK) ||| if b then bmRCVTOGRD else 0) &&&
          bmRCVTOGRD ≠ 0 ↔ b = true := by decide
    exact hshow _ _

/-- The driver as it polls device 1. -/
def polling : State where
  mem := { Mem.start with
    devtable := fun a => if a = 1 then ⟨.hid_ep, HID_M⟩ else Mem.start.devtable a
    ep := fun _ _ => ⟨1, 3, 4, 10, bmSNDTOG0, bmRCVTOG0⟩
    hid_device := ⟨1, 0⟩ }
  record := []

/-- The first half of a report arrives, and then nothing until the time is up. -/
theorem not_follows_halfReport :
    ¬∀ (env : Hardware) (chip : Max3421e env) (n : ℕ) (buf : Buf) (r : BYTE × Buf) (v : State),
      chip.Follows 1 1 polling → Returns env n (XferInTransfer 1 1 8 buf 4) polling r v →
      chip.Follows 1 1 v := by
  intro hall
  have h : (XferInTransfer 1 1 8 (fun _ => 0) 4 (fourBytes (· == 0)) 8 polling).map
      (fun x => ((x.2.mem.epinfo 1 1).rcvToggle, expected (· == 0) x.2.record)) =
        some (toggle false, true) := by decide +kernel
  obtain ⟨⟨r, v⟩, hr, hv⟩ := Option.map_eq_some_iff.mp h
  obtain ⟨hsaved, hexp⟩ := Prod.mk.inj hv
  have hfollows := hall _ (fourBytesChip (· == 0)) 8 _ r v rfl hr
  rw [Max3421e.Follows, show (v.mem.epinfo 1 (1 : BYTE).toNat).rcvToggle = _ from hsaved,
    show (fourBytesChip (· == 0)).expects v.record = true from hexp] at hfollows
  exact absurd hfollows (by decide)

instance (answers : ℕ → Bool) (addr ep maxpktsize : BYTE) (nbytes : WORD) (w v : State) :
    Decidable ((fourBytesChip answers).Settles addr ep nbytes maxpktsize w v) :=
  inferInstanceAs (Decidable (_ ∨ _ ∧ Even _))

instance (answers : ℕ → Bool) : DecidablePred (fourBytesChip answers).Regular := fun _ =>
  inferInstanceAs (Decidable (_ = _ ∧ _))

/-- Reports come in two packets. -/
theorem rcvToggle_follows_reports :
    (∃ r v, Returns (fourBytes fun _ => true) 8 (XferInTransfer 1 1 8 (fun _ => 0) 4) polling r v ∧
      (fourBytesChip fun _ => true).Follows 1 1 v) ∧
    ∃ steps v, Run (fourBytes fun _ => true) Poll.program polling steps v ∧ steps.length = 2 ∧
      (∀ s ∈ steps, (fourBytesChip fun _ => true).Follows s.after.mem.hid_device.addr 1 s.after) ∧
      (fourBytesChip fun _ => true).expects v.record = false := by
  constructor
  · have h : (XferInTransfer 1 1 8 (fun _ => 0) 4 (fourBytes fun _ => true) 8 polling).map
        (fun x => decide ((fourBytesChip fun _ => true).Settles 1 1 8 4 polling x.2)) =
          some true := by decide +kernel
    obtain ⟨⟨r, v⟩, hr, hsettles⟩ := Option.map_eq_some_iff.mp h
    exact ⟨r, v, hr, ((rcvToggle_follows _).1 hr).mpr (of_decide_eq_true hsettles)⟩
  · have h : (calls (fourBytes fun _ => true) Poll.program 8
        [.mousePoll fun _ => 0, .mousePoll fun _ => 0] polling []).map (fun r => (r.1.length,
          r.1.all fun s => decide ((fourBytesChip fun _ => true).Regular s),
          (fourBytesChip fun _ => true).received r.2.record)) = some (2, true, 4) := by
      decide +kernel
    obtain ⟨⟨steps, v⟩, hcalls, hvalues⟩ := Option.map_eq_some_iff.mp h
    simp only [Prod.mk.injEq, List.all_eq_true, decide_eq_true_eq] at hvalues
    obtain ⟨hlen, hreg, hreceived⟩ := hvalues
    have hrun := run_of_calls _ _ _ _ _ .start hcalls
    obtain ⟨hall, hexp⟩ := (rcvToggle_follows (fourBytesChip fun _ => true)).2 hrun rfl hreg
    refine ⟨steps, v, hrun, hlen, hall, ?_⟩
    rw [hexp v.record List.nil_suffix (List.suffix_refl _), hreceived]
    rfl

end ECE385.Usb
