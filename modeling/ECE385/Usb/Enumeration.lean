import ECE385.Usb.States
import Mathlib.Data.List.DropRight
import Mathlib.Data.List.Forall2

/-!
# Enumeration

What has happened when `usb_task_state` becomes `USB_STATE_RUNNING`, in runs without bus events.

* `milestones`: what an enumeration has to go through, in order.
* `Passed k l`: calls of `l` pass the first `k` of them.
* `running_enumerated`: all are passed, if the wait for the first frame ends with a frame and the
  transfers whose results the descriptor step drops succeed.
-/

namespace ECE385.Usb

open Firmware

/-- What a call has put on record. -/
def CallStep.record (s : CallStep) : Record Query.Reply := s.before.since s.after

/-- The calls after the last one that has left the state machine in `USB_STATE_ATTACHED`. -/
def sinceAttached (steps : List CallStep) : List CallStep :=
  steps.rtakeWhile fun s => s.after.mem.usb_task_state != USB_STATE_ATTACHED

/-! ### Milestones -/

/-- The transfer, or the probe, has succeeded. -/
def Return.Succeeded : Return → Prop
  | XferCtrlReq _ _ _ rcode => rcode = 0
  | Initialize _ found => found = true

instance : DecidablePred Return.Succeeded
  | .XferCtrlReq _ _ _ rcode => inferInstanceAs (Decidable (rcode = 0))
  | .Initialize _ found => inferInstanceAs (Decidable (found = true))

/-- `USB_Task` issues a bus reset. -/
def IssuesReset (s : CallStep) : Prop :=
  s.call = .USB_Task ∧ ∃ v : BYTE, ⟨.wr rHCTL v, ()⟩ ∈ s.record ∧ v &&& bmBUSRST ≠ 0

/-- It reads the reset back as finished. -/
def ReadsFinished (s : CallStep) : Prop :=
  s.call = .USB_Task ∧ ∃ v : BYTE, ⟨.rd rHCTL, v⟩ ∈ s.record ∧ v &&& bmBUSRST = 0

/-- It reads `HIRQ` with the frame bit set. -/
def SeesFrame (s : CallStep) : Prop :=
  s.call = .USB_Task ∧ ∃ v : BYTE, ⟨.rd rHIRQ, v⟩ ∈ s.record ∧ v &&& bmFRAMEIRQ ≠ 0

/-- It makes the descriptor step, and all its transfers succeed. -/
def Describes (s : CallStep) : Prop :=
  s.call = .USB_Task ∧
    s.before.mem.usb_task_state = USB_ATTACHED_SUBSTATE_GET_DEVICE_DESCRIPTOR_SIZE ∧
    ∀ r ∈ returns s.record, r.Succeeded

/-- It sets the address of a free slot of the table. -/
def Addresses (s : CallStep) : Prop :=
  s.call = .USB_Task ∧ ∃ i, (s.before.mem.devtable i).epinfo = .NULL ∧
    .XferCtrlReq 0 USB_REQUEST_SET_ADDRESS i 0 ∈ returns s.record

/-- A class probe returns `TRUE` to it. -/
def Probes (s : CallStep) : Prop :=
  s.call = .USB_Task ∧ ∃ i, .Initialize i true ∈ returns s.record

def milestones : List (CallStep → Prop) :=
  [IssuesReset, ReadsFinished, SeesFrame, Describes, Addresses, Probes]

/-- Some of the calls, in their order, pass the first `k` milestones. -/
def Passed (k : ℕ) (l : List CallStep) : Prop :=
  ∃ xs, xs.Sublist l ∧ List.Forall₂ (fun s P => P s) xs (milestones.take k)

theorem passed_zero (l : List CallStep) : Passed 0 l := ⟨[], List.nil_sublist l, .nil⟩

theorem Passed.append {k : ℕ} {l : List CallStep} (h : Passed k l) (s : CallStep) :
    Passed k (l ++ [s]) := by
  obtain ⟨xs, hsub, hxs⟩ := h
  exact ⟨xs, hsub.trans (List.sublist_append_left l [s]), hxs⟩

/-- One more milestone. -/
theorem Passed.next {k : ℕ} {l : List CallStep} (h : Passed k l) {s : CallStep}
    {P : CallStep → Prop} (hP : milestones.take (k + 1) = milestones.take k ++ [P]) (hs : P s) :
    Passed (k + 1) (l ++ [s]) := by
  obtain ⟨xs, hsub, hxs⟩ := h
  refine ⟨xs ++ [s], hsub.append (List.Sublist.refl [s]), ?_⟩
  rw [hP]
  exact List.rel_append hxs (.cons hs .nil)

/-! ### The state tells how far the enumeration is -/

/-- The milestones passed on the way to a state. -/
def reached (s : BYTE) : ℕ :=
  if s = USB_ATTACHED_SUBSTATE_WAIT_RESET_COMPLETE then 1
  else if s = USB_ATTACHED_SUBSTATE_WAIT_SOF then 2
  else if s = USB_ATTACHED_SUBSTATE_GET_DEVICE_DESCRIPTOR_SIZE then 3
  else if s = USB_STATE_ADDRESSING then 4
  else if s = USB_STATE_CONFIGURING then 5
  else if s = USB_STATE_RUNNING then 6
  else 0

/-- The call is no interrupt with a bus event. -/
def NoBusEvent (env : Hardware) (s : CallStep) : Prop :=
  s.call = .MaxIntHandler → hirq env s.before &&& bmBUSEVENTIRQ = 0

instance (env : Hardware) : DecidablePred (NoBusEvent env) := fun s =>
  inferInstanceAs (Decidable (s.call = .MaxIntHandler → _))

/-- The hardware does what the call does not check: `HIRQ` has the frame bit when the first frame
is waited for, and in the descriptor step what comes after the first transfer succeeds. -/
def Complies (env : Hardware) (s : CallStep) : Prop :=
  s.call = .USB_Task →
    (s.before.mem.usb_task_state = USB_ATTACHED_SUBSTATE_WAIT_SOF →
      hirq env s.before &&& bmFRAMEIRQ ≠ 0) ∧
    (s.before.mem.usb_task_state = USB_ATTACHED_SUBSTATE_GET_DEVICE_DESCRIPTOR_SIZE →
      ∀ r ∈ (returns s.record).dropLast, r.Succeeded)

instance (env : Hardware) : DecidablePred (Complies env) := fun s =>
  inferInstanceAs (Decidable (s.call = .USB_Task → _))

variable {env : Hardware} {n : ℕ} {w w' : State} {steps : List CallStep}

/-- One call of `USB_Task`. -/
theorem passed_task (hdef : Defined w.mem.usb_task_state) (h : Returns env n USB_Task w () w')
    (hok : Complies env ⟨.USB_Task, w, w'⟩) {l : List CallStep}
    (hl : Passed (reached w.mem.usb_task_state) l) :
    Passed (reached w'.mem.usb_task_state) (l ++ [⟨.USB_Task, w, w'⟩]) := by
  obtain ⟨hsof, hdescr⟩ := hok rfl
  cases (USB_Task_moves hdef h).2 with
  | stays hs => rw [hs]; exact hl.append _
  | cleared _ hs' | timed _ hs' | settled _ hs' | error hs' =>
    rw [hs']; exact passed_zero _
  | reset hs hs' hwr =>
    rw [hs']
    exact (passed_zero l).next (P := IssuesReset) rfl ⟨rfl, _, hwr, by decide⟩
  | resetDone hs hs' v hrd hv =>
    rw [hs] at hl
    rw [hs']
    exact hl.next (P := ReadsFinished) rfl ⟨rfl, v, hrd, hv⟩
  | frame hs hs' hrd =>
    rw [hs] at hl
    rw [hs']
    exact hl.next (P := SeesFrame) rfl ⟨rfl, _, hrd, hsof hs⟩
  | descriptor hs hs' rest hret =>
    rw [hs] at hl
    rw [hs']
    refine hl.next (P := Describes) rfl ⟨rfl, hs, fun r hr => ?_⟩
    have hrest := hdescr hs
    rw [CallStep.record, hret] at hrest hr
    rw [List.dropLast_concat] at hrest
    rcases List.mem_append.mp hr with hr | hr
    · exact hrest r hr
    · rw [List.mem_singleton.mp hr]; rfl
  | address hs hs' i hfree hret =>
    rw [hs] at hl
    rw [hs']
    exact hl.next (P := Addresses) rfl ⟨rfl, i, hfree, hret⟩
  | found hs hs' i hret =>
    rw [hs] at hl
    rw [hs']
    exact hl.next (P := Probes) rfl ⟨rfl, i, hret⟩

theorem counted_cases (env : Hardware) (w : State) :
    counted env w = w.mem.usb_task_state ∨ reached (counted env w) = 0 := by
  rw [counted, probed]
  split_ifs
  all_goals first | exact .inl rfl | exact .inr (by decide)

/-- One interrupt without a bus event. -/
theorem passed_interrupt (h : Returns env n MaxIntHandler w () w')
    (hok : NoBusEvent env ⟨.MaxIntHandler, w, w'⟩) {l : List CallStep}
    (hl : Passed (reached w.mem.usb_task_state) l) :
    Passed (reached w'.mem.usb_task_state) (l ++ [⟨.MaxIntHandler, w, w'⟩]) := by
  have hno : hirq env w &&& bmBUSEVENTIRQ = 0 := hok rfl
  rw [(MaxIntHandler_returns h).2, handled, if_neg (not_not.mpr hno)]
  rcases counted_cases env w with hc | hc
  · rw [hc]; exact hl.append _
  · rw [hc]; exact passed_zero _

theorem defined_of_noBusEvent {c : Call} (hdef : Defined w.mem.usb_task_state)
    (h : Returns env n c.program w () w') (hno : NoBusEvent env ⟨c, w, w'⟩) :
    Defined w'.mem.usb_task_state :=
  (defined_call_iff hdef h).mpr fun hc hb => absurd (hno hc) hb

/-- **The run.**  In every state the milestones on the way to it have been passed since the
device was attached. -/
theorem passed_run {w₀ : State} (hstart : w₀.mem.usb_task_state = USB_DETACHED_SUBSTATE_INITIALIZE)
    (h : Run env Call.program w₀ steps w) (hno : ∀ s ∈ steps, NoBusEvent env s)
    (hok : ∀ s ∈ steps, Complies env s) :
    Defined w.mem.usb_task_state ∧ Passed (reached w.mem.usb_task_state) (sinceAttached steps) := by
  induction h with
  | start =>
    rw [hstart]
    exact ⟨by decide, passed_zero _⟩
  | @call steps v v' c n _ hc ih =>
    rw [List.forall_mem_append, List.forall_mem_singleton] at hno hok
    obtain ⟨hdef, hl⟩ := ih hno.1 hok.1
    refine ⟨defined_of_noBusEvent hdef hc hno.2, ?_⟩
    by_cases ha : v'.mem.usb_task_state = USB_STATE_ATTACHED
    · rw [ha]; exact passed_zero _
    · rw [sinceAttached, List.rtakeWhile_concat_pos _ _ _ (by simpa using ha)]
      cases c with
      | USB_Task => exact passed_task hdef hc hok.2 hl
      | MaxIntHandler => exact passed_interrupt hc hno.2 hl

/-- **A device is run only after a complete enumeration**, when the hardware complies. -/
theorem running_enumerated {w₀ : State}
    (hstart : w₀.mem.usb_task_state = USB_DETACHED_SUBSTATE_INITIALIZE)
    (h : Run env Call.program w₀ steps w) (hno : ∀ s ∈ steps, NoBusEvent env s)
    (hok : ∀ s ∈ steps, Complies env s) (hrun : w.mem.usb_task_state = USB_STATE_RUNNING) :
    Passed milestones.length (sinceAttached steps) := by
  have hpassed := (passed_run hstart h hno hok).2
  rw [hrun] at hpassed
  exact hpassed

/-! ### A mouse -/

/-- The last packet of `rSUDFIFO`. -/
def lastSetup : Record Query.Reply → List BYTE
  | [] => []
  | ⟨.bytesWr _ data, _⟩ :: _ => data
  | _ :: l => lastSetup l

/-- Descriptors of a mouse: the device, and the configuration with its interface. -/
def deviceDescriptor : List BYTE := [18, 1, 0, 2, 0, 0, 0, 64, 0, 0, 0, 0, 0, 0, 0, 0, 0, 1]

def configuration : List BYTE :=
  [9, 2, 34, 0, 1, 1, 0, 0xA0, 50, 9, 4, 0, 0, 1, 3, 1, 2, 0, 9, 0x21, 0x10, 1, 0, 1, 0x22, 52, 0,
    7, 5, 0x81, 3, 8, 0, 10]

/-- A mouse is plugged in.  It answers every request at once, while `frame` are the bits of `HIRQ`
that are set beside those of the transfers. -/
def mouse (frame : BYTE) : Hardware
  | l, .rd reg =>
    if reg = rHIRQ then
      (if seen rHIRQ l then 0 else bmCONDETIRQ) ||| bmHXFRDNIRQ ||| bmRCVDAVIRQ ||| frame
    else if reg = rHRSL then
      if seen rHRSL l then 0 else bmJSTATUS
    else if reg = rRCVBC then (lastSetup l).getD 6 0
    else 0
  | _, .wr _ _ => ()
  | _, .bytesWr _ _ => ()
  | l, .bytesRd _ _ => fun k =>
    (if (lastSetup l).getD 3 0 = USB_DESCRIPTOR_DEVICE then deviceDescriptor
      else configuration).getD k 0
  | l, .alt_nticks => BitVec.ofNat 32 (300 * l.length)
  | _, .alt_ticks_per_second => 1000
  | _, .uninitialised => fun _ => 0
  | _, .printf _ => ()
  | _, .returned _ => ()

/-- It comes to run. -/
def plugged (frame : BYTE) : Option (List CallStep × State) :=
  calls (mouse frame) Call.program 8
    [.USB_Task, .MaxIntHandler, .USB_Task, .USB_Task, .USB_Task, .USB_Task, .USB_Task, .USB_Task,
      .USB_Task, .USB_Task] ⟨Mem.start, []⟩ []

/-- No read of `HIRQ` has the frame bit. -/
def frameless (l : Record Query.Reply) : Bool :=
  l.all fun a => match a with
    | ⟨.rd reg, v⟩ => !(reg == rHIRQ && v &&& bmFRAMEIRQ != 0)
    | _ => true

theorem not_seesFrame {s : CallStep} (h : frameless s.record = true) : ¬SeesFrame s := by
  rintro ⟨-, v, hv, hframe⟩
  have := List.all_eq_true.mp h _ hv
  simp only [beq_self_eq_true, Bool.true_and, Bool.not_eq_true', bne_eq_false_iff_eq] at this
  exact hframe this

theorem run_plugged (frame : BYTE) (f : List CallStep → Bool) (h : (plugged frame).map (fun r =>
      (r.2.mem.usb_task_state, r.1.all fun s => decide (NoBusEvent (mouse frame) s), f r.1)) =
        some (USB_STATE_RUNNING, true, true)) :
    ∃ steps w, Run (mouse frame) Call.program ⟨Mem.start, []⟩ steps w ∧
      (∀ s ∈ steps, NoBusEvent (mouse frame) s) ∧ w.mem.usb_task_state = USB_STATE_RUNNING ∧
      f steps = true := by
  obtain ⟨⟨steps, w⟩, hcalls, hvalues⟩ := Option.map_eq_some_iff.mp h
  simp only [Prod.mk.injEq, List.all_eq_true, decide_eq_true_eq] at hvalues
  exact ⟨steps, w, run_of_calls _ _ _ _ _ .start hcalls, hvalues.2.1, hvalues.1, hvalues.2.2⟩

/-- The wait for a frame takes any value of `HIRQ`. -/
theorem not_enumerated_frameless :
    ¬∀ (env : Hardware) (steps : List CallStep) (w : State),
      Run env Call.program ⟨Mem.start, []⟩ steps w → (∀ s ∈ steps, NoBusEvent env s) →
      w.mem.usb_task_state = USB_STATE_RUNNING →
      Passed milestones.length (sinceAttached steps) := by
  intro hall
  obtain ⟨steps, w, hrun, hno, hstate, hframe⟩ :=
    run_plugged 0 (fun steps => steps.all fun s => frameless s.record) (by decide +kernel)
  obtain ⟨xs, hsub, hxs⟩ := hall _ _ _ hrun hno hstate
  rcases hxs with - | ⟨-, - | ⟨-, - | ⟨hsees, -⟩⟩⟩
  refine not_seesFrame (List.all_eq_true.mp hframe _ ?_) hsees
  exact List.rtakeWhile_suffix _ _ |>.subset (hsub.subset (by simp))

theorem running_enumerated_mouse :
    ∃ steps w, Run (mouse bmFRAMEIRQ) Call.program ⟨Mem.start, []⟩ steps w ∧
      w.mem.usb_task_state = USB_STATE_RUNNING ∧
      Passed milestones.length (sinceAttached steps) := by
  obtain ⟨steps, w, hrun, hno, hstate, hok⟩ :=
    run_plugged bmFRAMEIRQ
      (fun steps => steps.all fun s => decide (Complies (mouse bmFRAMEIRQ) s)) (by decide +kernel)
  simp only [List.all_eq_true, decide_eq_true_eq] at hok
  exact ⟨steps, w, hrun, hstate, running_enumerated rfl hrun hno hok hstate⟩

end ECE385.Usb
