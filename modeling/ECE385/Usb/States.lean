import ECE385.Usb.Moves

/-!
# The states of the USB task

`USB_Task` and `MaxIntHandler` called in any order.  `MaxIntHandler` counts `usb_task_state` up at a
bus event, wherever the state machine is; `defined_iff` says when that leads from a defined state
to a defined state.
-/

namespace ECE385.Usb

open Firmware

/-- The calls of the main loop. -/
inductive Call
  | USB_Task | MaxIntHandler
  deriving DecidableEq

def Call.program : Call → Program Unit
  | USB_Task => Usb.USB_Task
  | MaxIntHandler => Usb.MaxIntHandler

abbrev CallStep := Step Query.Reply Mem Call

/-- The call is not an interrupt with a bus event, or the bus event finds a state with a
successor.  A connection detected in the same interrupt comes first: a device on the bus always
puts the state machine where it can go on, an empty bus does so if nothing was attached. -/
def Advances (env : Hardware) (s : CallStep) : Prop :=
  s.call = .MaxIntHandler → hirq env s.before &&& bmBUSEVENTIRQ ≠ 0 →
    if hirq env s.before &&& bmCONDETIRQ ≠ 0 then
      busSample env s.before = bmJSTATUS ∨ busSample env s.before = bmKSTATUS ∨
        busSample env s.before = bmSE0 ∧
          s.before.mem.usb_task_state &&& USB_STATE_MASK = USB_STATE_DETACHED
    else
      s.before.mem.usb_task_state ∈ [USB_DETACHED_SUBSTATE_WAIT_FOR_DEVICE, USB_STATE_ATTACHED,
        USB_ATTACHED_SUBSTATE_SETTLE, USB_ATTACHED_SUBSTATE_RESET_DEVICE,
        USB_ATTACHED_SUBSTATE_WAIT_RESET_COMPLETE, USB_ATTACHED_SUBSTATE_WAIT_SOF]

variable {env : Hardware} {n : ℕ} {w w' : State}

/-! ### One call -/

theorem defined_task (hdef : Defined w.mem.usb_task_state) (h : TaskMove env w w') :
    Defined w'.mem.usb_task_state := by
  cases h with
  | stays h => rw [h]; exact hdef
  | cleared _ h' | timed _ h' | settled _ h' | reset _ h' | resetDone _ h' | frame _ h'
  | descriptor _ h' | address _ h' | found _ h' | error h' => rw [h']; decide

theorem busSample_cases (env : Hardware) (w : State) :
    busSample env w = bmJSTATUS ∨ busSample env w = bmKSTATUS ∨ busSample env w = bmSE1 ∨
      busSample env w = bmSE0 := by
  have hall : ∀ v : BYTE,
      v &&& (bmJSTATUS ||| bmKSTATUS) ∈ [bmJSTATUS, bmKSTATUS, bmSE1, bmSE0] := by
    decide +kernel
  have h := hall (env (⟨.rd rHIRQ, hirq env w⟩ :: w.record) (.rd rHRSL))
  simp only [List.mem_cons, List.not_mem_nil, or_false] at h
  exact h

theorem defined_probed {s : BYTE} (hs : Defined s) : Defined (probed (busSample env w) s) := by
  have hall : ∀ v ∈ [bmJSTATUS, bmKSTATUS, bmSE1, bmSE0], ∀ s ∈ definedStates,
      Defined (probed v s) := by decide +kernel
  refine hall _ ?_ s hs
  simpa only [List.mem_cons, List.not_mem_nil, or_false] using busSample_cases env w

theorem defined_counted (hdef : Defined w.mem.usb_task_state) : Defined (counted env w) := by
  rw [counted]
  split_ifs
  · exact defined_probed hdef
  · exact hdef

theorem defined_succ_iff {s : BYTE} (hs : Defined s) :
    Defined (s + 1) ↔ s ∈ [USB_DETACHED_SUBSTATE_WAIT_FOR_DEVICE, USB_STATE_ATTACHED,
      USB_ATTACHED_SUBSTATE_SETTLE, USB_ATTACHED_SUBSTATE_RESET_DEVICE,
      USB_ATTACHED_SUBSTATE_WAIT_RESET_COMPLETE, USB_ATTACHED_SUBSTATE_WAIT_SOF] := by
  revert s
  decide +kernel

theorem defined_probed_succ_iff {s : BYTE} (hs : Defined s) :
    Defined (probed (busSample env w) s + 1) ↔
      busSample env w = bmJSTATUS ∨ busSample env w = bmKSTATUS ∨
        busSample env w = bmSE0 ∧ s &&& USB_STATE_MASK = USB_STATE_DETACHED := by
  have hall : ∀ v ∈ [bmJSTATUS, bmKSTATUS, bmSE1, bmSE0], ∀ s ∈ definedStates,
      (Defined (probed v s + 1) ↔ v = bmJSTATUS ∨ v = bmKSTATUS ∨
        v = bmSE0 ∧ s &&& USB_STATE_MASK = USB_STATE_DETACHED) := by decide +kernel
  refine hall _ ?_ s hs
  simpa only [List.mem_cons, List.not_mem_nil, or_false] using busSample_cases env w

/-- **One call.** -/
theorem defined_call_iff {c : Call} (hdef : Defined w.mem.usb_task_state)
    (h : Returns env n c.program w () w') :
    Defined w'.mem.usb_task_state ↔ Advances env ⟨c, w, w'⟩ := by
  cases c with
  | USB_Task =>
    refine iff_of_true (defined_task hdef (USB_Task_moves hdef h).2) ?_
    exact fun hc => nomatch hc
  | MaxIntHandler =>
    rw [(MaxIntHandler_returns h).2, handled, Advances]
    by_cases hb : hirq env w &&& bmBUSEVENTIRQ ≠ 0
    · rw [if_pos hb, counted]
      by_cases hc : hirq env w &&& bmCONDETIRQ ≠ 0
      · rw [if_pos hc, defined_probed_succ_iff hdef]
        exact ⟨fun hs _ _ => by rw [if_pos hc]; exact hs, fun hs => by
          have := hs rfl hb; rwa [if_pos hc] at this⟩
      · rw [if_neg hc, defined_succ_iff hdef]
        exact ⟨fun hs _ _ => by rw [if_neg hc]; exact hs, fun hs => by
          have := hs rfl hb; rwa [if_neg hc] at this⟩
    · rw [if_neg hb]
      exact iff_of_true (defined_counted hdef) fun _ hb' => absurd hb' hb

/-- **The states stay defined exactly when the calls advance.** -/
theorem defined_iff {w₀ : State} {steps : List CallStep} (hdef : Defined w₀.mem.usb_task_state)
    (h : Run env Call.program w₀ steps w) :
    (∀ s ∈ steps, Defined s.after.mem.usb_task_state) ↔ ∀ s ∈ steps, Advances env s := by
  suffices key : ((∀ s ∈ steps, Defined s.after.mem.usb_task_state) ↔
      ∀ s ∈ steps, Advances env s) ∧
      ((∀ s ∈ steps, Advances env s) → Defined w.mem.usb_task_state) from key.1
  induction h with
  | start => exact ⟨by simp, fun _ => hdef⟩
  | @call steps v v' c n _ hc ih =>
    obtain ⟨hiff, hv⟩ := ih
    simp only [List.forall_mem_append, List.forall_mem_singleton, hiff]
    have hcall := fun hok => defined_call_iff (hv hok) hc
    exact ⟨and_congr_right hcall, fun ⟨hok, hs⟩ => (hcall hok).mpr hs⟩

/-! ### A device plugged in and out -/

/-- The variables as they are initialised. -/
def Mem.start : Mem where
  usb_task_state := USB_DETACHED_SUBSTATE_INITIALIZE
  usb_error := 0
  last_usb_task_state := 0
  usb_delay := 0
  tmp_addr := 0
  devtable := fun _ => ⟨.NULL, 0⟩
  ep := fun _ _ => ⟨0, 0, 0, 0, 0, 0⟩
  hid_device := ⟨0, 0⟩
  bigbuf := fun _ => 0

/-- The register has been read. -/
def seen (reg : BYTE) (l : Record Query.Reply) : Bool :=
  l.any fun a => match a.1 with
    | .rd r => r == reg
    | _ => false

/-- Two changes of the connection: a device first, then none, with a bus event pending. -/
def unplugged : Hardware
  | l, .rd reg =>
    if reg = rHIRQ then
      if seen rHIRQ l then bmCONDETIRQ ||| bmBUSEVENTIRQ else bmCONDETIRQ
    else if reg = rHRSL then
      if seen rHRSL l then bmSE0 else bmJSTATUS
    else 0
  | _, .wr _ _ => ()
  | _, .bytesWr _ _ => ()
  | _, .bytesRd _ _ => fun _ => 0
  | _, .alt_nticks => 0
  | _, .alt_ticks_per_second => 1000
  | _, .uninitialised => fun _ => 0
  | _, .printf _ => ()
  | _, .returned _ => ()

/-- It leaves the state machine in the state `0x02`. -/
theorem run_unplugged :
    ∃ steps w, Run unplugged Call.program ⟨Mem.start, []⟩ steps w ∧
      ∃ s ∈ steps, ¬Defined s.after.mem.usb_task_state := by
  have hcalls : (calls unplugged Call.program 1 [.USB_Task, .MaxIntHandler, .USB_Task,
      .MaxIntHandler] ⟨Mem.start, []⟩ []).map (fun r => r.1.map fun s =>
        s.after.mem.usb_task_state) = some [0x03, 0x10, 0x11, 0x02] := by decide +kernel
  obtain ⟨⟨steps, w⟩, h, hstates⟩ := Option.map_eq_some_iff.mp hcalls
  obtain ⟨s, hs, h02⟩ : ∃ s ∈ steps, s.after.mem.usb_task_state = 0x02 :=
    List.mem_map.mp (by rw [hstates]; decide)
  exact ⟨steps, w, run_of_calls _ _ _ _ _ .start h, s, hs, by rw [h02]; decide⟩

theorem not_defined_unplugged :
    ¬∀ (env : Hardware) (steps : List CallStep) (w : State),
      Run env Call.program ⟨Mem.start, []⟩ steps w →
      ∀ s ∈ steps, Defined s.after.mem.usb_task_state := by
  intro hall
  obtain ⟨steps, w, hrun, s, hs, hundef⟩ := run_unplugged
  exact hundef (hall _ _ _ hrun s hs)

theorem defined_iff_unplugged :
    ∃ steps w, Run unplugged Call.program ⟨Mem.start, []⟩ steps w ∧
      ¬∀ s ∈ steps, Advances unplugged s := by
  obtain ⟨steps, w, hrun, s, hs, hundef⟩ := run_unplugged
  have hdef : Defined (⟨Mem.start, []⟩ : State).mem.usb_task_state := by decide
  exact ⟨steps, w, hrun, fun hall => hundef ((defined_iff hdef hrun).mpr hall s hs)⟩

end ECE385.Usb
