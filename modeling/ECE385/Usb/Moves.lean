import ECE385.Usb.Task

/-!
# What a call can do

`USB_Task` and `MaxIntHandler` taken apart, for the states that `USB.h` defines.

* `TaskMove`: the moves of `USB_Task`, each with what it has asked and been answered.
* `handled`: the state that `MaxIntHandler` leaves.
-/

namespace ECE385.Usb

open Firmware Prog

/-- The values that `USB.h` defines and `USB_Task` handles. -/
def definedStates : List BYTE :=
  [USB_DETACHED_SUBSTATE_INITIALIZE, USB_DETACHED_SUBSTATE_WAIT_FOR_DEVICE,
    USB_DETACHED_SUBSTATE_ILLEGAL, USB_STATE_ATTACHED, USB_ATTACHED_SUBSTATE_SETTLE,
    USB_ATTACHED_SUBSTATE_RESET_DEVICE, USB_ATTACHED_SUBSTATE_WAIT_RESET_COMPLETE,
    USB_ATTACHED_SUBSTATE_WAIT_SOF, USB_ATTACHED_SUBSTATE_GET_DEVICE_DESCRIPTOR_SIZE,
    USB_STATE_ADDRESSING, USB_STATE_CONFIGURING, USB_STATE_RUNNING, USB_STATE_ERROR]

abbrev Defined (s : BYTE) : Prop := s ∈ definedStates

/-- A return on record. -/
def Query.return? : Query → Option Return
  | returned r => some r
  | _ => none

/-- The returns on record, the latest first. -/
def returns (l : Record Query.Reply) : List Return := l.filterMap fun a => a.1.return?

/-! ### Accesses and assignments -/

/-- The record grows, but not by a return, and `usb_task_state` stays. -/
structure Silent (w w' : State) : Prop where
  grows : Extends w w'
  state : w'.mem.usb_task_state = w.mem.usb_task_state
  returns : returns w'.record = returns w.record

instance : IsPreorder State Silent where
  refl w := ⟨Std.Refl.refl w, rfl, rfl⟩
  trans _ _ _ h h' := ⟨IsTrans.trans _ _ _ h.grows h'.grows, h'.state.trans h.state,
    h'.returns.trans h.returns⟩

/-- The record grows, and `usb_task_state` stays. -/
structure Steady (w w' : State) : Prop where
  grows : Extends w w'
  state : w'.mem.usb_task_state = w.mem.usb_task_state

instance : IsPreorder State Steady where
  refl w := ⟨Std.Refl.refl w, rfl⟩
  trans _ _ _ h h' := ⟨IsTrans.trans _ _ _ h.grows h'.grows, h'.state.trans h.state⟩

variable {env : Hardware}

theorem silent_passes : Passes env Silent where
  ask q hq := within_ask fun w => by
    refine ⟨List.suffix_cons _ _, rfl, ?_⟩
    cases q with
    | returned r => exact absurd rfl (hq r)
    | _ => rfl
  store _ hf := within_store fun w => ⟨List.suffix_refl _, hf w.mem, rfl⟩

theorem steady_ask (q : Query) : Within env Steady (ask q) :=
  within_ask fun _ => ⟨List.suffix_cons _ _, rfl⟩

theorem steady_passes : Passes env Steady where
  ask q _ := steady_ask q
  store _ hf := within_store fun w => ⟨List.suffix_refl _, hf w.mem⟩

variable {n : ℕ} {w v w' : State} {l l' : List Return}

/-- The record grows, and `l` are the returns put on it. -/
structure Logs (l : List Return) (w w' : State) : Prop where
  grows : Extends w w'
  returns : returns (w.since w') = l

theorem Logs.trans (h : Logs l w v) (h' : Logs l' v w') : Logs (l' ++ l) w w' where
  grows := h.grows.trans h'.grows
  returns := by
    rw [since_trans h.grows h'.grows, Usb.returns, List.filterMap_append]
    exact congrArg₂ _ h'.returns h.returns

theorem Logs.of_eq (h : Logs l w v) (hr : w'.record = v.record) : Logs l w w' where
  grows := by rw [Extends, hr]; exact h.grows
  returns := by rw [World.since, hr]; exact h.returns

theorem Silent.logs (h : Silent w w') : Logs [] w w' where
  grows := h.grows
  returns := by
    have hr : Usb.returns w'.record = Usb.returns w.record := h.returns
    rw [h.grows.eq_append, Usb.returns, List.filterMap_append] at hr
    exact List.append_left_eq_self.mp hr

theorem Logs.refl (w : State) : Logs [] w w := Silent.logs (Std.Refl.refl w)

theorem Steady.logs (h : Steady w w') : ∃ l, Logs l w w' := ⟨_, h.grows, rfl⟩

/-- A return is put on record. -/
theorem logs_returned (w : State) (r : Return) :
    Logs [r] w { w with record := ⟨.returned r, ()⟩ :: w.record } where
  grows := List.suffix_cons _ _
  returns := by rw [since_eq (l := [⟨.returned r, ()⟩]) rfl]; rfl

theorem getDescr_logs {addr ep wValLo wValHi : BYTE} {wInd nbytes : WORD} {dataptr : Buf}
    {r : BYTE × Buf}
    (h : Returns env n (getDescr addr ep wValLo wValHi wInd nbytes dataptr) w r w') :
    Logs [.XferCtrlReq addr USB_REQUEST_GET_DESCRIPTOR wValLo r.1] w w' := by
  obtain ⟨v, hv, rfl⟩ := getDescr_returned silent_passes.toggles h
  exact hv.logs.trans (logs_returned v _)

theorem request_logs {addr ep bmReqType bRequest wValLo wValHi : BYTE} {wInd : WORD} {rcode : BYTE}
    (h : Returns env n (request addr ep bmReqType bRequest wValLo wValHi wInd) w rcode w') :
    Logs [.XferCtrlReq addr bRequest wValLo rcode] w w' ∧
      w'.mem.usb_task_state = w.mem.usb_task_state := by
  obtain ⟨v, hv, rfl⟩ := request_returned silent_passes.toggles h
  exact ⟨hv.logs.trans (logs_returned v _), hv.state⟩

@[simp] theorem returns_setState {s : BYTE} {u : Unit} :
    Returns env n (setState s) w u w' ↔ { w with mem := { w.mem with usb_task_state := s } } = w' :=
  returns_store

theorem returns_fail {rcode : BYTE} {u : Unit} (h : Returns env n (fail rcode) w u w') :
    w'.record = w.record ∧ w'.mem.usb_task_state = USB_STATE_ERROR := by
  obtain ⟨_, v, hv, hw⟩ := returns_bind.mp h
  obtain rfl := returns_store.mp hv
  obtain rfl := returns_setState.mp hw
  exact ⟨rfl, rfl⟩

/-! ### The cases of `USB_Task` -/

theorem printString_within (index : BYTE) : Within env Steady (printString index) := by
  refine within_bind (steady_ask _) fun _ => ?_
  refine within_bind (getDescr_within steady_passes.toggles (fun _ => steady_ask _) _ _ _ _ _)
    fun (_, strDesc) => ?_
  refine within_bind (getDescr_within steady_passes.toggles (fun _ => steady_ask _) _ _ _ _ _)
    fun (_, strDesc) => ?_
  exact within_bind (steady_ask _) fun _ => within_pure _

/-- The first request decides. -/
theorem getDeviceDescriptor_returns (h : Returns env n getDeviceDescriptor w () w') :
    ∃ first rest,
      Logs (rest ++ [.XferCtrlReq 0 USB_REQUEST_GET_DESCRIPTOR 0 first]) w w' ∧
      (first = 0 ∧ w'.mem.usb_task_state = USB_STATE_ADDRESSING ∨
        w'.mem.usb_task_state = USB_STATE_ERROR) := by
  obtain ⟨buf, w₁, h₁, h⟩ := returns_bind.mp h
  obtain ⟨_, w₂, h₂, h⟩ := returns_bind.mp h
  obtain ⟨⟨first, buf⟩, w₃, h₃, h⟩ := returns_bind.mp h
  have hstart : Logs [] w w₂ :=
    (silent_passes.ask .uninitialised nofun n w _ w₁ h₁).logs.of_eq
      (by rw [← returns_store.mp h₂])
  have hfirst := hstart.trans (getDescr_logs h₃)
  rcases returns_ite.mp h with ⟨hzero, h⟩ | ⟨-, h⟩
  · obtain ⟨_, w₄, h₄, h⟩ := returns_bind.mp h
    obtain ⟨⟨second, buf⟩, w₅, h₅, h⟩ := returns_bind.mp h
    obtain ⟨_, w₆, h₆, h⟩ := returns_bind.mp h
    obtain ⟨_, w₇, h₇, h⟩ := returns_bind.mp h
    have h₅' : Logs _ w w₅ :=
      (hfirst.of_eq (by rw [← returns_store.mp h₄])).trans (getDescr_logs h₅)
    obtain ⟨l₆, h₆⟩ := (within_when (fun _ => printString_within _) n _ _ _ h₆).logs
    obtain ⟨l₇, h₇⟩ := (within_when (fun _ => printString_within _) n _ _ _ h₇).logs
    obtain rfl := returns_setState.mp h
    refine ⟨first, l₇ ++ (l₆ ++ [.XferCtrlReq 0 USB_REQUEST_GET_DESCRIPTOR 0 second]), ?_,
      .inl ⟨hzero, rfl⟩⟩
    have hall := (h₅'.trans h₆).trans h₇
    rw [List.append_nil, ← List.append_assoc, ← List.append_assoc] at hall
    rw [← List.append_assoc]
    exact hall.of_eq rfl
  · obtain ⟨hrecord, hstate⟩ := returns_fail h
    exact ⟨first, [], hfirst.of_eq hrecord, .inr hstate⟩

theorem setAddress_returns (hs : w.mem.usb_task_state = USB_STATE_ADDRESSING) :
    ∀ addresses, Returns env n (setAddress addresses) w () w' →
      ∃ l, Logs l w w' ∧
        (w'.mem.usb_task_state = USB_STATE_ADDRESSING ∨ w'.mem.usb_task_state = USB_STATE_ERROR ∨
          w'.mem.usb_task_state = USB_STATE_CONFIGURING ∧
            ∃ i, (w.mem.devtable i).epinfo = .NULL ∧
              .XferCtrlReq 0 USB_REQUEST_SET_ADDRESS i 0 ∈ l) := by
  intro addresses
  induction addresses with
  | nil =>
    intro h
    obtain ⟨-, rfl⟩ := returns_pure.mp h
    exact ⟨[], Logs.refl _, .inl hs⟩
  | cons i rest ih =>
    intro h
    obtain ⟨_, w₁, h₁, h⟩ := returns_bind.mp h
    obtain ⟨rfl, rfl⟩ := returns_load.mp h₁
    rcases returns_ite.mp h with ⟨hfree, h⟩ | ⟨-, h⟩
    · obtain ⟨_, w₂, h₂, h⟩ := returns_bind.mp h
      obtain ⟨rcode, w₃, h₃, h⟩ := returns_bind.mp h
      obtain ⟨hlogs, -⟩ := request_logs h₃
      have hlogs' := ((Logs.refl w).of_eq (by rw [← returns_store.mp h₂])).trans hlogs
      rcases returns_ite.mp h with ⟨rfl, h⟩ | ⟨-, h⟩
      · obtain ⟨_, w₄, h₄, h⟩ := returns_bind.mp h
        obtain rfl := returns_store.mp h₄
        obtain rfl := returns_setState.mp h
        exact ⟨_, hlogs'.of_eq rfl, .inr (.inr ⟨rfl, i, hfree, List.mem_cons_self⟩)⟩
      · obtain ⟨hrecord, hstate⟩ := returns_fail h
        exact ⟨_, hlogs'.of_eq hrecord, .inr (.inl hstate)⟩
    · exact ih h

theorem addressing_returns (hs : w.mem.usb_task_state = USB_STATE_ADDRESSING)
    (h : Returns env n addressing w () w') :
    ∃ l, Logs l w w' ∧
      (w'.mem.usb_task_state = USB_STATE_ERROR ∨
        w'.mem.usb_task_state = USB_STATE_CONFIGURING ∧
          ∃ i, (w.mem.devtable i).epinfo = .NULL ∧
            .XferCtrlReq 0 USB_REQUEST_SET_ADDRESS i 0 ∈ l) := by
  obtain ⟨_, v, h₁, h⟩ := returns_bind.mp h
  obtain ⟨_, _, h₂, h⟩ := returns_bind.mp h
  obtain ⟨rfl, rfl⟩ := returns_load.mp h₂
  obtain ⟨l, hl, hstate⟩ := setAddress_returns hs _ h₁
  rcases returns_ite.mp h with ⟨-, h⟩ | ⟨hne, h⟩
  · obtain ⟨hrecord, herror⟩ := returns_fail h
    exact ⟨l, hl.of_eq hrecord, .inl herror⟩
  · obtain ⟨-, rfl⟩ := returns_pure.mp h
    rcases hstate with hstate | hstate | hstate
    · exact absurd hstate hne
    · exact ⟨l, hl, .inl hstate⟩
    · exact ⟨l, hl, .inr hstate⟩

theorem runProbes_returns (addr : BYTE) :
    ∀ (drivers : List (BYTE → Program Bool)) (i : ℕ) {w : State},
      (∀ p ∈ drivers, Within env Steady (p addr)) →
      w.mem.usb_task_state = USB_STATE_CONFIGURING →
      Returns env n (runProbes addr i drivers) w () w' →
      ∃ l, Logs l w w' ∧
        (w'.mem.usb_task_state = USB_STATE_CONFIGURING ∨
          w'.mem.usb_task_state = USB_STATE_RUNNING ∧ ∃ i, .Initialize i true ∈ l) := by
  intro drivers
  induction drivers with
  | nil =>
    intro i w _ hs h
    obtain ⟨-, rfl⟩ := returns_pure.mp h
    exact ⟨[], Logs.refl _, .inl hs⟩
  | cons p rest ih =>
    intro i w hp hs h
    obtain ⟨found, v, h₁, h⟩ := returns_bind.mp h
    obtain ⟨u, hu, hv⟩ := returns_announce.mp h₁
    have hsteady : Steady w u := hp p List.mem_cons_self n w found u hu
    have hs' : v.mem.usb_task_state = USB_STATE_CONFIGURING := by
      rw [← hv]; exact hsteady.state.trans hs
    obtain ⟨l, hl⟩ := hsteady.logs
    have hlogs : Logs ([.Initialize i found] ++ l) w v := by
      rw [← hv]; exact hl.trans (logs_returned u _)
    rcases returns_ite.mp h with ⟨rfl, h⟩ | ⟨-, h⟩
    · obtain rfl := returns_setState.mp h
      exact ⟨_, hlogs.of_eq rfl, .inr ⟨rfl, i, List.mem_cons_self⟩⟩
    · obtain ⟨l', hl', hstate⟩ := ih (i + 1) (fun p h => hp p (List.mem_cons_of_mem _ h)) hs' h
      refine ⟨_, hlogs.trans hl', hstate.imp_right fun ⟨hrun, j, hj⟩ => ?_⟩
      exact ⟨hrun, j, List.mem_append_left _ hj⟩

theorem drivers_within (addr : BYTE) : ∀ p ∈ ClientDriverTable, Within env Steady (p addr) := by
  intro p hp
  simp only [ClientDriverTable, List.mem_cons, List.not_mem_nil, or_false] at hp
  rcases hp with rfl | rfl | rfl | rfl
  · exact within_pure _
  · exact HIDProbe_within steady_passes (fun _ => steady_ask _) _ _ _
  · exact HIDProbe_within steady_passes (fun _ => steady_ask _) _ _ _
  · exact within_pure _

theorem configuring_returns (hs : w.mem.usb_task_state = USB_STATE_CONFIGURING)
    (h : Returns env n configuring w () w') :
    ∃ l, Logs l w w' ∧
      (w'.mem.usb_task_state = USB_STATE_ERROR ∨
        w'.mem.usb_task_state = USB_STATE_RUNNING ∧ ∃ i, .Initialize i true ∈ l) := by
  obtain ⟨_, _, h₀, h⟩ := returns_bind.mp h
  obtain ⟨rfl, rfl⟩ := returns_load.mp h₀
  obtain ⟨_, v, h₁, h⟩ := returns_bind.mp h
  obtain ⟨_, _, h₂, h⟩ := returns_bind.mp h
  obtain ⟨rfl, rfl⟩ := returns_load.mp h₂
  obtain ⟨l, hl, hstate⟩ := runProbes_returns _ _ _ (drivers_within _) hs h₁
  rcases returns_ite.mp h with ⟨-, h⟩ | ⟨hne, h⟩
  · obtain ⟨hrecord, herror⟩ := returns_fail h
    exact ⟨l, hl.of_eq hrecord, .inl herror⟩
  · obtain ⟨-, rfl⟩ := returns_pure.mp h
    rcases hstate with hstate | hstate
    · exact absurd hstate hne
    · exact ⟨l, hl, .inr hstate⟩

/-! ### `USB_Task` -/

/-- What `USB_Task` does with `usb_task_state`, and what goes with it. -/
inductive TaskMove (env : Hardware) (w w' : State) : Prop
  | stays (h : w'.mem.usb_task_state = w.mem.usb_task_state)
  | cleared (h : w.mem.usb_task_state = USB_DETACHED_SUBSTATE_INITIALIZE)
    (h' : w'.mem.usb_task_state = USB_DETACHED_SUBSTATE_WAIT_FOR_DEVICE)
  | timed (h : w.mem.usb_task_state = USB_STATE_ATTACHED)
    (h' : w'.mem.usb_task_state = USB_ATTACHED_SUBSTATE_SETTLE)
  | settled (h : w.mem.usb_task_state = USB_ATTACHED_SUBSTATE_SETTLE)
    (h' : w'.mem.usb_task_state = USB_ATTACHED_SUBSTATE_RESET_DEVICE)
  | reset (h : w.mem.usb_task_state = USB_ATTACHED_SUBSTATE_RESET_DEVICE)
    (h' : w'.mem.usb_task_state = USB_ATTACHED_SUBSTATE_WAIT_RESET_COMPLETE)
    (hwr : ⟨.wr rHCTL bmBUSRST, ()⟩ ∈ w.since w')
  | resetDone (h : w.mem.usb_task_state = USB_ATTACHED_SUBSTATE_WAIT_RESET_COMPLETE)
    (h' : w'.mem.usb_task_state = USB_ATTACHED_SUBSTATE_WAIT_SOF)
    (v : BYTE) (hrd : ⟨.rd rHCTL, v⟩ ∈ w.since w') (hv : v &&& bmBUSRST = 0)
  | frame (h : w.mem.usb_task_state = USB_ATTACHED_SUBSTATE_WAIT_SOF)
    (h' : w'.mem.usb_task_state = USB_ATTACHED_SUBSTATE_GET_DEVICE_DESCRIPTOR_SIZE)
    (hrd : ⟨.rd rHIRQ, env w.record (.rd rHIRQ)⟩ ∈ w.since w')
  | descriptor (h : w.mem.usb_task_state = USB_ATTACHED_SUBSTATE_GET_DEVICE_DESCRIPTOR_SIZE)
    (h' : w'.mem.usb_task_state = USB_STATE_ADDRESSING) (rest : List Return)
    (hret : returns (w.since w') = rest ++ [.XferCtrlReq 0 USB_REQUEST_GET_DESCRIPTOR 0 0])
  | address (h : w.mem.usb_task_state = USB_STATE_ADDRESSING)
    (h' : w'.mem.usb_task_state = USB_STATE_CONFIGURING) (i : BYTE)
    (hfree : (w.mem.devtable i).epinfo = .NULL)
    (hret : .XferCtrlReq 0 USB_REQUEST_SET_ADDRESS i 0 ∈ returns (w.since w'))
  | found (h : w.mem.usb_task_state = USB_STATE_CONFIGURING)
    (h' : w'.mem.usb_task_state = USB_STATE_RUNNING) (i : ℕ)
    (hret : .Initialize i true ∈ returns (w.since w'))
  | error (h' : w'.mem.usb_task_state = USB_STATE_ERROR)

theorem detached_moves {s : BYTE} (hs : w.mem.usb_task_state = s)
    (h : Returns env n (detached s) w () w') : Extends w w' ∧ TaskMove env w w' := by
  rcases returns_ite.mp h with ⟨rfl, h⟩ | ⟨-, h⟩
  · obtain ⟨_, v, h₁, h⟩ := returns_bind.mp h
    obtain rfl := returns_store.mp h₁
    obtain rfl := returns_setState.mp h
    exact ⟨List.suffix_refl _, .cleared hs rfl⟩
  rcases returns_ite.mp h with ⟨-, h⟩ | ⟨-, h⟩
  · obtain ⟨-, rfl⟩ := returns_ask.mp h
    exact ⟨List.suffix_cons _ _, .stays rfl⟩
  · obtain ⟨-, rfl⟩ := returns_pure.mp h
    exact ⟨List.suffix_refl _, .stays rfl⟩

theorem attached_moves {s : BYTE} (hs : w.mem.usb_task_state = s)
    (h : Returns env n (attached s) w () w') : Extends w w' ∧ TaskMove env w w' := by
  rcases returns_ite.mp h with ⟨rfl, h⟩ | ⟨-, h⟩
  · obtain ⟨t, v, h₁, h⟩ := returns_bind.mp h
    obtain ⟨_, _, h₂, h⟩ := returns_bind.mp h
    obtain rfl := returns_store.mp h₂
    obtain rfl := returns_setState.mp h
    exact ⟨(now_within (fun q _ => steady_ask q) n w t v h₁).grows, .timed hs rfl⟩
  rcases returns_ite.mp h with ⟨rfl, h⟩ | ⟨-, h⟩
  · obtain ⟨t, v, h₁, h⟩ := returns_bind.mp h
    obtain ⟨_, _, h₂, h⟩ := returns_bind.mp h
    obtain ⟨-, rfl⟩ := returns_load.mp h₂
    have hv : Steady w v := now_within (fun q _ => steady_ask q) n w t v h₁
    rcases returns_ite.mp h with ⟨-, h⟩ | ⟨-, h⟩
    · obtain rfl := returns_setState.mp h
      exact ⟨hv.grows, .settled hs rfl⟩
    · obtain ⟨-, rfl⟩ := returns_pure.mp h
      exact ⟨hv.grows, .stays hv.state⟩
  rcases returns_ite.mp h with ⟨rfl, h⟩ | ⟨-, h⟩
  · obtain ⟨_, v, h₁, h⟩ := returns_bind.mp h
    obtain ⟨-, rfl⟩ := returns_ask.mp h₁
    obtain ⟨_, v, h₂, h⟩ := returns_bind.mp h
    obtain ⟨-, rfl⟩ := returns_ask.mp h₂
    obtain rfl := returns_setState.mp h
    refine ⟨⟨[_, _], rfl⟩, .reset hs rfl ?_⟩
    rw [since_eq (l := [_, _]) rfl]
    exact List.mem_cons_self
  rcases returns_ite.mp h with ⟨rfl, h⟩ | ⟨-, h⟩
  · obtain ⟨_, v, h₁, h⟩ := returns_bind.mp h
    obtain ⟨rfl, rfl⟩ := returns_ask.mp h₁
    rcases returns_ite.mp h with ⟨hdone, h⟩ | ⟨-, h⟩
    · obtain ⟨mode, v, h₂, h⟩ := returns_bind.mp h
      obtain ⟨-, rfl⟩ := returns_ask.mp h₂
      obtain ⟨_, v, h₃, h⟩ := returns_bind.mp h
      obtain ⟨-, rfl⟩ := returns_ask.mp h₃
      obtain rfl := returns_setState.mp h
      refine ⟨⟨[_, _, _], rfl⟩, .resetDone hs rfl _ ?_ hdone⟩
      rw [since_eq (l := [_, _, _]) rfl]
      exact List.mem_cons_of_mem _ (List.mem_cons_of_mem _ List.mem_cons_self)
    · obtain ⟨-, rfl⟩ := returns_pure.mp h
      exact ⟨List.suffix_cons _ _, .stays rfl⟩
  rcases returns_ite.mp h with ⟨rfl, h⟩ | ⟨-, h⟩
  · obtain ⟨_, v, h₁, h⟩ := returns_bind.mp h
    obtain ⟨rfl, rfl⟩ := returns_ask.mp h₁
    rcases returns_ite.mp h with ⟨-, h⟩ | ⟨-, h⟩
    · obtain rfl := returns_setState.mp h
      refine ⟨List.suffix_cons _ _, .frame hs rfl ?_⟩
      rw [since_eq (l := [_]) rfl]
      exact List.mem_cons_self
    · obtain ⟨-, rfl⟩ := returns_pure.mp h
      exact ⟨List.suffix_cons _ _, .stays rfl⟩
  rcases returns_ite.mp h with ⟨rfl, h⟩ | ⟨-, h⟩
  · obtain ⟨first, rest, hl, hstate⟩ := getDeviceDescriptor_returns h
    rcases hstate with ⟨rfl, hstate⟩ | hstate
    · exact ⟨hl.grows, .descriptor hs hstate rest hl.returns⟩
    · exact ⟨hl.grows, .error hstate⟩
  · obtain ⟨-, rfl⟩ := returns_pure.mp h
    exact ⟨List.suffix_refl _, .stays rfl⟩

/-- **`USB_Task`**, in a defined state. -/
theorem USB_Task_moves (hdef : Defined w.mem.usb_task_state)
    (h : Returns env n USB_Task w () w') : Extends w w' ∧ TaskMove env w w' := by
  obtain ⟨_, _, h₁, h⟩ := returns_bind.mp h
  obtain ⟨rfl, rfl⟩ := returns_load.mp h₁
  rcases returns_ite.mp h with ⟨-, h⟩ | ⟨-, h⟩
  · exact detached_moves rfl h
  rcases returns_ite.mp h with ⟨-, h⟩ | ⟨-, h⟩
  · exact attached_moves rfl h
  rcases returns_ite.mp h with ⟨hmask, h⟩ | ⟨-, h⟩
  · have hs : w.mem.usb_task_state = USB_STATE_ADDRESSING :=
      (by decide : ∀ s ∈ definedStates, s &&& USB_STATE_MASK = USB_STATE_ADDRESSING →
        s = USB_STATE_ADDRESSING) _ hdef hmask
    obtain ⟨l, hl, hstate | ⟨hstate, i, hfree, hi⟩⟩ := addressing_returns hs h
    · exact ⟨hl.grows, .error hstate⟩
    · exact ⟨hl.grows, .address hs hstate i hfree (hl.returns ▸ hi)⟩
  rcases returns_ite.mp h with ⟨hmask, h⟩ | ⟨-, h⟩
  · have hs : w.mem.usb_task_state = USB_STATE_CONFIGURING :=
      (by decide : ∀ s ∈ definedStates, s &&& USB_STATE_MASK = USB_STATE_CONFIGURING →
        s = USB_STATE_CONFIGURING) _ hdef hmask
    obtain ⟨l, hl, hstate | ⟨hstate, i, hi⟩⟩ := configuring_returns hs h
    · exact ⟨hl.grows, .error hstate⟩
    · exact ⟨hl.grows, .found hs hstate i (hl.returns ▸ hi)⟩
  · obtain ⟨-, rfl⟩ := returns_pure.mp h
    exact ⟨List.suffix_refl _, .stays rfl⟩

/-! ### `MaxIntHandler` -/

/-- The state after `MAX_busprobe`. -/
def probed (bus_sample s : BYTE) : BYTE :=
  if bus_sample = bmJSTATUS ∨ bus_sample = bmKSTATUS then
    if s = USB_ATTACHED_SUBSTATE_WAIT_RESET_COMPLETE then s else USB_STATE_ATTACHED
  else if bus_sample = bmSE1 then USB_DETACHED_SUBSTATE_ILLEGAL
  else if bus_sample = bmSE0 then
    if s &&& USB_STATE_MASK ≠ USB_STATE_DETACHED then USB_DETACHED_SUBSTATE_INITIALIZE
    else USB_DETACHED_SUBSTATE_WAIT_FOR_DEVICE
  else s

/-- `HIRQ` and the bus sample that `MaxIntHandler` reads when called in `w`. -/
def hirq (env : Hardware) (w : State) : BYTE := env w.record (.rd rHIRQ)

def busSample (env : Hardware) (w : State) : BYTE :=
  env (⟨.rd rHIRQ, hirq env w⟩ :: w.record) (.rd rHRSL) &&& (bmJSTATUS ||| bmKSTATUS)

/-- The state at the increment of `MaxIntHandler`. -/
def counted (env : Hardware) (w : State) : BYTE :=
  if hirq env w &&& bmCONDETIRQ ≠ 0 then probed (busSample env w) w.mem.usb_task_state
  else w.mem.usb_task_state

/-- The state after `MaxIntHandler`. -/
def handled (env : Hardware) (w : State) : BYTE :=
  if hirq env w &&& bmBUSEVENTIRQ ≠ 0 then counted env w + 1 else counted env w

theorem connected_returns {mode mode' : BYTE} (h : Returns env n (connected mode mode') w () w') :
    Extends w w' ∧ w'.mem.usb_task_state =
      if w.mem.usb_task_state = USB_ATTACHED_SUBSTATE_WAIT_RESET_COMPLETE then
        w.mem.usb_task_state else USB_STATE_ATTACHED := by
  obtain ⟨_, _, h₁, h⟩ := returns_bind.mp h
  obtain ⟨rfl, rfl⟩ := returns_load.mp h₁
  rcases returns_ite.mp h with ⟨hne, h⟩ | ⟨hs, h⟩
  · rw [if_neg hne]
    obtain ⟨_, v, h₂, h⟩ := returns_bind.mp h
    obtain ⟨-, rfl⟩ := returns_ask.mp h₂
    obtain ⟨_, v, h₃, h⟩ := returns_bind.mp h
    obtain ⟨-, rfl⟩ := returns_ask.mp h₃
    obtain rfl := returns_setState.mp h
    exact ⟨⟨[_, _], rfl⟩, rfl⟩
  · obtain ⟨-, rfl⟩ := returns_pure.mp h
    rw [if_pos (not_not.mp hs)]
    exact ⟨List.suffix_refl _, rfl⟩

theorem MAX_busprobe_returns (h : Returns env n MAX_busprobe w () w') :
    Extends w w' ∧ w'.mem.usb_task_state =
      probed (env w.record (.rd rHRSL) &&& (bmJSTATUS ||| bmKSTATUS)) w.mem.usb_task_state := by
  obtain ⟨_, v, h₁, h⟩ := returns_bind.mp h
  obtain ⟨rfl, rfl⟩ := returns_ask.mp h₁
  have hgrows : Extends w ⟨w.mem, ⟨.rd rHRSL, env w.record (.rd rHRSL)⟩ :: w.record⟩ :=
    List.suffix_cons _ _
  rw [probed]
  rcases returns_ite.mp h with ⟨hj, h⟩ | ⟨hj, h⟩
  · obtain ⟨hc, hs⟩ := connected_returns h
    rw [if_pos (.inl hj)]
    exact ⟨hgrows.trans hc, hs⟩
  rcases returns_ite.mp h with ⟨hk, h⟩ | ⟨hk, h⟩
  · obtain ⟨hc, hs⟩ := connected_returns h
    rw [if_pos (.inr hk)]
    exact ⟨hgrows.trans hc, hs⟩
  rw [if_neg (not_or.mpr ⟨hj, hk⟩)]
  rcases returns_ite.mp h with ⟨h1, h⟩ | ⟨h1, h⟩
  · obtain rfl := returns_setState.mp h
    rw [if_pos h1]
    exact ⟨hgrows, rfl⟩
  rw [if_neg h1]
  rcases returns_ite.mp h with ⟨h0, h⟩ | ⟨h0, h⟩
  · rw [if_pos h0]
    obtain ⟨_, _, h₂, h⟩ := returns_bind.mp h
    obtain ⟨rfl, rfl⟩ := returns_load.mp h₂
    rcases returns_ite.mp h with ⟨hd, h⟩ | ⟨hd, h⟩
    · obtain rfl := returns_setState.mp h
      rw [if_pos hd]
      exact ⟨hgrows, rfl⟩
    · obtain ⟨_, v, h₃, h⟩ := returns_bind.mp h
      obtain ⟨-, rfl⟩ := returns_ask.mp h₃
      obtain rfl := returns_setState.mp h
      rw [if_neg hd]
      exact ⟨⟨[_, _], rfl⟩, rfl⟩
  · obtain ⟨-, rfl⟩ := returns_pure.mp h
    rw [if_neg h0]
    exact ⟨hgrows, rfl⟩

/-- **`MaxIntHandler`**. -/
theorem MaxIntHandler_returns (h : Returns env n MaxIntHandler w () w') :
    Extends w w' ∧ w'.mem.usb_task_state = handled env w := by
  obtain ⟨HIRQ, v₁, h₁, h⟩ := returns_bind.mp h
  obtain ⟨hread, hv₁⟩ := returns_ask.mp h₁
  obtain rfl : hirq env w = HIRQ := hread
  obtain ⟨_, v₂, h₂, h⟩ := returns_bind.mp h
  obtain ⟨_, v₃, h₃, h⟩ := returns_bind.mp h
  obtain ⟨_, v₄, h₄, h⟩ := returns_bind.mp h
  have hcounted : Extends w v₂ ∧ v₂.mem.usb_task_state = counted env w := by
    have hgrows : Extends w v₁ := by rw [← hv₁]; exact List.suffix_cons _ _
    have hstate : v₁.mem.usb_task_state = w.mem.usb_task_state := by rw [← hv₁]
    rw [counted, ← hstate]
    rcases returns_when.mp h₂ with ⟨hc, h₂⟩ | ⟨hc, rfl⟩
    · obtain ⟨hp, hs⟩ := MAX_busprobe_returns h₂
      rw [if_pos hc, hs]
      refine ⟨hgrows.trans hp, ?_⟩
      rw [busSample, ← hv₁]
      rfl
    · rw [if_neg hc]
      exact ⟨hgrows, rfl⟩
  have hsent : Steady v₂ v₃ := within_when (fun _ => steady_ask _) n _ _ _ h₃
  have hs : v₃.mem.usb_task_state = counted env w := hsent.state.trans hcounted.2
  have hw' : Steady v₄ w' := steady_ask _ n _ _ _ h
  have hgrows : Extends w v₃ := hcounted.1.trans hsent.grows
  rw [handled, hw'.state]
  rcases returns_when.mp h₄ with ⟨hb, h₄⟩ | ⟨hb, rfl⟩
  · obtain rfl := returns_store.mp h₄
    rw [if_pos hb, ← hs]
    exact ⟨hgrows.trans hw'.grows, rfl⟩
  · rw [if_neg hb, ← hs]
    exact ⟨hgrows.trans hw'.grows, rfl⟩

end ECE385.Usb
