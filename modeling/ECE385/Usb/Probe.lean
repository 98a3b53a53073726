import ECE385.Usb.Descriptor
import ECE385.Usb.Enumeration

/-!
# Probes that fail

A probe enters the device as soon as it has come to an interface of its class: it switches the
endpoint table and the class of the device.  There are three exits from there on that return
`FALSE`, none of which takes this back.

* `fetch`: the part before, two requests for the configuration descriptor.
* `Transferred`: what transfers change.
* `probe_outcome`: the memory that a failed probe leaves, `leaves_agrees`: no bytes make a
  difference to it but those that its loops look at.
* `untouched_iff_harmless`: when it is that from before.
-/

namespace ECE385.Usb

open Firmware Prog

/-- The device, the endpoint table of the class and its device are what they were. -/
structure Untouched (addr : BYTE) (w v : State) : Prop where
  devtable : v.mem.devtable addr = w.mem.devtable addr
  hid_ep : v.mem.ep .hid_ep = w.mem.ep .hid_ep
  hid_device : v.mem.hid_device = w.mem.hid_device

/-- The first part of a probe, up to `confvalue`: `total_length` and `confvalue`, if both requests
for the configuration succeed. -/
def fetch (addr : BYTE) : Program (Option (ℕ × BYTE)) := do
  let rcode ← getConf addr CONF_DESCR_LEN
  if rcode ≠ 0 then return none
  else
    let wTotalLength := (← load Mem.bigbuf).word 2
    let total_length : WORD := if wTotalLength > 256 then 256 else wTotalLength
    let rcode ← getConf addr total_length
    if rcode ≠ 0 then return none
    else
      let confvalue := (← load Mem.bigbuf) 5
      return some (total_length.toNat, confvalue)

/-- In `w` the device is already what it becomes when the interface at `q` is entered, and the
endpoint after it, if there is one. -/
structure Entered (devclass addr : BYTE) (b : Buf) (total_length q : ℕ) (w : State) : Prop where
  devtable : w.mem.devtable addr = ⟨.hid_ep, devclass⟩
  hid_device : w.mem.hid_device = ⟨addr, b (q + 2)⟩
  toggles : (w.mem.ep .hid_ep 1).sndToggle = bmSNDTOG0 ∧ (w.mem.ep .hid_ep 1).rcvToggle = bmRCVTOG0
  size : ((w.mem.ep .hid_ep 0).MaxPktSize.setWidth 8).setWidth 16 = (w.mem.ep .hid_ep 0).MaxPktSize
  endpoint : ∀ q', Lands b USB_DESCRIPTOR_ENDPOINT total_length (q + (b q).toNat) q' →
    (w.mem.ep .hid_ep 1).epAddr = b (q' + 2) ∧ (w.mem.ep .hid_ep 1).Attr = b (q' + 3) ∧
      (w.mem.ep .hid_ep 1).MaxPktSize = b.word (q' + 4) ∧
      (w.mem.ep .hid_ep 1).Interval = b (q' + 6)

/-- A probe that was started in `w` and has fetched `c`, with `u` after that, changes nothing if it
fails: it comes to no interface of its class, or the device has been entered before; and if the
control endpoint is in the table of the class, the transfers have left its toggle. -/
structure Harmless (proto devclass addr : BYTE) (w : State) (c : Option (ℕ × BYTE)) (u : State) :
    Prop where
  toggle : (w.mem.devtable addr).epinfo = .hid_ep →
    (u.mem.ep .hid_ep 0).rcvToggle = (w.mem.ep .hid_ep 0).rcvToggle
  entered : ∀ x q, c = some x → Lands u.mem.bigbuf USB_DESCRIPTOR_INTERFACE x.1 0 q →
    IsBoot u.mem.bigbuf proto q → Entered devclass addr u.mem.bigbuf x.1 q w

variable {env : Hardware} {n : ℕ} {proto devclass addr confvalue : BYTE} {w u v : State}
  {c : Option (ℕ × BYTE)} {q : ℕ}

/-! ### Transfers -/

/-- Transfers to the control endpoint change its receive toggle, and `bigbuf`. -/
structure Transferred (addr : BYTE) (w v : State) : Prop where
  devtable : v.mem.devtable = w.mem.devtable
  hid_device : v.mem.hid_device = w.mem.hid_device
  ep : ∀ p k, ¬(p = (w.mem.devtable addr).epinfo ∧ k = 0) → v.mem.ep p k = w.mem.ep p k
  control : ∃ t, v.mem.ep (w.mem.devtable addr).epinfo 0 =
    { w.mem.ep (w.mem.devtable addr).epinfo 0 with rcvToggle := t }

instance (addr : BYTE) : IsPreorder State (Transferred addr) where
  refl w := ⟨rfl, rfl, fun _ _ _ => rfl, _, rfl⟩
  trans w u v h h' := by
    obtain ⟨t, ht⟩ := h.control
    obtain ⟨t', ht'⟩ := h'.control
    refine ⟨h'.devtable.trans h.devtable, h'.hid_device.trans h.hid_device, ?_, t', ?_⟩
    · intro p k hne
      rw [h'.ep p k (by rw [h.devtable]; exact hne), h.ep p k hne]
    · rw [h.devtable, ht] at ht'
      exact ht'

theorem transferred_of_mem (h : v.mem = w.mem) : Transferred addr w v :=
  ⟨by rw [h], by rw [h], fun _ _ _ => by rw [h], _, by rw [h]⟩

theorem transferred_toggles : Toggles env (Transferred addr) addr 0 where
  ask _ _ := within_ask fun _ => transferred_of_mem rfl
  store t := within_store fun w => by
    refine ⟨rfl, rfl, fun p k hne => if_neg hne, t, ?_⟩
    exact if_pos ⟨rfl, rfl⟩

theorem getConf_transferred (nbytes : WORD) :
    Within env (Transferred addr) (getConf addr nbytes) := by
  refine within_bind (within_load _) fun _ => ?_
  refine within_bind (getDescr_within transferred_toggles (fun _ => within_ask fun _ =>
    transferred_of_mem rfl) _ _ _ _ _) fun (rcode, data) => ?_
  refine within_bind (within_store fun w => ?_) fun _ => within_pure _
  exact ⟨rfl, rfl, fun _ _ _ => rfl, _, rfl⟩

theorem fetch_transferred : Within env (Transferred addr) (fetch addr) := by
  refine within_bind (getConf_transferred _) fun rcode =>
    within_ite (fun _ => within_pure _) fun _ => within_bind (within_load _) fun bigbuf => ?_
  refine within_bind (getConf_transferred _) fun rcode =>
    within_ite (fun _ => within_pure _) fun _ => within_bind (within_load _) fun bigbuf => ?_
  exact within_pure _

/-- The variables stay. -/
def SameMem (w v : State) : Prop := v.mem = w.mem

instance : IsPreorder State SameMem where
  refl _ := rfl
  trans _ _ _ h h' := Eq.trans h' h

/-- A request without a data stage leaves the variables. -/
theorem request_sameMem (addr ep bmReqType bRequest wValLo wValHi : BYTE) (wInd : WORD) :
    Within env SameMem (request addr ep bmReqType bRequest wValLo wValHi wInd) := by
  have hask : ∀ q : Query, Within env SameMem (ask q) := fun q => within_ask fun _ => rfl
  refine within_bind (within_bind ?_ fun _ => within_bind (hask _) fun _ => within_pure _)
    fun _ => within_pure _
  refine within_bind (hask _) fun _ => within_bind (hask _) fun _ => ?_
  refine within_bind (XferDispatchPkt_within (fun q _ => hask q) _ _) fun rcode =>
    within_ite (fun _ => within_pure _) fun _ => ?_
  exact within_bind (XferCtrlND_within (fun q _ => hask q) _ _) fun _ => within_pure _

/-! ### A probe -/

/-- The memory after the endpoint at `q` has been entered. -/
def Mem.enterEndpoint (addr : BYTE) (q : ℕ) (m : Mem) : Mem :=
  m.setEpinfo addr 1 fun e =>
    { e with
      epAddr := m.bigbuf (q + 2)
      Attr := m.bigbuf (q + 3)
      MaxPktSize := m.bigbuf.word (q + 4)
      Interval := m.bigbuf (q + 6) }

/-- The memory that a failed probe leaves: it may have come to no interface of its class, or have
entered one, or an endpoint too. -/
inductive Leaves (proto devclass addr : BYTE) (c : Option (ℕ × BYTE)) (u : State) : Mem → Prop
  | nothing : (∀ x q, c = some x → Lands u.mem.bigbuf USB_DESCRIPTOR_INTERFACE x.1 0 q →
      ¬IsBoot u.mem.bigbuf proto q) → Leaves proto devclass addr c u u.mem
  | interface {x : ℕ × BYTE} {q : ℕ} : c = some x →
      Lands u.mem.bigbuf USB_DESCRIPTOR_INTERFACE x.1 0 q → IsBoot u.mem.bigbuf proto q →
      (∀ q', ¬Lands u.mem.bigbuf USB_DESCRIPTOR_ENDPOINT x.1
        (q + (u.mem.bigbuf q).toNat) q') →
      Leaves proto devclass addr c u (u.mem.enterInterface devclass addr q)
  | endpoint {x : ℕ × BYTE} {q q' : ℕ} : c = some x →
      Lands u.mem.bigbuf USB_DESCRIPTOR_INTERFACE x.1 0 q → IsBoot u.mem.bigbuf proto q →
      Lands u.mem.bigbuf USB_DESCRIPTOR_ENDPOINT x.1 (q + (u.mem.bigbuf q).toNat) q' →
      Leaves proto devclass addr c u
        ((u.mem.enterInterface devclass addr q).enterEndpoint addr q')

theorem enterEndpoint_agrees (addr : BYTE) (q : ℕ) (m : Mem) {b' : Buf}
    (hagree : ∀ k, endpointFields q k → b' k = m.bigbuf k) :
    { m with bigbuf := b' }.enterEndpoint addr q =
      { m.enterEndpoint addr q with bigbuf := b' } := by
  have hword : b'.word (q + 4) = m.bigbuf.word (q + 4) := by
    rw [Buf.word, hagree (q + 4 + 1) ⟨by omega, by omega⟩, hagree (q + 4) ⟨by omega, by omega⟩]
    rfl
  have h2 := hagree (q + 2) ⟨by omega, by omega⟩
  have h3 := hagree (q + 3) ⟨by omega, by omega⟩
  have h6 := hagree (q + 6) ⟨by omega, by omega⟩
  simp [Mem.enterEndpoint, Mem.setEpinfo, Mem.setEp, hword, h2, h3, h6]

theorem isBoot_agrees {b b' : Buf} {total_length : ℕ}
    (hagree : ∀ k, interfaceFields b proto total_length q k → b' k = b k) :
    IsBoot b' proto q ↔ IsBoot b proto q := by
  rw [IsBoot, IsBoot, hagree (q + 5) (.inl (by omega)), hagree (q + 6) (.inl (by omega)),
    hagree (q + 7) (.inl (by omega))]

/-- **A probe looks at these bytes only**: where they are the same it leaves the same variables. -/
theorem leaves_agrees {x : ℕ × BYTE} {m : Mem} {u' : State} {b' : Buf}
    (h : Leaves proto devclass addr (some x) u m) (hu' : u'.mem = { u.mem with bigbuf := b' })
    (hagree : ∀ k, Examines u.mem.bigbuf USB_DESCRIPTOR_INTERFACE x.1 0
      (interfaceFields u.mem.bigbuf proto x.1) k → b' k = u.mem.bigbuf k) :
    Leaves proto devclass addr (some x) u' { m with bigbuf := b' } := by
  have hbuf : u'.mem.bigbuf = b' := by rw [hu']
  have hfields : ∀ {q : ℕ}, Lands u.mem.bigbuf USB_DESCRIPTOR_INTERFACE x.1 0 q →
      ∀ k, interfaceFields u.mem.bigbuf proto x.1 q k → b' k = u.mem.bigbuf k :=
    fun hlands k hk => hagree k (.field hlands hk)
  have hlength : ∀ {q : ℕ}, Lands u.mem.bigbuf USB_DESCRIPTOR_INTERFACE x.1 0 q →
      IsBoot u.mem.bigbuf proto q → b' q = u.mem.bigbuf q :=
    fun hlands hboot => hfields hlands _ (.inr ⟨hboot, .inr (.inl rfl)⟩)
  have hendpoint : ∀ {q : ℕ}, Lands u.mem.bigbuf USB_DESCRIPTOR_INTERFACE x.1 0 q →
      IsBoot u.mem.bigbuf proto q → ∀ k, Examines u.mem.bigbuf USB_DESCRIPTOR_ENDPOINT x.1
        (q + (u.mem.bigbuf q).toNat) endpointFields k → b' k = u.mem.bigbuf k :=
    fun hlands hboot k hk => hfields hlands k (.inr ⟨hboot, .inr (.inr hk)⟩)
  have henter : ∀ {q : ℕ}, Lands u.mem.bigbuf USB_DESCRIPTOR_INTERFACE x.1 0 q →
      IsBoot u.mem.bigbuf proto q → u'.mem.enterInterface devclass addr q =
        { u.mem.enterInterface devclass addr q with bigbuf := b' } := by
    intro q hlands hboot
    rw [hu']
    exact enterInterface_agrees devclass addr q u.mem
      (hfields hlands _ (.inr ⟨hboot, .inl rfl⟩))
  cases h with
  | nothing hno =>
    rw [← hu']
    refine .nothing fun x' q hx hlands hboot => ?_
    obtain rfl := Option.some.inj hx
    rw [hbuf] at hlands hboot
    have hlands' := (lands_agrees hagree).mp hlands
    exact hno x q rfl hlands' ((isBoot_agrees (hfields hlands')).mp hboot)
  | @interface x' q hx hlands hboot hno =>
    obtain rfl := Option.some.inj hx
    rw [← henter hlands hboot]
    refine .interface rfl ?_ ?_ fun q' hq' => hno q' ?_
    · rw [hbuf]; exact (lands_agrees hagree).mpr hlands
    · rw [hbuf]; exact (isBoot_agrees (hfields hlands)).mpr hboot
    · rw [hbuf, hlength hlands hboot] at hq'
      exact (lands_agrees (hendpoint hlands hboot)).mp hq'
  | @endpoint x' q q' hx hlands hboot hlands' =>
    obtain rfl := Option.some.inj hx
    rw [← enterEndpoint_agrees addr q' _ fun k hk => ?_, ← henter hlands hboot]
    · refine .endpoint rfl ?_ ?_ ?_
      · rw [hbuf]; exact (lands_agrees hagree).mpr hlands
      · rw [hbuf]; exact (isBoot_agrees (hfields hlands)).mpr hboot
      · rw [hbuf, hlength hlands hboot]
        exact (lands_agrees (hendpoint hlands hboot)).mpr hlands'
    · rw [bigbuf_enterInterface]
      exact hendpoint hlands hboot k (.field hlands' hk)

theorem devtable_enterEndpoint (m : Mem) : (m.enterEndpoint addr q).devtable = m.devtable := rfl

theorem enterEndpoint_mem {r : Bool} (h : Returns env n (enterEndpoint addr confvalue q) w r v) :
    v.mem = w.mem.enterEndpoint addr q := by
  obtain ⟨_, w₁, hload, h⟩ := returns_bind.mp h
  obtain ⟨rfl, rfl⟩ := returns_load.mp hload
  obtain ⟨_, w₂, hstore, h⟩ := returns_bind.mp h
  obtain rfl := returns_store.mp hstore
  obtain ⟨rcode, w₃, hconf, h⟩ := returns_bind.mp h
  have h₃ : w₃.mem = w.mem.enterEndpoint addr q := request_sameMem _ _ _ _ _ _ _ n _ _ _ hconf
  rcases returns_ite.mp h with ⟨-, h⟩ | ⟨-, h⟩
  · obtain ⟨-, rfl⟩ := returns_pure.mp h
    exact h₃
  obtain ⟨_, w₄, hload, h⟩ := returns_bind.mp h
  obtain ⟨rfl, rfl⟩ := returns_load.mp hload
  obtain ⟨rcode, w₅, hproto, h⟩ := returns_bind.mp h
  have h₅ : w₅.mem = w₃.mem := request_sameMem _ _ _ _ _ _ _ n _ _ _ hproto
  obtain ⟨-, rfl⟩ := returns_pure.mp h
  rw [h₅, h₃]

/-- **The memory after a failed probe.** -/
theorem probe_outcome (h : Returns env n (HIDProbe proto devclass addr) w false v) :
    ∃ c u, Returns env n (fetch addr) w c u ∧ Leaves proto devclass addr c u v.mem := by
  obtain ⟨rcode, w₁, hconf, h⟩ := returns_bind.mp h
  rcases returns_ite.mp h with ⟨hfail, h⟩ | ⟨hok, h⟩
  · obtain ⟨-, rfl⟩ := returns_pure.mp h
    refine ⟨none, w₁, returns_bind.mpr ⟨_, _, hconf, ?_⟩, .nothing nofun⟩
    exact returns_ite.mpr (.inl ⟨hfail, returns_pure.mpr ⟨rfl, rfl⟩⟩)
  obtain ⟨bigbuf, w₂, hload, h⟩ := returns_bind.mp h
  obtain ⟨rcode', u, hconf', h⟩ := returns_bind.mp h
  rcases returns_ite.mp h with ⟨hfail, h⟩ | ⟨hok', h⟩
  · obtain ⟨-, rfl⟩ := returns_pure.mp h
    refine ⟨none, u, returns_bind.mpr ⟨_, _, hconf, ?_⟩, .nothing nofun⟩
    refine returns_ite.mpr (.inr ⟨hok, returns_bind.mpr ⟨_, _, hload, ?_⟩⟩)
    refine returns_bind.mpr ⟨_, _, hconf', ?_⟩
    exact returns_ite.mpr (.inl ⟨hfail, returns_pure.mpr ⟨rfl, rfl⟩⟩)
  obtain ⟨_, u', hload', h⟩ := returns_bind.mp h
  obtain ⟨rfl, rfl⟩ := returns_load.mp hload'
  let total_length : WORD := if bigbuf.word 2 > 256 then 256 else bigbuf.word 2
  have hfetch : Returns env n (fetch addr) w (some (total_length.toNat, u.mem.bigbuf 5)) u := by
    refine returns_bind.mpr ⟨_, _, hconf, returns_ite.mpr (.inr ⟨hok, ?_⟩)⟩
    refine returns_bind.mpr ⟨_, _, hload, returns_bind.mpr ⟨_, _, hconf', ?_⟩⟩
    refine returns_ite.mpr (.inr ⟨hok', returns_bind.mpr ⟨_, _, hload', ?_⟩⟩)
    exact returns_pure.mpr ⟨rfl, rfl⟩
  refine ⟨_, u, hfetch, ?_⟩
  obtain ⟨found, u', hskip, h⟩ := returns_bind.mp h
  obtain ⟨rfl, hfound⟩ := finishes_skipTo ⟨n, hskip⟩
  cases found with
  | none =>
    obtain ⟨-, rfl⟩ := returns_pure.mp h
    refine .nothing fun x q hx hlands => ?_
    obtain rfl := Option.some.inj hx
    exact absurd ((hfound q).mpr hlands) nofun
  | some q =>
    have hlands := (hfound q).mp rfl
    obtain ⟨_, u'', hload, h⟩ := returns_bind.mp h
    obtain ⟨rfl, rfl⟩ := returns_load.mp hload
    rcases returns_ite.mp h with ⟨hboot, h⟩ | ⟨hboot, h⟩
    · obtain ⟨_, v₁, henter, h⟩ := returns_bind.mp h
      obtain rfl := finishes_enterInterface.mp ⟨n, henter⟩
      obtain ⟨found', v₂, hskip', h⟩ := returns_bind.mp h
      obtain ⟨rfl, hfound'⟩ := finishes_skipTo ⟨n, hskip'⟩
      rw [bigbuf_enterInterface] at hfound'
      cases found' with
      | none =>
        obtain ⟨-, rfl⟩ := returns_pure.mp h
        refine .interface rfl hlands hboot fun q' hq' => ?_
        exact absurd ((hfound' q').mpr hq') nofun
      | some q' =>
        rw [enterEndpoint_mem h]
        exact .endpoint rfl hlands hboot ((hfound' q').mp rfl)
    · obtain ⟨-, rfl⟩ := returns_pure.mp h
      refine .nothing fun x q' hx hlands' => ?_
      obtain rfl := Option.some.inj hx
      rw [← hlands.unique hlands']
      exact hboot

/-! ### What is left of it -/

variable {m : Mem} {q' : ℕ}

theorem devtable_enterInterface :
    (m.enterInterface devclass addr q).devtable addr = ⟨.hid_ep, devclass⟩ := by
  simp [Mem.enterInterface, Mem.setDev, Mem.setEp, Mem.setEpinfo]

theorem ep_enterInterface (k : ℕ) : (m.enterInterface devclass addr q).ep .hid_ep k =
    if k = 0 then
      { m.ep .hid_ep 0 with MaxPktSize := ((m.epinfo addr 0).MaxPktSize.setWidth 8).setWidth 16 }
    else if k = 1 then
      { m.ep .hid_ep 1 with sndToggle := bmSNDTOG0, rcvToggle := bmRCVTOG0 }
    else m.ep .hid_ep k := by
  by_cases h0 : k = 0
  · simp [Mem.enterInterface, Mem.setDev, Mem.setEp, Mem.setEpinfo, Mem.epinfo, h0]
  · by_cases h1 : k = 1
    · simp [Mem.enterInterface, Mem.setDev, Mem.setEp, Mem.setEpinfo, h1]
    · simp [Mem.enterInterface, Mem.setDev, Mem.setEp, Mem.setEpinfo, h0, h1]

theorem ep_enterEndpoint (h : (m.devtable addr).epinfo = .hid_ep) (k : ℕ) :
    (m.enterEndpoint addr q).ep .hid_ep k =
      if k = 1 then
        { m.ep .hid_ep 1 with
          epAddr := m.bigbuf (q + 2)
          Attr := m.bigbuf (q + 3)
          MaxPktSize := m.bigbuf.word (q + 4)
          Interval := m.bigbuf (q + 6) }
      else m.ep .hid_ep k := by
  by_cases h1 : k = 1
  · simp [Mem.enterEndpoint, Mem.setEp, Mem.setEpinfo, h, h1]
  · simp [Mem.enterEndpoint, Mem.setEp, Mem.setEpinfo, h, h1]

/-- The first two records decide. -/
theorem hid_ep_iff {f g : ℕ → EP_RECORD} (hrest : ∀ k, k ≠ 0 → k ≠ 1 → f k = g k) :
    f = g ↔ f 0 = g 0 ∧ f 1 = g 1 := by
  constructor
  · rintro rfl
    exact ⟨rfl, rfl⟩
  · rintro ⟨h0, h1⟩
    funext k
    by_cases hk0 : k = 0
    · rw [hk0, h0]
    · by_cases hk1 : k = 1
      · rw [hk1, h1]
      · exact hrest k hk0 hk1

theorem record_iff {a e : EP_RECORD} {t : BYTE} (h : a = { e with rcvToggle := t }) :
    { a with MaxPktSize := (a.MaxPktSize.setWidth 8).setWidth 16 } = e ↔
      a.rcvToggle = e.rcvToggle ∧ (e.MaxPktSize.setWidth 8).setWidth 16 = e.MaxPktSize := by
  subst h
  cases e
  simp [and_comm]

/-- The transfers have left the table of the class, if they have left the toggle. -/
theorem Transferred.hid_ep_iff (h : Transferred addr w u) : u.mem.ep .hid_ep = w.mem.ep .hid_ep ↔
    ((w.mem.devtable addr).epinfo = .hid_ep →
      (u.mem.ep .hid_ep 0).rcvToggle = (w.mem.ep .hid_ep 0).rcvToggle) := by
  constructor
  · intro heq _
    rw [heq]
  · intro htoggle
    funext k
    by_cases hk : (w.mem.devtable addr).epinfo = .hid_ep ∧ k = 0
    · obtain ⟨hep, rfl⟩ := hk
      obtain ⟨t, ht⟩ := h.control
      rw [hep] at ht
      have hsame := htoggle hep
      rw [ht] at hsame ⊢
      have hsame : t = (w.mem.ep .hid_ep 0).rcvToggle := hsame
      rw [hsame]
    · exact h.ep _ _ fun hk' => hk ⟨hk'.1.symm, hk'.2⟩

theorem Transferred.ep_one (h : Transferred addr w u) (p : EpInfo) :
    u.mem.ep p 1 = w.mem.ep p 1 :=
  h.ep p 1 fun hk => absurd hk.2 (by decide)

/-- The endpoint table after the device has been entered is that from before. -/
theorem Transferred.table_iff (h : Transferred addr w u)
    (hep : (w.mem.devtable addr).epinfo = .hid_ep) {f : ℕ → EP_RECORD}
    (h0 : f 0 = { u.mem.ep .hid_ep 0 with
      MaxPktSize := ((u.mem.epinfo addr 0).MaxPktSize.setWidth 8).setWidth 16 })
    (hrest : ∀ k, k ≠ 0 → k ≠ 1 → f k = u.mem.ep .hid_ep k) :
    f = w.mem.ep .hid_ep ↔
      ((u.mem.ep .hid_ep 0).rcvToggle = (w.mem.ep .hid_ep 0).rcvToggle ∧
        ((w.mem.ep .hid_ep 0).MaxPktSize.setWidth 8).setWidth 16 =
          (w.mem.ep .hid_ep 0).MaxPktSize) ∧ f 1 = w.mem.ep .hid_ep 1 := by
  obtain ⟨t, ht⟩ := h.control
  rw [hep] at ht
  rw [Mem.epinfo, h.devtable, hep] at h0
  rw [Usb.hid_ep_iff, h0, record_iff ht]
  intro k hk0 hk1
  rw [hrest k hk0 hk1]
  exact h.ep _ _ fun hk => hk0 hk.2

/-- What a probe that has entered the device leaves is what was there, if the device had been
entered before.  `hone` is the part about the record of the endpoint. -/
theorem Transferred.untouched_iff (h : Transferred addr w u) {b : Buf} {total_length : ℕ}
    (hdev : v.mem.devtable addr = ⟨.hid_ep, devclass⟩)
    (hhid : v.mem.hid_device = ⟨addr, b (q + 2)⟩)
    (h0 : v.mem.ep .hid_ep 0 = { u.mem.ep .hid_ep 0 with
      MaxPktSize := ((u.mem.epinfo addr 0).MaxPktSize.setWidth 8).setWidth 16 })
    (hone : v.mem.ep .hid_ep 1 = w.mem.ep .hid_ep 1 ↔
      ((w.mem.ep .hid_ep 1).sndToggle = bmSNDTOG0 ∧ (w.mem.ep .hid_ep 1).rcvToggle = bmRCVTOG0) ∧
        ∀ q', Lands b USB_DESCRIPTOR_ENDPOINT total_length (q + (b q).toNat) q' →
          (w.mem.ep .hid_ep 1).epAddr = b (q' + 2) ∧ (w.mem.ep .hid_ep 1).Attr = b (q' + 3) ∧
            (w.mem.ep .hid_ep 1).MaxPktSize = b.word (q' + 4) ∧
            (w.mem.ep .hid_ep 1).Interval = b (q' + 6))
    (hrest : ∀ k, k ≠ 0 → k ≠ 1 → v.mem.ep .hid_ep k = u.mem.ep .hid_ep k) :
    Untouched addr w v ↔
      ((w.mem.devtable addr).epinfo = .hid_ep →
        (u.mem.ep .hid_ep 0).rcvToggle = (w.mem.ep .hid_ep 0).rcvToggle) ∧
      Entered devclass addr b total_length q w := by
  constructor
  · intro hun
    have hentered : w.mem.devtable addr = ⟨.hid_ep, devclass⟩ := hun.devtable.symm.trans hdev
    obtain ⟨⟨htoggle, hsize⟩, hrecord⟩ :=
      (h.table_iff (by rw [hentered]) h0 hrest).mp hun.hid_ep
    obtain ⟨htoggles, hendpoint⟩ := hone.mp hrecord
    exact ⟨fun _ => htoggle,
      ⟨hentered, hun.hid_device.symm.trans hhid, htoggles, hsize, hendpoint⟩⟩
  · rintro ⟨htoggle, hentered⟩
    have hep : (w.mem.devtable addr).epinfo = .hid_ep := by rw [hentered.devtable]
    refine ⟨hdev.trans hentered.devtable.symm, ?_, hhid.trans hentered.hid_device.symm⟩
    refine (h.table_iff hep h0 hrest).mpr ⟨⟨htoggle hep, hentered.size⟩, ?_⟩
    exact hone.mpr ⟨hentered.toggles, hentered.endpoint⟩

/-- The interface that a probe comes to is one. -/
theorem harmless_iff {x : ℕ × BYTE} (hx : c = some x)
    (hq : Lands u.mem.bigbuf USB_DESCRIPTOR_INTERFACE x.1 0 q)
    (hboot : IsBoot u.mem.bigbuf proto q) :
    Harmless proto devclass addr w c u ↔
      ((w.mem.devtable addr).epinfo = .hid_ep →
        (u.mem.ep .hid_ep 0).rcvToggle = (w.mem.ep .hid_ep 0).rcvToggle) ∧
      Entered devclass addr u.mem.bigbuf x.1 q w := by
  constructor
  · exact fun h => ⟨h.toggle, h.entered x q hx hq hboot⟩
  · rintro ⟨htoggle, hentered⟩
    refine ⟨htoggle, fun x' q' hx' hq' _ => ?_⟩
    obtain rfl := Option.some.inj (hx.symm.trans hx')
    obtain rfl := hq.unique hq'
    exact hentered

/-- **The memory that a failed probe leaves**, compared with that from before. -/
theorem Leaves.untouched_iff (h : Leaves proto devclass addr c u v.mem)
    (htransferred : Transferred addr w u) :
    Untouched addr w v ↔ Harmless proto devclass addr w c u := by
  generalize hm : v.mem = m at h
  cases h with
  | nothing hnone =>
    constructor
    · intro hun
      refine ⟨htransferred.hid_ep_iff.mp ?_, fun x q hx hq hboot => absurd hboot (hnone x q hx hq)⟩
      rw [← hm]
      exact hun.hid_ep
    · intro hharmless
      refine ⟨?_, ?_, ?_⟩
      · rw [hm, htransferred.devtable]
      · rw [hm]
        exact htransferred.hid_ep_iff.mpr hharmless.toggle
      · rw [hm, htransferred.hid_device]
  | @interface x q hx hq hboot hno =>
    rw [harmless_iff hx hq hboot]
    refine htransferred.untouched_iff ?_ ?_ ?_ ?_ fun k hk0 hk1 => ?_
    · rw [hm, devtable_enterInterface]
    · rw [hm]; rfl
    · rw [hm, ep_enterInterface, if_pos rfl]
    · rw [hm, ep_enterInterface, if_neg Nat.one_ne_zero, if_pos rfl, htransferred.ep_one]
      constructor
      · intro hrecord
        rw [← hrecord]
        exact ⟨⟨rfl, rfl⟩, fun q' hq' => absurd hq' (hno q')⟩
      · rintro ⟨⟨hsnd, hrcv⟩, -⟩
        rw [← hsnd, ← hrcv]
    · rw [hm, ep_enterInterface, if_neg hk0, if_neg hk1]
  | @endpoint x q q' hx hq hboot hq' =>
    have hinfo : ((u.mem.enterInterface devclass addr q).devtable addr).epinfo = .hid_ep := by
      rw [devtable_enterInterface]
    rw [harmless_iff hx hq hboot]
    refine htransferred.untouched_iff ?_ ?_ ?_ ?_ fun k hk0 hk1 => ?_
    · rw [hm, devtable_enterEndpoint, devtable_enterInterface]
    · rw [hm]; rfl
    · rw [hm, ep_enterEndpoint hinfo, if_neg Nat.zero_ne_one, ep_enterInterface, if_pos rfl]
    · rw [hm, ep_enterEndpoint hinfo, if_pos rfl, bigbuf_enterInterface, ep_enterInterface,
        if_neg Nat.one_ne_zero, if_pos rfl, htransferred.ep_one]
      constructor
      · intro hrecord
        rw [← hrecord]
        refine ⟨⟨rfl, rfl⟩, fun q₂ hq₂ => ?_⟩
        rw [← hq'.unique hq₂]
        exact ⟨rfl, rfl, rfl, rfl⟩
      · rintro ⟨⟨hsnd, hrcv⟩, hendpoint⟩
        obtain ⟨haddr, hattr, hmax, hinterval⟩ := hendpoint q' hq'
        rw [← hsnd, ← hrcv, ← haddr, ← hattr, ← hmax, ← hinterval]
    · rw [hm, ep_enterEndpoint hinfo, if_neg hk1, ep_enterInterface, if_neg hk0, if_neg hk1]

/-- The mouse has been given the address 1. -/
def numbered : State where
  mem := { Mem.start with
    devtable := fun a => if a = 1 then ⟨.dev0ep, 0⟩ else Mem.start.devtable a
    ep := fun _ _ => ⟨0, 0, 64, 0, 0, 0⟩ }
  record := []

def hrSTALL : BYTE := 0x05

/-- A mouse that rejects its configuration. -/
def stalling : Hardware
  | l, .rd reg =>
    if reg = rHRSL ∧ (lastSetup l).getD 1 0 = USB_REQUEST_SET_CONFIGURATION then hrSTALL
    else mouse 0 l (.rd reg)
  | l, q => mouse 0 l q

end ECE385.Usb
