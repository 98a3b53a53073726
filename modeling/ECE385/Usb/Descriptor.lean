import ECE385.Firmware.Termination
import ECE385.Usb.Hid
import Mathlib.Logic.Relation

/-!
# Configuration descriptors

A probe goes through the descriptors in `bigbuf`, from one to the next by `bLength`, to the first
interface, and if that is of its class on to an endpoint.  Only the position is compared with
`total_length`, not what is read there, and a length of zero leads nowhere.

* `Visits`, `Examines`: the positions that a loop comes to and the bytes it looks at.
* `skipTo_agrees`: it looks at no others.
* `Chain`: descriptors on which a loop ends and looks at nothing outside.
* `chain_iff`: no others.
* `parses_inside_iff`: so the loops of a probe need well formed descriptors.
-/

namespace ECE385.Usb

open Firmware Prog Relation

/-- The loop for descriptors of type `ty` goes from `p` to `q`. -/
structure Skips (b : Buf) (ty : BYTE) (total_length p q : ℕ) : Prop where
  lt : p < total_length
  type : b (p + 1) ≠ ty
  next : q = p + (b p).toNat

/-- Started at `p` the loop comes to `q`. -/
abbrev Visits (b : Buf) (ty : BYTE) (total_length : ℕ) : ℕ → ℕ → Prop :=
  ReflTransGen (Skips b ty total_length)

/-- The loop is left at the descriptor at `q`. -/
structure Lands (b : Buf) (ty : BYTE) (total_length p q : ℕ) : Prop where
  visits : Visits b ty total_length p q
  lt : q < total_length
  type : b (q + 1) = ty

/-- The bytes that the loop looks at: the type of a descriptor, the length of one that it skips, and
`fields` of the one it looks for. -/
inductive Examines (b : Buf) (ty : BYTE) (total_length p : ℕ) (fields : ℕ → ℕ → Prop) : ℕ → Prop
  | type {q : ℕ} : Visits b ty total_length p q → q < total_length →
    Examines b ty total_length p fields (q + 1)
  | length {q : ℕ} : Visits b ty total_length p q → q < total_length → b (q + 1) ≠ ty →
    Examines b ty total_length p fields q
  | field {q k : ℕ} : Lands b ty total_length p q → fields q k →
    Examines b ty total_length p fields k

/-- From `p` on the descriptors lead to one of type `ty` that is good, or to the end: each has
its type inside, and those skipped have a length. -/
inductive Chain (b : Buf) (ty : BYTE) (total_length : ℕ) (good : ℕ → Prop) : ℕ → Prop
  | stop {p : ℕ} : total_length ≤ p → Chain b ty total_length good p
  | found {p : ℕ} : p + 1 < total_length → b (p + 1) = ty → good p →
    Chain b ty total_length good p
  | skip {p : ℕ} : p + 1 < total_length → b (p + 1) ≠ ty → b p ≠ 0 →
    Chain b ty total_length good (p + (b p).toNat) → Chain b ty total_length good p

variable {b : Buf} {ty : BYTE} {total_length p q q' : ℕ} {fields : ℕ → ℕ → Prop}
  {good : ℕ → Prop}

/-! ### The positions -/

theorem Skips.unique (h : Skips b ty total_length p q) (h' : Skips b ty total_length p q') :
    q = q' :=
  h.next.trans h'.next.symm

/-- A loop that skips nothing visits one position. -/
theorem Visits.eq_start (h : Visits b ty total_length p q)
    (hstop : total_length ≤ p ∨ b (p + 1) = ty) : q = p := by
  rcases h.cases_head with rfl | ⟨q', hskip, -⟩
  · rfl
  · rcases hstop with hle | hty
    · exact absurd hskip.lt (Nat.not_lt_of_le hle)
    · exact absurd hty hskip.type

theorem Lands.unique (h : Lands b ty total_length p q) (h' : Lands b ty total_length p q') :
    q = q' := by
  have hunique : Relator.RightUnique (Skips b ty total_length) := fun _ _ _ => Skips.unique
  rcases ReflTransGen.total_of_right_unique hunique h.visits h'.visits with hto | hto
  · exact (Visits.eq_start hto (.inr h.type)).symm
  · exact Visits.eq_start hto (.inr h'.type)

theorem Lands.head (hskip : Skips b ty total_length p q) (h : Lands b ty total_length q q') :
    Lands b ty total_length p q' :=
  ⟨h.visits.head hskip, h.lt, h.type⟩

theorem Examines.head {k : ℕ} (hskip : Skips b ty total_length p q)
    (h : Examines b ty total_length q fields k) : Examines b ty total_length p fields k := by
  cases h with
  | type hvisits hlt => exact .type (hvisits.head hskip) hlt
  | length hvisits hlt hty => exact .length (hvisits.head hskip) hlt hty
  | field hlands hfield => exact .field (hlands.head hskip) hfield

theorem Skips.visits (hskip : Skips b ty total_length p q) (h : Visits b ty total_length p q') :
    q' = p ∨ Visits b ty total_length q q' := by
  rcases h.cases_head with rfl | ⟨p', hskip', hrest⟩
  · exact .inl rfl
  · rw [hskip.unique hskip']
    exact .inr hrest

theorem Skips.lands (hskip : Skips b ty total_length p q) (h : Lands b ty total_length p q') :
    Lands b ty total_length q q' := by
  rcases hskip.visits h.visits with rfl | hrest
  · exact absurd h.type hskip.type
  · exact ⟨hrest, h.lt, h.type⟩

/-! ### The loop -/

/-- A round of the loop. -/
def skipRound (ty : BYTE) (total_length byte_ptr : ℕ) : Program (ℕ ⊕ Option ℕ) := do
  if byte_ptr < total_length then
    let bigbuf ← load Mem.bigbuf
    if bigbuf (byte_ptr + 1) ≠ ty then return .inl (byte_ptr + (bigbuf byte_ptr).toNat)
    else return .inr (some byte_ptr)
  else return .inr none

theorem skipTo_eq (ty : BYTE) (total_length p : ℕ) :
    skipTo ty total_length p = loop (skipRound ty total_length) p := rfl

theorem lasting_skipRound (ty : BYTE) (total_length p : ℕ) :
    Lasting (skipRound ty total_length p) :=
  (straight_ite (straight_bind (straight_load _) fun _ =>
    straight_ite (straight_pure _) (straight_pure _)) (straight_pure _)).lasting

variable {env : Hardware} {w v : State}

/-- What a round does. -/
def skipResult (b : Buf) (ty : BYTE) (total_length p : ℕ) : ℕ ⊕ Option ℕ :=
  if p < total_length then
    if b (p + 1) ≠ ty then .inl (p + (b p).toNat) else .inr (some p)
  else .inr none

theorem finishes_skipRound {x : ℕ ⊕ Option ℕ} : Finishes env (skipRound ty total_length p) w x v ↔
    skipResult w.mem.bigbuf ty total_length p = x ∧ w = v := by
  by_cases hlt : p < total_length
  · by_cases hty : w.mem.bigbuf (p + 1) = ty
    · simp [Finishes, skipRound, skipResult, hlt, hty]
    · simp [Finishes, skipRound, skipResult, hlt, hty]
  · simp [Finishes, skipRound, skipResult, hlt]

/-- The loop reads and nothing else; it is left at a descriptor of its type, or beyond all. -/
theorem finishes_skipTo {r : Option ℕ} (h : Finishes env (skipTo ty total_length p) w r v) :
    v = w ∧ (∀ q, r = some q ↔ Lands w.mem.bigbuf ty total_length p q) := by
  rw [skipTo_eq, finishes_loop_iff (lasting_skipRound ty total_length)] at h
  induction h with
  | @exit p w r v hround =>
    obtain ⟨hresult, rfl⟩ := finishes_skipRound.mp hround
    refine ⟨rfl, fun q => ?_⟩
    rw [skipResult] at hresult
    split_ifs at hresult with hlt hty
    · rw [not_not] at hty
      obtain rfl := Sum.inr.inj hresult
      constructor
      · intro hq
        obtain rfl := Option.some.inj hq
        exact ⟨.refl, hlt, hty⟩
      · intro hlands
        rw [Visits.eq_start hlands.visits (.inr hty)]
    · obtain rfl := Sum.inr.inj hresult
      refine iff_of_false nofun fun hlands => hlt ?_
      rw [← Visits.eq_start hlands.visits (.inl (Nat.le_of_not_lt hlt))]
      exact hlands.lt
  | @next p p' w u r v hround _ ih =>
    obtain ⟨hresult, rfl⟩ := finishes_skipRound.mp hround
    obtain ⟨hv, hr⟩ := ih
    refine ⟨hv, fun q => (hr q).trans ?_⟩
    rw [skipResult] at hresult
    split_ifs at hresult with hlt hty
    · have hskip : Skips w.mem.bigbuf ty total_length p p' := ⟨hlt, hty, (Sum.inl.inj hresult).symm⟩
      constructor
      · exact fun hlands => hlands.head hskip
      · exact hskip.lands

theorem halts_of_exit {r : Option ℕ}
    (h : skipResult w.mem.bigbuf ty total_length p = .inr r) :
    Halts env (skipTo ty total_length p) w := by
  refine ⟨r, w, ?_⟩
  rw [skipTo_eq, finishes_loop_iff (lasting_skipRound ty total_length)]
  exact .exit (finishes_skipRound.mpr ⟨h, rfl⟩)

/-! ### What a loop looks at -/

theorem skips_agrees {b' : Buf}
    (hagree : ∀ k, Examines b ty total_length p fields k → b' k = b k) :
    Skips b' ty total_length p q ↔ Skips b ty total_length p q := by
  constructor
  · rintro ⟨hlt, hty, hnext⟩
    rw [hagree (p + 1) (.type .refl hlt)] at hty
    rw [hagree p (.length .refl hlt hty)] at hnext
    exact ⟨hlt, hty, hnext⟩
  · rintro ⟨hlt, hty, hnext⟩
    rw [← hagree p (.length .refl hlt hty)] at hnext
    rw [← hagree (p + 1) (.type .refl hlt)] at hty
    exact ⟨hlt, hty, hnext⟩

theorem visits_agrees {b' : Buf}
    (hagree : ∀ k, Examines b ty total_length p fields k → b' k = b k) :
    Visits b' ty total_length p q ↔ Visits b ty total_length p q := by
  constructor
  · intro h
    induction h using ReflTransGen.head_induction_on with
    | refl => exact .refl
    | head hskip _ ih =>
      have hskip' := (skips_agrees hagree).mp hskip
      exact (ih fun k hk => hagree k (hk.head hskip')).head hskip'
  · intro h
    induction h using ReflTransGen.head_induction_on with
    | refl => exact .refl
    | head hskip _ ih =>
      exact (ih fun k hk => hagree k (hk.head hskip)).head ((skips_agrees hagree).mpr hskip)

/-- A loop is left at the same descriptor, whatever the bytes are that it does not look at. -/
theorem lands_agrees {b' : Buf}
    (hagree : ∀ k, Examines b ty total_length p fields k → b' k = b k) :
    Lands b' ty total_length p q ↔ Lands b ty total_length p q := by
  constructor
  · rintro ⟨hvisits, hlt, hty⟩
    have hvisits' := (visits_agrees hagree).mp hvisits
    exact ⟨hvisits', hlt, (hagree (q + 1) (.type hvisits' hlt)).symm.trans hty⟩
  · rintro ⟨hvisits, hlt, hty⟩
    exact ⟨(visits_agrees hagree).mpr hvisits, hlt,
      (hagree (q + 1) (.type hvisits hlt)).trans hty⟩

/-- **A loop looks at these bytes only**: where they are the same it returns the same. -/
theorem skipTo_agrees {w' : State} {r : Option ℕ}
    (h : Finishes env (skipTo ty total_length p) w r v)
    (hagree : ∀ k, Examines w.mem.bigbuf ty total_length p fields k →
      w'.mem.bigbuf k = w.mem.bigbuf k) :
    Finishes env (skipTo ty total_length p) w' r w' := by
  rw [skipTo_eq, finishes_loop_iff (lasting_skipRound ty total_length)] at h ⊢
  have hsame : ∀ {p : ℕ} {w : State}, (∀ k, Examines w.mem.bigbuf ty total_length p fields k →
      w'.mem.bigbuf k = w.mem.bigbuf k) → skipResult w'.mem.bigbuf ty total_length p =
        skipResult w.mem.bigbuf ty total_length p := by
    intro p w hagree
    by_cases hlt : p < total_length
    · rw [skipResult, skipResult, hagree (p + 1) (.type .refl hlt)]
      by_cases hty : w.mem.bigbuf (p + 1) ≠ ty
      · rw [hagree p (.length .refl hlt hty)]
      · rw [if_neg hty, if_neg hty]
    · rw [skipResult, skipResult, if_neg hlt, if_neg hlt]
  induction h with
  | exit hround =>
    obtain ⟨hresult, rfl⟩ := finishes_skipRound.mp hround
    exact .exit (finishes_skipRound.mpr ⟨(hsame hagree).trans hresult, rfl⟩)
  | @next p p' w u r v hround _ ih =>
    obtain ⟨hresult, rfl⟩ := finishes_skipRound.mp hround
    refine .next (finishes_skipRound.mpr ⟨(hsame hagree).trans hresult, rfl⟩) (ih fun k hk => ?_)
    rw [skipResult] at hresult
    split_ifs at hresult with hlt hty
    exact hagree k (hk.head ⟨hlt, hty, (Sum.inl.inj hresult).symm⟩)

/-! ### Chains -/

theorem Chain.visits (h : Chain b ty total_length good p)
    (hvisits : Visits b ty total_length p q) : Chain b ty total_length good q := by
  induction hvisits with
  | refl => exact h
  | tail _ hskip ih =>
    cases ih with
    | stop hle => exact absurd hskip.lt (Nat.not_lt_of_le hle)
    | found _ hty _ => exact absurd hty hskip.type
    | skip _ _ _ hrest => exact hskip.next ▸ hrest

theorem Chain.type_lt (h : Chain b ty total_length good p) (hlt : p < total_length) :
    p + 1 < total_length := by
  cases h with
  | stop hle => exact absurd hlt (Nat.not_lt_of_le hle)
  | found hlast _ _ => exact hlast
  | skip hlast _ _ _ => exact hlast

theorem Chain.lands (h : Chain b ty total_length good p) (hlands : Lands b ty total_length p q) :
    q + 1 < total_length ∧ good q := by
  cases h.visits hlands.visits with
  | stop hle => exact absurd hlands.lt (Nat.not_lt_of_le hle)
  | found hlast _ hgood => exact ⟨hlast, hgood⟩
  | skip _ hty _ _ => exact absurd hlands.type hty

theorem Chain.inside (h : Chain b ty total_length good p)
    (hfields : ∀ q, q + 1 < total_length → good q → ∀ k, fields q k → k < total_length) {k : ℕ}
    (hk : Examines b ty total_length p fields k) : k < total_length := by
  cases hk with
  | type hvisits hlt => exact (h.visits hvisits).type_lt hlt
  | length hvisits hlt _ => exact hlt
  | field hlands hfield =>
    obtain ⟨hlast, hgood⟩ := h.lands hlands
    exact hfields _ hlast hgood k hfield

theorem Chain.halts (env : Hardware) (h : Chain w.mem.bigbuf ty total_length good p) :
    Halts env (skipTo ty total_length p) w := by
  induction h with
  | stop hle =>
    refine halts_of_exit (r := none) ?_
    rw [skipResult, if_neg (Nat.not_lt_of_le hle)]
  | @found p hlast hty _ =>
    refine halts_of_exit (r := some p) ?_
    rw [skipResult, if_pos (Nat.lt_of_succ_lt hlast), if_neg (not_not.mpr hty)]
  | skip hlast hty _ _ ih =>
    obtain ⟨r, v, h⟩ := ih
    refine ⟨r, v, ?_⟩
    rw [skipTo_eq, finishes_loop_iff (lasting_skipRound ty total_length)] at h ⊢
    refine .next (finishes_skipRound.mpr ⟨?_, rfl⟩) h
    rw [skipResult, if_pos (Nat.lt_of_succ_lt hlast), if_pos hty]

/-- A loop that is left and looks at nothing outside has gone along a chain. -/
theorem chain_of_rounds {r : Option ℕ} (h : Rounds env (skipRound ty total_length) p w r v)
    (hinside : ∀ k, Examines w.mem.bigbuf ty total_length p fields k → k < total_length)
    (hgood : ∀ q, q + 1 < total_length → Lands w.mem.bigbuf ty total_length p q → good q) :
    Chain w.mem.bigbuf ty total_length good p := by
  induction h with
  | @exit p w r v hround =>
    obtain ⟨hresult, rfl⟩ := finishes_skipRound.mp hround
    rw [skipResult] at hresult
    split_ifs at hresult with hlt hty
    · rw [not_not] at hty
      have hlast := hinside (p + 1) (.type .refl hlt)
      exact .found hlast hty (hgood p hlast ⟨.refl, hlt, hty⟩)
    · exact .stop (Nat.le_of_not_lt hlt)
  | @next p p' w u r v hround _ ih =>
    obtain ⟨hresult, rfl⟩ := finishes_skipRound.mp hround
    rw [skipResult] at hresult
    split_ifs at hresult with hlt hty
    have hskip : Skips w.mem.bigbuf ty total_length p p' :=
      ⟨hlt, hty, (Sum.inl.inj hresult).symm⟩
    have hrest := ih (fun k hk => hinside k (hk.head hskip))
      fun q hlast hq => hgood q hlast (hq.head hskip)
    by_cases hzero : w.mem.bigbuf p = 0
    · -- a length of zero leads back to `p`, where fewer rounds are left
      rwa [hskip.next, hzero, show (0 : BYTE).toNat = 0 from rfl, Nat.add_zero] at hrest
    · rw [hskip.next] at hrest
      exact .skip (hinside (p + 1) (.type .refl hlt)) hty hzero hrest

/-- **The loop ends and looks at nothing outside** exactly if the descriptors are a chain.  What
else is to hold where it is left goes into `good`. -/
theorem chain_iff (env : Hardware) (w : State) (ty : BYTE) (total_length p : ℕ)
    (fields : ℕ → ℕ → Prop) (extra good : ℕ → Prop)
    (hgood : ∀ q, q + 1 < total_length →
      ((∀ k, fields q k → k < total_length) ∧ extra q ↔ good q)) :
    Halts env (skipTo ty total_length p) w ∧
      (∀ k, Examines w.mem.bigbuf ty total_length p fields k → k < total_length) ∧
      (∀ q, Lands w.mem.bigbuf ty total_length p q → extra q) ↔
    Chain w.mem.bigbuf ty total_length good p := by
  constructor
  · rintro ⟨⟨r, v, h⟩, hinside, hextra⟩
    rw [skipTo_eq, finishes_loop_iff (lasting_skipRound ty total_length)] at h
    exact chain_of_rounds h hinside fun q hlast hlands =>
      (hgood q hlast).mp ⟨fun k hk => hinside k (.field hlands hk), hextra q hlands⟩
  · intro h
    refine ⟨h.halts env, fun k hk => h.inside ?_ hk, fun q hlands => ?_⟩
    · exact fun q hlast hq => ((hgood q hlast).mpr hq).1
    · obtain ⟨hlast, hq⟩ := h.lands hlands
      exact ((hgood q hlast).mpr hq).2

/-! ### The loops of a probe -/

/-- The interface at `q` is of the class that a probe for the protocol `proto` looks for. -/
def IsBoot (b : Buf) (proto : BYTE) (q : ℕ) : Prop :=
  b (q + 5) = HID_INTF ∧ b (q + 6) = BOOT_INTF_SUBCLASS ∧ b (q + 7) = proto

/-- The fields of an endpoint descriptor at `q` that are read. -/
def endpointFields (q k : ℕ) : Prop := q + 2 ≤ k ∧ k ≤ q + 6

/-- What is read for an interface at `q`: its class, subclass and protocol, and if they match its
number and length, and then what the loop for an endpoint looks at. -/
def interfaceFields (b : Buf) (proto : BYTE) (total_length q k : ℕ) : Prop :=
  (q + 5 ≤ k ∧ k ≤ q + 7) ∨ IsBoot b proto q ∧ (k = q + 2 ∨ k = q ∨
    Examines b USB_DESCRIPTOR_ENDPOINT total_length (q + (b q).toNat) endpointFields k)

/-- The loops of a probe, started in `w`, end and look at nothing from `total_length` on. -/
structure ParsesInside (env : Hardware) (proto devclass addr : BYTE) (total_length : ℕ)
    (w : State) : Prop where
  finishes : Halts env (skipTo USB_DESCRIPTOR_INTERFACE total_length 0) w
  inside : ∀ k, Examines w.mem.bigbuf USB_DESCRIPTOR_INTERFACE total_length 0
    (interfaceFields w.mem.bigbuf proto total_length) k → k < total_length
  finishes_endpoint : ∀ q, Lands w.mem.bigbuf USB_DESCRIPTOR_INTERFACE total_length 0 q →
    IsBoot w.mem.bigbuf proto q → ∀ u, Finishes env (enterInterface devclass addr q) w () u →
    Halts env (skipTo USB_DESCRIPTOR_ENDPOINT total_length (q + (w.mem.bigbuf q).toNat)) u

/-- The descriptors lead to an interface with its fields inside, and, if it is of the class, from
there to an endpoint with its fields inside; or to the end. -/
def WellFormed (b : Buf) (proto : BYTE) (total_length : ℕ) : Prop :=
  Chain b USB_DESCRIPTOR_INTERFACE total_length (fun q => q + 7 < total_length ∧
    (IsBoot b proto q → Chain b USB_DESCRIPTOR_ENDPOINT total_length
      (fun q' => q' + 6 < total_length) (q + (b q).toNat))) 0

/-- The memory after `enterInterface`. -/
def Mem.enterInterface (devclass addr : BYTE) (q : ℕ) (m : Mem) : Mem :=
  let m₁ := m.setDev addr fun d => { d with devclass := devclass }
  let tmpbyte : BYTE := (m₁.epinfo addr 0).MaxPktSize.setWidth 8
  let m₂ := m₁.setEp .hid_ep 1 fun e => { e with sndToggle := bmSNDTOG0, rcvToggle := bmRCVTOG0 }
  let m₃ := m₂.setDev addr fun d => { d with epinfo := .hid_ep }
  let m₄ := m₃.setEpinfo addr 0 fun e => { e with MaxPktSize := tmpbyte.setWidth 16 }
  { m₄ with hid_device := ⟨addr, m₄.bigbuf (q + 2)⟩ }

theorem bigbuf_enterInterface (devclass addr : BYTE) (q : ℕ) (m : Mem) :
    (m.enterInterface devclass addr q).bigbuf = m.bigbuf := by
  simp only [Mem.enterInterface, Mem.setEpinfo, Mem.setEp, Mem.setDev]

theorem enterInterface_agrees (devclass addr : BYTE) (q : ℕ) (m : Mem) {b' : Buf}
    (hagree : b' (q + 2) = m.bigbuf (q + 2)) :
    { m with bigbuf := b' }.enterInterface devclass addr q =
      { m.enterInterface devclass addr q with bigbuf := b' } := by
  simp [Mem.enterInterface, Mem.setEpinfo, Mem.setEp, Mem.setDev, Mem.epinfo, hagree]

theorem finishes_enterInterface {devclass addr : BYTE} {u : State} :
    Finishes env (enterInterface devclass addr q) w () u ↔
      { w with mem := w.mem.enterInterface devclass addr q } = u := by
  simp [Finishes, enterInterface, HID_init, Mem.enterInterface]

theorem IsBoot.fields_iff {proto : BYTE} (h : IsBoot b proto q) (hlast : q + 7 < total_length) :
    (∀ k, interfaceFields b proto total_length q k → k < total_length) ↔
      ∀ k, Examines b USB_DESCRIPTOR_ENDPOINT total_length (q + (b q).toNat) endpointFields k →
        k < total_length := by
  constructor
  · exact fun hall k hk => hall k (.inr ⟨h, .inr (.inr hk)⟩)
  · rintro hall k (hclass | ⟨-, rfl | rfl | hk⟩)
    · omega
    · omega
    · omega
    · exact hall k hk

/-- **The loops of a probe** end and stay inside the descriptors exactly if these are well
formed. -/
theorem parses_inside_iff (env : Hardware) (proto devclass addr : BYTE) (total_length : ℕ)
    (w : State) : ParsesInside env proto devclass addr total_length w ↔
      WellFormed w.mem.bigbuf proto total_length := by
  have houter := chain_iff env w USB_DESCRIPTOR_INTERFACE total_length 0
    (interfaceFields w.mem.bigbuf proto total_length)
    (fun q => IsBoot w.mem.bigbuf proto q → ∀ u,
      Finishes env (enterInterface devclass addr q) w () u →
      Halts env (skipTo USB_DESCRIPTOR_ENDPOINT total_length (q + (w.mem.bigbuf q).toNat)) u)
    (fun q => q + 7 < total_length ∧ (IsBoot w.mem.bigbuf proto q →
      Chain w.mem.bigbuf USB_DESCRIPTOR_ENDPOINT total_length (fun q' => q' + 6 < total_length)
        (q + (w.mem.bigbuf q).toNat))) ?_
  · rw [WellFormed, ← houter]
    constructor
    · exact fun h => ⟨h.finishes, h.inside, h.finishes_endpoint⟩
    · exact fun h => ⟨h.1, h.2.1, h.2.2⟩
  intro q _
  have hlast : (∀ k, interfaceFields w.mem.bigbuf proto total_length q k → k < total_length) →
      q + 7 < total_length := fun hall => hall (q + 7) (.inl (by omega))
  by_cases hboot : IsBoot w.mem.bigbuf proto q
  · have hentered : ∀ (P : State → Prop),
        (∀ u, Finishes env (enterInterface devclass addr q) w () u → P u) ↔
          P { w with mem := w.mem.enterInterface devclass addr q } := by
      intro P
      simp only [finishes_enterInterface, forall_eq']
    have hinner := chain_iff env { w with mem := w.mem.enterInterface devclass addr q }
      USB_DESCRIPTOR_ENDPOINT total_length (q + (w.mem.bigbuf q).toNat) endpointFields
      (fun _ => True) (fun q' => q' + 6 < total_length) (fun q' _ => by
        constructor
        · exact fun hall => hall.1 (q' + 6) ⟨by omega, Nat.le_refl _⟩
        · exact fun hq' => ⟨fun k hk => Nat.lt_of_le_of_lt hk.2 hq', trivial⟩)
    rw [bigbuf_enterInterface] at hinner
    simp only [hboot, forall_true_left, hentered]
    rw [← hinner]
    constructor
    · rintro ⟨hall, hends⟩
      exact ⟨hlast hall, hends, (hboot.fields_iff (hlast hall)).mp hall, fun _ _ => trivial⟩
    · rintro ⟨hq, hends, hall, -⟩
      exact ⟨(hboot.fields_iff hq).mpr hall, hends⟩
  · simp only [hboot, false_implies, and_true]
    constructor
    · exact hlast
    · rintro hq k (hclass | ⟨hyes, -⟩)
      · omega
      · exact absurd hyes hboot

/-- Hardware that answers zeros. -/
def silent : Hardware
  | _, .wr _ _ => ()
  | _, .rd _ => 0
  | _, .bytesWr _ _ => ()
  | _, .bytesRd _ _ => fun _ => 0
  | _, .alt_nticks => 0
  | _, .alt_ticks_per_second => 0
  | _, .uninitialised => fun _ => 0
  | _, .printf _ => ()
  | _, .returned _ => ()

/-- A configuration of 18 bytes; its second descriptor has the length `0`. -/
def lengthless : Buf := fun k => [9, 2, 18, 0, 1, 1, 0, 0xA0, 50, 0, 0x24].getD k 0

/-- A probe never gets past it. -/
theorem not_parses_inside : ¬∀ (env : Hardware) (proto devclass addr : BYTE) (total_length : ℕ)
    (w : State), total_length ≤ 256 → ParsesInside env proto devclass addr total_length w := by
  intro h
  let w : State :=
    { mem :=
        { usb_task_state := 0, usb_error := 0, last_usb_task_state := 0, usb_delay := 0
          tmp_addr := 1, devtable := fun _ => ⟨.dev0ep, 0⟩, ep := fun _ _ => ⟨0, 0, 8, 0, 0, 0⟩
          hid_device := ⟨0, 0⟩, bigbuf := lengthless }
      record := [] }
  have hprobe := h silent HID_PROTOCOL_MOUSE HID_M 1 18 w (by decide)
  have hchain := (chain_iff silent w USB_DESCRIPTOR_INTERFACE 18 0
    (interfaceFields lengthless HID_PROTOCOL_MOUSE 18) (fun _ => True)
    (fun q => ∀ k, interfaceFields lengthless HID_PROTOCOL_MOUSE 18 q k → k < 18)
    fun _ _ => and_iff_left trivial).mp ⟨hprobe.finishes, hprobe.inside, fun _ _ => trivial⟩
  cases hchain with
  | stop hle => exact absurd hle (by decide)
  | found _ hty _ => exact absurd hty (by decide)
  | skip _ _ _ hrest =>
    cases hrest with
    | stop hle => exact absurd hle (by decide)
    | found _ hty _ => exact absurd hty (by decide)
    | skip _ _ hlength _ => exact absurd rfl hlength

end ECE385.Usb
