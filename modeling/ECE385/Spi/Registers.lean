import ECE385.Spi.Transaction
import ECE385.Usb.Driver

/-!
# Registers over the wires

The USB driver asks for registers of the MAX3421E.  Here the code of `MAX3421E.c` answers, over the
SPI master: a conversation at the level of registers is one at the level of wires.

* `ends_MAXreg_wr`, `ends_MAXreg_rd`, ...: the accesses.
* `Transcript`: the transactions of a conversation, one after the other.
* `exists_realises`: whatever the chip does on its wires, there are answers for the driver which the
  code gives.
-/

namespace ECE385.Spi

open Bits Firmware Prog ECE385.Spi.Core

variable {B : Bench} {w : State} {log : List Wire} {out : List String}

/-! ### The accesses -/

theorem ends_MAXreg_wr {reg val : BitVec 8} (h : On B (Ready log out) w) :
    Ends (hardware B) (MAXreg_wr reg val) w fun _ w' =>
      ∃ answers : List (BitVec 8), answers.length = 2 ∧
        On B (Ready (log ++ transaction [reg + 2, val] answers) out) w' := by
  refine ends_bind (ends_alt_avalon_spi_command _ _ (Nat.succ_pos _) h) fun r v hr => ?_
  obtain ⟨answers, hlen, rfl, hv⟩ := hr
  exact ends_when_neg (by decide) ⟨answers, hlen, hv⟩

theorem ends_MAXbytes_wr {reg : BitVec 8} {data : List (BitVec 8)} (h : On B (Ready log out) w) :
    Ends (hardware B) (MAXbytes_wr reg data) w fun _ w' =>
      ∃ answers : List (BitVec 8), answers.length = data.length + 1 ∧
        On B (Ready (log ++ transaction ((reg + 2) :: data) answers) out) w' := by
  refine ends_bind (ends_alt_avalon_spi_command _ _ (Nat.succ_pos _) h) fun r v hr => ?_
  obtain ⟨answers, hlen, rfl, hv⟩ := hr
  rw [List.replicate_zero, List.append_nil] at hv
  exact ends_when_neg (by decide) ⟨answers, hlen, hv⟩

/-- The length of a read is no error code. -/
theorem read_length_nonneg {n : ℕ} (hn : n < 0x80000000) : ¬(BitVec.ofNat 32 n).toInt < 0 := by
  rw [BitVec.toInt_eq_toNat_cond, BitVec.toNat_ofNat, Nat.mod_eq_of_lt (by omega),
    if_pos (by omega)]
  omega

/-- A read of `n` bytes. -/
theorem ends_read {reg : BitVec 8} {n : ℕ} (h : On B (Ready log out) w) :
    Ends (hardware B) (alt_avalon_spi_command 0 [reg] n 0) w fun r w' =>
      ∃ a data, data.length = n ∧ r = ((BitVec.ofNat 32 n).toInt, data) ∧
        On B (Ready (log ++ transaction (reg :: List.replicate n 0) (a :: data)) out) w' := by
  have hlength : 0 < [reg].length + n := Nat.lt_of_lt_of_le (Nat.succ_pos 0) (Nat.le_add_right _ _)
  refine (ends_alt_avalon_spi_command _ _ hlength h).imp fun r v hr => ?_
  obtain ⟨answers, hlen, rfl, hv⟩ := hr
  rw [List.length_singleton] at hlen
  cases answers with
  | nil => exact absurd hlen (by rw [List.length_nil]; omega)
  | cons a data => exact ⟨a, data, by rw [List.length_cons] at hlen; omega, rfl, hv⟩

theorem ends_MAXreg_rd {val reg : BitVec 8} (h : On B (Ready log out) w) :
    Ends (hardware B) (MAXreg_rd val reg) w fun v w' =>
      ∃ a, On B (Ready (log ++ transaction [reg, 0] [a, v]) out) w' := by
  refine ends_bind (ends_read h) fun r v hr => ?_
  obtain ⟨a, data, hlen, rfl, hv⟩ := hr
  obtain ⟨b, rfl⟩ := List.length_eq_one_iff.mp hlen
  refine ends_bind (P := fun _ v' => v' = v) (ends_when_neg (by decide) rfl) fun _ v' hv' => ?_
  exact ends_pure ⟨a, hv' ▸ hv⟩

theorem ends_MAXbytes_rd {reg nbytes : BitVec 8} (h : On B (Ready log out) w) :
    Ends (hardware B) (MAXbytes_rd reg nbytes) w fun data w' =>
      data.length = nbytes.toNat ∧ ∃ a, On B (Ready (log ++
        transaction (reg :: List.replicate nbytes.toNat 0) (a :: data)) out) w' := by
  refine ends_bind (ends_read h) fun r v hr => ?_
  obtain ⟨a, data, hlen, rfl, hv⟩ := hr
  have hpos := read_length_nonneg (Nat.lt_trans nbytes.isLt (by decide))
  refine ends_bind (P := fun _ v' => v' = v) (ends_when_neg hpos rfl) fun _ v' hv' => ?_
  exact ends_pure ⟨hlen, a, hv' ▸ hv⟩

/-! ### Conversations -/

/-- The code that answers a question of the USB driver, if it is one about a register. -/
def access : (q : Usb.Query) → Option (Program q.Reply)
  | .wr reg val => some (MAXreg_wr reg val)
  | .rd reg => some (MAXreg_rd 0 reg)
  | .bytesWr reg data => some (MAXbytes_wr reg data)
  | .bytesRd reg nbytes => some do
    let data ← MAXbytes_rd reg nbytes
    return fun k => data.getD k 0
  | _ => none

/-- The bytes that are sent for a question. -/
def sentFor : Usb.Query → List (BitVec 8)
  | .wr reg val => [reg + 2, val]
  | .rd reg => [reg, 0]
  | .bytesWr reg data => (reg + 2) :: data
  | .bytesRd reg nbytes => reg :: List.replicate nbytes.toNat 0
  | _ => []

/-- The answers on the wires are those the driver gets. -/
def Fits : (q : Usb.Query) → q.Reply → List (BitVec 8) → Prop
  | .rd _, r, answers => answers.drop 1 = [r]
  | .bytesRd _ nbytes, r, answers => ∀ k < nbytes.toNat, answers[k + 1]? = some (r k)
  | _, _, _ => True

/-- The transactions of a conversation. -/
inductive Transcript : Record Usb.Query.Reply → List Wire → Prop
  | nil : Transcript [] []
  | access {record : Record Usb.Query.Reply} {log : List Wire} {q : Usb.Query} {r : q.Reply}
    {answers : List (BitVec 8)} : Transcript record log → (access q).isSome = true →
      answers.length = (sentFor q).length → Fits q r answers →
      Transcript (⟨q, r⟩ :: record) (log ++ transaction (sentFor q) answers)
  | other {record : Record Usb.Query.Reply} {log : List Wire} {q : Usb.Query} {r : q.Reply} :
    Transcript record log → access q = none → Transcript (⟨q, r⟩ :: record) log

/-- **An access**, whichever it is. -/
theorem ends_access {q : Usb.Query} {p : Program q.Reply} (hp : access q = some p)
    (h : On B (Ready log out) w) :
    Ends (hardware B) p w fun r w' =>
      ∃ answers : List (BitVec 8), answers.length = (sentFor q).length ∧ Fits q r answers ∧
        On B (Ready (log ++ transaction (sentFor q) answers) out) w' := by
  cases q with
  | wr reg val =>
    obtain rfl := Option.some.inj hp
    refine (ends_MAXreg_wr h).imp fun r w' hr => ?_
    obtain ⟨answers, hlen, hw'⟩ := hr
    exact ⟨answers, hlen, trivial, hw'⟩
  | rd reg =>
    obtain rfl := Option.some.inj hp
    refine (ends_MAXreg_rd h).imp fun r w' hr => ?_
    obtain ⟨a, hw'⟩ := hr
    exact ⟨[a, r], rfl, rfl, hw'⟩
  | bytesWr reg data =>
    obtain rfl := Option.some.inj hp
    refine (ends_MAXbytes_wr h).imp fun r w' hr => ?_
    obtain ⟨answers, hlen, hw'⟩ := hr
    exact ⟨answers, hlen, trivial, hw'⟩
  | bytesRd reg nbytes =>
    obtain rfl := Option.some.inj hp
    refine ends_bind (ends_MAXbytes_rd h) fun data v hv => ?_
    obtain ⟨hlen, a, hv⟩ := hv
    refine ends_pure ⟨a :: data, ?_, fun k hk => ?_, hv⟩
    · rw [List.length_cons, hlen, sentFor, List.length_cons, List.length_replicate]
    · have hk' : k < data.length := hlen.symm ▸ hk
      rw [List.getElem?_cons_succ, List.getElem?_eq_getElem hk']
      exact congrArg some (List.getD_eq_getElem data 0 hk').symm
  | _ => exact absurd hp.symm (Option.some_ne_none p)

/-- The record has the answers of the environment. -/
def Answered (env : Usb.Hardware) : Record Usb.Query.Reply → Prop
  | [] => True
  | ⟨q, r⟩ :: record => r = env record q ∧ Answered env record

/-- The environment `env` of the USB driver is the code of `MAX3421E.c` on the SPI master: after
what is on record the master is where `σ` says.  Everything else is answered by `rest`. -/
structure Realises (B : Bench) (rest env : Usb.Hardware) (σ : Record Usb.Query.Reply → State) :
    Prop where
  start : σ [] = ⟨(), []⟩
  access : ∀ record q p, access q = some p → ∃ N, ∀ n, N ≤ n →
    Returns (hardware B) n p (σ record) (env record q) (σ (⟨q, env record q⟩ :: record))
  other : ∀ record q, Spi.access q = none →
    env record q = rest record q ∧ σ (⟨q, env record q⟩ :: record) = σ record

theorem ready_start (B : Bench) : On B (Ready [] []) ⟨(), []⟩ := ⟨calm_reset, ready_reset⟩

/-- The code answers. -/
theorem exists_realises (B : Bench) (rest : Usb.Hardware) : ∃ env σ, Realises B rest env σ := by
  have hstep : ∀ (v : State) (q : Usb.Query), ∃ (r : q.Reply) (v' : State), ∀ p,
      access q = some p → (∃ log, On B (Ready log []) v) →
      (∃ N, ∀ n, N ≤ n → Returns (hardware B) n p v r v') ∧ ∃ log, On B (Ready log []) v' := by
    intro v q
    by_cases h : ∃ p, access q = some p ∧ ∃ log, On B (Ready log []) v
    · obtain ⟨p, hp, log, hv⟩ := h
      obtain ⟨r, v', hN, answers, -, -, hv'⟩ := ends_access hp hv
      refine ⟨r, v', fun p' hp' _ => ?_⟩
      obtain rfl := Option.some.inj (hp.symm.trans hp')
      exact ⟨hN, _, hv'⟩
    · exact ⟨rest [] q, v, fun p hp hv => absurd ⟨p, hp, hv⟩ h⟩
  choose f g hfg using hstep
  let σ : Record Usb.Query.Reply → State := fun record =>
    record.foldr (fun x v => if (access x.1).isSome then g v x.1 else v) ⟨(), []⟩
  have hready : ∀ record, ∃ log, On B (Ready log []) (σ record) := by
    intro record
    induction record with
    | nil => exact ⟨[], ready_start B⟩
    | cons x record ih =>
      obtain ⟨q, r⟩ := x
      simp only [σ, List.foldr_cons]
      cases hq : access q with
      | none => rw [Option.isSome_none, if_neg Bool.false_ne_true]; exact ih
      | some p => rw [Option.isSome_some, if_pos rfl]; exact (hfg _ q p hq ih).2
  refine ⟨fun record q => if (access q).isSome then f (σ record) q else rest record q, σ, rfl,
    ?_, ?_⟩
  · intro record q p hp
    have h := (hfg (σ record) q p hp (hready record)).1
    simp only [σ, List.foldr_cons, hp, Option.isSome_some, if_true]
    exact h
  · intro record q hq
    simp only [σ, List.foldr_cons, hq, Option.isSome_none, Bool.false_eq_true, if_false, and_self]

/-- **A conversation.**  Its transactions are on the wires, one after the other. -/
theorem Realises.transcript {rest env : Usb.Hardware} {σ : Record Usb.Query.Reply → State}
    (h : Realises B rest env σ) : ∀ record, Answered env record →
      ∃ log, Transcript record log ∧ On B (Ready log []) (σ record) := by
  intro record
  induction record with
  | nil =>
    intro _
    refine ⟨[], .nil, ?_⟩
    rw [h.start]
    exact ready_start B
  | cons x record ih =>
    obtain ⟨q, r⟩ := x
    rintro ⟨rfl, hrecord⟩
    obtain ⟨log, hlog, hready⟩ := ih hrecord
    cases hq : Spi.access q with
    | none =>
      obtain ⟨-, hσ⟩ := h.other record q hq
      exact ⟨log, .other hlog hq, hσ ▸ hready⟩
    | some p =>
      obtain ⟨r, v, ⟨N, hN⟩, answers, hlen, hfits, hv⟩ := ends_access hq hready
      obtain ⟨M, hM⟩ := h.access record q p hq
      have hend := (hN _ (Nat.le_max_left N M)).symm.trans (hM _ (Nat.le_max_right N M))
      obtain ⟨rfl, rfl⟩ := Prod.mk.inj (Option.some.inj hend)
      exact ⟨_, .access hlog (by rw [hq]; rfl) hlen hfits, hv⟩

/-- **From registers to wires.**  Whatever the chip does there are answers which the code gives, and
every conversation with it is a row of transactions. -/
theorem registers_over_wires (B : Bench) (rest : Usb.Hardware) :
    (∃ env σ, Realises B rest env σ) ∧
      ∀ env σ, Realises B rest env σ → ∀ record, Answered env record →
        ∃ log, Transcript record log ∧ On B (Ready log []) (σ record) :=
  ⟨exists_realises B rest, fun _ _ h => h.transcript⟩

end ECE385.Spi
