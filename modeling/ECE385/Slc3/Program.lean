import ECE385.Slc3.Refine
import Mathlib.Data.Nat.Find
import Mathlib.Logic.Relation
import Mathlib.Order.Monotone.Basic

/-!
# Programs of the SLC-3

`Arch.cycle` is one instruction of the reference machine with its fetch.  `Leads a b` says that
instructions that neither pause nor depend on the switches take the reference machine
from `a` to `b`.

* `Leads.run`: then the reference machine comes to `b`, whatever the switches.
* `Leads.board`: and so does the processor, in a run without a reset.
-/

namespace ECE385.Slc3

open Clocked Isa

namespace Isa

/-- One instruction, fetched from the memory, with the switches as the fetch and as a load see
them. -/
def Arch.cycle (i : BitVec 10 × BitVec 10) (a : Arch) : Arch := a.step i.2 (a.rd i.1 a.pc)

/-- The next instruction is no `PSE` and makes `b` of `a`, whatever the switches. -/
def Arch.Yields (a b : Arch) : Prop :=
  ∀ i : BitVec 10 × BitVec 10, opcode (a.rd i.1 a.pc) ≠ 0b1101#4 ∧ a.cycle i = b

abbrev Leads : Arch → Arch → Prop := Relation.ReflTransGen Arch.Yields

variable {a b : Arch}

/-- **The reference machine** follows. -/
theorem Leads.run (h : Leads a b) :
    ∃ n, ∀ w : ℕ → BitVec 10 × BitVec 10, Clocked.run Arch.cycle w a n = b := by
  induction h with
  | refl => exact ⟨0, fun _ => rfl⟩
  | tail _ hstep ih =>
    obtain ⟨n, hn⟩ := ih
    refine ⟨n + 1, fun w => ?_⟩
    rw [run_succ, hn]
    exact (hstep (w n)).2

variable {image : BitVec 8 → BitVec 16}

/-- **The processor** follows. -/
theorem Leads.board {a a' : Arch} (h : Leads a a') :
    ∀ (w : ℕ → Input) (b : Board), (∀ t, (w t).reset = false) → b.cpu.isdu = .s18 → b.arch = a →
      ∃ n, (Clocked.run (Board.next image) w b n).cpu.isdu = .s18 ∧
        (Clocked.run (Board.next image) w b n).arch = a' := by
  induction h using Relation.ReflTransGen.head_induction_on with
  | refl => exact fun w b _ h18 ha => ⟨0, h18, ha⟩
  | head hstep _ ih =>
    rintro w b hr h18 rfl
    obtain ⟨hop, hcycle⟩ := hstep ((w 3).sw, (w 9).sw)
    obtain ⟨m, -, hm⟩ : ∃ n ≤ 11, Completes image w b n _ := completes_of_ne_pse hr h18 rfl hop
    obtain ⟨n, hn18, hn⟩ := ih (delay m w) _ (fun t => hr (m + t)) hm.back (hm.arch.trans hcycle)
    exact ⟨m + n, by rw [run_add, hn18], by rw [run_add, hn]⟩

/-- A board about to fetch, in the state `a`. -/
def Arch.onBoard (a : Arch) : Board where
  cpu := { isdu := .s18, pc := a.pc, mdr := 0#16, mar := 0#16, ir := 0#16, ben := false,
           cc := a.cc, r := a.r, led := 0#10, hexData := a.hexData }
  mem := { memArray := a.mem, memOut := 0#16 }

/-! ### Whole runs -/

/-- Nobody resets the processor, and `Continue` is pressed and released again and again. -/
structure Operated (w : ℕ → Input) : Prop where
  reset : ∀ t, (w t).reset = false
  pressed : ∀ t, ∃ s, (w (t + s)).continue_ = true
  released : ∀ t, ∃ s, (w (t + s)).continue_ = false

variable {w : ℕ → Input} {b : Board}

theorem Operated.delay (h : Operated w) (m : ℕ) : Operated (delay m w) where
  reset t := h.reset (m + t)
  pressed t := by simpa only [delay_apply, Nat.add_assoc] using h.pressed (m + t)
  released t := by simpa only [delay_apply, Nat.add_assoc] using h.released (m + t)

variable (image) in
/-- Every instruction comes to its end. -/
theorem completes_of_operated (h : Operated w) (h18 : b.cpu.isdu = .s18) :
    ∃ n, Completes image w b n (b.arch.cycle ((w 3).sw, (w 9).sw)) := by
  by_cases hop : opcode (b.arch.rd (w 3).sw b.cpu.pc) = 0b1101#4
  · have hpress := h.pressed 6
    have hrelease := h.released (6 + Nat.find hpress + 1)
    refine ⟨_, completes_of_pse h.reset h18 rfl hop (j := Nat.find hpress)
      (k := Nat.find hrelease) (fun s hs => ?_) (Nat.find_spec hpress) (fun s hs => ?_)
      (Nat.find_spec hrelease)⟩
    · exact Bool.not_eq_true _ ▸ Nat.find_min hpress hs
    · exact Bool.not_eq_false _ ▸ Nat.find_min hrelease hs
  · obtain ⟨n, -, hn⟩ := completes_of_ne_pse h.reset h18 rfl hop
    exact ⟨n, hn⟩

/-- The switches as the instruction fetched at edge `t` sees them. -/
def switches (w : ℕ → Input) (t : ℕ) : BitVec 10 × BitVec 10 := ((w (t + 3)).sw, (w (t + 9)).sw)

variable (image) in
/-- **A run of the processor is a run of the reference machine**, if it is operated: `τ` counts the
edges at which it comes to `S_18`. -/
theorem board_runs (h : Operated w) (h18 : b.cpu.isdu = .s18) : ∃ τ : ℕ → ℕ, StrictMono τ ∧
    (∀ t, (run (Board.next image) w b t).cpu.isdu = .s18 ↔ ∃ k, t = τ k) ∧
    ∀ k, (run (Board.next image) w b (τ k)).arch =
      run Arch.cycle (fun k => switches w (τ k)) b.arch k := by
  have hnext : ∀ t, (run (Board.next image) w b t).cpu.isdu = .s18 → ∃ n, _ := fun t ht =>
    completes_of_operated image (h.delay t) ht
  choose! d hd using hnext
  obtain ⟨τ, h0, hsucc⟩ : ∃ τ : ℕ → ℕ, τ 0 = 0 ∧ ∀ k, τ (k + 1) = τ k + d (τ k) :=
    ⟨fun k => Nat.rec 0 (fun _ t => t + d t) k, rfl, fun _ => rfl⟩
  have hs18 : ∀ k, (run (Board.next image) w b (τ k)).cpu.isdu = .s18 := by
    intro k
    induction k with
    | zero => rw [h0]; exact h18
    | succ k ih => rw [hsucc, run_add]; exact (hd _ ih).back
  refine ⟨τ, ?_, fun t => ⟨fun ht => ?_, fun ⟨k, hk⟩ => hk ▸ hs18 k⟩, fun k => ?_⟩
  · refine strictMono_nat_of_lt_succ fun k => ?_
    rw [hsucc]
    exact Nat.lt_add_of_pos_right (hd _ (hs18 k)).pos
  · -- the instruction at work at edge `t`
    obtain ⟨k, hle, hlt⟩ : ∃ k, τ k ≤ t ∧ t < τ (k + 1) := by
      clear ht
      induction t with
      | zero => exact ⟨0, Nat.le_of_eq h0, by rw [hsucc, h0]; have := (hd 0 h18).pos; omega⟩
      | succ t ih =>
        obtain ⟨k, hle, hlt⟩ := ih
        by_cases hk : t + 1 < τ (k + 1)
        · exact ⟨k, by omega, hk⟩
        · have hpos := (hd _ (hs18 (k + 1))).pos
          exact ⟨k + 1, by omega, by rw [hsucc (k + 1)]; omega⟩
    refine ⟨k, ?_⟩
    by_contra hne
    refine (hd _ (hs18 k)).first (t - τ k) (by omega) (by rw [hsucc] at hlt; omega) ?_
    rw [← run_add, Nat.add_sub_cancel' hle]
    exact ht
  · induction k with
    | zero => rw [h0]; rfl
    | succ k ih =>
      rw [hsucc, run_add, (hd _ (hs18 k)).arch, run_succ, ← ih]
      rfl

end Isa

end ECE385.Slc3
