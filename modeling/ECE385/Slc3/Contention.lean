import ECE385.Slc3.Sramtop

/-!
# The loader and the processor on one RAM port

Nothing but the buttons keeps the processor in `Halted` while the loader copies
its 256 words.  Releasing `Continue` before `Run` ends the reset and starts the
processor at once, and a reset pressed while the processor runs gives the loader
the port one edge before the processor has seen it (`loader_cpu_contend`).

* `RunWaits` is the condition on the buttons: `Run` is not seen pressed alone
  before the loader is at its last word.
* `run_loading`: while the reset stays low, the loader is where the number of
  edges says, the processor waits for it, and what it has passed is in the RAM.
* `loader_cpu_exclusive`: under `RunWaits`, outside the first cycle of a later reset,
  the loader has the port only while the processor is in `Halted`, and the accesses of
  the processor reach the loaded RAM at its own address.
-/

namespace ECE385.Slc3

open Clocked

/-- The loader `d` edges after the reset. -/
def Loader.after (d : ℕ) : Loader :=
  if d < 256 then ⟨.memWrite, BitVec.ofNat 16 d⟩
  else if d = 256 then ⟨.done, 0x100#16⟩ else ⟨.idle, 0x100#16⟩

theorem Loader.after_of_lt {d : ℕ} (h : d < 256) :
    Loader.after d = ⟨.memWrite, BitVec.ofNat 16 d⟩ := if_pos h

theorem Loader.after_wren (d : ℕ) : (Loader.after d).wren = decide (d < 256) := by
  by_cases h : d < 256
  · simp [after_of_lt h, Loader.wren, h]
  · by_cases h' : d = 256 <;> simp [Loader.after, Loader.wren, h, h']

theorem Loader.address_ne {d : ℕ} (h : d < 255) : BitVec.ofNat 16 d ≠ 0xff#16 := by
  intro he
  have := congrArg BitVec.toNat he
  simp only [BitVec.toNat_ofNat] at this
  omega

theorem Loader.after_next (d : ℕ) : (Loader.after d).next = Loader.after (d + 1) := by
  by_cases h : d < 255
  · have hne := address_ne h
    rw [after_of_lt (by omega), after_of_lt (by omega)]
    ext1
    · simp [Loader.next, Loader.nextState, hne]
    · simp [Loader.next, Loader.wren, BitVec.ofNat_add]
  · by_cases h' : d = 255
    · subst h'; rfl
    · by_cases h'' : d = 256
      · subst h''; rfl
      · have h1 : ¬ d < 256 := by omega
        have h2 : ¬ d + 1 < 256 := by omega
        have h3 : d + 1 ≠ 256 := by omega
        simp [Loader.after, h1, h2, h3, h'', Loader.next, Loader.nextState, Loader.wren]

namespace Sramtop

/-- The buttons leave the processor alone while the loader has words to write
after this edge: `Run` is not seen pressed without the reset. -/
def RunWaits (s : Sramtop) : Prop :=
  s.resetAh = false → s.loader.state = .memWrite → s.loader.address ≠ 0xff#16 → s.runAh = false

variable {w : ℕ → TopInput} {s₀ : Sramtop}

theorem next_loader (i : TopInput) (s : Sramtop) :
    (s.next i).loader = if s.resetAh || (s.next i).resetAh then .start else s.loader.next := rfl

theorem next_halted {i : TopInput} {s : Sramtop} (h : s.resetAh = true) :
    (s.next i).cpu.isdu = .halted := by
  simp [next, Cpu.next, h]

/-- The processor stays in `Halted` when `Run` is not seen. -/
theorem next_waits {i : TopInput} {s : Sramtop} (h : s.cpu.isdu = .halted)
    (hrun : s.runAh = false) : (s.next i).cpu.isdu = .halted := by
  simp [next, Cpu.next, h, hrun, Slc3.nextState]

/-- In `Halted` the processor asks nothing of the RAM. -/
theorem quiet_of_halted {s : Sramtop} (h : s.cpu.isdu = .halted) :
    s.cpu.oe = false ∧ s.cpu.we = false := by
  simp [Cpu.oe, Cpu.we, Cpu.control, control, h]

/-- A cycle with the reset low belongs to a phase that began with an edge that
saw the reset. -/
theorem exists_release (h0 : s₀.resetAh = true) : ∀ n, (run next w s₀ n).resetAh = false →
    ∃ m < n, (run next w s₀ m).resetAh = true ∧
      ∀ t, m < t → t ≤ n → (run next w s₀ t).resetAh = false := by
  intro n
  induction n with
  | zero => intro h; rw [run_zero, h0] at h; cases h
  | succ n ih =>
    intro h
    cases hn : (run next w s₀ n).resetAh with
    | true =>
      refine ⟨n, Nat.lt_succ_self n, hn, fun t ht htn => ?_⟩
      obtain rfl : t = n + 1 := by omega
      exact h
    | false =>
      obtain ⟨m, hm, hr, hlow⟩ := ih hn
      refine ⟨m, by omega, hr, fun t ht htn => ?_⟩
      by_cases he : t = n + 1
      · rw [he]; exact h
      · exact hlow t ht (by omega)

/-- While the loader writes, its word goes to its address. -/
theorem next_loading {i : TopInput} {s : Sramtop} {d : ℕ} (hl : s.loader = .after d)
    (hd : d < 256) (a : BitVec 10) : (s.next i).ram.mem a =
      if a = BitVec.ofNat 10 d then initData (BitVec.ofNat 16 d) else s.ram.mem a := by
  have haddr : (BitVec.ofNat 16 d).extractLsb' 0 10 = BitVec.ofNat 10 d := by
    apply BitVec.eq_of_toNat_eq
    simp only [BitVec.extractLsb'_toNat, BitVec.toNat_ofNat, Nat.shiftRight_zero]
    omega
  simp [next, Ram.next, ramPort, weSelect, hl, Loader.after_of_lt hd, Loader.wren, haddr]

/-- **Loading.**  `d` edges into a phase with the reset low the loader has written
`d` words, all of them are in the RAM, and the processor has waited. -/
theorem run_loading {m : ℕ} (hm : (run next w s₀ m).resetAh = true) : ∀ d,
    (∀ t, m < t → t ≤ m + 1 + d → (run next w s₀ t).resetAh = false) →
    (∀ t, m < t → t < m + 1 + d → RunWaits (run next w s₀ t)) →
    (run next w s₀ (m + 1 + d)).loader = .after d ∧
    (d < 256 → (run next w s₀ (m + 1 + d)).cpu.isdu = .halted) ∧
    (d ≤ 256 → ∀ a < d, (run next w s₀ (m + 1 + d)).ram.mem (BitVec.ofNat 10 a)
      = initData (BitVec.ofNat 16 a)) := by
  intro d
  induction d with
  | zero =>
    intro _ _
    rw [Nat.add_zero, run_succ, next_loader, hm]
    exact ⟨rfl, fun _ => next_halted hm, fun _ a ha => absurd ha (Nat.not_lt_zero a)⟩
  | succ d ih =>
    intro hlow hwaits
    obtain ⟨hl, hh, hmem⟩ := ih (fun t h1 h2 => hlow t h1 (by omega))
      (fun t h1 h2 => hwaits t h1 (by omega))
    have hnow := hlow (m + 1 + d) (by omega) (by omega)
    have hnext := hlow (m + 1 + (d + 1)) (by omega) (by omega)
    rw [← Nat.add_assoc] at hnext ⊢
    rw [run_succ] at hnext ⊢
    refine ⟨?_, fun hd => ?_, fun hd a ha => ?_⟩
    · rw [next_loader, hnow, hnext, hl, Loader.after_next]
      rfl
    · refine next_waits (hh (by omega)) (hwaits (m + 1 + d) (by omega) (by omega) hnow ?_ ?_)
      · rw [hl, Loader.after_of_lt (by omega)]
      · rw [hl, Loader.after_of_lt (by omega)]
        exact Loader.address_ne (by omega)
    · rw [next_loading hl (by omega)]
      by_cases had : a = d
      · rw [if_pos (by rw [had]), had]
      · have hne : BitVec.ofNat 10 a ≠ BitVec.ofNat 10 d := by
          intro he
          have := congrArg BitVec.toNat he
          simp only [BitVec.toNat_ofNat] at this
          omega
        rw [if_neg hne]
        exact hmem (by omega) a (by omega)

/-- Outside the first cycle of a later reset, and under `RunWaits`, an edge at which the
processor uses the RAM comes after the 256 edges of the loader. -/
theorem loaded_of_running (h0 : s₀.InReset) {n : ℕ}
    (hwaits : ∀ t < n, RunWaits (run next w s₀ t))
    (hfirst : (run next w s₀ n).resetAh = true → n = 0 ∨ (run next w s₀ (n - 1)).resetAh = true)
    (hrun : (run next w s₀ n).cpu.isdu ≠ .halted) :
    (run next w s₀ n).weSelect = false ∧
    ∃ m, m + 256 ≤ n ∧ (∀ t, m ≤ t → t ≤ n → (run next w s₀ t).resetAh = false) ∧
      ∀ a < 256, (run next w s₀ (m + 256)).ram.mem (BitVec.ofNat 10 a)
        = initData (BitVec.ofNat 16 a) := by
  have hlown : (run next w s₀ n).resetAh = false := by
    by_contra hr
    rcases hfirst (by simpa using hr) with rfl | hprev
    · exact hrun h0.halted
    · cases n with
      | zero => exact hrun h0.halted
      | succ n => exact hrun (next_halted hprev)
  obtain ⟨m, hmn, hm, hlow⟩ := exists_release h0.reset n hlown
  obtain ⟨d, rfl⟩ : ∃ d, n = m + 1 + d := ⟨n - (m + 1), by omega⟩
  obtain ⟨hl, hh, -⟩ := run_loading hm d hlow (fun t _ ht => hwaits t ht)
  have hd : 256 ≤ d := by
    by_contra hd
    exact hrun (hh (by omega))
  refine ⟨?_, m + 1, by omega, fun t h1 h2 => hlow t (by omega) h2, ?_⟩
  · rw [weSelect, hl, Loader.after_wren]
    exact decide_eq_false (by omega)
  · exact (run_loading hm 256 (fun t h1 h2 => hlow t h1 (by omega))
      (fun t _ h2 => hwaits t (by omega))).2.2 (Nat.le_refl _)

/-- **The loader and the processor share the port without contention**, if `Run`
waits for the loader.  Only the cycle in which a later reset rises is left
out. -/
theorem loader_cpu_exclusive (w : ℕ → TopInput) (s₀ : Sramtop) (h0 : s₀.InReset) (n : ℕ)
    (hwaits : ∀ t < n, RunWaits (run next w s₀ t))
    (hfirst : (run next w s₀ n).resetAh = true →
      n = 0 ∨ (run next w s₀ (n - 1)).resetAh = true) :
    ((run next w s₀ n).weSelect = true → (run next w s₀ n).cpu.isdu = .halted) ∧
    ((run next w s₀ n).cpu.oe = true ∨ (run next w s₀ n).cpu.we = true →
      (run next w s₀ n).ramPort = (run next w s₀ n).cpuPort ∧
      ∃ m, m + 256 ≤ n ∧ (∀ t, m ≤ t → t ≤ n → (run next w s₀ t).resetAh = false) ∧
        ∀ a < 256, (run next w s₀ (m + 256)).ram.mem (BitVec.ofNat 10 a)
          = initData (BitVec.ofNat 16 a)) := by
  refine ⟨?_, ?_⟩
  · intro hsel
    by_contra hrun
    rw [(loaded_of_running h0 hwaits hfirst hrun).1] at hsel
    cases hsel
  · intro huse
    have hrun : (run next w s₀ n).cpu.isdu ≠ .halted := by
      intro hh
      obtain ⟨h1, h2⟩ := quiet_of_halted hh
      rw [h1, h2] at huse
      simp at huse
    obtain ⟨hsel, hloaded⟩ := loaded_of_running h0 hwaits hfirst hrun
    exact ⟨by simp [ramPort, cpuPort, hsel], hloaded⟩

/-! ### Runs on fixed buttons -/

/-- The buttons, active low, with nothing on the switches. -/
def buttons (run continue_ : Bool) : TopInput :=
  { run := run, continue_ := continue_, sw := 0#10, busX := 0#16, ramX := 0#16 }

/-- Both buttons down, every register cleared. -/
def held : Sramtop where
  runS := false
  continueS := false
  cpu := { isdu := .halted, pc := 0#16, mdr := 0#16, mar := 0#16, ir := 0#16, ben := false,
           cc := 0#3, r := fun _ => 0#16, led := 0#10, hexData := 0#16 }
  loader := .start
  ram := { mem := fun _ => 0#16, q := 0#16 }

theorem held_inReset : held.InReset := ⟨rfl, rfl, rfl⟩

/-- Both buttons are released together and stay up: `RunWaits` holds. -/
theorem released_waits (t : ℕ) : RunWaits (run next (fun _ => buttons true true) held t) := by
  cases t with
  | zero => intro h; cases h
  | succ t => intro _ _ _; rfl

theorem loader_cpu_exclusive_released :
    ((run next (fun _ => buttons true true) held 300).weSelect = true →
      (run next (fun _ => buttons true true) held 300).cpu.isdu = .halted) ∧
    ((run next (fun _ => buttons true true) held 300).cpu.oe = true ∨
        (run next (fun _ => buttons true true) held 300).cpu.we = true →
      (run next (fun _ => buttons true true) held 300).ramPort =
        (run next (fun _ => buttons true true) held 300).cpuPort ∧
      ∃ m, m + 256 ≤ 300 ∧ (∀ t, m ≤ t → t ≤ 300 →
          (run next (fun _ => buttons true true) held t).resetAh = false) ∧
        ∀ a < 256, (run next (fun _ => buttons true true) held (m + 256)).ram.mem
          (BitVec.ofNat 10 a) = initData (BitVec.ofNat 16 a)) :=
  loader_cpu_exclusive (fun _ => buttons true true) held held_inReset 300
    (fun t _ => released_waits t) (fun h => by cases h)

/-- Up for 258 edges, then `Run`, then both. -/
def restart (t : ℕ) : TopInput :=
  if t < 258 then buttons true true else if t = 258 then buttons false true
  else buttons false false

/-- **The port is contended for** two edges after `Continue` is released with `Run`
still down; and, however long `Run` has waited, in the cycle in which a second
reset rises. -/
theorem loader_cpu_contend : held.InReset ∧
    ((run next (fun _ => buttons false true) held 2).weSelect = true ∧
      (run next (fun _ => buttons false true) held 2).cpu.isdu = .s18 ∧
      (run next (fun _ => buttons false true) held 2).resetAh = false) ∧
    ((run next restart held 260).weSelect = true ∧
      (run next restart held 260).cpu.isdu = .s18 ∧
      (run next restart held 259).resetAh = false) := by
  refine ⟨held_inReset, ⟨rfl, rfl, rfl⟩, ?_⟩
  decide +kernel

end Sramtop

end ECE385.Slc3
