import ECE385.TextMode.Interface

/-!
# The VGA controller

`VGA_controller.sv` by itself.  The pixel clock has half the rate of `Clk`: since the release of
`Reset` there have been `(k + 1) / 2` pixel clocks after `k` edges of `Clk`.

* `Scans p`: the counters and the vertical sync after `p` pixel clocks.
* `run_scans`: all runs from a reset go through these.
* `vs_rises_iff`: so the edges of the vertical sync are known.
-/

namespace ECE385.Vga

open Clocked TextMode.Interface

structure Controller where
  clkdiv : Bool
  hc : BitVec 10
  vc : BitVec 10
  hs : Bool
  vs : Bool

namespace Controller

variable (s : Controller)

/-- One edge of `Clk` or of `Reset`. -/
def next (reset : Bool) (s : Controller) : Controller :=
  if reset then ⟨false, 0, 0, false, false⟩
  else if s.clkdiv then { s with clkdiv := false }
  else
    { clkdiv := true
      hc := (counters s.hc s.vc).1
      vc := (counters s.hc s.vc).2
      hs := hsync s.hc
      vs := vsync s.vc }

/-- The picture is drawn. -/
def display : Bool := !(640#10 ≤ s.hc || 480#10 ≤ s.vc)

/-! ### Pixel clocks -/

/-- Line `l` is one of the two of the vertical sync. -/
def syncs (l : ℕ) : Bool := l == 489 || l == 490

/-- The registers after `p` pixel clocks. -/
structure Scans (p : ℕ) (s : Controller) : Prop where
  hc : s.hc.toNat = p % 800
  vc : s.vc.toNat = p / 800 % 525
  vs : s.vs = (decide (0 < p) && !syncs ((p - 1) / 800 % 525))

variable {s : Controller} {p k : ℕ}

theorem scans_reset (s : Controller) : Scans 0 (s.next true) := ⟨rfl, rfl, rfl⟩

theorem vsync_eq (vc : BitVec 10) : vsync vc = !syncs vc.toNat := by
  rw [vsync, syncs, show (vc.toNat + 1 == 490) = (vc.toNat == 489) by
    rw [Bool.eq_iff_iff, beq_iff_eq, beq_iff_eq]; omega,
    show (vc.toNat + 1 == 491) = (vc.toNat == 490) by
      rw [Bool.eq_iff_iff, beq_iff_eq, beq_iff_eq]; omega]

/-- **A pixel clock.** -/
theorem Scans.next_rise (h : Scans p s) (hdiv : s.clkdiv = false) :
    Scans (p + 1) (s.next false) := by
  have hhc := h.hc
  have hvc := h.vc
  have hnext : s.next false = ⟨true, (counters s.hc s.vc).1, (counters s.hc s.vc).2, hsync s.hc,
      vsync s.vc⟩ := by
    rw [next, hdiv]
    rfl
  have hlast : s.hc = 799#10 ↔ p % 800 = 799 := by
    rw [← BitVec.toNat_inj, hhc]
    rfl
  have hbottom : s.vc = 524#10 ↔ p / 800 % 525 = 524 := by
    rw [← BitVec.toNat_inj, hvc]
    rfl
  have hcounters : (counters s.hc s.vc).1.toNat = (p + 1) % 800 ∧
      (counters s.hc s.vc).2.toNat = (p + 1) / 800 % 525 := by
    rw [counters]
    by_cases hx : s.hc = 799#10
    · rw [if_pos hx]
      rw [hlast] at hx
      refine ⟨by simp; omega, ?_⟩
      by_cases hy : s.vc = 524#10
      · rw [if_pos hy]
        rw [hbottom] at hy
        simp
        omega
      · rw [if_neg hy]
        rw [hbottom] at hy
        rw [BitVec.toNat_add, hvc]
        simp
        omega
    · rw [if_neg hx]
      rw [hlast] at hx
      rw [BitVec.toNat_add, hhc, hvc]
      simp
      omega
  rw [hnext]
  exact ⟨hcounters.1, hcounters.2, by rw [vsync_eq, hvc]; simp⟩

theorem Scans.next_fall (h : Scans p s) (hdiv : s.clkdiv = true) : Scans p (s.next false) := by
  have hnext : s.next false = { s with clkdiv := false } := by
    rw [next, hdiv]
    rfl
  rw [hnext]
  exact ⟨h.hc, h.vc, h.vs⟩

/-- **Runs from a reset.**  What a reset starts, a pixel clock counts on and the other edges keep
is known after every edge. -/
theorem run_pixels {R : ℕ → Controller → Prop} (hreset : ∀ s, R 0 (next true s))
    (hrise : ∀ p s, R p s → s.clkdiv = false → R (p + 1) (s.next false))
    (hfall : ∀ p s, R p s → s.clkdiv = true → R p (s.next false)) {w : ℕ → Bool} (s : Controller)
    (h0 : w 0 = true) :
    ∀ k, (∀ t, 0 < t → t ≤ k → w t = false) →
      (run next w s (k + 1)).clkdiv = decide (k % 2 = 1) ∧
        R ((k + 1) / 2) (run next w s (k + 1)) := by
  intro k
  induction k with
  | zero =>
    intro _
    rw [run_succ, h0]
    exact ⟨rfl, hreset _⟩
  | succ k ih =>
    intro hlow
    obtain ⟨hdiv, hscan⟩ := ih fun t ht hk => hlow t ht (by omega)
    rw [run_succ, hlow (k + 1) (by omega) (Nat.le_refl _)]
    rcases Nat.mod_two_eq_zero_or_one k with hpar | hpar
    · have hlow : (run next w s (k + 1)).clkdiv = false := by rw [hdiv, hpar]; rfl
      have hnext := hrise _ _ hscan hlow
      rw [show (k + 1) / 2 + 1 = (k + 1 + 1) / 2 by omega] at hnext
      refine ⟨?_, hnext⟩
      rw [next, hlow, decide_eq_true (by omega)]
      rfl
    · have hhigh : (run next w s (k + 1)).clkdiv = true := by rw [hdiv, hpar]; rfl
      have hnext := hfall _ _ hscan hhigh
      rw [show (k + 1) / 2 = (k + 1 + 1) / 2 by omega] at hnext
      refine ⟨?_, hnext⟩
      rw [next, hhigh, decide_eq_false (by omega)]
      rfl

theorem run_scans {w : ℕ → Bool} (s : Controller) (h0 : w 0 = true) :
    ∀ k, (∀ t, 0 < t → t ≤ k → w t = false) →
      (run next w s (k + 1)).clkdiv = decide (k % 2 = 1) ∧
        Scans ((k + 1) / 2) (run next w s (k + 1)) :=
  run_pixels scans_reset (fun _ _ => Scans.next_rise) (fun _ _ => Scans.next_fall) s h0

theorem syncs_eq_true {l : ℕ} : syncs l = true ↔ l = 489 ∨ l = 490 := by
  rw [syncs, Bool.or_eq_true, beq_iff_eq, beq_iff_eq]

/-- **The vertical sync** rises at the first pixel clock, and then once in a picture. -/
theorem vs_rises_iff {t : Controller} (hs : Scans p s) (ht : Scans (p + 1) t) :
    s.vs = false ∧ t.vs = true ↔ p = 0 ∨ p % (800 * 525) = 800 * 491 := by
  rw [hs.vs, ht.vs, Nat.add_sub_cancel, Bool.and_eq_false_iff, decide_eq_false_iff_not,
    Bool.not_eq_false', syncs_eq_true, Bool.and_eq_true, decide_eq_true_iff, Bool.not_eq_true',
    Bool.eq_false_iff, Ne, syncs_eq_true]
  omega

theorem display_eq_true : s.display = true ↔ s.hc.toNat < 640 ∧ s.vc.toNat < 480 := by
  rw [display, Bool.not_eq_true', Bool.or_eq_false_iff, decide_eq_false_iff_not,
    decide_eq_false_iff_not, BitVec.le_def, BitVec.le_def, Nat.not_le, Nat.not_le]
  rfl

end Controller

end ECE385.Vga
