import ECE385.Vga.Controller

/-!
# The sync pulses

Both pulses are registered, from a comparison with the counter plus one.  For `hc`, which moves
at every pixel clock, that makes up for the register.  But `vc` moves once in a line only, and
the vertical pulse comes a line early.

* `Pulses`: where the pulses should be.
* `pulses_iff`: where they are.
-/

namespace ECE385.Vga

open Clocked TextMode.Interface

namespace Controller

/-- `hs` too, after `p` pixel clocks. -/
structure Lines (p : ℕ) (s : Controller) : Prop extends Scans p s where
  hs : s.hs = (decide (0 < p) && !decide (656 ≤ p % 800 ∧ p % 800 ≤ 751))

/-- The counters are in range and the pulses are where they should be; the vertical one may be
late by the pixel clock of its register. -/
structure Pulses (s : Controller) : Prop where
  hc_le : s.hc.toNat ≤ 799
  vc_le : s.vc.toNat ≤ 524
  hs : s.hs = false ↔ 656 ≤ s.hc.toNat ∧ s.hc.toNat ≤ 751
  vs : s.hc.toNat ≠ 0 → (s.vs = false ↔ s.vc.toNat = 490 ∨ s.vc.toNat = 491)

/-- Pixel `p` is not on line `489` or `491`, or is the first of the line. -/
def OffEdge (p : ℕ) : Prop := p % 800 = 0 ∨ (p / 800 % 525 ≠ 489 ∧ p / 800 % 525 ≠ 491)

instance (p : ℕ) : Decidable (OffEdge p) := inferInstanceAs (Decidable (_ ∨ _))

/-- `vs` falls. -/
def Falls (s t : Controller) : Prop := s.vs = true ∧ t.vs = false

variable {s t : Controller} {p : ℕ} {w : ℕ → Bool}

/-! ### Pixel clocks -/

theorem lines_reset (s : Controller) : Lines 0 (s.next true) := ⟨scans_reset s, rfl⟩

theorem Lines.next_rise (h : Lines p s) (hdiv : s.clkdiv = false) :
    Lines (p + 1) (s.next false) := by
  have hnext : (s.next false).hs = hsync s.hc := by
    rw [next, hdiv]
    rfl
  refine ⟨h.toScans.next_rise hdiv, ?_⟩
  -- after the last pixel of a line the counter wraps, but `800` is past the pulse too
  have hin : (656 ≤ p % 800 + 1 ∧ p % 800 + 1 < 752) ↔
      656 ≤ (p + 1) % 800 ∧ (p + 1) % 800 ≤ 751 := by omega
  rw [hnext, hsync, h.hc, ← Bool.decide_and, decide_eq_decide.mpr hin,
    decide_eq_true (Nat.succ_pos p), Bool.true_and]

theorem Lines.next_fall (h : Lines p s) (hdiv : s.clkdiv = true) : Lines p (s.next false) := by
  have hnext : (s.next false).hs = s.hs := by
    rw [next, hdiv]
    rfl
  exact ⟨h.toScans.next_fall hdiv, hnext.trans h.hs⟩

theorem run_lines (s : Controller) (h0 : w 0 = true) (hlow : ∀ t, 0 < t → w t = false) (k : ℕ) :
    Lines ((k + 1) / 2) (run next w s (k + 1)) :=
  (run_pixels lines_reset (fun _ _ => Lines.next_rise) (fun _ _ => Lines.next_fall) s h0 k
    fun t ht _ => hlow t ht).2

/-! ### The pulses -/

theorem Lines.pulses_offEdge (h : Lines p s) (hp : 0 < p) : Pulses s ↔ OffEdge p := by
  have hvs : s.vs = false ↔ (p - 1) / 800 % 525 = 489 ∨ (p - 1) / 800 % 525 = 490 := by
    rw [h.vs, decide_eq_true hp, Bool.true_and, Bool.not_eq_false', syncs_eq_true]
  constructor
  · intro hpulses
    by_cases hfirst : p % 800 = 0
    · exact .inl hfirst
    · have hline := hpulses.vs (by rw [h.hc]; exact hfirst)
      rw [hvs, h.vc] at hline
      exact .inr (by omega)
  · intro hoff
    refine ⟨?_, ?_, ?_, ?_⟩
    · rw [h.hc]
      omega
    · rw [h.vc]
      omega
    · rw [h.hs, h.hc, decide_eq_true hp, Bool.true_and, Bool.not_eq_false', decide_eq_true_iff]
    · intro hfirst
      rw [h.hc] at hfirst
      rw [hvs, h.vc]
      rcases hoff with hzero | hlines
      · exact absurd hzero hfirst
      · omega

theorem falls_iff (hs : Scans p s) (ht : Scans (p + 1) t) :
    Falls s t ↔ p % (800 * 525) = 800 * 489 := by
  rw [Falls, hs.vs, ht.vs, Nat.add_sub_cancel, Bool.and_eq_true, Bool.and_eq_false_iff,
    decide_eq_false_iff_not, decide_eq_true_iff, Bool.not_eq_true', Bool.not_eq_false',
    Bool.eq_false_iff, Ne, syncs_eq_true, syncs_eq_true]
  omega

/-- **The sync pulses.**  In every run from a reset, from the first pixel clock on, they are where
they should be exactly if the pixel is not on line `489` or `491`.  There is one vertical pulse
in `525` lines. -/
theorem pulses_iff (w : ℕ → Bool) (s : Controller) (h0 : w 0 = true)
    (hlow : ∀ t, 0 < t → w t = false) :
    (∀ k, 1 ≤ k → (Pulses (run next w s (k + 1)) ↔ OffEdge ((k + 1) / 2))) ∧
    ∀ n, ∃! p, n ≤ p ∧ p < n + 800 * 525 ∧
      Falls (run next w s (2 * p + 1)) (run next w s (2 * p + 3)) := by
  refine ⟨fun k hk => (run_lines s h0 hlow k).pulses_offEdge (by omega), ?_⟩
  have hfalls : ∀ p, Falls (run next w s (2 * p + 1)) (run next w s (2 * p + 3)) ↔
      p % (800 * 525) = 800 * 489 := by
    intro p
    have hs := (run_lines s h0 hlow (2 * p)).toScans
    have ht := (run_lines s h0 hlow (2 * p + 2)).toScans
    rw [show (2 * p + 1) / 2 = p by omega] at hs
    rw [show (2 * p + 2 + 1) / 2 = p + 1 by omega] at ht
    exact falls_iff hs ht
  intro n
  have hwindow : ∃ p, n ≤ p ∧ p < n + 800 * 525 ∧ p % (800 * 525) = 800 * 489 :=
    ⟨n + (800 * 489 + 800 * 525 - n % (800 * 525)) % (800 * 525), by omega⟩
  obtain ⟨p, hle, hlt, hline⟩ := hwindow
  refine ⟨p, ⟨hle, hlt, (hfalls p).mpr hline⟩, ?_⟩
  rintro q ⟨hq, hq', hfall⟩
  have := (hfalls q).mp hfall
  omega

/-- The first pixel clock after a reset. -/
theorem pulses_iff_first : Pulses (run next (fun t => t == 0) ⟨true, 5, 5, true, true⟩ 2) ↔
    OffEdge 1 :=
  (pulses_iff (fun t => t == 0) ⟨true, 5, 5, true, true⟩ rfl
    (fun t ht => beq_false_of_ne (by omega))).1 1 (Nat.le_refl 1)

/-- On line `489` the vertical pulse has begun. -/
theorem not_pulses : ¬∀ (w : ℕ → Bool) (s : Controller), w 0 = true →
    (∀ t, 0 < t → w t = false) → ∀ k, 1 ≤ k → Pulses (run next w s (k + 1)) := by
  intro h
  have hlow : ∀ t, 0 < t → (t == 0) = false := fun t ht => beq_false_of_ne (by omega)
  have hlines := run_lines ⟨false, 0, 0, false, false⟩ (w := fun t => t == 0) rfl hlow
    (2 * (800 * 489 + 1))
  have hoff := (hlines.pulses_offEdge (by omega)).mp
    (h _ _ rfl hlow (2 * (800 * 489 + 1)) (by omega))
  revert hoff
  decide

end Controller

end ECE385.Vga
