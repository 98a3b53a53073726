import ECE385.TextMode.Palette

/-!
# The word under the beam

Port b of the memory registers its address on `CLK`, so `pixeldata` is one edge of `CLK` behind the
counters.  The counters move at every second edge only, with the pixel clock, so that the word is
there when the pixel clock rises.

* `next_pixeldata`: an edge of `CLK` between two rising edges of the pixel clock fetches the word.
* `rises_iff`: the pixel clock rises at every second edge after a reset.
* `never_smears`: so every pixel is coloured with the word of its own cell.
-/

namespace ECE385.TextMode

open Clocked

/-- The cycle writes the word at `addr`. -/
def Input.Hits (i : Input) (addr : BitVec 12) : Prop := i.avlWrite = true ∧ i.avlAddr = addr

/-- The edge of `CLK` that fetched what the pixel clock samples at edge `n`. -/
def fetchEdge (w : ℕ → Input) (n : ℕ) : ℕ := if (w n).late then n else n - 1

theorem row_toNat (drawY : BitVec 10) : (drawY.extractLsb' 4 6).toNat = drawY.toNat / 16 := by
  rw [BitVec.extractLsb'_toNat, Nat.shiftRight_eq_div_pow]
  omega

theorem col_toNat (drawX : BitVec 10) : (drawX.extractLsb' 3 7).toNat = drawX.toNat / 8 := by
  rw [BitVec.extractLsb'_toNat, Nat.shiftRight_eq_div_pow]
  omega

/-- No number of a cell is too long for `curr`, so nothing of it is cut off. -/
theorem mid_eq (drawX drawY : BitVec 10) :
    mid drawX drawY = BitVec.ofNat 12 ((drawY.toNat / 16 * 80 + drawX.toNat / 8) / 2) := by
  have hX := drawX.isLt
  have hY := drawY.isLt
  rw [mid, curr, row_toNat, col_toNat, BitVec.toNat_ofNat, Nat.mod_eq_of_lt (by omega)]

namespace Interface

variable {font_rom : BitVec 11 → BitVec 8} {s : Interface} {i : Input}

/-- The `pixeldata` that the pixel clock samples. -/
def sampled (i : Input) (s : Interface) : BitVec 32 :=
  if i.late then s.pixeldataNext i else s.pixeldata

/-- The palette that it samples. -/
def colours (i : Input) (s : Interface) : BitVec 3 → BitVec 32 :=
  if i.late then s.paletteNext i else s.palette

/-- The pixel that the memory and the palette make at a place of the screen. -/
def picture (font_rom : BitVec 11 → BitVec 8) (s : Interface) (drawX drawY : BitVec 10) : RGB :=
  pixel font_rom s.palette (s.ocm (mid drawX drawY)) drawX drawY

theorem next_rgb (h : s.rises i = true) :
    (s.next font_rom i).rgb = pixel font_rom (s.colours i) (s.sampled i) s.hc s.vc := by
  rw [next, sampled, colours, if_pos h]
  split_ifs <;> rfl

theorem pixeldataNext_of_not_hits (h : ¬i.Hits (mid s.hc s.vc)) :
    s.pixeldataNext i = s.ocm (mid s.hc s.vc) := if_neg h

theorem ocmNext_of_not_hits {addr : BitVec 12} (h : ¬i.Hits addr) :
    s.ocmNext i addr = s.ocm addr := by
  cases hwrite : i.avlWrite with
  | false => rw [ocmNext_of_not_write hwrite]
  | true => exact ocmNext_of_ne fun haddr => h ⟨hwrite, haddr.symm⟩

variable (font_rom) in
/-- **Between two rising edges** the counters stand still, and the word under them is fetched. -/
theorem next_pixeldata (hr : i.reset = false) (hclk : s.clkdiv = true)
    (h : ¬i.Hits (mid s.hc s.vc)) :
    (s.next font_rom i).pixeldata = (s.next font_rom i).ocm (mid s.hc s.vc) ∧
    (s.next font_rom i).hc = s.hc ∧ (s.next font_rom i).vc = s.vc := by
  refine ⟨(pixeldataNext_of_not_hits h).trans (ocmNext_of_not_hits h).symm, ?_, ?_⟩
  all_goals simp [next, rises, hr, hclk]

theorem clkdiv_next (hr : i.reset = false) : (s.next font_rom i).clkdiv = !s.clkdiv := by
  simp [next, hr]

variable {w : ℕ → Input}

/-- **No smear**, at an edge that some edge without a reset precedes. -/
theorem sampled_eq {n : ℕ} (hr : (w n).reset = false)
    (hrise : (run (next font_rom) w s (n + 1)).rises (w (n + 1)) = true)
    (hword : ¬(w (fetchEdge w (n + 1))).Hits
      (mid (run (next font_rom) w s (n + 1)).hc (run (next font_rom) w s (n + 1)).vc)) :
    (run (next font_rom) w s (n + 1)).sampled (w (n + 1)) = (run (next font_rom) w s (n + 1)).ocm
      (mid (run (next font_rom) w s (n + 1)).hc (run (next font_rom) w s (n + 1)).vc) := by
  cases hlate : (w (n + 1)).late with
  | true =>
    rw [fetchEdge, hlate, if_pos rfl] at hword
    rw [sampled, hlate, if_pos rfl, pixeldataNext_of_not_hits hword]
  | false =>
    have hclk : (run (next font_rom) w s n).clkdiv = true := by
      simp only [rises, Bool.and_eq_true, Bool.not_eq_true', run_succ, clkdiv_next hr,
        Bool.not_eq_false'] at hrise
      exact hrise.2
    have hfetch : fetchEdge w (n + 1) = n := by simp [fetchEdge, hlate]
    rw [hfetch] at hword
    have hstill : ¬(w n).Hits
        (mid (run (next font_rom) w s n).hc (run (next font_rom) w s n).vc) := by
      simpa [run_succ, next, rises, hr, hclk] using hword
    obtain ⟨hdata, hhc, hvc⟩ := next_pixeldata font_rom hr hclk hstill
    rw [sampled, hlate, if_neg Bool.false_ne_true, run_succ, hhc, hvc, hdata]

/-- The pixel clock divides `CLK` by two from the reset on. -/
theorem run_clkdiv (hreset : (w 0).reset = true) (hrun : ∀ t, 1 ≤ t → (w t).reset = false) (n : ℕ) :
    (run (next font_rom) w s (n + 1)).clkdiv = decide (n % 2 = 1) := by
  induction n with
  | zero => simp [run_succ, next, hreset]
  | succ n ih =>
    rw [run_succ, clkdiv_next (hrun (n + 1) (by omega)), ih, ← decide_not]
    exact decide_eq_decide.mpr (by omega)

theorem rises_iff (hreset : (w 0).reset = true) (hrun : ∀ t, 1 ≤ t → (w t).reset = false) (n : ℕ)
    (hn : 1 ≤ n) : (run (next font_rom) w s n).rises (w n) = true ↔ n % 2 = 1 := by
  obtain ⟨n, rfl⟩ : ∃ k, n = k + 1 := ⟨n - 1, by omega⟩
  rw [rises, hrun (n + 1) hn, run_clkdiv hreset hrun n, Bool.not_false, Bool.true_and, ← decide_not,
    decide_eq_true_iff]
  omega

/-- **The latency of the memory never smears a character.**  The pixel clock rises at the odd edges
after `RESET`.  From the second of them on, the pixel is coloured with the word of the cell under
the counters, as the memory holds it, unless that word was written while it was fetched. -/
theorem never_smears (font_rom : BitVec 11 → BitVec 8) (w : ℕ → Input) (s : Interface)
    (hreset : (w 0).reset = true) (hrun : ∀ t, 1 ≤ t → (w t).reset = false) (n : ℕ) (hn : 1 ≤ n) :
    let u := run (next font_rom) w s n
    (u.rises (w n) = true ↔ n % 2 = 1) ∧
    (1 < n → u.rises (w n) = true → ¬(w (fetchEdge w n)).Hits (mid u.hc u.vc) →
      u.sampled (w n) = u.ocm (BitVec.ofNat 12 ((u.vc.toNat / 16 * 80 + u.hc.toNat / 8) / 2)) ∧
      (u.next font_rom (w n)).rgb =
        pixel font_rom (u.colours (w n)) (u.sampled (w n)) u.hc u.vc) := by
  intro u
  refine ⟨rises_iff hreset hrun n hn, fun hlt hrise hword => ⟨?_, next_rgb hrise⟩⟩
  obtain ⟨n, rfl⟩ : ∃ k, n = k + 1 := ⟨n - 1, by omega⟩
  rw [← mid_eq]
  exact sampled_eq (hrun n (by omega)) hrise hword

/-- A reset at the first edge. -/
def started (t : ℕ) : Input := { idle with reset := t == 0, late := t % 2 == 0 }

/-- A memory that holds its addresses. -/
def numbered : Interface := { blank with ocm := fun a => a.setWidth 32, hc := 17#10 }

/-- The second pixel of the raster. -/
theorem never_smears_second :
    (run (next fun _ => 0#8) started numbered 3).sampled (started 3) = 0#32 ∧
    (run (next fun _ => 0#8) started numbered 3).hc = 1#10 := by
  have h := (never_smears (fun _ => 0#8) started numbered rfl
    (fun t ht => beq_false_of_ne (Nat.ne_of_gt ht)) 3 (by decide)).2 (by decide) (by decide)
    fun hhit => Bool.noConfusion hhit.1
  exact ⟨h.1.trans (by decide), by decide⟩

end Interface

end ECE385.TextMode
