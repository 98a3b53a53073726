import ECE385.TextMode.Latency
import ECE385.TextMode.Screen
import Mathlib.Logic.Relation

/-!
# From the driver to the pixel

The pixel logic unpacks what the driver has packed: of the word `mid` it takes the half of
the cell under the pixel, of that half the glyph and the two colours, and of the palette
word of a colour the half of that colour.

* `pixel_shows`: on a store that shows a screen, the pixel has the colour the screen
  gives it.
* `scan_reaches`: the raster passes over every pixel.
* `driver_to_pixel`: the display after any calls that begin with a clear.
-/

namespace ECE385.TextMode

open Bits Clocked

/-- The colour of a pixel: the glyph of its cell decides between the two of the cell. -/
def Screen.ink (font_rom : BitVec 11 → BitVec 8) (scr : Screen) (drawX drawY : ℕ) : BitVec 4 :=
  let cell := scr.cell (drawX / 8) (drawY / 16)
  let glyph := font_rom (cell.code.extractLsb' 0 7 ++ BitVec.ofNat 4 (drawY % 16))
  if glyph.getLsbD (7 - drawX % 8) ≠ cell.code.getLsbD 7 then cell.fg else cell.bg

/-! ### Unpacking -/

theorem lanes_high (v : BitVec 32) : v.extractLsb' 16 16 = lane 3 v ++ lane 2 v := by
  apply BitVec.eq_of_getLsbD_eq
  intro i hi
  simp only [lane, BitVec.getLsbD_append, BitVec.getLsbD_extractLsb', decide_eq_true hi,
    Bool.true_and]
  split
  · simp_all
  · simp only [decide_eq_true (show i - 8 < 8 by omega), Bool.true_and]
    congr 1
    omega

theorem lanes_low (v : BitVec 32) : v.extractLsb' 0 16 = lane 1 v ++ lane 0 v := by
  apply BitVec.eq_of_getLsbD_eq
  intro i hi
  simp only [lane, BitVec.getLsbD_append, BitVec.getLsbD_extractLsb', decide_eq_true hi,
    Bool.true_and]
  split
  · simp_all
  · simp only [decide_eq_true (show i - 8 < 8 by omega), Bool.true_and]
    congr 1
    omega

/-- The number of the cell. -/
theorem curr_toNat {drawX drawY : BitVec 10} (hX : drawX.toNat < 640) (hY : drawY.toNat < 480) :
    (curr drawX drawY).toNat = drawY.toNat / 16 * 80 + drawX.toNat / 8 := by
  rw [curr, row_toNat, col_toNat, BitVec.toNat_ofNat, Nat.mod_eq_of_lt (by omega)]

/-- The logic takes the two bytes of the cell. -/
theorem cashmoney_eq (m : BitVec 12 → BitVec 32) {drawX drawY : BitVec 10}
    (hX : drawX.toNat < 640) (hY : drawY.toNat < 480) :
    cashmoney drawX drawY (m (mid drawX drawY)) =
      byteAt m ((drawY.toNat / 16 * 80 + drawX.toNat / 8) * 2 + 1) ++
        byteAt m ((drawY.toNat / 16 * 80 + drawX.toNat / 8) * 2) := by
  have hcurr := curr_toNat hX hY
  generalize hk : drawY.toNat / 16 * 80 + drawX.toNat / 8 = k at hcurr ⊢
  have hmid : mid drawX drawY = wordOf 12 (k * 2) ∧ mid drawX drawY = wordOf 12 (k * 2 + 1) := by
    rw [mid, wordOf, wordOf, hcurr]
    constructor <;> congr 1 <;> omega
  rw [byteAt, byteAt, ← hmid.1, ← hmid.2, cashmoney, BitVec.getLsbD, Nat.testBit_zero, hcurr]
  rcases Nat.mod_two_eq_zero_or_one k with hpar | hpar
  · rw [if_neg (by simp [hpar]), lanes_low, show (k * 2 + 1) % 4 = 1 by omega,
      show k * 2 % 4 = 0 by omega]
  · rw [if_pos (by simp [hpar]), lanes_high, show (k * 2 + 1) % 4 = 3 by omega,
      show k * 2 % 4 = 2 by omega]

theorem cell_bit (code : BitVec 8) (fg bg : BitVec 4) (i : ℕ) :
    (code ++ (fg ++ bg)).getLsbD i =
      if i < 8 then if i < 4 then bg.getLsbD i else fg.getLsbD (i - 4)
      else code.getLsbD (i - 8) := by
  rw [BitVec.getLsbD_append, BitVec.getLsbD_append]

/-- The fields of a cell. -/
theorem cell_fields (code : BitVec 8) (fg bg : BitVec 4) :
    (code ++ (fg ++ bg)).extractLsb' 8 8 = code ∧
    (code ++ (fg ++ bg)).getLsbD 4 = fg.getLsbD 0 ∧
    (code ++ (fg ++ bg)).extractLsb' 5 3 = wordIdx fg ∧
    (code ++ (fg ++ bg)).getLsbD 0 = bg.getLsbD 0 ∧
    (code ++ (fg ++ bg)).extractLsb' 1 3 = wordIdx bg := by
  refine ⟨?_, ?_, ?_, ?_, ?_⟩
  · apply BitVec.eq_of_getLsbD_eq
    intro i hi
    rw [BitVec.getLsbD_extractLsb', decide_eq_true hi, Bool.true_and, cell_bit,
      if_neg (by omega), Nat.add_sub_cancel_left]
  · exact cell_bit code fg bg 4
  · apply BitVec.eq_of_getLsbD_eq
    intro i hi
    rw [BitVec.getLsbD_extractLsb', decide_eq_true hi, Bool.true_and, cell_bit,
      if_pos (by omega), if_neg (by omega), wordIdx, BitVec.getLsbD_extractLsb',
      decide_eq_true hi, Bool.true_and, show 5 + i - 4 = 1 + i by omega]
  · exact cell_bit code fg bg 0
  · apply BitVec.eq_of_getLsbD_eq
    intro i hi
    rw [BitVec.getLsbD_extractLsb', decide_eq_true hi, Bool.true_and, cell_bit,
      if_pos (by omega), if_pos (by omega), wordIdx, BitVec.getLsbD_extractLsb',
      decide_eq_true hi, Bool.true_and]

theorem column_bit (drawX : BitVec 10) :
    (~~~drawX.extractLsb' 0 3).toNat = 7 - drawX.toNat % 8 := by
  rw [BitVec.toNat_not, BitVec.extractLsb'_toNat]
  simp

theorem row_bits (drawY : BitVec 10) :
    drawY.extractLsb' 0 4 = BitVec.ofNat 4 (drawY.toNat % 16) := by
  apply BitVec.eq_of_toNat_eq
  rw [BitVec.extractLsb'_toNat, BitVec.toNat_ofNat]
  simp

theorem xor_iff (a b : Bool) : (a ^^ b) = true ↔ a ≠ b := by
  cases a <;> cases b <;> decide

/-- **The pixel logic** shows the screen a store represents, where the colours are set. -/
theorem pixel_shows {font_rom : BitVec 11 → BitVec 8} {scr : Screen} {st : Store}
    (h : Shows scr st) {drawX drawY : BitVec 10} (hX : drawX.toNat < 640)
    (hY : drawY.toNat < 480) {rgb : RGB}
    (hrgb : scr.colour (scr.ink font_rom drawX.toNat drawY.toNat) = some rgb) :
    pixel font_rom st.palette (st.words (mid drawX drawY)) drawX drawY = rgb := by
  obtain ⟨hchar, hfg, hfg', hbg, hbg'⟩ := cell_fields
    (scr.cell (drawX.toNat / 8) (drawY.toNat / 16)).code
    (scr.cell (drawX.toNat / 8) (drawY.toNat / 16)).fg
    (scr.cell (drawX.toNat / 8) (drawY.toNat / 16)).bg
  simp only [pixel, if_pos (And.intro hX hY), cashmoney_eq st.words hX hY,
    h.attr _ _ (show drawX.toNat / 8 < 80 by omega) (show drawY.toNat / 16 < 30 by omega),
    h.code _ _ (show drawX.toNat / 8 < 80 by omega) (show drawY.toNat / 16 < 30 by omega),
    hchar, hfg, hfg', hbg, hbg', column_bit, row_bits]
  rw [Screen.ink] at hrgb
  simp only [xor_iff]
  split at hrgb
  · next hne =>
    rw [if_pos hne]
    exact (h.colour _ _ hrgb).1
  · next heq =>
    rw [if_neg heq]
    exact (h.colour _ _ hrgb).1

/-! ### The raster -/

namespace Interface

variable {font_rom : BitVec 11 → BitVec 8} {w : ℕ → Input}

/-- The raster moves from one pixel to another. -/
abbrev Scans : BitVec 10 × BitVec 10 → BitVec 10 × BitVec 10 → Prop :=
  Relation.ReflTransGen fun p q => q = counters p.1 p.2

theorem scan_right (v : BitVec 10) : ∀ (d : ℕ) (h h' : BitVec 10), h'.toNat = h.toNat + d →
    (h'.toNat ≤ 799 ∨ 799 < h.toNat) → Scans (h, v) (h', v) := by
  intro d
  induction d with
  | zero =>
    intro h h' hd _
    rw [show h' = h from BitVec.eq_of_toNat_eq hd]
  | succ d ih =>
    intro h h' hd hside
    have hlt := h'.isLt
    have hsucc : (h + 1#10).toNat = h.toNat + 1 := by
      rw [BitVec.toNat_add, Nat.mod_eq_of_lt (by simp; omega)]
      rfl
    have hne : h ≠ 799#10 := by
      rintro rfl
      simp at hd hside
      omega
    refine .head (b := (h + 1#10, v)) ?_ (ih _ _ (by omega) (by omega))
    simp [counters, hne]

/-- From anywhere the raster comes to the start of the next line. -/
theorem scan_line (h v : BitVec 10) :
    Scans (h, v) (0#10, if v = 524#10 then 0#10 else v + 1) := by
  have hend : Scans (799#10, v) (0#10, if v = 524#10 then 0#10 else v + 1) :=
    .single (by simp [counters])
  have hlt := h.isLt
  by_cases hle : h.toNat ≤ 799
  · exact (scan_right v (799 - h.toNat) h 799#10 (by simp; omega) (.inl (by simp))).trans hend
  · have hwrap : Scans (1023#10, v) (0#10, v) := .single (by simp [counters])
    exact ((scan_right v (1023 - h.toNat) h 1023#10 (by simp; omega) (.inr (by omega))).trans
      hwrap).trans ((scan_right v 799 0#10 799#10 (by simp) (.inl (by simp))).trans hend)

theorem scan_down : ∀ (d : ℕ) (v v' : BitVec 10), v'.toNat = v.toNat + d →
    (v'.toNat ≤ 524 ∨ 524 < v.toNat) → Scans (0#10, v) (0#10, v') := by
  intro d
  induction d with
  | zero =>
    intro v v' hd _
    rw [show v' = v from BitVec.eq_of_toNat_eq hd]
  | succ d ih =>
    intro v v' hd hside
    have hlt := v'.isLt
    have hsucc : (v + 1).toNat = v.toNat + 1 := by
      rw [BitVec.toNat_add, Nat.mod_eq_of_lt (by simp; omega)]
      rfl
    have hne : v ≠ 524#10 := by
      rintro rfl
      simp at hd hside
      omega
    have hline := scan_line 0#10 v
    rw [if_neg hne] at hline
    exact hline.trans (ih _ _ (by omega) (by omega))

/-- **The raster passes over every pixel**, from anywhere. -/
theorem scan_reaches (p : BitVec 10 × BitVec 10) {x y : BitVec 10} (hx : x.toNat ≤ 799)
    (hy : y.toNat ≤ 524) : Scans p (x, y) := by
  have htop : ∀ v, Scans (0#10, v) (0#10, 0#10) := by
    intro v
    have hlt := v.isLt
    have hend := scan_line 0#10 524#10
    rw [if_pos rfl] at hend
    by_cases hle : v.toNat ≤ 524
    · exact (scan_down (524 - v.toNat) v 524#10 (by simp; omega) (.inl (by simp))).trans hend
    · have hwrap := scan_line 0#10 1023#10
      rw [if_neg (by decide), show 1023#10 + 1 = 0#10 by decide] at hwrap
      exact (scan_down (1023 - v.toNat) v 1023#10 (by simp; omega) (.inr (by omega))).trans hwrap
  exact ((scan_line p.1 p.2).trans (htop _)).trans
    ((scan_down y.toNat 0#10 y (by simp) (.inl hy)).trans
      (scan_right y x.toNat 0#10 x (by simp) (.inl hx)))

/-! ### The display -/

variable {s : Interface}

variable (font_rom) in
/-- Two idle edges that start with the pixel clock low move the raster by one pixel. -/
theorem idle_tick {i j : Input} (hi : Idling i) (hj : Idling j) (hclk : s.clkdiv = false) :
    ((s.next font_rom i).next font_rom j).clkdiv = false ∧
    ((s.next font_rom i).next font_rom j).hc = (counters s.hc s.vc).1 ∧
    ((s.next font_rom i).next font_rom j).vc = (counters s.hc s.vc).2 := by
  simp [next, rises, hi.reset, hj.reset, hclk]

theorem run_scan (hw : ∀ n, Idling (w n)) {p q : BitVec 10 × BitVec 10} (hpq : Scans p q) :
    ∀ m, (run (next font_rom) w s m).clkdiv = false →
      ((run (next font_rom) w s m).hc, (run (next font_rom) w s m).vc) = p →
      ∃ n ≥ m, (run (next font_rom) w s n).clkdiv = false ∧
        ((run (next font_rom) w s n).hc, (run (next font_rom) w s n).vc) = q := by
  induction hpq with
  | refl => exact fun m hclk hp => ⟨m, Nat.le_refl m, hclk, hp⟩
  | @tail b c _ hstep ih =>
    intro m hclk hp
    obtain ⟨n, hmn, hclk', hb⟩ := ih m hclk hp
    obtain ⟨hclk'', hh, hv⟩ := idle_tick font_rom (hw n) (hw (n + 1)) hclk'
    refine ⟨n + 2, by omega, hclk'', ?_⟩
    rw [hstep, ← hb]
    exact Prod.ext hh hv

/-- The raster comes to every pixel while the port is idle. -/
theorem run_reaches (hw : ∀ n, Idling (w n)) {x y : BitVec 10} (hx : x.toNat ≤ 799)
    (hy : y.toNat ≤ 524) :
    ∃ n ≥ 1, (run (next font_rom) w s n).clkdiv = false ∧
      (run (next font_rom) w s n).hc = x ∧ (run (next font_rom) w s n).vc = y := by
  obtain ⟨m, hm, hclk⟩ : ∃ m ≥ 1, (run (next font_rom) w s m).clkdiv = false := by
    have hflip : ∀ n, (run (next font_rom) w s (n + 1)).clkdiv =
        !(run (next font_rom) w s n).clkdiv := by
      intro n
      simp [run_succ, next, (hw n).reset]
    cases hclk : (run (next font_rom) w s 1).clkdiv with
    | false => exact ⟨1, by omega, hclk⟩
    | true => exact ⟨2, by omega, by rw [hflip 1, hclk]; rfl⟩
  obtain ⟨n, hn, hclk', hpos⟩ := run_scan hw (scan_reaches _ hx hy) m hclk rfl
  exact ⟨n, by omega, hclk', congrArg Prod.fst hpos, congrArg Prod.snd hpos⟩

variable (font_rom) in
theorem run_view (hw : ∀ n, Idling (w n)) : ∀ n, (run (next font_rom) w s n).view = s.view := by
  intro n
  have hkeep : ∀ i t, Idling i → t.view = s.view → (next font_rom i t).view = s.view := by
    intro i t hi ht
    rw [view_keep hi.reset hi.write, ht]
  exact run_invariant hkeep rfl n fun t _ => hw t

/-- What the pixel clock latches while the port is idle. -/
theorem run_rgb (hw : ∀ n, Idling (w n)) {n : ℕ} (hn : 1 ≤ n)
    (hclk : (run (next font_rom) w s n).clkdiv = false) :
    (run (next font_rom) w s (n + 1)).rgb =
      pixel font_rom s.palette
        (s.ocm (mid (run (next font_rom) w s n).hc (run (next font_rom) w s n).vc))
        (run (next font_rom) w s n).hc (run (next font_rom) w s n).vc := by
  obtain ⟨m, rfl⟩ : ∃ m, n = m + 1 := ⟨n - 1, by omega⟩
  have hidle := hw (m + 1)
  have hview := run_view font_rom (s := s) hw (m + 1)
  have hocm : (run (next font_rom) w s (m + 1)).ocm = s.ocm := congrArg Store.words hview
  have hpal : (run (next font_rom) w s (m + 1)).palette = s.palette := congrArg Store.palette hview
  have hload : (w (m + 1)).loadsPalette = false := by simp [Input.loadsPalette, hidle.write]
  have hrise : (run (next font_rom) w s (m + 1)).rises (w (m + 1)) = true := by
    simp [rises, hidle.reset, hclk]
  have hword : ∀ t addr, ¬(w t).Hits addr := fun t _ hhit =>
    Bool.noConfusion ((hw t).write.symm.trans hhit.1)
  rw [run_succ, next_rgb hrise, sampled_eq (hw m).reset hrise (hword _ _), colours,
    paletteNext_keep hload hidle.reset, hocm, hpal, ite_self]

/-- **Driver to pixel.**  From any state, let the driver make a clear and then any calls
`cs`, the port being idle before, between and after the transfers.  Then every visible
pixel whose colour has been set is shown, and shown in that colour only. -/
theorem driver_to_pixel (font_rom : BitVec 11 → BitVec 8) (cs : List Call)
    (hcs : ∀ c ∈ cs, c.Valid) (s t : Interface)
    (hexec : Exec (avalon font_rom) (Call.programs (.textVGAColorClr :: cs)) s t)
    (w : ℕ → Input) (hw : ∀ n, Idling (w n)) (x y : BitVec 10) (hx : x.toNat < 640)
    (hy : y.toNat < 480) (rgb : RGB)
    (hrgb : (cs.foldl Call.apply Screen.blank).colour
      ((cs.foldl Call.apply Screen.blank).ink font_rom x.toNat y.toNat) = some rgb) :
    (∃ n ≥ 1, (run (next font_rom) w t n).clkdiv = false ∧
      (run (next font_rom) w t n).hc = x ∧ (run (next font_rom) w t n).vc = y) ∧
    ∀ n ≥ 1, (run (next font_rom) w t n).clkdiv = false →
      (run (next font_rom) w t n).hc = x → (run (next font_rom) w t n).vc = y →
      (run (next font_rom) w t (n + 1)).rgb = rgb := by
  refine ⟨run_reaches hw (by omega) (by omega), fun n hn hclk hhc hvc => ?_⟩
  have hshows : Shows (cs.foldl Call.apply Screen.blank) t.view := by
    rw [exec_view hexec]
    exact shows_calls cs hcs s.view
  rw [run_rgb hw hn hclk, hhc, hvc]
  exact pixel_shows hshows hx hy hrgb

/-- White on blue, in the middle of the screen. -/
def hello : List Call :=
  [.setColorPalette 15 0xF 0xF 0xF, .setColorPalette 1 0 0 0xA,
   .textVGADrawColorText [0x48#8, 0x49#8] 39 15 1 15]

theorem driver_to_pixel_hello :
    ∃ t : Interface, ∃ n,
      Exec (avalon fun _ => 0xFF#8) (Call.programs (.textVGAColorClr :: hello)) blank t ∧
      (run (next fun _ => 0xFF#8) (fun _ => idle) t (n + 1)).rgb = ⟨0xF, 0xF, 0xF⟩ := by
  obtain ⟨t, ht⟩ := avalon_exec_exists (fun _ => 0xFF#8)
    (Call.programs (.textVGAColorClr :: hello)) blank
  obtain ⟨⟨n, hn, hclk, hx, hy⟩, hshow⟩ := driver_to_pixel (fun _ => 0xFF#8) hello
    (by simp [hello, Call.Valid, cstr]) blank t ht (fun _ => idle)
    (fun _ => ⟨rfl, rfl, rfl⟩) 320#10 240#10 (by decide) (by decide) ⟨0xF, 0xF, 0xF⟩ (by decide)
  exact ⟨t, n, ht, hshow n hn hclk hx hy⟩

end Interface

end ECE385.TextMode
