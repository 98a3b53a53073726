import ECE385.TextMode.Latency

/-!
# A deselected slave

Without `AVL_CS` the palette takes nothing and the write data are zero, but the write enable of
the memory is `AVL_WRITE` alone: a deselected write clears the enabled bytes of a word.

* `ocmNext_eq_iff`: what such a cycle leaves alone.
* `inert_iff`: the memory, the palette and the pixels stay in those runs whose writes find zeros,
  and in no others.
-/

namespace ECE385.TextMode

open Bits Clocked

/-- The cycle is one of another slave. -/
structure Input.Deselected (i : Input) : Prop where
  avlCs : i.avlCs = false
  reset : i.reset = false

/-- It writes only where the memory `m` holds zeros. -/
def Input.Harmless (m : BitVec 12 → BitVec 32) (i : Input) : Prop :=
  i.avlWrite = true → ∀ k < 4, i.avlByteEn.getLsbD k = true → lane k (m i.avlAddr) = 0#8

namespace Interface

variable {font_rom : BitVec 11 → BitVec 8} {s : Interface} {i : Input}

theorem paletteNext_deselected (h : i.Deselected) : s.paletteNext i = s.palette := by
  refine paletteNext_keep ?_ h.reset
  rw [Input.loadsPalette, h.avlCs, Bool.false_and, Bool.false_and]

theorem lane_zero (k : ℕ) : lane k 0#32 = 0#8 := by
  simp [lane]

/-- **What a deselected cycle leaves alone.** -/
theorem ocmNext_eq_iff (h : i.Deselected) : s.ocmNext i = s.ocm ↔ i.Harmless s.ocm := by
  have hdata : localData i = 0#32 := by
    rw [localData, h.avlCs, if_neg Bool.false_ne_true]
    rfl
  cases hwrite : i.avlWrite with
  | false =>
    have hharmless : i.Harmless s.ocm := fun ht => Bool.noConfusion (hwrite.symm.trans ht)
    exact iff_of_true (ocmNext_of_not_write hwrite) hharmless
  | true =>
    rw [ocmNext, if_pos hwrite, hdata, writeWord_eq_iff, merge_eq_iff]
    simp only [Input.Harmless, hwrite, true_implies, lane_zero]
    exact forall_congr' fun k => forall_congr' fun _ => forall_congr' fun _ => eq_comm

/-- Nothing changes up to edge `n`: not the memory, nor the palette, nor a pixel. -/
structure Unchanged (font_rom : BitVec 11 → BitVec 8) (w : ℕ → Input) (s : Interface) (n : ℕ) :
    Prop where
  ocm : ∀ m ≤ n, (run (next font_rom) w s m).ocm = s.ocm
  palette : ∀ m ≤ n, (run (next font_rom) w s m).palette = s.palette
  rgb : ∀ m < n, 1 ≤ m →
    let u := run (next font_rom) w s m
    u.rises (w m) = true → ¬(w (fetchEdge w m)).Hits (mid u.hc u.vc) →
      (u.next font_rom (w m)).rgb = picture font_rom s u.hc u.vc

variable {w : ℕ → Input} {n : ℕ}

variable (font_rom) in
theorem run_palette (hw : ∀ t < n, (w t).Deselected) :
    ∀ m ≤ n, (run (next font_rom) w s m).palette = s.palette := by
  intro m
  induction m with
  | zero => exact fun _ => rfl
  | succ m ih =>
    intro hm
    exact (paletteNext_deselected (hw m hm)).trans (ih (Nat.le_of_succ_le hm))

variable (font_rom) in
theorem run_ocm (hw : ∀ t < n, (w t).Deselected) (h : ∀ t < n, (w t).Harmless s.ocm) :
    ∀ m ≤ n, (run (next font_rom) w s m).ocm = s.ocm := by
  intro m
  induction m with
  | zero => exact fun _ => rfl
  | succ m ih =>
    intro hm
    have hocm := ih (Nat.le_of_succ_le hm)
    have hharmless := h m hm
    rw [← hocm] at hharmless
    exact ((ocmNext_eq_iff (hw m hm)).mpr hharmless).trans hocm

/-- While the memory and the palette stay, the screen shows what it showed. -/
theorem run_picture (hw : ∀ t < n, (w t).Deselected)
    (hocm : ∀ m ≤ n, (run (next font_rom) w s m).ocm = s.ocm) {m : ℕ} (hmn : m < n) (hm : 1 ≤ m)
    (hrise : (run (next font_rom) w s m).rises (w m) = true)
    (hword : ¬(w (fetchEdge w m)).Hits
      (mid (run (next font_rom) w s m).hc (run (next font_rom) w s m).vc)) :
    ((run (next font_rom) w s m).next font_rom (w m)).rgb =
      picture font_rom s (run (next font_rom) w s m).hc (run (next font_rom) w s m).vc := by
  obtain ⟨k, rfl⟩ : ∃ k, m = k + 1 := ⟨m - 1, by omega⟩
  have hpal := run_palette font_rom (s := s) hw (k + 1) (Nat.le_of_lt hmn)
  have hcolours : (run (next font_rom) w s (k + 1)).colours (w (k + 1)) = s.palette := by
    rw [colours, paletteNext_deselected (hw _ hmn), hpal, ite_self]
  rw [next_rgb hrise, sampled_eq (hw k (by omega)).reset hrise hword, hcolours, hocm _ (by omega)]
  rfl

/-- **A deselected slave is inert exactly when its writes find zeros.** -/
theorem inert_iff (font_rom : BitVec 11 → BitVec 8) (w : ℕ → Input) (s : Interface) (n : ℕ)
    (hw : ∀ t < n, (w t).Deselected) :
    Unchanged font_rom w s n ↔ ∀ t < n, (w t).Harmless s.ocm := by
  constructor
  · intro h t ht
    have hocm := h.ocm t (Nat.le_of_lt ht)
    have hkeep : (run (next font_rom) w s t).ocmNext (w t) = (run (next font_rom) w s t).ocm :=
      (h.ocm (t + 1) ht).trans hocm.symm
    rw [← hocm]
    exact (ocmNext_eq_iff (hw t ht)).mp hkeep
  · intro h
    have hocm := run_ocm font_rom hw h
    exact ⟨hocm, run_palette font_rom hw, fun m hmn hm => run_picture hw hocm hmn hm⟩

/-- Writes of another slave to an empty memory. -/
theorem inert_iff_blank :
    Unchanged (fun _ => 0#8) (fun _ => { idle with avlWrite := true, avlAddr := 5#12 }) blank 100 :=
  (inert_iff _ _ blank 100 fun _ _ => ⟨rfl, rfl⟩).mpr fun _ _ _ _ _ _ => by decide +revert

/-- A deselected write of ones to word `1` clears it. -/
theorem deselected_write_clears :
    ¬∀ (font_rom : BitVec 11 → BitVec 8) (w : ℕ → Input) (s : Interface) (n : ℕ),
      (∀ t < n, (w t).Deselected) → Unchanged font_rom w s n := by
  intro h
  have hkeep := (h (fun _ => 0#8)
    (fun _ => { idle with avlWrite := true, avlAddr := 1#12, avlWritedata := 0xFFFFFFFF#32 })
    numbered 1 fun _ _ => ⟨rfl, rfl⟩).ocm 1 (Nat.le_refl 1)
  have hword := congrFun hkeep 1#12
  revert hword
  decide

end Interface

end ECE385.TextMode
