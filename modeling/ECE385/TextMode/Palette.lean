import ECE385.TextMode.Interface

/-!
# The two copies of the palette

A palette word lives twice: as a word of the memory, where the driver reads it back,
and in the registers `palette`, where the pixel logic takes it from.  The memory is
written under `AVL_WRITE` with the byte enables and the full address; the registers
are written under `AVL_CS`, without the byte enables, at every address whose bit 11
is set, and are cleared by `RESET`.

* `Clean`: the cycles that treat the two alike.
* `coherent_next`: such a cycle keeps every written entry coherent.
* `reads_back`: so a read returns the register, in every run of such cycles.
-/

namespace ECE385.TextMode

open Bits Clocked

/-- The address of a palette entry. -/
def entry (e : BitVec 3) : BitVec 12 := 0x100#9 ++ e

theorem entry_low (e : BitVec 3) : (entry e).extractLsb' 0 3 = e := by
  revert e; decide

theorem entry_high (e : BitVec 3) : (entry e).getLsbD 11 = true := by
  revert e; decide

theorem entry_inj {e f : BitVec 3} (h : entry e = entry f) : e = f := by
  rw [← entry_low e, h, entry_low]

/-- The cycle writes an entry at its own address, with chip select. -/
def Input.Writes (i : Input) (e : BitVec 3) : Prop :=
  i.avlCs = true ∧ i.avlWrite = true ∧ i.avlAddr = entry e

/-- The entry has been written before edge `n`. -/
def Written (w : ℕ → Input) (n : ℕ) (e : BitVec 3) : Prop := ∃ t < n, (w t).Writes e

/-- The cycles that treat the two copies of the written entries `W` alike. -/
structure Clean (W : BitVec 3 → Prop) (i : Input) : Prop where
  /-- An entry is written whole. -/
  whole : ∀ e, i.Writes e → i.avlByteEn = 0xF#4
  /-- A write elsewhere in the upper half names no written entry in its low bits. -/
  own : i.loadsPalette = true → W (i.avlAddr.extractLsb' 0 3) →
    i.avlAddr = entry (i.avlAddr.extractLsb' 0 3)
  /-- A write without chip select hits no written entry, unless `RESET` clears the register
  too. -/
  selected : ∀ e, i.avlCs = false → i.avlWrite = true → i.avlAddr = entry e → W e →
    i.avlByteEn = 0x0#4 ∨ (i.reset = true ∧ i.avlByteEn = 0xF#4)
  /-- `RESET` finds no written entry in the low bits of the address, unless the memory is
  cleared too. -/
  reset : i.reset = true → i.loadsPalette = false → W (i.avlAddr.extractLsb' 0 3) →
    i.avlCs = false ∧ i.avlWrite = true ∧ i.avlAddr = entry (i.avlAddr.extractLsb' 0 3) ∧
      i.avlByteEn = 0xF#4

namespace Interface

variable {font_rom : BitVec 11 → BitVec 8}

/-- A read of the entry returns the register of the pixel logic. -/
def ReadsBack (font_rom : BitVec 11 → BitVec 8) (s : Interface) (e : BitVec 3) : Prop :=
  ∀ i : Input, i.avlCs = true → i.avlRead = true → i.avlWrite = false → i.avlAddr = entry e →
    (s.next font_rom i).readdata i = s.palette e

theorem readsBack_of_eq {s : Interface} {e : BitVec 3} (h : s.ocm (entry e) = s.palette e) :
    ReadsBack font_rom s e := by
  intro i hcs hread hwrite haddr
  simp [readdata, next, qANext, ocmNext, hcs, hread, hwrite, haddr, h]

/-! ### One cycle -/

variable {s : Interface} {i : Input} {e : BitVec 3}

theorem ocmNext_of_not_write (h : i.avlWrite = false) : s.ocmNext i = s.ocm := by
  simp [ocmNext, h]

theorem ocmNext_of_ne {a : BitVec 12} (h : a ≠ i.avlAddr) : s.ocmNext i a = s.ocm a := by
  unfold ocmNext
  split
  · exact writeWord_of_ne h
  · rfl

theorem ocmNext_whole (hwrite : i.avlWrite = true) (hbe : i.avlByteEn = 0xF#4) :
    s.ocmNext i i.avlAddr = localData i := by
  simp [ocmNext, hwrite, hbe, writeWord_all]

theorem paletteNext_load (h : i.loadsPalette = true) (e : BitVec 3) :
    s.paletteNext i e = if e = i.avlAddr.extractLsb' 0 3 then i.avlWritedata else s.palette e := by
  rw [paletteNext, if_pos h]

theorem paletteNext_reset (h : i.loadsPalette = false) (hr : i.reset = true) (e : BitVec 3) :
    s.paletteNext i e = if e = i.avlAddr.extractLsb' 0 3 then 0 else s.palette e := by
  rw [paletteNext, if_neg (by rw [h]; exact Bool.false_ne_true), if_pos hr]

theorem paletteNext_keep (h : i.loadsPalette = false) (hr : i.reset = false) :
    s.paletteNext i = s.palette := by
  rw [paletteNext, if_neg (by rw [h]; exact Bool.false_ne_true),
    if_neg (by rw [hr]; exact Bool.false_ne_true)]

/-- **A clean cycle** keeps a written entry coherent, and makes coherent the one it
writes. -/
theorem coherent_next {W : BitVec 3 → Prop} (hclean : Clean W i)
    (h : W e → s.ocm (entry e) = s.palette e) (hw : W e ∨ i.Writes e) :
    (s.ocmNext i) (entry e) = (s.paletteNext i) e := by
  by_cases hwr : i.Writes e
  · obtain ⟨hcs, hwrite, haddr⟩ := hwr
    have hload : i.loadsPalette = true := by
      simp [Input.loadsPalette, hcs, hwrite, haddr, entry_high]
    rw [paletteNext_load hload, ← haddr, ocmNext_whole hwrite (hclean.whole e ⟨hcs, hwrite, haddr⟩),
      localData, if_pos hcs, haddr, entry_low, if_pos rfl]
  · have hW : W e := hw.resolve_right hwr
    specialize h hW
    cases hload : i.loadsPalette with
    | true =>
      have hsel : i.avlCs = true ∧ i.avlWrite = true := by
        simp only [Input.loadsPalette, Bool.and_eq_true] at hload
        exact hload.1
      have hne : e ≠ i.avlAddr.extractLsb' 0 3 := by
        rintro rfl
        exact hwr ⟨hsel.1, hsel.2, hclean.own hload hW⟩
      have haddr : entry e ≠ i.avlAddr := by
        intro haddr
        exact hwr ⟨hsel.1, hsel.2, haddr.symm⟩
      rw [paletteNext_load hload, if_neg hne, ocmNext_of_ne haddr, h]
    | false =>
      cases hr : i.reset with
      | true =>
        rw [paletteNext_reset hload hr]
        by_cases he : e = i.avlAddr.extractLsb' 0 3
        · obtain ⟨hcs, hwrite, haddr, hbe⟩ := hclean.reset hr hload (he ▸ hW)
          rw [if_pos he, he, ← haddr, ocmNext_whole hwrite hbe, localData,
            if_neg (by rw [hcs]; exact Bool.false_ne_true)]
        · have haddr : entry e ≠ i.avlAddr := fun haddr => he (by rw [← haddr, entry_low])
          rw [if_neg he, ocmNext_of_ne haddr, h]
      | false =>
        rw [paletteNext_keep hload hr, ← h]
        by_cases haddr : entry e = i.avlAddr
        · cases hwrite : i.avlWrite with
          | false => rw [ocmNext_of_not_write hwrite]
          | true =>
            have hcs : i.avlCs = false := by
              cases hcs : i.avlCs with
              | false => rfl
              | true => exact absurd ⟨hcs, hwrite, haddr.symm⟩ hwr
            rcases hclean.selected e hcs hwrite haddr.symm hW with hbe | ⟨hr', -⟩
            · simp [ocmNext, hwrite, hbe, haddr, writeWord_self, merge_none]
            · rw [hr] at hr'
              cases hr'
        · exact ocmNext_of_ne haddr

/-- **Read-back.**  In a run of clean cycles a read of a written entry returns what the
pixel logic uses, whatever the memory and the registers held at first. -/
theorem reads_back (font_rom : BitVec 11 → BitVec 8) (w : ℕ → Input) (s : Interface) (n : ℕ)
    (hclean : ∀ t < n, Clean (Written w t) (w t)) (e : BitVec 3) (he : Written w n e) :
    ReadsBack font_rom (run (next font_rom) w s n) e := by
  have hcoh : ∀ m ≤ n, Written w m e →
      (run (next font_rom) w s m).ocm (entry e) = (run (next font_rom) w s m).palette e := by
    intro m
    induction m with
    | zero => rintro - ⟨t, ht, -⟩; exact absurd ht (Nat.not_lt_zero t)
    | succ m ih =>
      rintro hm ⟨t, ht, hwr⟩
      refine coherent_next (hclean m hm) (ih (Nat.le_of_succ_le hm)) ?_
      rcases Nat.lt_succ_iff_lt_or_eq.mp ht with hlt | rfl
      · exact .inl ⟨t, hlt, hwr⟩
      · exact .inr hwr
  exact readsBack_of_eq (hcoh n (Nat.le_refl n) he)

/-- An idle cycle. -/
def idle : Input where
  reset := false
  avlRead := false
  avlWrite := false
  avlCs := false
  avlByteEn := 0xF#4
  avlAddr := 0
  avlWritedata := 0
  dontCare := 0
  late := true

/-- A selected write. -/
def transfer (addr : BitVec 12) (be : BitVec 4) (data : BitVec 32) : Input :=
  { idle with avlWrite := true, avlCs := true, avlByteEn := be, avlAddr := addr,
              avlWritedata := data }

/-- Everything zero. -/
def blank : Interface where
  ocm := fun _ => 0
  qA := 0
  pixeldata := 0
  palette := fun _ => 0
  clkdiv := false
  hc := 0
  vc := 0
  hs := false
  vs := false
  rgb := ⟨0, 0, 0⟩

theorem reads_back_blank :
    ReadsBack (fun _ => 0#8)
      (run (next fun _ => 0#8) (fun _ => transfer 0x803#12 0xF#4 0x1ABC#32) blank 2) 3#3 := by
  refine reads_back _ _ blank 2 (fun t _ => ⟨fun _ _ => rfl, fun _ _ => rfl, ?_, ?_⟩) 3#3
    ⟨0, by omega, rfl, rfl, rfl⟩
  · intro _ h
    cases h
  · intro h
    cases h

/-- Entry `3` is written whole, and then the word `0x80B`, which only the registers take for
it. -/
def aliasWrite : ℕ → Input
  | 0 => transfer 0x803#12 0xF#4 0x1ABC#32
  | _ => transfer 0x80B#12 0xF#4 0x0#32

/-- The read that follows returns the first word, the pixel logic uses the second. -/
theorem alias_not_read_back :
    Written aliasWrite 2 3#3 ∧
    ¬ReadsBack (fun _ => 0#8) (run (next fun _ => 0#8) aliasWrite blank 2) 3#3 := by
  refine ⟨⟨0, by omega, rfl, rfl, rfl⟩, fun h => ?_⟩
  have hread := h { idle with avlRead := true, avlCs := true, avlAddr := entry 3#3 } rfl rfl rfl rfl
  revert hread
  decide

end Interface

end ECE385.TextMode
