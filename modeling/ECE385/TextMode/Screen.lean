import ECE385.TextMode.Driver
import Mathlib.Tactic.IntervalCases

/-!
# What the driver's calls mean

A `Screen` is what the calls are for: a character with two colours in every cell, and
the colours that have been set.  `Shows` says how a store represents one: the
character and the two colours of a cell in two bytes, two colours in one palette word,
equal in the memory and in the registers.

* `storeVRAM_eval`, `updatePALETTE_eval`: what an access of the driver does to the
  store.
* `Shows.clear`, `Shows.draw`, `Shows.setColour`: a call keeps the representation.
* `shows_calls`: so does every sequence of calls that starts with a clear.
-/

namespace ECE385.TextMode

open Bits Clocked

structure Cell where
  code : BitVec 8
  fg : BitVec 4
  bg : BitVec 4
  deriving DecidableEq

/-- The cells by column and row, and the colours that have been set. -/
structure Screen where
  cell : ℕ → ℕ → Cell
  colour : BitVec 4 → Option RGB

namespace Screen

def blank : Screen := ⟨fun _ _ => ⟨0, 0, 0⟩, fun _ => none⟩

def clear (scr : Screen) : Screen := { scr with cell := fun _ _ => ⟨0, 0, 0⟩ }

/-- Writing `str` from column `x` of row `y` on. -/
def draw (scr : Screen) (str : List (BitVec 8)) (x y : ℕ) (bg fg : BitVec 4) : Screen :=
  { scr with
    cell := fun x' y' =>
      if y' = y ∧ x ≤ x' then
        match str[x' - x]? with
        | some c => ⟨c, fg, bg⟩
        | none => scr.cell x' y'
      else scr.cell x' y' }

def setColour (scr : Screen) (c : BitVec 4) (rgb : RGB) : Screen :=
  { scr with colour := fun c' => if c' = c then some rgb else scr.colour c' }

end Screen

/-- The calls of the driver. -/
inductive Call
  | textVGAColorClr
  | textVGADrawColorText (str : List (BitVec 8)) (x y : ℕ) (background foreground : BitVec 4)
  | setColorPalette (color red green blue : BitVec 4)

/-- The characters of a C string, up to its terminator. -/
def cstr (str : List (BitVec 8)) : List (BitVec 8) := str.takeWhile (· ≠ 0)

namespace Call

/-- The text fits into its row. -/
def Valid : Call → Prop
  | textVGADrawColorText str x y _ _ => y < 30 ∧ x + (cstr str).length ≤ 80
  | _ => True

/-- The program the call runs. -/
def program : Call → Program
  | textVGAColorClr => TextMode.textVGAColorClr
  | textVGADrawColorText str x y background foreground =>
    TextMode.textVGADrawColorText str x y (background.setWidth 8) (foreground.setWidth 8)
  | setColorPalette color red green blue =>
    TextMode.setColorPalette (color.setWidth 8) (red.setWidth 8) (green.setWidth 8)
      (blue.setWidth 8)

/-- What the call means. -/
def apply (scr : Screen) : Call → Screen
  | textVGAColorClr => scr.clear
  | textVGADrawColorText str x y background foreground =>
    scr.draw (cstr str) x y background foreground
  | setColorPalette color red green blue => scr.setColour color ⟨red, green, blue⟩

/-- A sequence of calls. -/
def programs : List Call → Program
  | [] => .done
  | c :: cs => (programs cs).seq c.program

end Call

/-- The number of the palette word of a colour. -/
def wordIdx (c : BitVec 4) : BitVec 3 := c.extractLsb' 1 3

/-- The store represents the screen. -/
structure Shows (scr : Screen) (st : Store) : Prop where
  attr : ∀ x y, x < 80 → y < 30 →
    byteAt st.words ((y * 80 + x) * 2) = (scr.cell x y).fg ++ (scr.cell x y).bg
  code : ∀ x y, x < 80 → y < 30 → byteAt st.words ((y * 80 + x) * 2 + 1) = (scr.cell x y).code
  colour : ∀ c rgb, scr.colour c = some rgb →
    slice (c.getLsbD 0) (st.palette (wordIdx c)) = rgb ∧
    st.words (entry (wordIdx c)) = st.palette (wordIdx c)

/-! ### Accesses -/

/-- The meaning of a program on the store. -/
abbrev Store.exec (st : Store) (p : Program) : Store := p.eval Store.write Store.read st

theorem wordOf_low {i : ℕ} (hi : i < 8192) : (wordOf 12 i).getLsbD 11 = false := by
  have hlt : (wordOf 12 i).toNat < 2 ^ 11 := by
    rw [wordOf, BitVec.toNat_ofNat]
    omega
  rw [BitVec.getLsbD, Nat.testBit_lt_two_pow hlt]

theorem wordOf_ne_entry {i : ℕ} (hi : i < 8192) (e : BitVec 3) : entry e ≠ wordOf 12 i := by
  intro h
  have hlow := wordOf_low hi
  rw [← h, entry_high] at hlow
  cases hlow

theorem lane_spread (v : BitVec 8) {k : ℕ} (hk : k < 4) : lane k (v ++ v ++ v ++ v) = v := by
  rw [lane_append _ _ _ _ hk, ite_self, ite_self, ite_self]

/-- A byte of `VRAM` changes, and nothing else. -/
structure Poked (st st' : Store) (i : ℕ) (v : BitVec 8) : Prop where
  byte : ∀ j < 8192, byteAt st'.words j = if j = i then v else byteAt st.words j
  palette : st'.palette = st.palette
  entries : ∀ e, st'.words (entry e) = st.words (entry e)

theorem storeVRAM_eval {i : ℕ} (hi : i < 8192) (v : BitVec 8) (st : Store) :
    ∃ st', Poked st st' i v ∧ ∀ k, st.exec (storeVRAM i v k) = st'.exec k := by
  refine ⟨_, ⟨?_, ?_, ?_⟩, fun k => rfl⟩
  · intro j hj
    rw [Store.write, byteAt_writeWord st.words _ (by omega) (by omega),
      lane_spread v (Nat.mod_lt i (by omega))]
  · exact if_neg (by rw [wordOf_low hi]; exact Bool.false_ne_true)
  · intro e
    exact writeWord_of_ne (wordOf_ne_entry hi e)

theorem paletteWord_entry (e : BitVec 3) : paletteWord e.toNat = entry e := by
  revert e; decide

/-- The same change in both copies of a palette word. -/
def Store.setEntry (st : Store) (e : BitVec 3) (v : BitVec 32) : Store where
  words := fun a => if a = entry e then v else st.words a
  palette := fun e' => if e' = e then v else st.palette e'

theorem updatePALETTE_eval (e : BitVec 3) (f : BitVec 32 → BitVec 32) (k : Program) (st : Store) :
    st.exec (updatePALETTE e.toNat f k) = (st.setEntry e (f (st.words (entry e)))).exec k := by
  rw [updatePALETTE, paletteWord_entry]
  change (st.write ⟨entry e, 0xF#4, f (st.words (entry e))⟩).exec k = _
  congr 1
  ext1
  · funext a
    by_cases ha : a = entry e
    · subst ha
      simp [Store.write, Store.setEntry, writeWord_all]
    · simp [Store.write, Store.setEntry, writeWord_of_ne, ha]
  · simp [Store.write, Store.setEntry, entry_high, entry_low]

/-! ### Clearing -/

theorem vramSize_eq : vramSize = 4800 := rfl

/-- Every byte of `VRAM` is zero, and nothing else has changed. -/
structure Cleared (st st' : Store) : Prop where
  byte : ∀ j < 4800, byteAt st'.words j = 0
  palette : st'.palette = st.palette
  entries : ∀ e, st'.words (entry e) = st.words (entry e)

theorem clrLoop_eval : ∀ n ≤ 4800, ∀ st : Store,
    (∀ j < 4800, 4800 - n ≤ j → byteAt (st.exec (clrLoop n)).words j = 0) ∧
    (∀ j < 4800 - n, byteAt (st.exec (clrLoop n)).words j = byteAt st.words j) ∧
    (st.exec (clrLoop n)).palette = st.palette ∧
    ∀ e, (st.exec (clrLoop n)).words (entry e) = st.words (entry e) := by
  intro n
  induction n with
  | zero => exact fun _ st => ⟨fun j h h' => by omega, fun _ _ => rfl, rfl, fun _ => rfl⟩
  | succ n ih =>
    intro hn st
    obtain ⟨st', hpoke, hexec⟩ := storeVRAM_eval (i := 4800 - (n + 1)) (by omega) 0x00#8 st
    obtain ⟨hzero, hkeep, hpal, hent⟩ := ih (by omega) st'
    have hloop : st.exec (clrLoop (n + 1)) = st'.exec (clrLoop n) := by
      rw [clrLoop, vramSize_eq, hexec]
    rw [hloop]
    refine ⟨fun j hj hj' => ?_, fun j hj => ?_, hpal.trans hpoke.palette,
      fun e => (hent e).trans (hpoke.entries e)⟩
    · by_cases hlast : j = 4800 - (n + 1)
      · rw [hkeep j (by omega), hpoke.byte j (by omega), if_pos hlast]
        rfl
      · exact hzero j hj (by omega)
    · rw [hkeep j (by omega), hpoke.byte j (by omega), if_neg (by omega)]

theorem textVGAColorClr_eval (st : Store) : Cleared st (st.exec textVGAColorClr) := by
  obtain ⟨hzero, -, hpal, hent⟩ := clrLoop_eval 4800 (Nat.le_refl _) st
  rw [textVGAColorClr, vramSize_eq]
  exact ⟨fun j hj => hzero j hj (by omega), hpal, hent⟩

theorem Shows.of_cleared {scr : Screen} {st st' : Store} (hcl : Cleared st st')
    (hcell : ∀ x y, scr.cell x y = ⟨0, 0, 0⟩)
    (hcolour : ∀ c rgb, scr.colour c = some rgb →
      slice (c.getLsbD 0) (st.palette (wordIdx c)) = rgb ∧
      st.words (entry (wordIdx c)) = st.palette (wordIdx c)) : Shows scr st' := by
  refine ⟨fun x y hx hy => ?_, fun x y hx hy => ?_, fun c rgb hc => ?_⟩
  · rw [hcl.byte _ (by omega), hcell]
    rfl
  · rw [hcl.byte _ (by omega), hcell]
  · rw [hcl.palette, hcl.entries]
    exact hcolour c rgb hc

/-- A clear makes every store show the empty screen. -/
theorem shows_blank (st : Store) : Shows Screen.blank (st.exec textVGAColorClr) :=
  .of_cleared (textVGAColorClr_eval st) (fun _ _ => rfl) fun _ _ h => by cases h

theorem Shows.clear {scr : Screen} {st : Store} (h : Shows scr st) :
    Shows scr.clear (st.exec textVGAColorClr) :=
  .of_cleared (textVGAColorClr_eval st) (fun _ _ => rfl) h.colour

/-! ### Drawing -/

theorem Screen.draw_nil (scr : Screen) (x y : ℕ) (bg fg : BitVec 4) :
    scr.draw [] x y bg fg = scr := by
  simp [Screen.draw]

theorem Screen.draw_cons (scr : Screen) (c : BitVec 8) (str : List (BitVec 8)) (x y : ℕ)
    (bg fg : BitVec 4) :
    scr.draw (c :: str) x y bg fg = (scr.draw [c] x y bg fg).draw str (x + 1) y bg fg := by
  simp only [Screen.draw, Screen.mk.injEq, and_true]
  funext x' y'
  by_cases hy : y' = y
  · rcases Nat.lt_trichotomy x' x with hlt | rfl | hgt
    · rw [if_neg (by omega), if_neg (by omega), if_neg (by omega)]
    · simp [hy]
    · obtain ⟨d, rfl⟩ : ∃ d, x' = x + 1 + d := ⟨x' - (x + 1), by omega⟩
      simp [hy, show x + 1 + d - x = d + 1 by omega, show x ≤ x + 1 + d by omega]
  · rw [if_neg (by omega), if_neg (by omega), if_neg (by omega)]

theorem Screen.draw_single (scr : Screen) (c : BitVec 8) {x y x' y' : ℕ} (bg fg : BitVec 4) :
    (scr.draw [c] x y bg fg).cell x' y' =
      if y' = y ∧ x' = x then ⟨c, fg, bg⟩ else scr.cell x' y' := by
  simp only [Screen.draw]
  by_cases hcell : y' = y ∧ x' = x
  · simp [hcell]
  · rw [if_neg hcell]
    split
    · rw [List.getElem?_eq_none (by rw [List.length_singleton]; omega)]
    · rfl

/-- The byte with the two colours. -/
theorem attr_eq (fg bg : BitVec 4) :
    (fg.setWidth 8 <<< 4 ||| bg.setWidth 8 : BitVec 8) = fg ++ bg := by
  revert fg bg; decide

/-- The two stores of one character. -/
theorem Shows.drawChar {scr : Screen} {st st' st'' : Store} {x y : ℕ} {bg fg : BitVec 4}
    {c : BitVec 8} (h : Shows scr st) (hx : x < 80)
    (h' : Poked st st' ((y * 80 + x) * 2) (fg.setWidth 8 <<< 4 ||| bg.setWidth 8))
    (h'' : Poked st' st'' ((y * 80 + x) * 2 + 1) c) :
    Shows (scr.draw [c] x y bg fg) st'' := by
  refine ⟨fun x' y' hx' hy' => ?_, fun x' y' hx' hy' => ?_, fun k rgb hk => ?_⟩
  · rw [h''.byte _ (by omega), if_neg (by omega), h'.byte _ (by omega), Screen.draw_single]
    by_cases hcell : y' = y ∧ x' = x
    · rw [if_pos (by omega), if_pos hcell, attr_eq]
    · rw [if_neg (by omega), if_neg hcell, h.attr x' y' hx' hy']
  · rw [h''.byte _ (by omega), Screen.draw_single]
    by_cases hcell : y' = y ∧ x' = x
    · rw [if_pos (by omega), if_pos hcell]
    · rw [if_neg (by omega), h'.byte _ (by omega), if_neg (by omega), if_neg hcell,
        h.code x' y' hx' hy']
  · rw [h''.palette, h'.palette, h''.entries, h'.entries]
    exact h.colour k rgb hk

theorem Shows.drawLoop {bg fg : BitVec 4} {x y : ℕ} (hy : y < 30) :
    ∀ (str : List (BitVec 8)) (i : ℕ) {scr : Screen} {st : Store}, Shows scr st →
      x + i + (cstr str).length ≤ 80 →
      Shows (scr.draw (cstr str) (x + i) y bg fg)
        (st.exec (drawLoop x y (bg.setWidth 8) (fg.setWidth 8) i str)) := by
  intro str
  induction str with
  | nil =>
    intro i scr st h _
    rw [cstr, List.takeWhile_nil, Screen.draw_nil]
    exact h
  | cons c str ih =>
    intro i scr st h hlen
    by_cases hc : c = 0
    · rw [cstr, List.takeWhile_cons_of_neg (by simpa using hc), Screen.draw_nil,
        TextMode.drawLoop, if_pos hc]
      exact h
    · have hcstr : cstr (c :: str) = c :: cstr str := List.takeWhile_cons_of_pos (by simpa using hc)
      rw [hcstr, List.length_cons] at hlen
      obtain ⟨st', hpoke, hexec⟩ := storeVRAM_eval (i := (y * 80 + (x + i)) * 2) (by omega)
        (fg.setWidth 8 <<< 4 ||| bg.setWidth 8) st
      obtain ⟨st'', hpoke', hexec'⟩ := storeVRAM_eval (i := (y * 80 + (x + i)) * 2 + 1) (by omega)
        c st'
      have hloop : st.exec (TextMode.drawLoop x y (bg.setWidth 8) (fg.setWidth 8) i (c :: str)) =
          st''.exec (TextMode.drawLoop x y (bg.setWidth 8) (fg.setWidth 8) (i + 1) str) := by
        rw [TextMode.drawLoop, if_neg hc, COLUMNS, Nat.add_assoc, hexec, hexec']
      rw [hloop, hcstr, Screen.draw_cons]
      exact ih (i + 1) (h.drawChar (by omega) hpoke hpoke') (by omega)

/-! ### Colours -/

theorem wordIdx_toNat (c : BitVec 4) : (c.setWidth 8).toNat / 2 = (wordIdx c).toNat := by
  revert c; decide

theorem odd_iff (c : BitVec 4) : (c.setWidth 8).toNat % 2 = 1 ↔ c.getLsbD 0 = true := by
  revert c; decide

theorem eq_of_wordIdx {c d : BitVec 4} (h : wordIdx c = wordIdx d)
    (h' : c.getLsbD 0 = d.getLsbD 0) : c = d := by
  revert c d; decide

/-- `red`, `green` and `blue` in twelve bits of a word. -/
def packed (red green blue : BitVec 4) : BitVec 32 :=
  (((red.setWidth 8).setWidth 32 <<< 4) ||| (green.setWidth 8).setWidth 32) <<< 4 |||
    (blue.setWidth 8).setWidth 32

/-- The new word of `setColorPalette`. -/
def recolour (odd : Bool) (rgb v : BitVec 32) : BitVec 32 :=
  if odd then v &&& 0b00000000000000000001111111111110#32 ||| rgb <<< 13
  else v &&& 0b00000001111111111110000000000000#32 ||| rgb <<< 1

/-- Where the mask is clear the new bits are seen. -/
theorem extract_new (v m p : BitVec 32) {a : ℕ} (hm : m.extractLsb' a 4 = 0#4) :
    (v &&& m ||| p).extractLsb' a 4 = p.extractLsb' a 4 := by
  rw [BitVec.extractLsb'_or, BitVec.extractLsb'_and, hm, BitVec.and_zero, BitVec.zero_or]

/-- Where it is set, and nothing is added, the old ones. -/
theorem extract_old (v : BitVec 32) {m p : BitVec 32} {a : ℕ}
    (hm : m.extractLsb' a 4 = BitVec.allOnes 4) (hp : p.extractLsb' a 4 = 0#4) :
    (v &&& m ||| p).extractLsb' a 4 = v.extractLsb' a 4 := by
  rw [BitVec.extractLsb'_or, BitVec.extractLsb'_and, hm, hp, BitVec.and_allOnes, BitVec.or_zero]

/-- The three colours of a shifted word. -/
theorem packed_colours (red green blue : BitVec 4) {k : ℕ} (hk : k = 1 ∨ k = 13) :
    (packed red green blue <<< k).extractLsb' (k + 8) 4 = red ∧
    (packed red green blue <<< k).extractLsb' (k + 4) 4 = green ∧
    (packed red green blue <<< k).extractLsb' k 4 = blue := by
  rcases hk with rfl | rfl
  all_goals
    refine ⟨?_, ?_, ?_⟩
    all_goals
      apply BitVec.eq_of_getLsbD_eq
      intro i hi
      simp only [packed]
      interval_cases i <;> simp

/-- It has no bits above them and below them. -/
theorem packed_outside (red green blue : BitVec 4) {k a : ℕ} (ha : a + 4 ≤ k ∨ k + 12 ≤ a) :
    (packed red green blue <<< k).extractLsb' a 4 = 0#4 := by
  apply BitVec.eq_of_getLsbD_eq
  intro i hi
  have hzero : ∀ v : BitVec 4, ∀ j, 4 ≤ j → v.getLsbD j = false := fun v j hj =>
    BitVec.getLsbD_of_ge v j hj
  rw [BitVec.getLsbD_extractLsb', BitVec.getLsbD_shiftLeft, BitVec.getLsbD_zero]
  rcases ha with ha | ha
  · rw [decide_eq_true (show a + i < k by omega), Bool.not_true, Bool.and_false, Bool.false_and,
      Bool.and_false]
  · have hpacked : (packed red green blue).getLsbD (a + i - k) = false := by
      simp [packed, hzero _ (a + i - k) (by omega), hzero _ (a + i - k - 4) (by omega),
        hzero _ (a + i - k - 4 - 4) (by omega)]
    rw [hpacked, Bool.and_false, Bool.and_false]

/-- The new word has the new colour in its own half, and the old one in the other. -/
theorem slice_recolour (odd : Bool) (red green blue : BitVec 4) (v : BitVec 32) :
    slice odd (recolour odd (packed red green blue) v) = ⟨red, green, blue⟩ := by
  cases odd with
  | false =>
    obtain ⟨hr, hg, hb⟩ := packed_colours red green blue (k := 1) (.inl rfl)
    simp only [slice, recolour, Bool.false_eq_true, if_false]
    rw [extract_new _ _ _ (by decide), extract_new _ _ _ (by decide),
      extract_new _ _ _ (by decide), hr, hg, hb]
  | true =>
    obtain ⟨hr, hg, hb⟩ := packed_colours red green blue (k := 13) (.inr rfl)
    simp only [slice, recolour, if_true]
    rw [extract_new _ _ _ (by decide), extract_new _ _ _ (by decide),
      extract_new _ _ _ (by decide), hr, hg, hb]

theorem slice_recolour_other (odd : Bool) (red green blue : BitVec 4) (v : BitVec 32) :
    slice (!odd) (recolour odd (packed red green blue) v) = slice (!odd) v := by
  cases odd with
  | false =>
    simp only [slice, recolour, Bool.not_false, Bool.false_eq_true, if_false, if_true]
    rw [extract_old v (by decide) (packed_outside _ _ _ (by decide)),
      extract_old v (by decide) (packed_outside _ _ _ (by decide)),
      extract_old v (by decide) (packed_outside _ _ _ (by decide))]
  | true =>
    simp only [slice, recolour, Bool.not_true, Bool.false_eq_true, if_false, if_true]
    rw [extract_old v (by decide) (packed_outside _ _ _ (by decide)),
      extract_old v (by decide) (packed_outside _ _ _ (by decide)),
      extract_old v (by decide) (packed_outside _ _ _ (by decide))]

theorem Store.setEntry_setEntry (st : Store) (e : BitVec 3) (v v' : BitVec 32) :
    (st.setEntry e v).setEntry e v' = st.setEntry e v' := by
  ext1
  · funext a
    by_cases ha : a = entry e <;> simp [Store.setEntry, ha]
  · funext e'
    by_cases he : e' = e <;> simp [Store.setEntry, he]

theorem byteAt_setEntry (st : Store) (e : BitVec 3) (v : BitVec 32) {j : ℕ} (hj : j < 8192) :
    byteAt (st.setEntry e v).words j = byteAt st.words j := by
  rw [byteAt, byteAt, Store.setEntry]
  simp only [if_neg (wordOf_ne_entry hj e).symm]

theorem setColorPalette_eval (c red green blue : BitVec 4) (st : Store) :
    st.exec (setColorPalette (c.setWidth 8) (red.setWidth 8) (green.setWidth 8)
        (blue.setWidth 8)) =
      st.setEntry (wordIdx c) (recolour (c.getLsbD 0) (packed red green blue)
        (st.words (entry (wordIdx c)))) := by
  have hdone : ∀ st : Store, st.exec .done = st := fun _ => rfl
  have hself : ∀ v, (st.setEntry (wordIdx c) v).words (entry (wordIdx c)) = v :=
    fun _ => if_pos rfl
  rw [setColorPalette]
  simp only [wordIdx_toNat, odd_iff]
  cases hodd : c.getLsbD 0 with
  | true =>
    rw [if_pos rfl, updatePALETTE_eval, updatePALETTE_eval, hdone, hself, Store.setEntry_setEntry]
    rfl
  | false =>
    rw [if_neg Bool.false_ne_true, updatePALETTE_eval, updatePALETTE_eval, hdone, hself,
      Store.setEntry_setEntry]
    rfl

theorem Shows.setColour {scr : Screen} {st : Store} (h : Shows scr st)
    (c red green blue : BitVec 4) :
    Shows (scr.setColour c ⟨red, green, blue⟩)
      (st.exec (setColorPalette (c.setWidth 8) (red.setWidth 8) (green.setWidth 8)
        (blue.setWidth 8))) := by
  rw [setColorPalette_eval]
  refine ⟨fun x y hx hy => ?_, fun x y hx hy => ?_, fun d rgb hd => ?_⟩
  · exact (byteAt_setEntry st _ _ (by omega)).trans (h.attr x y hx hy)
  · exact (byteAt_setEntry st _ _ (by omega)).trans (h.code x y hx hy)
  · by_cases hw : wordIdx d = wordIdx c
    · simp only [Store.setEntry, hw, if_true]
      refine ⟨?_, trivial⟩
      by_cases hdc : d = c
      · subst hdc
        rw [slice_recolour]
        simpa [Screen.setColour] using hd
      · have hother : d.getLsbD 0 = !c.getLsbD 0 := by
          rw [Bool.eq_not]
          exact fun hlow => hdc (eq_of_wordIdx hw hlow)
        have hold : scr.colour d = some rgb := by simpa [Screen.setColour, hdc] using hd
        obtain ⟨hslice, hcoh⟩ := h.colour d rgb hold
        rw [hother, slice_recolour_other, ← hother, ← hw, hcoh, hslice]
    · have hdc : d ≠ c := fun hdc => hw (by rw [hdc])
      have hold : scr.colour d = some rgb := by simpa [Screen.setColour, hdc] using hd
      have hentry : entry (wordIdx d) ≠ entry (wordIdx c) := fun he => hw (entry_inj he)
      simp only [Store.setEntry, if_neg hw, if_neg hentry]
      exact h.colour d rgb hold

/-! ### Sequences of calls -/

theorem Shows.apply {scr : Screen} {st : Store} (h : Shows scr st) {c : Call} (hc : c.Valid) :
    Shows (c.apply scr) (st.exec c.program) := by
  cases c with
  | textVGAColorClr => exact h.clear
  | textVGADrawColorText str x y bg fg => exact Shows.drawLoop hc.1 str 0 h hc.2
  | setColorPalette c r g b => exact h.setColour c r g b

theorem Shows.calls (cs : List Call) :
    ∀ {scr : Screen} {st : Store}, Shows scr st → (∀ c ∈ cs, c.Valid) →
      Shows (cs.foldl Call.apply scr) (st.exec (Call.programs cs)) := by
  induction cs with
  | nil => exact fun h _ => h
  | cons c cs ih =>
    intro scr st h hcs
    have hseq : st.exec (Call.programs (c :: cs)) = (st.exec c.program).exec (Call.programs cs) :=
      Prog.eval_seq _ _ c.program _ st
    rw [hseq]
    exact ih (h.apply (hcs c List.mem_cons_self)) fun d hd => hcs d (List.mem_cons_of_mem c hd)

/-- **The driver.**  From any store, a clear and then any valid calls leave what the calls
mean. -/
theorem shows_calls (cs : List Call) (hcs : ∀ c ∈ cs, c.Valid) (st : Store) :
    Shows (cs.foldl Call.apply Screen.blank)
      (st.exec (Call.programs (.textVGAColorClr :: cs))) := by
  have hseq : st.exec (Call.programs (.textVGAColorClr :: cs)) =
      (st.exec textVGAColorClr).exec (Call.programs cs) :=
    Prog.eval_seq _ _ textVGAColorClr _ st
  rw [hseq]
  exact Shows.calls cs (shows_blank st) hcs

end ECE385.TextMode
