import ECE385.TextMode.Display

/-!
# The screen saver

`textVGAColorScreenSaver` draws one text after the other, in random colours and at a random
place.  `rand k` is what the `k`th call of `rand` returns.

* `pick`: the loop that looks for two colours; `saverRounds`: the texts drawn.
* `pick_isSome_iff`: it ends where two colours in a row differ.
* `Legible.draw`: a text keeps every character apart from its background.
* `screen_saver_shows`: the display after any number of rounds.
-/

namespace ECE385.TextMode

open Bits Clocked

/-! ### The program -/

structure COLOR where
  name : List (BitVec 8)
  red : BitVec 4
  green : BitVec 4
  blue : BitVec 4

/-- A string literal. -/
def chars (str : List Char) : List (BitVec 8) := str.map fun c => BitVec.ofNat 8 c.toNat

def colors : List COLOR := [
  ⟨chars ['b', 'l', 'a', 'c', 'k'], 0x0, 0x0, 0x0⟩,
  ⟨chars ['b', 'l', 'u', 'e'], 0x0, 0x0, 0xa⟩,
  ⟨chars ['g', 'r', 'e', 'e', 'n'], 0x0, 0xa, 0x0⟩,
  ⟨chars ['c', 'y', 'a', 'n'], 0x0, 0xa, 0xa⟩,
  ⟨chars ['r', 'e', 'd'], 0xa, 0x0, 0x0⟩,
  ⟨chars ['m', 'a', 'g', 'e', 'n', 't', 'a'], 0xa, 0x0, 0xa⟩,
  ⟨chars ['b', 'r', 'o', 'w', 'n'], 0xa, 0x5, 0x0⟩,
  ⟨chars ['l', 'i', 'g', 'h', 't', ' ', 'g', 'r', 'a', 'y'], 0xa, 0xa, 0xa⟩,
  ⟨chars ['d', 'a', 'r', 'k', ' ', 'g', 'r', 'a', 'y'], 0x5, 0x5, 0x5⟩,
  ⟨chars ['l', 'i', 'g', 'h', 't', ' ', 'b', 'l', 'u', 'e'], 0x5, 0x5, 0xf⟩,
  ⟨chars ['l', 'i', 'g', 'h', 't', ' ', 'g', 'r', 'e', 'e', 'n'], 0x5, 0xf, 0x5⟩,
  ⟨chars ['l', 'i', 'g', 'h', 't', ' ', 'c', 'y', 'a', 'n'], 0x5, 0xf, 0xf⟩,
  ⟨chars ['l', 'i', 'g', 'h', 't', ' ', 'r', 'e', 'd'], 0xf, 0x5, 0x5⟩,
  ⟨chars ['l', 'i', 'g', 'h', 't', ' ', 'm', 'a', 'g', 'e', 'n', 't', 'a'], 0xf, 0x5, 0xf⟩,
  ⟨chars ['y', 'e', 'l', 'l', 'o', 'w'], 0xf, 0xf, 0x5⟩,
  ⟨chars ['w', 'h', 'i', 't', 'e'], 0xf, 0xf, 0xf⟩]

/-- `colors[c]`. -/
def color (c : BitVec 4) : COLOR := colors.getD c.toNat ⟨[], 0, 0, 0⟩

/-- What `sprintf` puts into `color_string`. -/
def colorString (fg bg : BitVec 4) : List (BitVec 8) :=
  chars ['D', 'r', 'a', 'w', 'i', 'n', 'g', ' '] ++ (color fg).name ++
    chars [' ', 't', 'e', 'x', 't', ' ', 'w', 'i', 't', 'h', ' '] ++ (color bg).name ++
    chars [' ', 'b', 'a', 'c', 'k', 'g', 'r', 'o', 'u', 'n', 'd']

/-- `while (fg == bg)`, with `n` rounds to go; it has called `rand` `k` times. -/
def pick (rand : ℕ → ℕ) : ℕ → ℕ → Option (BitVec 4 × BitVec 4 × ℕ)
  | 0, _ => none
  | n + 1, k =>
    if rand k % 16 = rand (k + 1) % 16 then pick rand n (k + 2)
    else some (BitVec.ofNat 4 (rand k), BitVec.ofNat 4 (rand (k + 1)), k + 2)

/-- The text of one round, with the number of `rand` calls after it. -/
def saverRound (rand : ℕ → ℕ) (n k : ℕ) : Option (Call × ℕ) :=
  (pick rand n k).map fun r =>
    (.textVGADrawColorText (colorString r.1 r.2.1)
      (rand r.2.2 % (80 - (colorString r.1 r.2.1).length)) (rand (r.2.2 + 1) % 30) r.2.1 r.1,
      r.2.2 + 2)

/-- The texts of `m` rounds. -/
def saverRounds (rand : ℕ → ℕ) (n : ℕ) : ℕ → ℕ → Option (List Call)
  | 0, _ => some []
  | m + 1, k =>
    (saverRound rand n k).bind fun r => (saverRounds rand n m r.2).map (r.1 :: ·)

/-- The loop that sets the palette. -/
def paletteCalls : List Call := (List.range 16).map fun i =>
  .setColorPalette (BitVec.ofNat 4 i) (color (BitVec.ofNat 4 i)).red
    (color (BitVec.ofNat 4 i)).green (color (BitVec.ofNat 4 i)).blue

/-- `textVGAColorScreenSaver` after its clear, up to `m` rounds. -/
def textVGAColorScreenSaver (rand : ℕ → ℕ) (n m : ℕ) : Option (List Call) :=
  (saverRounds rand n m 0).map (paletteCalls ++ ·)

/-! ### The rounds -/

variable {rand : ℕ → ℕ}

/-- **The loop ends** where two colours in a row differ. -/
theorem pick_isSome_iff {k : ℕ} : (∃ n, (pick rand n k).isSome) ↔
    ∃ j, rand (k + 2 * j) % 16 ≠ rand (k + 2 * j + 1) % 16 := by
  constructor
  · rintro ⟨n, hn⟩
    induction n generalizing k with
    | zero => cases hn
    | succ n ih =>
      rw [pick] at hn
      split_ifs at hn with heq
      · obtain ⟨j, hj⟩ := ih hn
        refine ⟨j + 1, ?_⟩
        rwa [show k + 2 * (j + 1) = k + 2 + 2 * j by omega]
      · exact ⟨0, heq⟩
  · rintro ⟨j, hj⟩
    induction j generalizing k with
    | zero => exact ⟨1, by rw [pick, if_neg (show rand k % 16 ≠ rand (k + 1) % 16 from hj)]; rfl⟩
    | succ j ih =>
      obtain ⟨n, hn⟩ := ih (k := k + 2) (by rwa [show k + 2 + 2 * j = k + 2 * (j + 1) by omega])
      by_cases heq : rand k % 16 = rand (k + 1) % 16
      · exact ⟨n + 1, by rwa [pick, if_pos heq]⟩
      · exact ⟨1, by rw [pick, if_neg heq]; rfl⟩

/-- More rounds change nothing. -/
theorem pick_mono {n n' : ℕ} (hn : n ≤ n') : ∀ {k : ℕ} {r : BitVec 4 × BitVec 4 × ℕ},
    pick rand n k = some r → pick rand n' k = some r := by
  induction n generalizing n' with
  | zero => exact fun h => by cases h
  | succ n ih =>
    intro k r h
    obtain ⟨n', rfl⟩ : ∃ d, n' = d + 1 := ⟨n' - 1, by omega⟩
    rw [pick] at h ⊢
    split_ifs at h ⊢ with heq
    · exact ih (by omega) h
    · exact h

/-- The two colours differ. -/
theorem pick_ne {n k : ℕ} {fg bg : BitVec 4} {k' : ℕ} (h : pick rand n k = some (fg, bg, k')) :
    fg ≠ bg := by
  induction n generalizing k with
  | zero => cases h
  | succ n ih =>
    rw [pick] at h
    split_ifs at h with heq
    · exact ih h
    · simp only [Option.some.injEq, Prod.mk.injEq] at h
      obtain ⟨rfl, rfl, -⟩ := h
      intro hbv
      have hnat := congrArg BitVec.toNat hbv
      rw [BitVec.toNat_ofNat, BitVec.toNat_ofNat] at hnat
      exact heq hnat

theorem colorString_length : ∀ fg bg, (colorString fg bg).length < 80 := by decide

/-- The texts of the screen saver: on the screen, and in two colours. -/
def IsText : Call → Prop
  | .textVGADrawColorText str x y bg fg =>
    (∃ fg' bg', str = colorString fg' bg') ∧ y < 30 ∧ x + str.length < 80 ∧ fg ≠ bg
  | _ => False

theorem IsText.valid {c : Call} (h : IsText c) : c.Valid := by
  cases c with
  | textVGAColorClr => trivial
  | setColorPalette _ _ _ _ => trivial
  | textVGADrawColorText str x y bg fg =>
    have hcstr : (cstr str).length ≤ str.length :=
      (List.takeWhile_sublist _).length_le
    exact ⟨h.2.1, by have := h.2.2.1; omega⟩

theorem saverRound_isText {n k : ℕ} {c : Call} {k' : ℕ}
    (h : saverRound rand n k = some (c, k')) : IsText c := by
  obtain ⟨⟨fg, bg, j⟩, hpick, heq⟩ := Option.map_eq_some_iff.mp h
  obtain ⟨rfl, -⟩ := Prod.mk.inj heq
  have hx : rand j % (80 - (colorString fg bg).length) < 80 - (colorString fg bg).length :=
    Nat.mod_lt _ (Nat.sub_pos_of_lt (colorString_length fg bg))
  exact ⟨⟨fg, bg, rfl⟩, Nat.mod_lt _ (by decide), Nat.add_lt_of_lt_sub hx, pick_ne hpick⟩

theorem saverRounds_isText {n m k : ℕ} {texts : List Call}
    (h : saverRounds rand n m k = some texts) : ∀ c ∈ texts, IsText c := by
  induction m generalizing k texts with
  | zero =>
    cases h
    exact fun c hc => absurd hc List.not_mem_nil
  | succ m ih =>
    obtain ⟨⟨c, k'⟩, hround, hrest⟩ := Option.bind_eq_some_iff.mp h
    obtain ⟨rest, hrounds, rfl⟩ := Option.map_eq_some_iff.mp hrest
    intro d hd
    rcases List.mem_cons.mp hd with rfl | hd
    · exact saverRound_isText hround
    · exact ih hrounds d hd

/-- The rounds need no more than what their loops need. -/
theorem saverRounds_mono {n n' : ℕ} (hn : n ≤ n') : ∀ {m k : ℕ} {texts : List Call},
    saverRounds rand n m k = some texts → saverRounds rand n' m k = some texts := by
  intro m
  induction m with
  | zero => exact fun h => h
  | succ m ih =>
    intro k texts h
    obtain ⟨⟨c, k'⟩, hround, hrest⟩ := Option.bind_eq_some_iff.mp h
    obtain ⟨rest, hrounds, rfl⟩ := Option.map_eq_some_iff.mp hrest
    obtain ⟨r, hpick, hc⟩ := Option.map_eq_some_iff.mp hround
    refine Option.bind_eq_some_iff.mpr ⟨(c, k'), ?_, Option.map_eq_some_iff.mpr ⟨rest, ?_, rfl⟩⟩
    · exact Option.map_eq_some_iff.mpr ⟨r, pick_mono hn hpick, hc⟩
    · exact ih hrounds

theorem exists_saverRounds (h : ∀ k, ∃ j, rand (k + 2 * j) % 16 ≠ rand (k + 2 * j + 1) % 16) :
    ∀ m k, ∃ n texts, saverRounds rand n m k = some texts := by
  intro m
  induction m with
  | zero => exact fun k => ⟨0, [], rfl⟩
  | succ m ih =>
    intro k
    obtain ⟨n, hn⟩ := pick_isSome_iff.mpr (h k)
    obtain ⟨r, hpick⟩ := Option.isSome_iff_exists.mp hn
    obtain ⟨n', rest, hrest⟩ := ih (r.2.2 + 2)
    obtain ⟨c, hround⟩ : ∃ c, saverRound rand (max n n') k = some (c, r.2.2 + 2) :=
      ⟨_, Option.map_eq_some_iff.mpr ⟨r, pick_mono (Nat.le_max_left n n') hpick, rfl⟩⟩
    refine ⟨max n n', c :: rest, ?_⟩
    rw [saverRounds, hround, Option.bind_some, saverRounds_mono (Nat.le_max_right n n') hrest,
      Option.map_some]

/-! ### The screen -/

/-- The entry of the table. -/
def tableColour (c : BitVec 4) : RGB := ⟨(color c).red, (color c).green, (color c).blue⟩

theorem tableColour_inj : ∀ c d, tableColour c = tableColour d → c = d := by decide

/-- All colours are those of the table, and no character has the colour of its background. -/
structure Legible (scr : Screen) : Prop where
  colour : ∀ c, scr.colour c = some (tableColour c)
  apart : ∀ x y, (scr.cell x y).code ≠ 0 → (scr.cell x y).fg ≠ (scr.cell x y).bg

theorem Legible.draw {scr : Screen} (h : Legible scr) {c : Call} (hc : IsText c) :
    Legible (c.apply scr) := by
  cases c with
  | textVGAColorClr => exact hc.elim
  | setColorPalette _ _ _ _ => exact hc.elim
  | textVGADrawColorText str x y bg fg =>
    refine ⟨h.colour, fun x' y' => ?_⟩
    simp only [Call.apply, Screen.draw]
    split_ifs
    · split
      · exact fun _ => hc.2.2.2
      · exact h.apart x' y'
    · exact h.apart x' y'

theorem legible_texts (texts : List Call) (htexts : ∀ c ∈ texts, IsText c) :
    ∀ {scr : Screen}, Legible scr → Legible (texts.foldl Call.apply scr) := by
  induction texts with
  | nil => exact fun h => h
  | cons c texts ih =>
    intro scr h
    exact ih (fun d hd => htexts d (List.mem_cons_of_mem c hd))
      (h.draw (htexts c List.mem_cons_self))

theorem legible_palette : Legible (paletteCalls.foldl Call.apply Screen.blank) := by
  constructor
  · decide
  · intro x y hcode
    exact absurd rfl hcode

namespace Interface

/-- **The screen saver.**  Where no two colours in a row would be equal for ever, it draws text
after text, each of them within a line of the screen; and after any number of them every visible
pixel is shown, in a colour of the table that tells the characters from their background. -/
theorem screen_saver_shows (font_rom : BitVec 11 → BitVec 8) (rand : ℕ → ℕ) :
    ((∀ k, ∃ j, rand (k + 2 * j) % 16 ≠ rand (k + 2 * j + 1) % 16) →
      ∀ m, ∃ n cs, textVGAColorScreenSaver rand n m = some cs) ∧
    ∀ (n m : ℕ) (cs : List Call), textVGAColorScreenSaver rand n m = some cs →
      (∃ texts, cs = paletteCalls ++ texts ∧ ∀ c ∈ texts, IsText c) ∧
      (∀ x y, ((cs.foldl Call.apply Screen.blank).cell x y).code ≠ 0 →
        tableColour ((cs.foldl Call.apply Screen.blank).cell x y).fg ≠
          tableColour ((cs.foldl Call.apply Screen.blank).cell x y).bg) ∧
      ∀ (s t : Interface) (w : ℕ → Input),
        Exec (avalon font_rom) (Call.programs (.textVGAColorClr :: cs)) s t →
        (∀ n, Idling (w n)) → ∀ x y : BitVec 10, x.toNat < 640 → y.toNat < 480 →
        (∃ n ≥ 1, (run (next font_rom) w t n).clkdiv = false ∧
          (run (next font_rom) w t n).hc = x ∧ (run (next font_rom) w t n).vc = y) ∧
        ∀ n ≥ 1, (run (next font_rom) w t n).clkdiv = false →
          (run (next font_rom) w t n).hc = x → (run (next font_rom) w t n).vc = y →
          (run (next font_rom) w t (n + 1)).rgb = tableColour
            ((cs.foldl Call.apply Screen.blank).ink font_rom x.toNat y.toNat) := by
  refine ⟨fun h m => ?_, fun n m cs hcs => ?_⟩
  · obtain ⟨n, texts, htexts⟩ := exists_saverRounds h m 0
    exact ⟨n, _, Option.map_eq_some_iff.mpr ⟨texts, htexts, rfl⟩⟩
  obtain ⟨texts, hrounds, rfl⟩ := Option.map_eq_some_iff.mp hcs
  have htexts : ∀ c ∈ texts, IsText c := saverRounds_isText hrounds
  have hlegible : Legible ((paletteCalls ++ texts).foldl Call.apply Screen.blank) := by
    rw [List.foldl_append]
    exact legible_texts texts htexts legible_palette
  refine ⟨⟨texts, rfl, htexts⟩,
    fun x y hcode => mt (tableColour_inj _ _) (hlegible.apart x y hcode),
    fun s t w hexec hw x y hx hy => ⟨run_reaches hw (by omega) (by omega),
      fun n hn hclk hhc hvc => ?_⟩⟩
  have hvalid : ∀ c ∈ paletteCalls ++ texts, c.Valid := by
    intro c hc
    rcases List.mem_append.mp hc with hc | hc
    · obtain ⟨i, -, rfl⟩ := List.mem_map.mp hc
      trivial
    · exact (htexts c hc).valid
  have hshows : Shows ((paletteCalls ++ texts).foldl Call.apply Screen.blank) t.view := by
    rw [exec_view hexec]
    exact shows_calls _ hvalid s.view
  rw [run_rgb hw hn hclk, hhc, hvc]
  exact pixel_shows hshows hx hy (hlegible.colour _)

/-- Black text on blue, in the second line. -/
theorem screen_saver_shows_blue :
    ∃ (cs : List Call) (t : Interface) (n : ℕ),
      textVGAColorScreenSaver (fun k => k % 2) 1 1 = some cs ∧
      Exec (avalon fun _ => 0x00#8) (Call.programs (.textVGAColorClr :: cs)) blank t ∧
      (run (next fun _ => 0x00#8) (fun _ => idle) t (n + 1)).rgb = ⟨0x0, 0x0, 0xa⟩ := by
  obtain ⟨-, hall⟩ := screen_saver_shows (fun _ => 0x00#8) fun k => k % 2
  have hcs : textVGAColorScreenSaver (fun k => k % 2) 1 1 =
      some (paletteCalls ++ [.textVGADrawColorText (colorString 0 1) 0 1 1 0]) := rfl
  obtain ⟨t, ht⟩ := avalon_exec_exists (fun _ => 0x00#8) (Call.programs (.textVGAColorClr ::
    (paletteCalls ++ [.textVGADrawColorText (colorString 0 1) 0 1 1 0]))) blank
  obtain ⟨-, -, hshow⟩ := hall 1 1 _ hcs
  obtain ⟨⟨n, hn, hclk, hx, hy⟩, hrgb⟩ := hshow blank t (fun _ => idle) ht
    (fun _ => ⟨rfl, rfl, rfl⟩) 0#10 16#10 (by decide) (by decide)
  exact ⟨_, t, n, hcs, ht, (hrgb n hn hclk hx hy).trans (by decide)⟩

end Interface

end ECE385.TextMode
