import ECE385.Lab71.Interface
import ECE385.TextMode.Display

/-!
# From the bus to the pixel

On bytes a write with one of the seven masks of the bus sets those it enables, so the registers are
the last written bytes, and the pixel logic takes the byte of the cell under the pixel.

* `byteOf_written`: a write, on bytes.
* `char_eq`: the raster arithmetic, for a visible pixel.
* `bus_to_pixel`: runs of bus cycles that begin with a reset.
-/

namespace ECE385.Lab71

open Bits Clocked Grid TextMode Vga

/-- Byte `4 * r + l` is lane `l` of word `r`. -/
def byteOf (g : Registers) (b : ℕ) : BitVec 8 :=
  g.select (fun _ _ => false) 8 (b / 4) (8 * (b % 4))

/-- The masks of the bus. -/
def masks : List (BitVec 4) :=
  [0b1111#4, 0b1100#4, 0b0011#4, 0b1000#4, 0b0100#4, 0b0010#4, 0b0001#4]

/-- The cycle writes byte `b`. -/
def Input.WritesByte (i : Input) (b : ℕ) : Prop :=
  i.writes = true ∧ i.avlAddr.toNat = b / 4 ∧ i.avlByteEn.getLsbD (b % 4) = true

/-- `v` is the value last written to byte `b` in the first `n` cycles, or the zero of a reset
after which it has not been written. -/
def LastWritten (w : ℕ → Input) (n b : ℕ) (v : BitVec 8) : Prop :=
  ∃ t < n, (∀ u < n, t < u → (w u).reset = false ∧ ¬(w u).WritesByte b) ∧
    ((w t).reset = true ∧ v = 0 ∨ (w t).WritesByte b ∧ v = lane (b % 4) (w t).avlWritedata)

variable {g : Registers} {i : Input} {b : ℕ}

/-! ### Bytes -/

theorem getLsbD_byteOf (g : Registers) (hb : b < 2404) {j : ℕ} (hj : j < 8) :
    (byteOf g b).getLsbD j = g.bit (b / 4) (8 * (b % 4) + j) := by
  rw [byteOf, getLsbD_select _ _ _ _ hj, read_of_lt _ _ (by omega) (by omega)]

/-- A read of a part inside the array. -/
theorem select_eq (g : Registers) (oob oob' : ℕ → ℕ → Bool) {k r c : ℕ} (hr : r < 601)
    (hc : c + k ≤ 32) : g.select oob k r c = g.select oob' k r c := by
  apply BitVec.eq_of_getLsbD_eq
  intro j hj
  rw [getLsbD_select _ _ _ _ hj, getLsbD_select _ _ _ _ hj, read_of_lt _ _ hr (by omega),
    read_of_lt _ _ hr (by omega)]

theorem byteOf_part {lo len : ℕ} (hlo : lo % 8 = 0) (hlen : len % 8 = 0) (hb : b < 2404) :
    byteOf (part i g lo len) b =
      if i.avlAddr.toNat = b / 4 ∧ lo ≤ 8 * (b % 4) ∧ 8 * (b % 4) < lo + len then
        lane (b % 4) i.avlWritedata
      else byteOf g b := by
  apply BitVec.eq_of_getLsbD_eq
  intro j hj
  rw [getLsbD_byteOf _ hb hj, part, bit_assign]
  by_cases hin : i.avlAddr.toNat = b / 4 ∧ lo ≤ 8 * (b % 4) ∧ 8 * (b % 4) < lo + len
  · rw [if_pos hin, if_pos (by omega), lane, BitVec.getLsbD_extractLsb', BitVec.getLsbD_extractLsb',
      decide_eq_true (by omega), decide_eq_true hj, Bool.true_and, Bool.true_and,
      Nat.add_sub_cancel' (by omega)]
  · rw [if_neg hin, if_neg (by omega), getLsbD_byteOf _ hb hj]

/-- Each mask is a part of the word. -/
theorem written_eq_part (g : Registers) (hmask : i.avlByteEn ∈ masks) :
    ∃ lo len, lo % 8 = 0 ∧ len % 8 = 0 ∧ written i g = part i g lo len ∧
      ∀ k < 4, i.avlByteEn.getLsbD k = true ↔ lo ≤ 8 * k ∧ 8 * k < lo + len := by
  simp only [masks, List.mem_cons, List.not_mem_nil, or_false] at hmask
  rcases hmask with h | h | h | h | h | h | h
  · exact ⟨0, 32, rfl, rfl, by simp [written, h], by rw [h]; decide⟩
  · exact ⟨16, 16, rfl, rfl, by simp [written, h], by rw [h]; decide⟩
  · exact ⟨0, 16, rfl, rfl, by simp [written, h], by rw [h]; decide⟩
  · exact ⟨24, 8, rfl, rfl, by simp [written, h], by rw [h]; decide⟩
  · exact ⟨16, 8, rfl, rfl, by simp [written, h], by rw [h]; decide⟩
  · exact ⟨8, 8, rfl, rfl, by simp [written, h], by rw [h]; decide⟩
  · exact ⟨0, 8, rfl, rfl, by simp [written, h], by rw [h]; decide⟩

/-- **A write, on bytes.** -/
theorem byteOf_written (g : Registers) (hmask : i.avlByteEn ∈ masks) (hb : b < 2404) :
    byteOf (written i g) b =
      if i.avlAddr.toNat = b / 4 ∧ i.avlByteEn.getLsbD (b % 4) = true then
        lane (b % 4) i.avlWritedata
      else byteOf g b := by
  obtain ⟨lo, len, hlo, hlen, hpart, hlanes⟩ := written_eq_part g hmask
  rw [hpart, byteOf_part hlo hlen hb]
  simp only [hlanes (b % 4) (Nat.mod_lt b (by omega))]

/-! ### Runs of bus cycles -/

/-- A selected cycle is at one of the registers, with one of the masks. -/
def Input.Legal (i : Input) : Prop :=
  i.avlCs = true → i.avlAddr.toNat ≤ 600 ∧ i.avlByteEn ∈ masks

variable {w : ℕ → Input} {n : ℕ} {v : BitVec 8}

theorem LastWritten.succ (h : LastWritten w n b v) (hr : (w n).reset = false)
    (hw : ¬(w n).WritesByte b) : LastWritten w (n + 1) b v := by
  obtain ⟨t, ht, hquiet, hlast⟩ := h
  refine ⟨t, Nat.lt_succ_of_lt ht, fun u hu htu => ?_, hlast⟩
  rcases Nat.lt_or_ge u n with hun | hge
  · exact hquiet u hun htu
  · obtain rfl : u = n := by omega
    exact ⟨hr, hw⟩

theorem LastWritten.now
    (h : (w n).reset = true ∧ v = 0 ∨ (w n).WritesByte b ∧ v = lane (b % 4) (w n).avlWritedata) :
    LastWritten w (n + 1) b v :=
  ⟨n, Nat.lt_succ_self n, fun _ hu hn => absurd hu (by omega), h⟩

theorem byteOf_zero (b : ℕ) : byteOf (fun _ => 0#32) b = 0 := by
  apply BitVec.eq_of_getLsbD_eq
  intro j hj
  rw [byteOf, getLsbD_select _ _ _ _ hj, Grid.read, Grid.bit]
  simp

/-- **A bus cycle.** -/
theorem lastWritten_next (hlegal : (w n).Legal) (hb : b < 2404)
    (h : (w n).reset = false → LastWritten w n b (byteOf g b)) :
    LastWritten w (n + 1) b (byteOf (localRegNext (w n) g) b) := by
  rw [localRegNext]
  cases hr : (w n).reset with
  | true => exact .now (.inl ⟨hr, byteOf_zero b⟩)
  | false =>
    have hold := h hr
    cases hwrites : (w n).writes with
    | false =>
      exact hold.succ hr fun hbyte => absurd hbyte.1 (by rw [hwrites]; decide)
    | true =>
      have hcs : (w n).avlCs = true := by
        simp only [Input.writes, Bool.and_eq_true] at hwrites
        exact hwrites.1.2
      simp only [Bool.false_eq_true, if_false, if_true]
      rw [byteOf_written g (hlegal hcs).2 hb]
      split_ifs with hbyte
      · exact .now (.inr ⟨⟨hwrites, hbyte⟩, rfl⟩)
      · exact hold.succ hr fun hw => hbyte hw.2

variable {s : Interface} {font_rom : BitVec 11 → BitVec 8}

/-- **The registers are the last written bytes**, from the first reset on. -/
theorem run_lastWritten (h0 : (w 0).reset = true) (hlegal : ∀ t, (w t).Legal) (hb : b < 2404) :
    ∀ n, LastWritten w (n + 1) b
      (byteOf (run (Interface.next font_rom) w s (n + 1)).localReg b) := by
  intro n
  induction n with
  | zero => exact lastWritten_next (hlegal 0) hb fun h => absurd (h0.symm.trans h) (by decide)
  | succ n ih => exact lastWritten_next (hlegal (n + 1)) hb fun _ => ih

/-- A word that is read, by its lanes. -/
theorem lane_select (g : Registers) (oob : ℕ → ℕ → Bool) {r l : ℕ} (hr : r < 601) (hl : l < 4) :
    lane l (g.select oob 32 r 0) = byteOf g (4 * r + l) := by
  apply BitVec.eq_of_getLsbD_eq
  intro j hj
  rw [lane, BitVec.getLsbD_extractLsb', decide_eq_true hj, Bool.true_and,
    getLsbD_select _ _ _ _ (by omega), read_of_lt _ _ hr (by omega),
    getLsbD_byteOf _ (by omega) hj, show (4 * r + l) / 4 = r by omega,
    show (4 * r + l) % 4 = l by omega, Nat.zero_add]

/-! ### The pixel -/

/-- The colour of a pixel: the glyph of its cell decides, inverted by the high bit of the byte. -/
def ink (font_rom : BitVec 11 → BitVec 8) (g : Registers) (x y : ℕ) : RGB :=
  let c := byteOf g (80 * (y / 16) + x / 8)
  let glyph := font_rom (c.extractLsb' 0 7 ++ BitVec.ofNat 4 (y % 16))
  if glyph.getLsbD (7 - x % 8) ≠ c.getLsbD 7 then foreground (g ctrlReg)
  else background (g ctrlReg)

/-- The logic takes the byte of the cell, and reads no word outside the array. -/
theorem char_eq (oob : ℕ → ℕ → Bool) (g : Registers) {x y : BitVec 10} (hx : x.toNat < 640)
    (hy : y.toNat < 480) :
    char oob g (curr x y) = byteOf g (80 * (y.toNat / 16) + x.toNat / 8) := by
  have hcurr : (curr x y).toNat = 80 * (y.toNat / 16) + x.toNat / 8 := by
    rw [curr, row_toNat, col_toNat, BitVec.toNat_ofNat, Nat.mod_eq_of_lt (by omega), Nat.mul_comm]
  have hlt : 80 * (y.toNat / 16) + x.toNat / 8 < 2400 := by omega
  generalize 80 * (y.toNat / 16) + x.toNat / 8 = c at hcurr hlt
  have hword : ((curr x y).extractLsb' 2 10).toNat = c / 4 := by
    rw [BitVec.extractLsb'_toNat, Nat.shiftRight_eq_div_pow, hcurr]
    omega
  have hlane : (curr x y).extractLsb' 0 2 = BitVec.ofNat 2 (c % 4) := by
    apply BitVec.eq_of_toNat_eq
    rw [BitVec.extractLsb'_toNat, BitVec.toNat_ofNat, hcurr, Nat.shiftRight_zero]
    omega
  rw [char, hword, hlane, byteOf]
  rcases (show c % 4 = 0 ∨ c % 4 = 1 ∨ c % 4 = 2 ∨ c % 4 = 3 by omega) with h | h | h | h
  all_goals
    rw [h]
    exact select_eq g _ _ (by omega) (by decide)

theorem pixel_eq (oob : ℕ → ℕ → Bool) (g : Registers) (c : Controller) :
    pixel font_rom oob g c =
      if c.hc.toNat < 640 ∧ c.vc.toNat < 480 then ink font_rom g c.hc.toNat c.vc.toNat
      else ⟨0, 0, 0⟩ := by
  rw [pixel]
  by_cases h : c.hc.toNat < 640 ∧ c.vc.toNat < 480
  · rw [if_pos (Controller.display_eq_true.mpr h), if_pos h, ink]
    simp only [char_eq oob g h.1 h.2, column_bit, row_bits, xor_iff]
  · rw [if_neg (mt Controller.display_eq_true.mp h), if_neg h]

/-- **Bus to pixel.**  In a run of bus cycles that begins with a reset, further resets at any time,
the registers are the last written bytes, a read returns them, and every pixel clock latches the
colour that the registers then give to its pixel, or black outside the picture. -/
theorem bus_to_pixel (font_rom : BitVec 11 → BitVec 8) (w : ℕ → Input) (s : Interface)
    (h0 : (w 0).reset = true) (hlegal : ∀ t, (w t).Legal) (n : ℕ) :
    let S := run (Interface.next font_rom) w s
    (∀ b < 2404, LastWritten w (n + 1) b (byteOf (S (n + 1)).localReg b)) ∧
    ((w (n + 1)).reads = true → ∀ l < 4,
      LastWritten w (n + 1) (4 * (w (n + 1)).avlAddr.toNat + l) (lane l (S (n + 2)).avlReaddata)) ∧
    ((S n).rises (w n) = true →
      (S (n + 1)).rgb =
        if (S n).vgactrl.hc.toNat < 640 ∧ (S n).vgactrl.vc.toNat < 480 then
          ink font_rom (if (w n).late then (S (n + 1)).localReg else (S n).localReg)
            (S n).vgactrl.hc.toNat (S n).vgactrl.vc.toNat
        else ⟨0, 0, 0⟩) := by
  intro S
  refine ⟨fun b hb => run_lastWritten h0 hlegal hb n, ?_, ?_⟩
  · intro hreads l hl
    have hcs : (w (n + 1)).avlCs = true := by
      simp only [Input.reads, Bool.and_eq_true] at hreads
      exact hreads.1.1.2
    have haddr := (hlegal (n + 1) hcs).1
    have hdata : (S (n + 2)).avlReaddata =
        (S (n + 1)).localReg.select ((w (n + 1)).oob .readdata) 32 (w (n + 1)).avlAddr.toNat 0 := by
      change (Interface.next font_rom (w (n + 1)) (S (n + 1))).avlReaddata = _
      rw [Interface.next, if_pos hreads]
    rw [hdata, lane_select _ _ (by omega) hl]
    exact run_lastWritten h0 hlegal (by omega) n
  · intro hrises
    change (Interface.next font_rom (w n) (S n)).rgb = _
    rw [Interface.next, if_pos hrises, pixel_eq]
    rfl

/-- After a reset, byte 1 is written; word 0 is read from then on. -/
def typed : ℕ → Input := fun t =>
  { reset := decide (t = 0), avlRead := decide (1 < t), avlWrite := decide (t = 1), avlCs := true,
    avlByteEn := 0b0010#4, avlAddr := 0#10, avlWritedata := 0x0000C100#32,
    oob := fun _ _ _ => false, late := true }

def blank : Interface := ⟨fun _ => 0#32, 0#32, ⟨false, 0, 0, false, false⟩, ⟨0, 0, 0⟩⟩

/-- The byte that is read, and the pixel of the second cycle. -/
theorem bus_to_pixel_typed :
    let S := run (Interface.next fun _ => 0xFF#8) typed blank
    LastWritten typed 2 1 (lane 1 (S 3).avlReaddata) ∧
      (S 2).rgb = ink (fun _ => 0xFF#8) (S 2).localReg 0 0 := by
  intro S
  have hmask : (0#10).toNat ≤ 600 ∧ 0b0010#4 ∈ masks := by decide
  have hlegal : ∀ t, (typed t).Legal := fun _ _ => hmask
  obtain ⟨-, hread, hpixel⟩ := bus_to_pixel (fun _ => 0xFF#8) typed blank rfl hlegal 1
  have hhc : (S 1).vgactrl.hc.toNat = 0 := rfl
  have hvc : (S 1).vgactrl.vc.toNat = 0 := rfl
  have hlate : (typed 1).late = true := rfl
  have hrgb := hpixel rfl
  rw [hlate, if_pos rfl, hhc, hvc, if_pos (by decide)] at hrgb
  exact ⟨hread rfl 1 (by decide), hrgb⟩

end ECE385.Lab71
