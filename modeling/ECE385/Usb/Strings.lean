import ECE385.Usb.Task

/-!
# String descriptors

A string comes as UTF-16 code units, the low byte of each first.  `ConvUTF8ToStr` keeps the low
bytes, in the same memory: it reads at `2 * i` what it writes at `i`.

* `convLoop_apply`: what is read has not been written before.
* `ConvUTF8ToStr_frame`, `ConvUTF8ToStr_agrees`: no bytes matter but those touched.
* `Converts`: what the conversion of a descriptor should do.
* `converts_iff`: it does for every length but `0` and `1`, of which half minus one is `255`.
-/

namespace ECE385.Usb

/-- The size of `bString`. -/
def bStringSize : ℕ := 256 - 2

/-- The call in `USB_Task`, for a descriptor of the length `bLength`. -/
def convString (bLength : BYTE) (bString : Buf) : Buf := ConvUTF8ToStr bString (bLength >>> 1 - 1)

/-- The bytes that the loop touches, from `i` on with `n` rounds to go. -/
def loopTouches : ℕ → ℕ → List ℕ
  | _, 0 => []
  | i, n + 1 => 2 * i :: i :: loopTouches (i + 1) n

/-- The bytes that `ConvUTF8ToStr` touches. -/
def touches (length : BYTE) : List ℕ := loopTouches 0 length.toNat ++ [length.toNat]

/-- The code units of the string. -/
def stringLength (bLength : BYTE) : ℕ := bLength.toNat / 2 - 1

/-- The string is converted in place, inside `bString`, and ends with a zero byte. -/
structure Converts (bLength : BYTE) (bString : Buf) : Prop where
  inside : ∀ k ∈ touches (bLength >>> 1 - 1), k < bStringSize
  chars : ∀ k < stringLength bLength,
    convString bLength bString k = (bString.word (2 * k)).setWidth 8
  zero : convString bLength bString (stringLength bLength) = 0x00

/-! ### The loop -/

/-- **In place.**  The index read is never behind the index written. -/
theorem convLoop_apply (i n : ℕ) (utf8 : Buf) (k : ℕ) :
    convLoop i n utf8 k = if i ≤ k ∧ k < i + n then utf8 (2 * k) else utf8 k := by
  induction n generalizing i utf8 with
  | zero => rw [convLoop, if_neg (by omega)]
  | succ n ih =>
    rw [convLoop, ih]
    by_cases hlater : i + 1 ≤ k ∧ k < i + 1 + n
    · rw [if_pos hlater, if_neg (by omega), if_pos (by omega)]
    · rw [if_neg hlater]
      by_cases hi : k = i
      · rw [if_pos hi, if_pos (by omega), hi]
      · rw [if_neg hi, if_neg (by omega)]

theorem ConvUTF8ToStr_apply (utf8 : Buf) (length : BYTE) (k : ℕ) :
    ConvUTF8ToStr utf8 length k =
      if k < length.toNat then utf8 (2 * k) else if k = length.toNat then 0x00 else utf8 k := by
  have hloop := convLoop_apply 0 length.toNat utf8 k
  simp only [Nat.zero_le, Nat.zero_add, true_and] at hloop
  simp only [ConvUTF8ToStr, hloop]
  by_cases hend : k = length.toNat
  · rw [if_pos hend, if_neg (by omega), if_pos hend]
  · rw [if_neg hend, if_neg hend]

theorem mem_loopTouches {i n k : ℕ} :
    k ∈ loopTouches i n ↔ ∃ j, i ≤ j ∧ j < i + n ∧ (k = 2 * j ∨ k = j) := by
  induction n generalizing i with
  | zero =>
    rw [loopTouches]
    refine iff_of_false List.not_mem_nil ?_
    rintro ⟨j, hle, hlt, -⟩
    omega
  | succ n ih =>
    rw [loopTouches, List.mem_cons, List.mem_cons, ih]
    constructor
    · rintro (hread | hwrite | ⟨j, hle, hlt, hk⟩)
      · exact ⟨i, Nat.le_refl i, by omega, .inl hread⟩
      · exact ⟨i, Nat.le_refl i, by omega, .inr hwrite⟩
      · exact ⟨j, by omega, by omega, hk⟩
    · rintro ⟨j, hle, hlt, hk⟩
      rcases Nat.eq_or_lt_of_le hle with rfl | hlater
      · exact hk.elim .inl fun hwrite => .inr (.inl hwrite)
      · exact .inr (.inr ⟨j, hlater, by omega, hk⟩)

/-- The last read is the farthest access, but for short strings. -/
theorem touches_lt_iff {length : BYTE} {m : ℕ} :
    (∀ k ∈ touches length, k < m) ↔ length.toNat < m ∧ 2 * (length.toNat - 1) < m := by
  constructor
  · intro h
    have hend := h length.toNat (List.mem_append_right _ (List.mem_singleton_self _))
    refine ⟨hend, ?_⟩
    rcases Nat.eq_zero_or_pos length.toNat with hzero | hpos
    · omega
    · exact h _ (List.mem_append_left _ (mem_loopTouches.mpr
        ⟨length.toNat - 1, Nat.zero_le _, by omega, .inl rfl⟩))
  · rintro ⟨hend, hread⟩ k hk
    rcases List.mem_append.mp hk with hloop | hlast
    · obtain ⟨j, -, hlt, hk⟩ := mem_loopTouches.mp hloop
      omega
    · rw [List.mem_singleton] at hlast
      omega

/-- Other bytes stay as they are. -/
theorem ConvUTF8ToStr_frame (utf8 : Buf) {length : BYTE} {k : ℕ} (hk : k ∉ touches length) :
    ConvUTF8ToStr utf8 length k = utf8 k := by
  have hloop : ∀ j, j < length.toNat → k ≠ j := by
    rintro j hj rfl
    exact hk (List.mem_append_left _ (mem_loopTouches.mpr
      ⟨k, Nat.zero_le k, by omega, .inr rfl⟩))
  have hend : k ≠ length.toNat := by
    rintro rfl
    exact hk (List.mem_append_right _ (List.mem_singleton_self _))
  rw [ConvUTF8ToStr_apply, if_neg (fun hlt => hloop k hlt rfl), if_neg hend]

/-- Nor does what they are make a difference to the bytes touched. -/
theorem ConvUTF8ToStr_agrees {utf8 utf8' : Buf} {length : BYTE}
    (hagree : ∀ k ∈ touches length, utf8' k = utf8 k) {k : ℕ} (hk : k ∈ touches length) :
    ConvUTF8ToStr utf8' length k = ConvUTF8ToStr utf8 length k := by
  rw [ConvUTF8ToStr_apply, ConvUTF8ToStr_apply]
  by_cases hlt : k < length.toNat
  · rw [if_pos hlt, if_pos hlt]
    exact hagree _ (List.mem_append_left _ (mem_loopTouches.mpr
      ⟨k, Nat.zero_le k, by omega, .inl rfl⟩))
  · rw [if_neg hlt, if_neg hlt, hagree k hk]

/-! ### The length -/

theorem toNat_length {bLength : BYTE} (h : 2 ≤ bLength.toNat) :
    (bLength >>> 1 - 1).toNat = stringLength bLength := by
  have hone : (1 : BYTE).toNat = 1 := rfl
  have hshift : (bLength >>> 1).toNat = bLength.toNat / 2 := by
    rw [BitVec.toNat_ushiftRight, Nat.shiftRight_eq_div_pow]
  rw [stringLength, BitVec.toNat_sub_of_le (by rw [BitVec.le_def, hone, hshift]; omega), hshift,
    hone]

/-- Half of `0` or `1` is one less than zero. -/
theorem toNat_length_short {bLength : BYTE} (h : bLength.toNat < 2) :
    (bLength >>> 1 - 1).toNat = 255 := by
  have hcases : bLength = 0#8 ∨ bLength = 1#8 := by
    rcases (show bLength.toNat = 0 ∨ bLength.toNat = 1 by omega) with h0 | h1
    · exact .inl (BitVec.eq_of_toNat_eq h0)
    · exact .inr (BitVec.eq_of_toNat_eq h1)
  rcases hcases with rfl | rfl
  · decide
  · decide

/-- **String descriptors** are converted in place and in bounds exactly if they are long enough for
their own header. -/
theorem converts_iff (bLength : BYTE) (bString : Buf) :
    Converts bLength bString ↔ 2 ≤ bLength.toNat := by
  constructor
  · intro h
    by_contra hshort
    have hlength := toNat_length_short (Nat.lt_of_not_le hshort)
    have hend := (touches_lt_iff.mp h.inside).1
    rw [hlength, bStringSize] at hend
    omega
  · intro h
    have hlength := toNat_length h
    have hsmall : stringLength bLength ≤ 126 := by
      have hlt := bLength.isLt
      rw [stringLength]
      omega
    refine ⟨?_, ?_, ?_⟩
    · rw [touches_lt_iff, hlength, bStringSize]
      omega
    · intro k hk
      have hlow : (bString.word (2 * k)).setWidth 8 = bString (2 * k) :=
        BitVec.setWidth_append_eq_right
      rw [convString, ConvUTF8ToStr_apply, hlength, if_pos hk, hlow]
    · rw [convString, ConvUTF8ToStr_apply, hlength, if_neg (Nat.lt_irrefl _), if_pos rfl]

/-- A descriptor of length `0`. -/
theorem not_converts : ¬∀ (bLength : BYTE) (bString : Buf), Converts bLength bString := by
  intro h
  have hlast := (h 0x00 fun _ => 0x00).inside 255
    (List.mem_append_right _ (List.mem_singleton_self _))
  revert hlast
  decide

end ECE385.Usb
