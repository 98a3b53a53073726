import ECE385.Bits.Blocks

/-!
# The adders of Lab 3

`ripple_adder`, `lookahead_adder` and `select_adder`, each made of four blocks of four bits.

* `adds_ADDER4`, `adds_LADDER4`, `adds_SADDER4`: the blocks add, whatever way the carry takes.
* `adders_agree`: so the three adders are one function.
-/

namespace ECE385.Lab3

open Bits

/-! ### The blocks -/

/-- `full_adder`: `s` and `c`. -/
def full_adder (x y z : Bool) : Bool × Bool := (sumBit x y z, carryBit x y z)

/-- `ADDER4`: `S` and `c_out`. -/
def ADDER4 (A B : BitVec 4) (c_in : Bool) : BitVec 4 × Bool :=
  let FA0 := full_adder (A.getLsbD 0) (B.getLsbD 0) c_in
  let FA1 := full_adder (A.getLsbD 1) (B.getLsbD 1) FA0.2
  let FA2 := full_adder (A.getLsbD 2) (B.getLsbD 2) FA1.2
  let FA3 := full_adder (A.getLsbD 3) (B.getLsbD 3) FA2.2
  (BitVec.ofBool FA3.1 ++ BitVec.ofBool FA2.1 ++ BitVec.ofBool FA1.1 ++ BitVec.ofBool FA0.1, FA3.2)

/-- The outputs of `LADDER4`. -/
structure Lookahead where
  S : BitVec 4
  PG : Bool
  GG : Bool

def LADDER4 (A B : BitVec 4) (c_in : Bool) : Lookahead :=
  let P i := A.getLsbD i ^^ B.getLsbD i
  let G i := A.getLsbD i && B.getLsbD i
  let C0 := G 0 || (P 0 && c_in)
  let C1 := G 1 || (P 1 && G 0) || (P 1 && P 0 && c_in)
  let C2 := G 2 || (P 2 && G 1) || (P 2 && P 1 && G 0) || (P 2 && P 1 && P 0 && c_in)
  let ADD1 := full_adder (A.getLsbD 0) (B.getLsbD 0) c_in
  let ADD2 := full_adder (A.getLsbD 1) (B.getLsbD 1) C0
  let ADD3 := full_adder (A.getLsbD 2) (B.getLsbD 2) C1
  let ADD4 := full_adder (A.getLsbD 3) (B.getLsbD 3) C2
  { S := BitVec.ofBool ADD4.1 ++ BitVec.ofBool ADD3.1 ++ BitVec.ofBool ADD2.1 ++
      BitVec.ofBool ADD1.1
    PG := P 3 && P 2 && P 1 && P 0
    GG := G 3 || (G 2 && P 3) || (G 1 && P 3 && P 2) || (G 0 && P 3 && P 2 && P 1) }

/-- `SADDER4`: `S` and `c_out`. -/
def SADDER4 (A B : BitVec 4) (c_in : Bool) : BitVec 4 × Bool :=
  let C0 := ADDER4 A B false
  let C1 := ADDER4 A B true
  if c_in then (C1.1, C1.2) else (C0.1, C0.2)

/-! ### The adders -/

/-- The bits `4 * i + 3` to `4 * i`. -/
def nibble (i : ℕ) (v : BitVec 16) : BitVec 4 := v.extractLsb' (4 * i) 4

def ripple_adder (A B : BitVec 16) (cin : Bool) : BitVec 16 × Bool :=
  let A0 := ADDER4 (nibble 0 A) (nibble 0 B) cin
  let A1 := ADDER4 (nibble 1 A) (nibble 1 B) A0.2
  let A2 := ADDER4 (nibble 2 A) (nibble 2 B) A1.2
  let A3 := ADDER4 (nibble 3 A) (nibble 3 B) A2.2
  (A3.1 ++ A2.1 ++ A1.1 ++ A0.1, A3.2)

def lookahead_adder (A B : BitVec 16) (cin : Bool) : BitVec 16 × Bool :=
  let LA0 := LADDER4 (nibble 0 A) (nibble 0 B) cin
  let CC0 := LA0.GG || (cin && LA0.PG)
  let LA1 := LADDER4 (nibble 1 A) (nibble 1 B) CC0
  let CC1 := LA1.GG || (LA0.GG && LA1.PG) || (cin && LA0.PG && LA1.PG)
  let LA2 := LADDER4 (nibble 2 A) (nibble 2 B) CC1
  let CC2 := LA2.GG || (LA1.GG && LA2.PG) || (LA0.GG && LA1.PG && LA2.PG) ||
    (cin && LA0.PG && LA1.PG && LA2.PG)
  let LA3 := LADDER4 (nibble 3 A) (nibble 3 B) CC2
  (LA3.S ++ LA2.S ++ LA1.S ++ LA0.S,
    LA3.GG || (LA2.GG && LA3.PG) || (LA1.GG && LA2.PG && LA3.PG) ||
      (LA0.GG && LA1.PG && LA2.PG && LA3.PG) || (cin && LA0.PG && LA1.PG && LA2.PG && LA3.PG))

def select_adder (A B : BitVec 16) (cin : Bool) : BitVec 16 × Bool :=
  let A0 := SADDER4 (nibble 0 A) (nibble 0 B) cin
  let A1 := SADDER4 (nibble 1 A) (nibble 1 B) A0.2
  let A2 := SADDER4 (nibble 2 A) (nibble 2 B) A1.2
  let A3 := SADDER4 (nibble 3 A) (nibble 3 B) A2.2
  (A3.1 ++ A2.1 ++ A1.1 ++ A0.1, A3.2)

/-! ### The blocks add -/

theorem bits_append (A : BitVec 4) :
    BitVec.ofBool (A.getLsbD 3) ++ BitVec.ofBool (A.getLsbD 2) ++ BitVec.ofBool (A.getLsbD 1) ++
      BitVec.ofBool (A.getLsbD 0) = A := by
  revert A
  decide

theorem nibbles_append (A : BitVec 16) :
    nibble 3 A ++ nibble 2 A ++ nibble 1 A ++ nibble 0 A = A := by
  simp only [nibble]
  rw [BitVec.extractLsb'_append_extractLsb'_eq_extractLsb' (show 4 * 3 = 4 * 2 + 4 from rfl),
    BitVec.extractLsb'_append_extractLsb'_eq_extractLsb' (show 4 * 2 = 4 * 1 + 4 from rfl),
    BitVec.extractLsb'_append_extractLsb'_eq_extractLsb' (show 4 * 1 = 4 * 0 + 4 from rfl)]
  exact BitVec.extractLsb'_eq_self

theorem adds_ADDER4 (A B : BitVec 4) (c : Bool) : Adds A B c (ADDER4 A B c) := by
  have h := Adds.append4 (adds_bit (A.getLsbD 0) (B.getLsbD 0) c)
    (adds_bit (A.getLsbD 1) (B.getLsbD 1) _) (adds_bit (A.getLsbD 2) (B.getLsbD 2) _)
    (adds_bit (A.getLsbD 3) (B.getLsbD 3) _)
  rw [bits_append, bits_append] at h
  exact h

/-- The sums for both carries are ready when the carry comes in. -/
theorem adds_SADDER4 (A B : BitVec 4) (c : Bool) : Adds A B c (SADDER4 A B c) := by
  rw [SADDER4]
  cases c
  · exact adds_ADDER4 A B false
  · exact adds_ADDER4 A B true

/-! ### Looking ahead

The carries are those of the chain, multiplied out. -/

section Ahead

variable (g₀ g₁ g₂ g₃ p₀ p₁ p₂ p₃ c : Bool)

theorem ahead_two : (g₁ || (p₁ && g₀) || (p₁ && p₀ && c)) = (g₁ || (p₁ && (g₀ || (p₀ && c)))) := by
  rw [Bool.and_or_distrib_left, Bool.and_assoc, Bool.or_assoc]

theorem ahead_three : (g₂ || (p₂ && g₁) || (p₂ && p₁ && g₀) || (p₂ && p₁ && p₀ && c)) =
    (g₂ || (p₂ && (g₁ || (p₁ && g₀) || (p₁ && p₀ && c)))) := by
  simp only [Bool.and_or_distrib_left, Bool.and_assoc, Bool.or_assoc]

theorem ahead_four :
    (g₃ || (p₃ && g₂) || (p₃ && p₂ && g₁) || (p₃ && p₂ && p₁ && g₀) ||
      (p₃ && p₂ && p₁ && p₀ && c)) =
    (g₃ || (p₃ && (g₂ || (p₂ && g₁) || (p₂ && p₁ && g₀) || (p₂ && p₁ && p₀ && c)))) := by
  simp only [Bool.and_or_distrib_left, Bool.and_assoc, Bool.or_assoc]

end Ahead

/-- **A lookahead block**, with the carry that its outputs make for the next one. -/
theorem adds_LADDER4 (A B : BitVec 4) (c : Bool) :
    Adds A B c ((LADDER4 A B c).S, (LADDER4 A B c).GG || (c && (LADDER4 A B c).PG)) := by
  have hout : ∀ g₀ g₁ g₂ g₃ p₀ p₁ p₂ p₃ : Bool,
      (g₃ || (g₂ && p₃) || (g₁ && p₃ && p₂) || (g₀ && p₃ && p₂ && p₁) ||
        (c && (p₃ && p₂ && p₁ && p₀))) =
      (g₃ || (p₃ && (g₂ || (p₂ && g₁) || (p₂ && p₁ && g₀) || (p₂ && p₁ && p₀ && c)))) := by
    intro g₀ g₁ g₂ g₃ p₀ p₁ p₂ p₃
    rw [← ahead_four]
    ac_rfl
  have h := Adds.append4 (adds_bit_of_carry (x := A.getLsbD 0) (y := B.getLsbD 0) (z := c) rfl)
    (adds_bit_of_carry (x := A.getLsbD 1) (y := B.getLsbD 1) (ahead_two _ _ _ _ c))
    (adds_bit_of_carry (x := A.getLsbD 2) (y := B.getLsbD 2) (ahead_three _ _ _ _ _ _ c))
    (adds_bit_of_carry (x := A.getLsbD 3) (y := B.getLsbD 3) (hout _ _ _ _ _ _ _ _))
  rw [bits_append, bits_append] at h
  exact h

theorem adds_LADDER4_of_carry {A B : BitVec 4} {c d : Bool}
    (hd : d = ((LADDER4 A B c).GG || (c && (LADDER4 A B c).PG))) :
    Adds A B c ((LADDER4 A B c).S, d) := by
  rw [hd]
  exact adds_LADDER4 A B c

/-! ### The adders add -/

theorem adds_ripple_adder (A B : BitVec 16) (cin : Bool) : Adds A B cin (ripple_adder A B cin) := by
  have h := Adds.append4 (adds_ADDER4 (nibble 0 A) (nibble 0 B) cin)
    (adds_ADDER4 (nibble 1 A) (nibble 1 B) _) (adds_ADDER4 (nibble 2 A) (nibble 2 B) _)
    (adds_ADDER4 (nibble 3 A) (nibble 3 B) _)
  rw [nibbles_append, nibbles_append] at h
  exact h

theorem adds_select_adder (A B : BitVec 16) (cin : Bool) : Adds A B cin (select_adder A B cin) := by
  have h := Adds.append4 (adds_SADDER4 (nibble 0 A) (nibble 0 B) cin)
    (adds_SADDER4 (nibble 1 A) (nibble 1 B) _) (adds_SADDER4 (nibble 2 A) (nibble 2 B) _)
    (adds_SADDER4 (nibble 3 A) (nibble 3 B) _)
  rw [nibbles_append, nibbles_append] at h
  exact h

/-- The carries between the blocks are looked ahead for in the same way. -/
theorem adds_lookahead_adder (A B : BitVec 16) (cin : Bool) :
    Adds A B cin (lookahead_adder A B cin) := by
  have hCC1 : ∀ g₀ g₁ p₀ p₁ : Bool, (g₁ || (g₀ && p₁) || (cin && p₀ && p₁)) =
      (g₁ || ((g₀ || (cin && p₀)) && p₁)) := by
    intro g₀ g₁ p₀ p₁
    rw [Bool.and_or_distrib_right, Bool.or_assoc]
  have hCC2 : ∀ g₀ g₁ g₂ p₀ p₁ p₂ : Bool,
      (g₂ || (g₁ && p₂) || (g₀ && p₁ && p₂) || (cin && p₀ && p₁ && p₂)) =
      (g₂ || ((g₁ || (g₀ && p₁) || (cin && p₀ && p₁)) && p₂)) := by
    intro g₀ g₁ g₂ p₀ p₁ p₂
    simp only [Bool.and_or_distrib_right, Bool.or_assoc]
  have hcout : ∀ g₀ g₁ g₂ g₃ p₀ p₁ p₂ p₃ : Bool,
      (g₃ || (g₂ && p₃) || (g₁ && p₂ && p₃) || (g₀ && p₁ && p₂ && p₃) ||
        (cin && p₀ && p₁ && p₂ && p₃)) =
      (g₃ || ((g₂ || (g₁ && p₂) || (g₀ && p₁ && p₂) || (cin && p₀ && p₁ && p₂)) && p₃)) := by
    intro g₀ g₁ g₂ g₃ p₀ p₁ p₂ p₃
    simp only [Bool.and_or_distrib_right, Bool.or_assoc]
  have h := Adds.append4 (adds_LADDER4 (nibble 0 A) (nibble 0 B) cin)
    (adds_LADDER4_of_carry (A := nibble 1 A) (B := nibble 1 B) (hCC1 _ _ _ _))
    (adds_LADDER4_of_carry (A := nibble 2 A) (B := nibble 2 B) (hCC2 _ _ _ _ _ _))
    (adds_LADDER4_of_carry (A := nibble 3 A) (B := nibble 3 B) (hcout _ _ _ _ _ _ _ _))
  rw [nibbles_append, nibbles_append] at h
  exact h

/-- **The three adders are one function**, and add with a carry of 17 bits. -/
theorem adders_agree (A B : BitVec 16) (cin : Bool) :
    lookahead_adder A B cin = ripple_adder A B cin ∧
    select_adder A B cin = ripple_adder A B cin ∧
    BitVec.cons (ripple_adder A B cin).2 (ripple_adder A B cin).1 =
      A.setWidth 17 + B.setWidth 17 + (BitVec.ofBool cin).setWidth 17 := by
  have hripple := adds_ripple_adder A B cin
  exact ⟨(adds_lookahead_adder A B cin).unique hripple,
    (adds_select_adder A B cin).unique hripple, hripple.cons_eq⟩

end ECE385.Lab3
