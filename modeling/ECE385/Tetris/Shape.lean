import ECE385.Tetris.Ball

/-!
# The shape of a falling piece

A lock stores the type of the next piece in `newtype`, and a frame with `pressed = 0` copies it to
`blockType`.  A key that is held over the spawn puts that off, and the piece may make its first step
down with the old type.

* `newtype_falling`: while a piece falls the stored type does not change.
* `keeps_shape_iff`: so pieces keep their shape exactly if none that has begun to fall
  with the old type is released before its lock.
-/

namespace ECE385.Tetris

open Clocked

namespace Ball

section Pieces

variable (w : ℕ → Input) (s : Ball)

/-- A piece enters before frame `p`: at the start, or by the lock of another. -/
def Spawns : ℕ → Prop
  | 0 => True
  | p + 1 => (run next w s.reset p).locks (w p) = true ∧ (run next w s.reset p).testEnd = 0

/-- The frame takes the piece one row down. -/
def StepsDown (b : Ball) (i : Input) : Prop := b.move = true ∧ b.testDown i = 0

/-- The piece that enters before frame `p` makes its first gravity step in frame `g`. -/
structure FirstStep (p g : ℕ) : Prop where
  spawns : Spawns w s p
  le : p ≤ g
  quiet : ∀ t < g, p ≤ t → (run next w s.reset t).move = false
  stepsDown : StepsDown (run next w s.reset g) (w g)

/-- The piece that steps down in frame `g` is still there before frame `t`. -/
structure Falling (g t : ℕ) : Prop where
  lt : g < t
  free : ∀ u < t, g < u → (run next w s.reset u).locks (w u) = false

/-- From its first gravity step up to the frame that locks it, a piece has one type. -/
def KeepsShape : Prop :=
  ∀ p g t, FirstStep w s p g → Falling w s g t →
    (run next w s.reset t).blockType = (run next w s.reset (g + 1)).blockType

/-- In frame `g` the type of the piece has not been copied yet, and is not copied now. -/
def Late (g : ℕ) : Prop :=
  (run next w s.reset g).pressed = true ∧
    (run next w s.reset g).newtype ≠ (run next w s.reset g).blockType

end Pieces

variable {w : ℕ → Input} {s : Ball} {p g t : ℕ}

/-! ### One frame -/

theorem blockType_next (i : Input) (b : Ball) :
    (b.next i).blockType = if b.pressed then b.blockType else b.newtype := by
  simp only [next]
  cases b.pressed
  all_goals rfl

theorem newtype_next {i : Input} {b : Ball} (h : b.locks i = false) :
    (b.next i).newtype = b.newtype := by
  simp only [next, newtypeNext, h, Bool.false_and, Bool.false_eq_true, if_false]

theorem StepsDown.not_locks {i : Input} {b : Ball} (h : StepsDown b i) : b.locks i = false := by
  rw [locks, h.2, h.1]
  rfl

/-! ### The fall -/

theorem Falling.pred (h : Falling w s g (t + 1)) (hgt : g < t) : Falling w s g t :=
  ⟨hgt, fun u hu => h.free u (Nat.lt_succ_of_lt hu)⟩

theorem newtype_falling (hg : StepsDown (run next w s.reset g) (w g)) (h : Falling w s g t) :
    (run next w s.reset t).newtype = (run next w s.reset g).newtype := by
  induction t with
  | zero => exact absurd h.lt (Nat.not_lt_zero g)
  | succ t ih =>
    rw [run_succ]
    rcases Nat.lt_or_ge g t with hgt | hge
    · rw [newtype_next (h.free t (Nat.lt_succ_self t) hgt), ih (h.pred hgt)]
    · obtain rfl : t = g := Nat.le_antisymm hge (Nat.le_of_lt_succ h.lt)
      exact newtype_next hg.not_locks

/-- Once the stored type has been copied, copying it again changes nothing. -/
theorem blockType_of_copied (hg : StepsDown (run next w s.reset g) (w g))
    (hcopied : (run next w s.reset (g + 1)).blockType = (run next w s.reset g).newtype)
    (h : Falling w s g t) :
    (run next w s.reset t).blockType = (run next w s.reset g).newtype := by
  induction t with
  | zero => exact absurd h.lt (Nat.not_lt_zero g)
  | succ t ih =>
    rcases Nat.lt_or_ge g t with hgt | hge
    · rw [run_succ, blockType_next, ih (h.pred hgt), newtype_falling hg (h.pred hgt), ite_self]
    · obtain rfl : t = g := Nat.le_antisymm hge (Nat.le_of_lt_succ h.lt)
      exact hcopied

/-- Without a release nothing is copied. -/
theorem blockType_of_pressed (h : Falling w s g t)
    (hpressed : ∀ u < t, g < u → (run next w s.reset u).pressed = true) :
    (run next w s.reset t).blockType = (run next w s.reset (g + 1)).blockType := by
  induction t with
  | zero => exact absurd h.lt (Nat.not_lt_zero g)
  | succ t ih =>
    rcases Nat.lt_or_ge g t with hgt | hge
    · rw [run_succ, blockType_next, if_pos (hpressed t (Nat.lt_succ_self t) hgt),
        ih (h.pred hgt) fun u hu => hpressed u (Nat.lt_succ_of_lt hu)]
    · obtain rfl : t = g := Nat.le_antisymm hge (Nat.le_of_lt_succ h.lt)
      rfl

/-- **A falling piece keeps its shape** exactly if every piece that makes its first gravity step
before the stored type has been copied is held until it locks. -/
theorem keeps_shape_iff (w : ℕ → Input) (s : Ball) :
    KeepsShape w s ↔ ∀ p g, FirstStep w s p g → Late w s g →
      ∀ u, Falling w s g (u + 1) → (run next w s.reset u).pressed = true := by
  refine ⟨?_, ?_⟩
  · intro hkeeps p g hfirst ⟨hpressed, hne⟩ u hfall
    rcases Nat.lt_or_ge g u with hgu | hge
    · by_contra hu
      have hshape := hkeeps p g (u + 1) hfirst hfall
      rw [run_succ, blockType_next, if_neg hu, newtype_falling hfirst.stepsDown (hfall.pred hgu),
        run_succ, blockType_next, if_pos hpressed] at hshape
      exact hne hshape
    · obtain rfl : u = g := Nat.le_antisymm hge (Nat.le_of_lt_succ hfall.lt)
      exact hpressed
  · intro hheld p g t hfirst hfall
    by_cases hlate : Late w s g
    · refine blockType_of_pressed hfall fun u hu hgu => ?_
      exact hheld p g hfirst hlate u ⟨Nat.lt_succ_of_lt hgu, fun v hv => hfall.free v (by omega)⟩
    · have hcopied : (run next w s.reset (g + 1)).blockType = (run next w s.reset g).newtype := by
        rw [run_succ, blockType_next]
        split_ifs with hpressed
        · by_contra hne
          exact hlate ⟨hpressed, Ne.symm hne⟩
        · rfl
      rw [blockType_of_copied hfirst.stepsDown hcopied hfall, hcopied]

/-- The first piece is taken to the floor; a key is held from before it locks until the second one
has stepped down. -/
def held : List (BitVec 8 × ℕ) :=
  (List.replicate 17 [(0x16, 2), (0, 1)]).flatten ++ [(0, 5), (0x52, 72)]

/-- The second piece steps down as an `I` and goes on as an `S`. -/
theorem held_changes_shape : ¬KeepsShape (play held) powerUp := by
  intro h
  have hrun : ((run next (play held) powerUp.reset 63).locks (play held 63) = true ∧
        (run next (play held) powerUp.reset 63).testEnd = 0) ∧
      (∀ t < 127, 64 ≤ t → (run next (play held) powerUp.reset t).move = false) ∧
      ((run next (play held) powerUp.reset 127).move = true ∧
        (run next (play held) powerUp.reset 127).testDown (play held 127) = 0) ∧
      (∀ u < 130, 127 < u →
        (run next (play held) powerUp.reset u).locks (play held u) = false) ∧
      (run next (play held) powerUp.reset 130).blockType ≠
        (run next (play held) powerUp.reset 128).blockType := by
    simp only [← run_normal next normal_eq]
    decide +kernel
  obtain ⟨hspawn, hquiet, hdown, hfree, hne⟩ := hrun
  exact hne (h 64 127 130 ⟨hspawn, by decide, hquiet, hdown⟩ ⟨by decide, hfree⟩)

end Ball

end ECE385.Tetris
