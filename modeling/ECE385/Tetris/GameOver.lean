import ECE385.Tetris.Collision
import ECE385.Tetris.Press

/-!
# The end of the game

The game ends when the locked piece, with the type and the orientation it still has, would
not fit at the top of the board as it was before the lock.  There is no state for an
ended game: the piece is parked outside the board, and the frames go on.

* `hits_merged`: what blocks the spawn after a lock.
* `Alike`: the board blocks the old piece and the next one alike.
* `ends_exactly`: so the game ends just when the next piece is blocked.
* `Parked`: the piece parked beside the picture.
* `Parked.falls`: there it falls for ever, through all the rows that its register counts,
  `parked_next`: and locks nothing.
* `final_of_away`: the games that stay ended.
-/

namespace ECE385.Tetris

open Bits Clocked Grid

namespace Ball

variable {s : Ball} {i : Input}

/-! ### The spawn -/

/-- The piece about to be spawned: the type drawn in this frame, in the orientation that waits after
it, which is the one tried last if the key turns the piece and its test is clear. -/
def spawnRows (i : Input) (s : Ball) : ℕ → BitVec 4 :=
  rowOf (s.randNum.extractLsb' 0 3)
    (if turns i && s.testRotate i == 0 then s.midorientation else s.neworientation)

/-- It waits after the frame. -/
theorem waitingRow_spawn (hlock : s.locks i = true) (hover : s.gameOver i = false) :
    (s.next i).waitingRow = s.spawnRows i := by
  have hend : s.testEnd = 0 := by simpa [gameOver, hlock] using hover
  have htype : (s.next i).newtype = s.randNum.extractLsb' 0 3 := by
    simp [next, newtypeNext, hlock, hend]
  rw [waitingRow, htype]
  rfl

theorem gameOver_iff (hlock : s.locks i = true) :
    s.gameOver i = true ↔ Hits s.gameboard s.row 0 4 := by
  rw [gameOver, hlock, Bool.true_and, bne_iff_ne, testEnd, ne_eq,
    test_eq_zero_of_le (by omega) (by omega), not_not]

/-- The locked piece is in the way of a piece spawned with the rows `rows`. -/
def InWay (s : Ball) (rows : ℕ → BitVec 4) : Prop :=
  ∃ k < 4, ∃ j < 4, (rows k).getLsbD j = true ∧
    covers s.row s.ypos.toNat s.xpos.toNat (0 + k) (4 + j) = true

instance (s : Ball) (rows : ℕ → BitVec 4) : Decidable (s.InWay rows) :=
  inferInstanceAs (Decidable (∃ k < 4, ∃ j < 4, _ ∧ _))

/-- A piece that is free of the board is locked cell by cell: what is blocked after it is
what the board blocked before or what the piece covers. -/
theorem hits_merged (hfree : ¬s.Overlaps) (rows : ℕ → BitVec 4) :
    Hits (s.merged i) rows 0 4 ↔ Hits s.gameboard rows 0 4 ∨ s.InWay rows := by
  have hbit : ∀ k < 4, ∀ j < 4, (s.merged i).bit (0 + k) (4 + j) =
      (s.gameboard.bit (0 + k) (4 + j) ||
        covers s.row s.ypos.toNat s.xpos.toNat (0 + k) (4 + j)) := by
    intro k hk j hj
    rw [merged, bit_add hfree, decide_eq_true (by omega), Bool.true_and]
  refine ⟨?_, ?_⟩
  · rintro ⟨k, hk, j, hj, hrow, h⟩
    rw [hbit k hk j hj, Bool.or_eq_true] at h
    exact h.imp (fun h => ⟨k, hk, j, hj, hrow, h⟩) fun h => ⟨k, hk, j, hj, hrow, h⟩
  · rintro (⟨k, hk, j, hj, hrow, h⟩ | ⟨k, hk, j, hj, hrow, h⟩)
    · exact ⟨k, hk, j, hj, hrow, by rw [hbit k hk j hj, h, Bool.true_or]⟩
    · exact ⟨k, hk, j, hj, hrow, by rw [hbit k hk j hj, h, Bool.or_true]⟩

/-- The lock may change the cell `(r, c)`: it is one of the piece, or only one of its four by four
box if the piece overlaps the board, as the sums of the lock carry then. -/
def MayChange (s : Ball) (r c : ℕ) : Prop :=
  (s.ypos.toNat ≤ r ∧ r < s.ypos.toNat + 4 ∧ s.xpos.toNat ≤ c ∧ c < s.xpos.toNat + 4) ∧
    (s.Overlaps ∨ covers s.row s.ypos.toNat s.xpos.toNat r c = true)

instance (s : Ball) (r c : ℕ) : Decidable (s.MayChange r c) :=
  inferInstanceAs (Decidable (_ ∧ _))

theorem bit_merged {r c : ℕ} (h : ¬s.MayChange r c) :
    (s.merged i).bit r c = s.gameboard.bit r c := by
  by_cases hfree : s.Overlaps
  · rw [merged, bit_add_eq, if_neg]
    exact fun hin => h ⟨by omega, .inl hfree⟩
  · have hcov : covers s.row s.ypos.toNat s.xpos.toNat r c = false := by
      rw [Bool.eq_false_iff]
      intro hcov
      have hin := hcov
      rw [covers, Bool.and_eq_true, decide_eq_true_iff] at hin
      exact h ⟨hin.1, .inr hcov⟩
    rw [merged, bit_add hfree, hcov, Bool.and_false, Bool.or_false]

/-- At the top of the board some cell of both pieces is occupied, and the lock leaves it so. -/
def BothBlocked (i : Input) (s : Ball) : Prop :=
  ∃ k < 4, ∃ j < 4, (s.row k).getLsbD j = true ∧ (s.spawnRows i k).getLsbD j = true ∧
    s.gameboard.bit (0 + k) (4 + j) = true ∧ ¬s.MayChange (0 + k) (4 + j)

/-- At the top of the board no cell of either piece is occupied, and the lock leaves the cells of
the next one alone. -/
def BothFree (i : Input) (s : Ball) : Prop :=
  ∀ k < 4, ∀ j < 4,
    ((s.row k).getLsbD j = true → s.gameboard.bit (0 + k) (4 + j) = false) ∧
    ((s.spawnRows i k).getLsbD j = true →
      s.gameboard.bit (0 + k) (4 + j) = false ∧ ¬s.MayChange (0 + k) (4 + j))

instance (i : Input) (s : Ball) : Decidable (BothBlocked i s) :=
  inferInstanceAs (Decidable (∃ k < 4, ∃ j < 4, _ ∧ _))

instance (i : Input) (s : Ball) : Decidable (BothFree i s) :=
  inferInstanceAs (Decidable (∀ k < 4, ∀ j < 4, _ ∧ _))

/-- The top of the board is for the next piece what it is for the old one. -/
def Alike (i : Input) (s : Ball) : Prop := BothBlocked i s ∨ BothFree i s

instance (i : Input) (s : Ball) : Decidable (Alike i s) := inferInstanceAs (Decidable (_ ∨ _))

theorem BothBlocked.hits (h : BothBlocked i s) :
    Hits s.gameboard s.row 0 4 ∧ Hits (s.merged i) (s.spawnRows i) 0 4 := by
  obtain ⟨k, hk, j, hj, hold, hnext, hbit, hkeep⟩ := h
  exact ⟨⟨k, hk, j, hj, hold, hbit⟩, k, hk, j, hj, hnext, (bit_merged hkeep).trans hbit⟩

theorem BothFree.not_hits (h : BothFree i s) :
    ¬Hits s.gameboard s.row 0 4 ∧ ¬Hits (s.merged i) (s.spawnRows i) 0 4 := by
  rw [not_hits_iff, not_hits_iff]
  refine ⟨fun k hk j hj hold => (h k hk j hj).1 hold, fun k hk j hj hnext => ?_⟩
  obtain ⟨hbit, hkeep⟩ := (h k hk j hj).2 hnext
  exact (bit_merged hkeep).trans hbit

/-- A free piece is locked without carries: if nothing is blocked, nothing was. -/
theorem bothFree_of_not_hits (hfree : ¬s.Overlaps) (hold : ¬Hits s.gameboard s.row 0 4)
    (hnext : ¬Hits (s.merged i) (s.spawnRows i) 0 4) : BothFree i s := by
  rw [hits_merged hfree, not_or] at hnext
  intro k hk j hj
  refine ⟨not_hits_iff.mp hold k hk j hj, fun hrow => ⟨not_hits_iff.mp hnext.1 k hk j hj hrow, ?_⟩⟩
  rintro ⟨-, hover | hcov⟩
  · exact hfree hover
  · exact hnext.2 ⟨k, hk, j, hj, hrow, hcov⟩

/-- **The spawn.**  In a frame that locks a piece the game ends exactly when the next piece is
blocked, if the top of the board is alike for the two pieces.  If it is not, and the locked piece is
free of the board, that is so only where the game ends. -/
theorem ends_exactly (s : Ball) (i : Input) (hlock : s.locks i = true) :
    (Alike i s → (s.gameOver i = true ↔ Hits (s.merged i) (s.spawnRows i) 0 4)) ∧
    (¬s.Overlaps → ¬Alike i s →
      (s.gameOver i = true ↔ Hits (s.merged i) (s.spawnRows i) 0 4) → s.gameOver i = true) := by
  rw [gameOver_iff hlock]
  constructor
  · rintro (hblocked | hfree)
    · exact iff_of_true hblocked.hits.1 hblocked.hits.2
    · exact iff_of_false hfree.not_hits.1 hfree.not_hits.2
  · intro hfree hnot h
    by_contra hold
    exact hnot (.inr (bothFree_of_not_hits hfree hold (mt h.mpr hold)))

/-- The bar lands on the floor of an empty well. -/
def landing : Ball := { powerUp.reset with ypos := 17, counter := 63, randNum := 0x70 }

theorem ends_exactly_landing :
    landing.gameOver (play [] 0) = true ↔
      Hits (landing.merged (play [] 0)) (landing.spawnRows (play [] 0)) 0 4 :=
  (ends_exactly landing (play [] 0) (by decide +kernel)).1 (by decide +kernel)

/-- A game of four pieces: a turn and a move that are committed together take the first one
into the wall, where it locks, and the others pile up on it. -/
def pile : List (BitVec 8 × ℕ) :=
  [(0x07, 2), (0, 2), (0x07, 2), (0, 2), (0x07, 2), (0, 2), (0x07, 2), (0, 2), (0x51, 2),
   (0x07, 1), (0, 2), (0x07, 2), (0, 41), (0x04, 2), (0, 2), (0x52, 2), (0x07, 1), (0, 57),
   (0x07, 2), (0, 2), (0x07, 2), (0, 2), (0x07, 2), (0, 2), (0x52, 2), (0x07, 1), (0, 49),
   (0x07, 2), (0, 2), (0x51, 2), (0x07, 1)]

/-- The last frame locks a piece in the way of the next one, and the game goes on. -/
theorem spawn_blocked_not_over :
    (run next (play pile) powerUp.reset 255).locks (play pile 255) = true ∧
    (run next (play pile) powerUp.reset 255).gameOver (play pile 255) = false ∧
    Hits ((run next (play pile) powerUp.reset 255).merged (play pile 255))
      ((run next (play pile) powerUp.reset 255).spawnRows (play pile 255)) 0 4 := by
  rw [← run_normal next normal_eq]
  decide +kernel

/-! ### The end -/

theorem lastFull_max {g : Board} {r r' : Fin 20} (h : lastFull g = some r)
    (hfull : full g r' = true) : r' ≤ r := by
  obtain ⟨-, as, bs, hlist, has⟩ := List.find?_eq_some_iff_append.mp h
  have hmem : r' ∈ as ++ r :: bs := by
    rw [← hlist, List.mem_reverse]
    exact List.mem_finRange r'
  have hsorted : (as ++ r :: bs).Pairwise (· > ·) := by
    rw [← hlist, List.pairwise_reverse]
    exact List.pairwise_lt_finRange 20
  rw [List.mem_append, List.mem_cons] at hmem
  rcases hmem with hpre | rfl | hpost
  · have := has r' hpre
    rw [hfull] at this
    cases this
  · exact Nat.le_refl _
  · exact Nat.le_of_lt ((List.pairwise_cons.mp (List.pairwise_append.mp hsorted).2.1).1 r' hpost)

/-- Two rows are full. -/
def TwoFull (g : Board) : Prop :=
  ∃ r r' : Fin 20, r < r' ∧ full g r = true ∧ full g r' = true

theorem full_endPicture (k : Fin 20) : full endPicture k = false := by
  revert k
  decide

/-- A second full row comes down in the game-over frame. -/
theorem full_clearRow_of_twoFull {g : Board} {r : Fin 20} (hfull : lastFull g = some r)
    (h : TwoFull g) : ∃ k, full (clearRow g endPicture r) k = true := by
  obtain ⟨r₁, r₂, hlt, h₁, h₂⟩ := h
  have hle := lastFull_max hfull h₂
  have hr := r.isLt
  refine ⟨⟨r₁ + 1, by omega⟩, ?_⟩
  rw [full_iff]
  intro c h3 h12
  rw [bit_clearRow, if_pos ⟨by simp; omega, h3, h12⟩, decide_eq_true (by simp), Bool.true_and]
  exact (full_iff _ r₁).mp h₁ c h3 h12

/-- A row that is full after it has come down: the picture has none. -/
theorem twoFull_of_full_clearRow {g : Board} {r k : Fin 20} (hfull : lastFull g = some r)
    (hk : full (clearRow g endPicture r) k = true) : TwoFull g := by
  have hbits := (full_iff _ k).mp hk
  simp only [bit_clearRow] at hbits
  by_cases hle : k ≤ r
  · have hpos : 0 < k.val := by
      have := hbits 3 (by omega) (by omega)
      rw [if_pos ⟨hle, by omega, by omega⟩, Bool.and_eq_true, decide_eq_true_iff] at this
      exact this.1
    refine ⟨⟨k.val - 1, by omega⟩, r, ?_, ?_, full_of_lastFull hfull⟩
    · change k.val - 1 < r.val
      have : k.val ≤ r.val := hle
      omega
    · rw [full_iff]
      intro c h3 h12
      have := hbits c h3 h12
      rw [if_pos ⟨hle, h3, h12⟩, decide_eq_true hpos, Bool.true_and] at this
      exact this
  · have hend : full endPicture k = true := by
      rw [full_iff]
      intro c h3 h12
      have := hbits c h3 h12
      rwa [if_neg (fun hin => hle hin.1)] at this
    rw [full_endPicture] at hend
    cases hend

/-- A row is full after the game-over frame exactly if a second one was before. -/
theorem lastFull_after (hover : s.gameOver i = true) :
    lastFull (s.next i).gameboard = none ↔ ¬TwoFull s.gameboard := by
  cases hfull : lastFull s.gameboard with
  | none =>
    have hboard : (s.next i).gameboard = endPicture := by
      simp [next, gameboardNext, hover, hfull]
    rw [hboard, iff_true_left ((lastFull_eq_none _).mpr full_endPicture)]
    rintro ⟨r, -, -, hr, -⟩
    rw [(lastFull_eq_none _).mp hfull r] at hr
    cases hr
  | some r =>
    have hboard : (s.next i).gameboard = clearRow s.gameboard endPicture r := by
      simp [next, gameboardNext, hover, hfull]
    rw [hboard, lastFull_eq_none]
    constructor
    · intro h htwo
      obtain ⟨k, hk⟩ := full_clearRow_of_twoFull hfull htwo
      rw [h k] at hk
      cases hk
    · exact fun h k => Bool.eq_false_iff.mpr fun hk => h (twoFull_of_full_clearRow hfull hk)

/-- The four columns from `x` on are empty. -/
def Beside (g : Board) (x : BitVec 4) : Prop := ∀ r < 23, ∀ j < 4, g.bit r (x.toNat + j) = false

instance (g : Board) (x : BitVec 4) : Decidable (Beside g x) :=
  inferInstanceAs (Decidable (∀ r < 23, ∀ j < 4, _))

/-- The inputs of the frame keep the piece away from the picture. -/
structure Away (i : Input) (s : Ball) : Prop where
  /-- Outside the board nothing is below the piece. -/
  reads : s.move = true → ∀ k < 4, ∀ j < 4, (s.row k).getLsbD j = true →
    ¬(s.ypos.toNat + 1 + k < 23 ∧ s.xpos.toNat + j < 16) →
      i.oob .testDown (s.ypos.toNat + 1 + k) (s.xpos.toNat + j) = false
  /-- A key that has been held asks for no column of the picture. -/
  keys : ∀ k : Key, s.pressed = true → i.keycode = k.code → k.test i s = 0 →
    Beside s.gameboard (k.moved s.piece).xpos

/-- The piece is beside the picture `g`, and so is the column that waits. -/
structure Parked (g : Board) (s : Ball) : Prop where
  gameboard : s.gameboard = g
  noFull : lastFull g = none
  beside : Beside g s.xpos
  waiting : Beside g (s.xpos + s.blockXMotion.setWidth 4)

variable {g : Board}

/-- Whatever its row, there is nothing below the parked piece. -/
theorem Parked.not_locks (h : Parked g s) (haway : Away i s) : s.locks i = false := by
  cases hmove : s.move with
  | false => exact locks_of_still hmove
  | true =>
    have hdown : s.testDown i = 0 := by
      rw [testDown, test_eq_zero]
      intro k hk j hj hrow
      by_cases hin : s.ypos.toNat + 1 + k < 23 ∧ s.xpos.toNat + j < 16
      · rw [read_of_lt _ _ hin.1 hin.2, h.gameboard]
        exact h.beside _ hin.1 j hj
      · rw [Grid.read, if_neg hin]
        exact haway.reads hmove k hk j hj hrow hin
    rw [locks, hdown, bne_self_eq_false, Bool.and_false]

/-- It falls for ever: from row `31` it comes to row `0`. -/
theorem Parked.falls (h : Parked g s) (haway : Away i s) (hmove : s.move = true) :
    (s.next i).ypos = s.ypos + 1 := by
  have hlock := h.not_locks haway
  have hover : s.gameOver i = false := by rw [gameOver, hlock, Bool.false_and]
  rw [next_ypos hover, aimY, hlock, hmove]
  rfl

/-- What waits after a frame with a held key. -/
theorem motion_cases (hp : s.pressed = true) :
    (s.next i).blockXMotion = 0 ∨ (s.next i).blockXMotion = s.blockXMotion ∨
      ∃ k : Key, i.keycode = k.code ∧ k.test i s = 0 ∧ (s.next i).motion = k.motion := by
  by_cases hkey : ∃ k : Key, i.keycode = k.code
  · obtain ⟨k, hk⟩ := hkey
    by_cases hclear : k.test i s = 0
    · exact .inr (.inr ⟨k, hk, hclear, motion_key hk hclear hp⟩)
    · refine .inl ?_
      have hmotion := motion_blocked hk hclear
      exact congrArg Prod.fst hmotion
  · refine .inr (.inl ?_)
    have hmotion := motion_kept (i := i) (fun k hk => hkey ⟨k, hk⟩) hp
    exact congrArg Prod.fst hmotion

theorem add_still (x : BitVec 4) : x + (0 : BitVec 10).setWidth 4 = x := by
  revert x
  decide

/-- **One frame** leaves the parked piece beside the picture, one row further down or where it
is; below the last row comes the first. -/
theorem parked_next (h : Parked g s) (haway : Away i s) :
    Parked g (s.next i) ∧ (s.next i).score = s.score := by
  have hlock := h.not_locks haway
  have hnone : lastFull s.gameboard = none := by rw [h.gameboard, h.noFull]
  have hboard : (s.next i).gameboard = g := by
    rw [gameboard_of_not_locks hlock, hnone, Option.elim_none, h.gameboard]
  have hscore : (s.next i).score = s.score := by simp [next, scoreNext, hnone, hlock]
  refine ⟨?_, hscore⟩
  cases hp : s.pressed with
  | false =>
    have hx : (s.next i).xpos = s.xpos + s.blockXMotion.setWidth 4 := by
      simp [next, xposNext, hlock, hp]
    have hmotion : (s.next i).blockXMotion = 0 :=
      congrArg Prod.fst (motion_not_pressed (i := i) hp)
    refine ⟨hboard, h.noFull, hx ▸ h.waiting, ?_⟩
    rw [hx, hmotion, add_still]
    exact h.waiting
  | true =>
    have hx : (s.next i).xpos = s.xpos := by simp [next, xposNext, hlock, hp]
    refine ⟨hboard, h.noFull, hx ▸ h.beside, ?_⟩
    rw [hx]
    rcases motion_cases (i := i) hp with hzero | hsame | ⟨k, hk, hclear, hmotion⟩
    · rw [hzero, add_still]
      exact h.beside
    · rw [hsame]
      exact h.waiting
    · have hfst : (s.next i).blockXMotion = k.motion.1 := congrArg Prod.fst hmotion
      have hmoved := congrArg Piece.xpos (k.shift_motion s.piece)
      have haim := haway.keys k hp hk hclear
      rw [h.gameboard, ← hmoved] at haim
      rw [hfst]
      exact haim

/-- The motions that the keys leave. -/
def UnitMotion (m : BitVec 10) : Prop := m = 0 ∨ m = 1 ∨ m = ~~~1 + 1

theorem unitMotion_next (h : s.pressed = true → UnitMotion s.blockXMotion) :
    UnitMotion (s.next i).blockXMotion := by
  cases hp : s.pressed with
  | false => exact .inl (congrArg Prod.fst (motion_not_pressed (i := i) hp))
  | true =>
    rcases motion_cases (i := i) hp with hzero | hsame | ⟨k, -, -, hmotion⟩
    · exact .inl hzero
    · rw [hsame]
      exact h hp
    · have hfst : (s.next i).blockXMotion = k.motion.1 := congrArg Prod.fst hmotion
      rw [hfst]
      cases k with
      | left => exact .inr (.inr rfl)
      | right => exact .inr (.inl rfl)
      | down => exact .inl rfl

/-- No motion is left over from before the reset: its first frame clears them. -/
theorem run_unitMotion (s : Ball) (w : ℕ → Input) (n : ℕ) :
    UnitMotion (run next w s.reset (n + 1)).blockXMotion := by
  have hstep : ∀ (i : Input) (s : Ball), True → (s.pressed = true → UnitMotion s.blockXMotion) →
      (s.next i).pressed = true → UnitMotion (s.next i).blockXMotion :=
    fun _ _ _ h _ => unitMotion_next h
  have h0 : s.reset.pressed = true → UnitMotion s.reset.blockXMotion :=
    fun h => absurd h Bool.false_ne_true
  exact unitMotion_next (run_invariant hstep h0 n fun _ _ => trivial)

theorem beside_endPicture : Beside endPicture 15 ∧ Beside endPicture 14 ∧ Beside endPicture 0 := by
  decide

/-- The picture leaves the columns free that the game-over frame and a waiting motion lead to; a
line clear over it, the last one. -/
theorem beside_gameOver (hover : s.gameOver i = true) : Beside (s.next i).gameboard 15 ∧
    (lastFull s.gameboard = none →
      Beside (s.next i).gameboard 14 ∧ Beside (s.next i).gameboard 0) := by
  cases hlast : lastFull s.gameboard with
  | none =>
    have hboard : (s.next i).gameboard = endPicture := by
      simp [next, gameboardNext, hover, hlast]
    rw [hboard]
    exact ⟨beside_endPicture.1, fun _ => beside_endPicture.2⟩
  | some r =>
    have hboard : (s.next i).gameboard = clearRow s.gameboard endPicture r := by
      simp [next, gameboardNext, hover, hlast]
    refine ⟨fun r' hr' j hj => ?_, fun hnone => absurd hnone (Option.some_ne_none r)⟩
    have h15 : (15 : BitVec 4).toNat = 15 := rfl
    rw [hboard, bit_clearRow, if_neg (by omega)]
    exact beside_endPicture.1 r' hr' j hj

theorem place_gameOver (hover : s.gameOver i = true) :
    (s.next i).xpos = 15 ∧ (s.next i).ypos = 31 := by
  obtain ⟨hlock, hend⟩ : s.locks i = true ∧ ¬s.testEnd = 0 := by
    simpa [gameOver] using hover
  obtain ⟨hmove, hdown⟩ : s.move = true ∧ ¬s.testDown i = 0 := by
    simpa [locks] using hlock
  constructor
  · simp only [next, xposNext, hlock, if_true, if_neg hend]
  · simp only [next, yposNext, hmove, if_true, if_neg hdown, if_neg hend]

/-- **The game-over frame** parks the piece beside the picture, in the last column. -/
theorem parked_gameOver (hover : s.gameOver i = true) (hunit : UnitMotion (s.next i).blockXMotion)
    (hfull : lastFull s.gameboard = none ∨ ¬TwoFull s.gameboard ∧ s.pressed = false) :
    Parked (s.next i).gameboard (s.next i) := by
  have htwo : ¬TwoFull s.gameboard := by
    rcases hfull with hnone | ⟨htwo, -⟩
    · rintro ⟨r, -, -, hr, -⟩
      rw [(lastFull_eq_none _).mp hnone r] at hr
      cases hr
    · exact htwo
  obtain ⟨hx, -⟩ := place_gameOver hover
  obtain ⟨h15, hothers⟩ := beside_gameOver hover
  refine ⟨rfl, (lastFull_after hover).mpr htwo, hx ▸ h15, ?_⟩
  rw [hx]
  rcases hfull with hnone | ⟨-, hp⟩
  · obtain ⟨h14, h0⟩ := hothers hnone
    rcases hunit with hm | hm | hm
    all_goals rw [hm]
    · exact h15
    · exact h0
    · exact h14
  · have hm : (s.next i).blockXMotion = 0 := congrArg Prod.fst (motion_not_pressed (i := i) hp)
    rw [hm]
    exact h15

/-- From the game-over frame on the piece is parked, and nothing is scored. -/
theorem parked_run {s : Ball} {w : ℕ → Input} {N : ℕ}
    (hover : (run next w s.reset N).gameOver (w N) = true)
    (hfull : lastFull (run next w s.reset N).gameboard = none ∨
      ¬TwoFull (run next w s.reset N).gameboard ∧ (run next w s.reset N).pressed = false)
    (haway : ∀ n, N < n → Away (w n) (run next w s.reset n)) (m : ℕ) :
    Parked (run next w s.reset (N + 1)).gameboard (run next w s.reset (N + 1 + m)) ∧
      (run next w s.reset (N + 1 + m)).score = (run next w s.reset (N + 1)).score := by
  induction m with
  | zero => exact ⟨parked_gameOver hover (run_unitMotion s w N) hfull, rfl⟩
  | succ m ih =>
    obtain ⟨hparked, hscore⟩ := parked_next ih.1 (haway (N + 1 + m) (by omega))
    exact ⟨hparked, hscore.trans ih.2⟩

/-- **The end is final.**  After a game-over frame that found no full row (or just one, with no key
held), the board and the score stay as they are for good, as long as nothing is read below the piece
outside the board and no key asks for a column of the picture. -/
theorem final_of_away (s : Ball) (w : ℕ → Input) (N : ℕ)
    (hover : (run next w s.reset N).gameOver (w N) = true)
    (hfull : lastFull (run next w s.reset N).gameboard = none ∨
      ¬TwoFull (run next w s.reset N).gameboard ∧ (run next w s.reset N).pressed = false)
    (haway : ∀ n, N < n → Away (w n) (run next w s.reset n)) : ∀ n, N < n →
    (run next w s.reset n).gameboard = (run next w s.reset (N + 1)).gameboard ∧
      (run next w s.reset n).score = (run next w s.reset (N + 1)).score := by
  intro n hn
  obtain ⟨m, rfl⟩ : ∃ m, n = N + 1 + m := ⟨n - (N + 1), by omega⟩
  obtain ⟨hparked, hscore⟩ := parked_run hover hfull haway m
  exact ⟨hparked.gameboard, hscore⟩

/-- A game of five pieces that ends; then no key is pressed. -/
def losing : List (BitVec 8 × ℕ) :=
  [(0x52, 2), (0x04, 1), (0, 2), (0x52, 2), (0x04, 1), (0, 56), (0x07, 2), (0, 2), (0x07, 2),
   (0, 2), (0x07, 2), (0, 2), (0x07, 2), (0, 2), (0x51, 2), (0x07, 1), (0, 45), (0x04, 2),
   (0, 2), (0x04, 2), (0, 2), (0x04, 2), (0, 2), (0x04, 2), (0, 2), (0x04, 2), (0, 2),
   (0x04, 2), (0, 2), (0x52, 2), (0x04, 1), (0, 2), (0x52, 2), (0x04, 1), (0, 32), (0x52, 2),
   (0, 2), (0x52, 2), (0x04, 1), (0, 57), (0x07, 2), (0, 2), (0x52, 2), (0x04, 1)]

theorem keyAt_of_le {keys : List (BitVec 8 × ℕ)} :
    ∀ {t : ℕ}, keys.foldr (fun k n => k.2 + n) 0 ≤ t → keyAt keys t = 0 := by
  induction keys with
  | nil => exact fun _ => rfl
  | cons k keys ih =>
    intro t ht
    rw [List.foldr_cons] at ht
    rw [keyAt, if_neg (by omega)]
    exact ih (by omega)

theorem final_of_away_losing :
    (run next (play losing) powerUp.reset 5000).gameboard =
        (run next (play losing) powerUp.reset 320).gameboard ∧
      (run next (play losing) powerUp.reset 5000).score =
        (run next (play losing) powerUp.reset 320).score := by
  refine final_of_away powerUp (play losing) 319 ?_ (.inl ?_) (fun n hn => ⟨?_, ?_⟩) 5000
    (by decide)
  · rw [← run_normal next normal_eq]
    decide +kernel
  · rw [← run_normal next normal_eq]
    decide +kernel
  · exact fun _ _ _ _ _ _ _ => rfl
  · intro k hp hkey
    have hnone : (play losing n).keycode = 0 := keyAt_of_le (Nat.le_trans (by decide) hn)
    rw [hnone] at hkey
    cases k <;> exact absurd hkey (by decide)

/-- The same game; from its end on every read outside the board finds a block. -/
def lost : ℕ → Input := fun t => { play losing t with oob := fun _ _ _ => decide (320 ≤ t) }

/-- The parked piece locks, and the score changes. -/
theorem not_final_lost :
    (run next lost powerUp.reset 319).gameOver (lost 319) = true ∧
    (run next lost powerUp.reset 384).score ≠ (run next lost powerUp.reset 320).score := by
  simp only [← run_normal next normal_eq]
  decide +kernel

end Ball

end ECE385.Tetris
