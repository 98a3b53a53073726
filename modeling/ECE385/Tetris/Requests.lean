import ECE385.Tetris.Confined
import ECE385.Tetris.GameOver
import ECE385.Tetris.Turn

/-!
# Requests that wait

A request is tested when its key asks for it and committed frames later, so it may be stale: the
piece has fallen meanwhile, another request waits beside it, rows have come down, or the piece is
another one.

* `Asks`, `AsksTurn`: a frame stores a request whose test is clear.
* `Ready`: what is shown is free of the board, and so is what waits, or its test is made again.
* `Careful`: a frame in which no request gets stale.
* `ready_next`: one frame.
* `no_overlap_of_careful`: so a game of such frames keeps the piece free of the board.
-/

namespace ECE385.Tetris

open Bits Clocked Grid

variable {g : Board} {rows : ℕ → BitVec 4} {y x : ℕ}

/-- Right above a cell of the piece, and above the row `r`, the board is occupied. -/
def Above (g : Board) (r : ℕ) (rows : ℕ → BitVec 4) (y x : ℕ) : Prop :=
  ∃ k < 4, ∃ j < 4, (rows k).getLsbD j = true ∧ y + k ≤ r ∧ 0 < y + k ∧
    g.bit (y + k - 1) (x + j) = true

instance (g : Board) (r : ℕ) (rows : ℕ → BitVec 4) (y x : ℕ) : Decidable (Above g r rows y x) :=
  inferInstanceAs (Decidable (∃ k < 4, ∃ j < 4, _ ∧ _))

/-- **The rows above a full row come down** on nothing. -/
theorem not_hits_clearRow {r : Fin 20} (hfree : ¬Hits g rows y x) (habove : ¬Above g r rows y x) :
    ¬Hits (clearRow g g r) rows y x := by
  rw [not_hits_iff] at hfree ⊢
  intro k hk j hj hrow
  rw [bit_clearRow]
  split_ifs with hin
  · rw [Bool.and_eq_false_iff, decide_eq_false_iff_not, Bool.eq_false_iff]
    by_contra hboth
    rw [not_or, not_not, not_not] at hboth
    exact habove ⟨k, hk, j, hj, hrow, hin.1, hboth⟩
  · exact hfree k hk j hj hrow

/-- A piece that falls goes down with the rows that come down. -/
theorem not_hits_clearRow_fall {r : Fin 20} (hfree : ¬Hits g rows y x)
    (hfall : ¬Hits g rows (y + 1) x) : ¬Hits (clearRow g g r) rows (y + 1) x := by
  rw [not_hits_iff] at hfree hfall ⊢
  intro k hk j hj hrow
  rw [bit_clearRow]
  split_ifs
  · rw [show y + 1 + k - 1 = y + k by omega, hfree k hk j hj hrow, Bool.and_false]
  · exact hfall k hk j hj hrow

namespace Ball

/-! ### What waits -/

/-- What waits is free of the board. -/
def Free (s : Ball) : Prop := ¬Hits s.gameboard s.waitingRow s.restY.toNat s.restX.toNat

/-- Nothing waits. -/
def Calm (s : Ball) : Prop := s.piece.Settled ∧ s.motion = (0, 0)

/-- The frame tests a motion, and so renews or withdraws the one that waits. -/
def Tests (i : Input) (s : Ball) : Prop := s.pressed = true ∧ ∃ k : Key, i.keycode = k.code

/-- The frame stores a motion. -/
def Asks (i : Input) (s : Ball) : Prop :=
  s.pressed = true ∧ ∃ k : Key, i.keycode = k.code ∧ k.test i s = 0

/-- The frame stores an orientation that is not the one that waits. -/
def AsksTurn (i : Input) (s : Ball) : Prop :=
  turns i = true ∧ s.testRotate i = 0 ∧ s.midorientation ≠ s.neworientation

/-- The row of what waits, when the piece falls: gravity overrides the motion that it commits. -/
def fallY (s : Ball) : BitVec 5 :=
  s.ypos + 1 + if s.pressed then s.blockYMotion.setWidth 5 else 0

/-- After a lock there is room at the top: the locked piece is in the way of neither another one
like it nor the next one, and the board has room for the next one. -/
structure RoomAtTop (i : Input) (s : Ball) : Prop where
  old : ¬s.InWay s.row
  next : ¬s.InWay (s.spawnRows i)
  board : ¬Hits s.gameboard (s.spawnRows i) 0 4

/-- No request gets stale in the frame `i`, if the next one is `i'`. -/
structure Careful (i i' : Input) (s : Ball) : Prop where
  /-- A motion is asked for when no other kind of request waits. -/
  motion : s.Asks i → s.piece.Settled
  /-- A turn is asked for when no motion and no new type waits, and neither the piece nor the board
  moves. -/
  turn : s.AsksTurn i → s.newtype = s.blockType ∧ s.motion = (0, 0) ∧ s.move = false ∧
    lastFull s.gameboard = none
  /-- A motion that is asked for while the piece falls or a row goes is tested again. -/
  again : s.Asks i → s.move = true ∨ (lastFull s.gameboard).isSome = true →
    ∃ k : Key, i'.keycode = k.code
  /-- What waits while the piece falls has room one row further down, unless it is tested. -/
  fall : s.move = true → s.testDown i = 0 → ¬s.Calm → ¬(s.Tests i ∧ s.piece.Settled) →
    ¬Hits s.gameboard s.waitingRow s.fallY.toNat s.restX.toNat
  /-- A piece is locked when nothing waits or is asked for and no row is full, and leaves room at
  the top. -/
  lock : s.locks i = true → s.Calm ∧ ¬s.Asks i ∧ lastFull s.gameboard = none ∧ s.RoomAtTop i
  /-- The rows above a full row come down on neither what is shown nor what waits. -/
  clear : s.move = false → ∀ r, lastFull s.gameboard = some r →
    ¬Above s.gameboard r s.row s.ypos.toNat s.xpos.toNat ∧
      ¬Above s.gameboard r s.waitingRow s.restY.toNat s.restX.toNat
  /-- If the piece falls with them, nothing waits. -/
  clearFall : s.move = true → (lastFull s.gameboard).isSome = true → s.Calm

/-- The piece is in the well, at most one kind of request waits, and it is free or tested again in
the frame `i`. -/
structure Ready (i : Input) (s : Ball) : Prop where
  confined : Confined s
  one : s.piece.Settled ∨ s.motion = (0, 0)
  waiting : s.Free ∨ s.Tests i ∧ s.piece.Settled

section Decidable

variable (s : Ball) (i i' : Input)

instance (p : Key → Prop) [DecidablePred p] : Decidable (∃ k, p k) :=
  decidable_of_iff (p .left ∨ p .right ∨ p .down) ⟨
    fun h => h.elim (⟨_, ·⟩) fun h => h.elim (⟨_, ·⟩) (⟨_, ·⟩),
    fun ⟨k, h⟩ => match k with
      | .left => .inl h
      | .right => .inr (.inl h)
      | .down => .inr (.inr h)⟩

instance : Decidable s.piece.Settled := inferInstanceAs (Decidable (_ ∧ _))

instance : Decidable s.Calm := inferInstanceAs (Decidable (_ ∧ _))

instance : Decidable (s.Tests i) := inferInstanceAs (Decidable (_ ∧ _))

instance : Decidable (s.Asks i) := inferInstanceAs (Decidable (_ ∧ ∃ _ : Key, _ ∧ _))

instance : Decidable (s.AsksTurn i) := inferInstanceAs (Decidable (_ ∧ _))

instance : Decidable (s.RoomAtTop i) :=
  decidable_of_iff (¬s.InWay s.row ∧ ¬s.InWay (s.spawnRows i) ∧
      ¬Hits s.gameboard (s.spawnRows i) 0 4)
    ⟨fun ⟨hold, hnext, hboard⟩ => ⟨hold, hnext, hboard⟩,
      fun ⟨hold, hnext, hboard⟩ => ⟨hold, hnext, hboard⟩⟩

set_option synthInstance.maxSize 1000 in
instance : Decidable (Careful i i' s) :=
  decidable_of_iff
    ((s.Asks i → s.piece.Settled) ∧
    (s.AsksTurn i → s.newtype = s.blockType ∧ s.motion = (0, 0) ∧ s.move = false ∧
      lastFull s.gameboard = none) ∧
    (s.Asks i → s.move = true ∨ (lastFull s.gameboard).isSome = true →
      ∃ k : Key, i'.keycode = k.code) ∧
    (s.move = true → s.testDown i = 0 → ¬s.Calm → ¬(s.Tests i ∧ s.piece.Settled) →
      ¬Hits s.gameboard s.waitingRow s.fallY.toNat s.restX.toNat) ∧
    (s.locks i = true → s.Calm ∧ ¬s.Asks i ∧ lastFull s.gameboard = none ∧ s.RoomAtTop i) ∧
    (s.move = false → ∀ r, lastFull s.gameboard = some r →
      ¬Above s.gameboard r s.row s.ypos.toNat s.xpos.toNat ∧
        ¬Above s.gameboard r s.waitingRow s.restY.toNat s.restX.toNat) ∧
    (s.move = true → (lastFull s.gameboard).isSome = true → s.Calm))
    ⟨fun ⟨hmotion, hturn, hagain, hfall, hlock, hclear, hclearFall⟩ =>
      ⟨hmotion, hturn, hagain, hfall, hlock, hclear, hclearFall⟩,
    fun ⟨hmotion, hturn, hagain, hfall, hlock, hclear, hclearFall⟩ =>
      ⟨hmotion, hturn, hagain, hfall, hlock, hclear, hclearFall⟩⟩

end Decidable

variable {s : Ball} {i i' : Input}

/-! ### The registers after a frame -/

theorem waitingRow_settled (h : s.piece.Settled) : s.waitingRow = s.row := by
  obtain ⟨htype, horient⟩ : s.newtype = s.blockType ∧ s.neworientation = s.orientation := h
  funext k
  rw [waitingRow, row, htype, horient]

theorem rest_of_still (h : s.motion = (0, 0)) : s.restX = s.xpos ∧ s.restY = s.ypos := by
  obtain ⟨hx, hy⟩ := Prod.mk.inj h
  simp [restX, restY, hx, hy]

theorem neworientation_kept (h : ¬s.AsksTurn i) : (s.next i).neworientation = s.neworientation := by
  simp only [next, neworientationNext]
  split_ifs with hturn
  · rw [Bool.and_eq_true, beq_iff_eq] at hturn
    by_contra hne
    exact h ⟨hturn.1, hturn.2, hne⟩
  · rfl

theorem newtype_kept (hlock : s.locks i = false) : (s.next i).newtype = s.newtype := by
  simp [next, newtypeNext, hlock]

theorem waitingRow_kept (hlock : s.locks i = false) (h : ¬s.AsksTurn i) :
    (s.next i).waitingRow = s.waitingRow := by
  rw [waitingRow, waitingRow, newtype_kept hlock, neworientation_kept h]

theorem settled_kept (hlock : s.locks i = false) (h : ¬s.AsksTurn i) (hp : s.pressed = true)
    (hset : s.piece.Settled) : (s.next i).piece.Settled := by
  obtain ⟨htype, horient⟩ : s.newtype = s.blockType ∧ s.neworientation = s.orientation := hset
  have htype' : (s.next i).blockType = s.blockType := by simp [next, hp]
  have horient' : (s.next i).orientation = s.orientation := by simp [next, hp]
  refine ⟨?_, ?_⟩
  · exact (newtype_kept hlock).trans (htype.trans htype'.symm)
  · exact (neworientation_kept h).trans (horient.trans horient'.symm)

theorem gameOver_of_not_locks (hlock : s.locks i = false) : s.gameOver i = false := by
  rw [gameOver, hlock, Bool.false_and]

theorem overlaps_next (hover : s.gameOver i = false) : (s.next i).Overlaps ↔
    Hits (s.next i).gameboard s.shown (s.aimY i).toNat (s.aimX i).toNat := by
  rw [Overlaps, next_row, next_xpos hover, next_ypos hover]

/-- Where the waiting motion leads after a frame. -/
theorem rest_next (hover : s.gameOver i = false) {m : BitVec 10 × BitVec 10}
    (hmotion : (s.next i).motion = m) : (s.next i).restX = s.aimX i + m.1.setWidth 4 ∧
      (s.next i).restY = s.aimY i + m.2.setWidth 5 := by
  rw [restX, restY, next_xpos hover, next_ypos hover, ← hmotion]
  exact ⟨rfl, rfl⟩

theorem rest_next_still (hover : s.gameOver i = false) (hmotion : (s.next i).motion = (0, 0)) :
    (s.next i).restX = s.aimX i ∧ (s.next i).restY = s.aimY i := by
  obtain ⟨hx, hy⟩ := rest_next hover hmotion
  rw [hx, hy]
  simp

/-- A turn is no motion. -/
theorem AsksTurn.not_key (h : s.AsksTurn i) : ∀ k : Key, i.keycode ≠ k.code := by
  intro k hk
  have hturn := h.1
  rw [turns_key hk] at hturn
  cases hturn

theorem not_hits_cleared (hfree : ¬Hits g rows y x)
    (habove : ∀ r, lastFull g = some r → ¬Above g r rows y x) : ¬Hits (cleared g) rows y x := by
  rw [cleared]
  cases hlast : lastFull g with
  | none => exact hfree
  | some r => exact not_hits_clearRow hfree (habove r hlast)

/-- **A test** that is clear finds room where its key leads. -/
theorem not_hits_of_key {k : Key} (hconf : Confined s) (hclear : k.test i s = 0) :
    ¬Hits s.gameboard s.row (k.moved s.piece).ypos.toNat (k.moved s.piece).xpos.toNat := by
  obtain ⟨hrow, hlow, hhigh⟩ := inWell_bounds hconf.inWell
  cases k with
  | left =>
    have htest := not_hits_of_test hclear
    have hcol : (s.xpos.setWidth 32 - 1#32).toNat = (s.xpos - 1).toNat := by
      simp [BitVec.toNat_sub]
      omega
    rw [hcol] at htest
    exact htest
  | right =>
    have htest := not_hits_of_test hclear
    have hcol : s.xpos.toNat + 1 = (s.xpos + 1).toNat := by
      simp [BitVec.toNat_add]
      omega
    rw [hcol] at htest
    exact htest
  | down =>
    have htest := not_hits_of_test hclear
    have hcol : s.ypos.toNat + 1 = (s.ypos + 1).toNat := by
      simp [BitVec.toNat_add]
      omega
    rw [hcol] at htest
    exact htest

/-! ### The frames -/

/-- What a frame has to lead to. -/
def LeadsTo (i' : Input) (u : Ball) : Prop :=
  ¬u.Overlaps ∧ (u.Free ∨ u.Tests i' ∧ u.piece.Settled)

theorem Tests.not_released (h : s.Tests i) : s.pressed ≠ false := by
  rw [h.1]
  exact Bool.noConfusion

/-- What a clear turn is tested for. -/
theorem not_hits_of_turn (hturn : s.AsksTurn i) (htype : s.newtype = s.blockType)
    (hlock : s.locks i = false) :
    ¬Hits s.gameboard (s.next i).waitingRow s.ypos.toNat s.xpos.toNat := by
  have hwaiting : (s.next i).waitingRow = s.testrow := by
    have horient : (s.next i).neworientation = s.midorientation := by
      simp [next, neworientationNext, hturn.1, hturn.2.1]
    funext k
    rw [waitingRow, newtype_kept hlock, horient, htype, testrow]
  rw [hwaiting]
  exact not_hits_of_test hturn.2.1

section Still

variable (h : Ready i s) (hc : Careful i i' s) (hmove : s.move = false)

include h hc hmove

theorem still_shown : ¬Hits (cleared s.gameboard) s.row s.ypos.toNat s.xpos.toNat :=
  not_hits_cleared h.confined.free fun r hr => (hc.clear hmove r hr).1

omit h in
theorem still_waiting (hfree : s.Free) :
    ¬Hits (cleared s.gameboard) s.waitingRow s.restY.toNat s.restX.toNat :=
  not_hits_cleared hfree fun r hr => (hc.clear hmove r hr).2

/-- **A frame with no key held** shows what waits. -/
theorem leads_commit (hp : s.pressed = false) : LeadsTo i' (s.next i) := by
  have hlock := locks_of_still (i := i) hmove
  have hover := gameOver_of_not_locks hlock
  have hfree : s.Free := h.waiting.resolve_right fun ht => ht.1.not_released hp
  have hroom := still_waiting hc hmove hfree
  have hshown : s.shown = s.waitingRow := by rw [shown, hp, if_neg Bool.false_ne_true]
  have hx : s.aimX i = s.restX := by simp [aimX, restX, hlock, hp]
  have hy : s.aimY i = s.restY := by simp [aimY, restY, hlock, hmove, hp]
  obtain ⟨hx', hy'⟩ := rest_next_still hover (motion_not_pressed (i := i) hp)
  refine ⟨?_, .inl ?_⟩
  · rw [overlaps_next hover, gameboard_of_not_locks hlock, hshown, hx, hy]
    exact hroom
  · rw [Free, gameboard_of_not_locks hlock, hx', hy', hx, hy]
    by_cases hturn : s.AsksTurn i
    · obtain ⟨htype, hmotion, -, hnone⟩ := hc.turn hturn
      obtain ⟨hrestX, hrestY⟩ := rest_of_still hmotion
      rw [hnone, Option.elim_none, hrestX, hrestY]
      exact not_hits_of_turn hturn htype hlock
    · rw [waitingRow_kept hlock hturn]
      exact hroom

omit h hc in
theorem aim_held (hp : s.pressed = true) : s.aimX i = s.xpos ∧ s.aimY i = s.ypos := by
  have hlock := locks_of_still (i := i) hmove
  simp [aimX, aimY, hlock, hmove, hp]

/-- The motion of a key is stored: it is free, or a row goes and it is tested again. -/
theorem held_asked (hp : s.pressed = true) {k : Key} (hk : i.keycode = k.code)
    (hclear : k.test i s = 0) :
    (s.next i).Free ∨ (s.next i).Tests i' ∧ (s.next i).piece.Settled := by
  have hlock := locks_of_still (i := i) hmove
  have hturn : ¬s.AsksTurn i := fun hturn => hturn.not_key k hk
  have hset := hc.motion ⟨hp, k, hk, hclear⟩
  cases hlast : lastFull s.gameboard with
  | none =>
    obtain ⟨hx, hy⟩ := aim_held (i := i) hmove hp
    obtain ⟨hx', hy'⟩ := rest_next (gameOver_of_not_locks hlock) (motion_key hk hclear hp)
    have hmoved := k.shift_motion s.piece
    have hcol : (s.next i).restX = (k.moved s.piece).xpos := by
      rw [hx', hx, ← hmoved]
      rfl
    have hrow : (s.next i).restY = (k.moved s.piece).ypos := by
      rw [hy', hy, ← hmoved]
      rfl
    rw [Free, gameboard_of_not_locks hlock, hlast, Option.elim_none, waitingRow_kept hlock hturn,
      waitingRow_settled hset, hcol, hrow]
    exact .inl (not_hits_of_key h.confined hclear)
  | some r =>
    have hagain := hc.again ⟨hp, k, hk, hclear⟩ (.inr (by rw [hlast]; rfl))
    have hpressed : (s.next i).pressed = true := by rw [pressed_key hk, hp, Bool.or_true]
    exact .inr ⟨⟨hpressed, hagain⟩, settled_kept hlock hturn hp hset⟩

/-- The motion of a key is blocked, and none waits. -/
theorem held_blocked (hp : s.pressed = true) {k : Key} (hk : i.keycode = k.code)
    (hclear : k.test i s ≠ 0) : (s.next i).Free := by
  have hlock := locks_of_still (i := i) hmove
  have hroom := still_shown h hc hmove
  obtain ⟨hx, hy⟩ := aim_held (i := i) hmove hp
  obtain ⟨hx', hy'⟩ := rest_next_still (gameOver_of_not_locks hlock) (motion_blocked hk hclear)
  rw [Free, gameboard_of_not_locks hlock,
    waitingRow_kept hlock fun hturn => hturn.not_key k hk, hx', hy', hx, hy]
  rcases h.waiting with hfree | ⟨-, hset⟩
  · rcases h.one with hset | hmotion
    · rw [waitingRow_settled hset]
      exact hroom
    · obtain ⟨hrestX, hrestY⟩ := rest_of_still hmotion
      rw [← hrestX, ← hrestY]
      exact still_waiting hc hmove hfree
  · rw [waitingRow_settled hset]
    exact hroom

/-- Any other key leaves the motion as it is. -/
theorem held_other (hp : s.pressed = true) (hkey : ¬∃ k : Key, i.keycode = k.code) :
    (s.next i).Free := by
  have hlock := locks_of_still (i := i) hmove
  have hfree : s.Free := h.waiting.resolve_right fun ht => hkey ht.1.2
  obtain ⟨hx, hy⟩ := aim_held (i := i) hmove hp
  obtain ⟨hx', hy'⟩ := rest_next (gameOver_of_not_locks hlock)
    (motion_kept (fun k hk => hkey ⟨k, hk⟩) hp)
  have hcol : (s.next i).restX = s.restX := by rw [hx', hx]; rfl
  have hrow : (s.next i).restY = s.restY := by rw [hy', hy]; rfl
  rw [Free, gameboard_of_not_locks hlock, hcol, hrow]
  by_cases hturn : s.AsksTurn i
  · obtain ⟨htype, hmotion, -, hnone⟩ := hc.turn hturn
    obtain ⟨hrestX, hrestY⟩ := rest_of_still hmotion
    rw [hnone, Option.elim_none, hrestX, hrestY]
    exact not_hits_of_turn hturn htype hlock
  · rw [waitingRow_kept hlock hturn]
    exact still_waiting hc hmove hfree

/-- **A frame with a key held** tests what it stores, and keeps what it does not. -/
theorem leads_held (hp : s.pressed = true) : LeadsTo i' (s.next i) := by
  have hlock := locks_of_still (i := i) hmove
  obtain ⟨hx, hy⟩ := aim_held (i := i) hmove hp
  have hshown : s.shown = s.row := by rw [shown, hp, if_pos rfl]
  refine ⟨?_, ?_⟩
  · rw [overlaps_next (gameOver_of_not_locks hlock), gameboard_of_not_locks hlock, hshown, hx, hy]
    exact still_shown h hc hmove
  · by_cases hkey : ∃ k : Key, i.keycode = k.code
    · obtain ⟨k, hk⟩ := hkey
      by_cases hclear : k.test i s = 0
      · exact held_asked h hc hmove hp hk hclear
      · exact .inl (held_blocked h hc hmove hp hk hclear)
    · exact .inl (held_other h hc hmove hp hkey)

end Still

section Fall

variable (h : Ready i s) (hc : Careful i i' s) (hmove : s.move = true) (hlock : s.locks i = false)

include h hc hmove hlock

omit hc in
theorem fall_shown : ¬Hits (cleared s.gameboard) s.row (s.ypos + 1).toNat s.xpos.toNat := by
  obtain ⟨hrow, -, -⟩ := inWell_bounds h.confined.inWell
  have hne : s.ypos ≠ 31 := by
    rintro heq
    rw [heq] at hrow
    exact absurd hrow (by decide)
  have hfall := not_hits_of_fall hlock hmove hne
  have hsucc : (s.ypos + 1).toNat = s.ypos.toNat + 1 := by
    simp [BitVec.toNat_add]
    omega
  rw [hsucc] at hfall ⊢
  rw [cleared]
  cases lastFull s.gameboard with
  | none => exact hfall
  | some r => exact not_hits_clearRow_fall h.confined.free hfall

theorem fall_waiting (ht : ¬(s.Tests i ∧ s.piece.Settled)) :
    ¬Hits (cleared s.gameboard) s.waitingRow s.fallY.toNat s.restX.toNat := by
  by_cases hcalm : s.Calm
  · obtain ⟨hx, -⟩ := rest_of_still hcalm.2
    have hy : s.fallY = s.ypos + 1 := by
      have hm : s.blockYMotion = 0 := congrArg Prod.snd hcalm.2
      simp [fallY, hm]
    rw [waitingRow_settled hcalm.1, hx, hy]
    exact fall_shown h hmove hlock
  · have hnone : lastFull s.gameboard = none := by
      cases hlast : lastFull s.gameboard with
      | none => rfl
      | some r =>
        exact absurd (hc.clearFall hmove (by rw [hlast]; rfl)) hcalm
    have hdown : s.testDown i = 0 := by simpa [locks, hmove] using hlock
    rw [cleared_of_none hnone]
    exact hc.fall hmove hdown hcalm ht

omit h hlock in
theorem fall_no_turn : ¬s.AsksTurn i := by
  intro hturn
  have hstill := (hc.turn hturn).2.2.1
  rw [hmove] at hstill
  cases hstill

/-- With no key held the piece becomes what waits. -/
theorem fall_released (hp : s.pressed = false) : LeadsTo i' (s.next i) := by
  have hover := gameOver_of_not_locks hlock
  have hturn := fall_no_turn hc hmove
  have hshown : s.shown = s.waitingRow := by rw [shown, hp, if_neg Bool.false_ne_true]
  have hx : s.aimX i = s.restX := by simp [aimX, restX, hlock, hp]
  have hy : s.aimY i = s.fallY := by simp [aimY, fallY, hlock, hmove, hp]
  obtain ⟨hx', hy'⟩ := rest_next_still hover (motion_not_pressed (i := i) hp)
  have hroom := fall_waiting h hc hmove hlock fun ht => ht.1.not_released hp
  rw [LeadsTo, overlaps_next hover, Free, gameboard_of_not_locks hlock, waitingRow_kept hlock hturn,
    hshown, hx', hy', hx, hy]
  exact ⟨hroom, .inl hroom⟩

/-- The motion of a key is blocked: what waits comes down with the piece. -/
theorem fall_blocked (hp : s.pressed = true) {k : Key} (hk : i.keycode = k.code)
    (hclear : k.test i s ≠ 0) : (s.next i).Free := by
  have hx : s.aimX i = s.xpos := by simp [aimX, hlock, hp]
  have hy : s.aimY i = s.ypos + 1 := by simp [aimY, hlock, hmove]
  obtain ⟨hx', hy'⟩ := rest_next_still (gameOver_of_not_locks hlock) (motion_blocked hk hclear)
  rw [Free, gameboard_of_not_locks hlock,
    waitingRow_kept hlock (fall_no_turn hc hmove), hx', hy', hx, hy]
  by_cases hset : s.piece.Settled
  · rw [waitingRow_settled hset]
    exact fall_shown h hmove hlock
  · have hmotion := h.one.resolve_left hset
    obtain ⟨hrestX, -⟩ := rest_of_still hmotion
    have hfall : s.fallY = s.ypos + 1 := by
      have hm : s.blockYMotion = 0 := congrArg Prod.snd hmotion
      simp [fallY, hm]
    rw [← hrestX, ← hfall]
    exact fall_waiting h hc hmove hlock fun ht => hset ht.2

/-- Any other key leaves the motion, which leads one row further down. -/
theorem fall_other (hp : s.pressed = true) (hkey : ¬∃ k : Key, i.keycode = k.code) :
    (s.next i).Free := by
  have hx : s.aimX i = s.xpos := by simp [aimX, hlock, hp]
  have hy : s.aimY i = s.ypos + 1 := by simp [aimY, hlock, hmove]
  obtain ⟨hx', hy'⟩ := rest_next (gameOver_of_not_locks hlock)
    (motion_kept (fun k hk => hkey ⟨k, hk⟩) hp)
  have hcol : (s.next i).restX = s.restX := by rw [hx', hx]; rfl
  have hrow : (s.next i).restY = s.fallY := by
    rw [hy', hy, fallY, hp, if_pos rfl]
    rfl
  rw [Free, gameboard_of_not_locks hlock,
    waitingRow_kept hlock (fall_no_turn hc hmove), hcol, hrow]
  exact fall_waiting h hc hmove hlock fun ht => hkey ht.1.2

/-- **A frame of gravity** takes the piece down, and with it what waits. -/
theorem leads_fall : LeadsTo i' (s.next i) := by
  cases hp : s.pressed with
  | false => exact fall_released h hc hmove hlock hp
  | true =>
    have hshown : s.shown = s.row := by rw [shown, hp, if_pos rfl]
    have hx : s.aimX i = s.xpos := by simp [aimX, hlock, hp]
    have hy : s.aimY i = s.ypos + 1 := by simp [aimY, hlock, hmove]
    refine ⟨?_, ?_⟩
    · rw [overlaps_next (gameOver_of_not_locks hlock), gameboard_of_not_locks hlock, hshown, hx, hy]
      exact fall_shown h hmove hlock
    · by_cases hkey : ∃ k : Key, i.keycode = k.code
      · obtain ⟨k, hk⟩ := hkey
        by_cases hclear : k.test i s = 0
        · have hset := hc.motion ⟨hp, k, hk, hclear⟩
          have hagain := hc.again ⟨hp, k, hk, hclear⟩ (.inl hmove)
          have hpressed : (s.next i).pressed = true := by rw [pressed_key hk, hp, Bool.or_true]
          exact .inr ⟨⟨hpressed, hagain⟩,
            settled_kept hlock (fall_no_turn hc hmove) hp hset⟩
        · exact .inl (fall_blocked h hc hmove hlock hp hk hclear)
      · exact .inl (fall_other h hc hmove hlock hp hkey)

end Fall

/-- A lock leaves no motion. -/
theorem motion_lock (hc : Careful i i' s) (hlock : s.locks i = true) :
    (s.next i).motion = (0, 0) := by
  obtain ⟨hcalm, hnot, -⟩ := hc.lock hlock
  cases hp : s.pressed with
  | false => exact motion_not_pressed hp
  | true =>
    by_cases hkey : ∃ k : Key, i.keycode = k.code
    · obtain ⟨k, hk⟩ := hkey
      exact motion_blocked hk fun hclear => hnot ⟨hp, k, hk, hclear⟩
    · exact (motion_kept (fun k hk => hkey ⟨k, hk⟩) hp).trans hcalm.2

/-- **A lock** leaves room for the piece that is shown next, and for the one that waits. -/
theorem leads_lock (h : Ready i s) (hc : Careful i i' s) (hlock : s.locks i = true)
    (hover : s.gameOver i = false) : LeadsTo i' (s.next i) := by
  obtain ⟨hcalm, -, hnone, hroom⟩ := hc.lock hlock
  have hboard : (s.next i).gameboard = s.merged i := by
    simp [next, gameboardNext, hover, hlock, hnone]
  have hshown : s.shown = s.row := by
    rw [shown, waitingRow_settled hcalm.1, ite_self]
  have haim : s.aimX i = 4 ∧ s.aimY i = 0 := by simp [aimX, aimY, hlock]
  have hend : ¬Hits s.gameboard s.row 0 4 := by
    rw [← gameOver_iff hlock, hover]
    exact Bool.false_ne_true
  obtain ⟨hx', hy'⟩ := rest_next_still hover (motion_lock hc hlock)
  refine ⟨?_, .inl ?_⟩
  · rw [overlaps_next hover, hboard, hshown, haim.1, haim.2]
    exact fun hhits => ((hits_merged h.confined.free _).mp hhits).elim hend hroom.old
  · rw [Free, hboard, waitingRow_spawn hlock hover, hx', hy', haim.1, haim.2]
    exact fun hhits => ((hits_merged h.confined.free _).mp hhits).elim hroom.board hroom.next

/-- One kind of request waits at most. -/
theorem one_next (h : Ready i s) (hc : Careful i i' s) :
    (s.next i).piece.Settled ∨ (s.next i).motion = (0, 0) := by
  cases hp : s.pressed with
  | false => exact .inr (motion_not_pressed hp)
  | true =>
    cases hlock : s.locks i with
    | true => exact .inr (motion_lock hc hlock)
    | false =>
      by_cases hkey : ∃ k : Key, i.keycode = k.code
      · obtain ⟨k, hk⟩ := hkey
        by_cases hclear : k.test i s = 0
        · exact .inl (settled_kept hlock (fun hturn => hturn.not_key k hk) hp
            (hc.motion ⟨hp, k, hk, hclear⟩))
        · exact .inr (motion_blocked hk hclear)
      · have hkept := motion_kept (fun k hk => hkey ⟨k, hk⟩) hp
        by_cases hturn : s.AsksTurn i
        · exact .inr (hkept.trans (hc.turn hturn).2.1)
        · exact h.one.imp (settled_kept hlock hturn hp) hkept.trans

/-- **One frame** in which no request gets stale. -/
theorem ready_next (h : Ready i s) (hc : Careful i i' s) (hover : s.gameOver i = false) :
    Ready i' (s.next i) := by
  have hleads : LeadsTo i' (s.next i) := by
    cases hlock : s.locks i with
    | true => exact leads_lock h hc hlock hover
    | false =>
      cases hmove : s.move with
      | true => exact leads_fall h hc hmove hlock
      | false =>
        cases hp : s.pressed with
        | true => exact leads_held h hc hmove hp
        | false => exact leads_commit h hc hmove hp
  exact ⟨confined_next h.confined hover (fun hlock => (hc.lock hlock).2.2.1) hleads.1,
    one_next h hc, hleads.2⟩

/-! ### The whole game -/

theorem ready_reset (i : Input) : Ready i powerUp.reset :=
  ⟨confined_reset, .inl ⟨rfl, rfl⟩, .inl not_overlaps_reset⟩

/-- **Collisions.**  Up to the end of the game, the piece is free of the board in every state if no
request gets stale. -/
theorem no_overlap_of_careful (w : ℕ → Input) (N : ℕ)
    (hover : ∀ n < N, (run next w powerUp.reset n).gameOver (w n) = false)
    (hcareful : ∀ n < N, Careful (w n) (w (n + 1)) (run next w powerUp.reset n)) :
    ∀ n ≤ N, ¬(run next w powerUp.reset n).Overlaps := by
  have hready : ∀ n ≤ N, Ready (w n) (run next w powerUp.reset n) := by
    intro n
    induction n with
    | zero => exact fun _ => ready_reset (w 0)
    | succ n ih => exact fun hn => ready_next (ih (by omega)) (hcareful n hn) (hover n hn)
  exact fun n hn => (hready n hn).confined.free

/-- The bar is moved to the left, turned upright and taken down step by step; it lands, and the next
piece falls. -/
def drop : ℕ → Input :=
  play ([(0x04, 2), (0, 2), (0x52, 2), (0, 2)] ++ (List.replicate 16 [(0x16, 2), (0, 2)]).flatten)

theorem no_overlap_of_careful_drop : ¬(run next drop powerUp.reset 192).Overlaps := by
  refine no_overlap_of_careful drop 192 ?_ ?_ 192 (Nat.le_refl 192)
  all_goals
    simp only [← run_normal next normal_eq]
    decide +kernel

/-- The bar is turned upright and moved to the wall; then a turn and a move to the left are
held together. -/
def turnIntoWall : List (BitVec 8 × ℕ) :=
  [(0x52, 2), (0x04, 1), (0, 2), (0x52, 2), (0x04, 1)]

/-- They are committed together, and the bar is in the wall. -/
theorem overlaps_turnIntoWall :
    (∀ n < 10, (run next (play turnIntoWall) powerUp.reset n).gameOver
      (play turnIntoWall n) = false) ∧
    (run next (play turnIntoWall) powerUp.reset 10).Overlaps := by
  decide +kernel

end Ball

end ECE385.Tetris
