import ECE385.Blocks.Game
import ECE385.Tetris.Confined
import ECE385.Tetris.GameOver
import ECE385.Tetris.Gravity
import ECE385.Tetris.LineClear

/-!
# The game as its rules have it

The registers of `ball.sv` show a game of falling blocks, and each frame is one move of it.

* `Timely`: full rows go one in a frame, and gravity leaves the time for four of them.
* `rules`, `Shows`: the game and what the registers show of it.
* `step_of_frame`: a frame is a move.
* `plays_by_rules`: the whole game, with its score.
* `lasts`: how long a game can be, for the rows that go.
-/

namespace ECE385.Tetris

open Bits Blocks Clocked Grid

/-! ### Full rows -/

/-- How many rows are full. -/
def fullRows (g : Board) : ℕ := (playRows g).countP (· == fullRow)

variable {g : Board} {oob : ℕ → ℕ → Bool} {rows : ℕ → BitVec 4} {r c : ℕ}

theorem fullRows_eq (g : Board) : fullRows g = ((List.finRange 20).filter (full g)).length := by
  rw [fullRows, playRows, List.ofFn_eq_map, List.countP_map, List.countP_eq_length_filter]
  rfl

theorem fullRows_pos (h : (lastFull g).isSome = true) : 0 < fullRows g := by
  obtain ⟨k, hk⟩ := (lastFull_isSome g).mp h
  rw [fullRows_eq]
  exact List.length_pos_of_mem (List.mem_filter.mpr ⟨List.mem_finRange k, hk⟩)

theorem fullRows_clear {k : Fin 20} (h : lastFull g = some k) :
    fullRows (clearRow g g k) + 1 = fullRows g := by
  have hget : (playRows g)[k.val]? = some (playRow g k) := by
    rw [playRows, List.getElem?_ofFn, dif_pos k.isLt]
  rw [fullRows, playRows_clearRow]
  exact Sorting.countP_drop hget (full_of_lastFull h) rfl

/-- A piece fills at most four rows. -/
theorem fullRows_lock (hnone : lastFull g = none) (hfree : ¬Hits g rows r c) :
    fullRows (add g oob rows r c) ≤ 4 := by
  rw [fullRows_eq]
  have hrange : ((List.finRange 20).filter (full (add g oob rows r c))).map Fin.val ⊆
      List.range' r 4 := by
    intro k hk
    obtain ⟨k, hmem, rfl⟩ := List.mem_map.mp hk
    have hfull := (full_iff _ k).mp (List.mem_filter.mp hmem).2
    by_contra hout
    have hbefore : full g k = true := by
      rw [full_iff]
      intro c' h3 h12
      have hbit := hfull c' h3 h12
      have hcov : covers rows r c k.val c' = false := by
        rw [covers, decide_eq_false (by rw [List.mem_range'_1] at hout; omega), Bool.false_and]
      rwa [bit_add hfree, hcov, Bool.and_false, Bool.or_false] at hbit
    rw [(lastFull_eq_none g).mp hnone k] at hbefore
    cases hbefore
  have hnodup : (((List.finRange 20).filter (full (add g oob rows r c))).map Fin.val).Nodup :=
    ((List.nodup_finRange 20).filter _).map Fin.val_injective
  have hlength := (hnodup.subperm hrange).length_le
  rwa [List.length_map, List.length_range'] at hlength

namespace Ball

variable {s : Ball} {i : Input} {w : ℕ → Input} {n N : ℕ}

/-- While rows are full, gravity is so many frames away that they are gone before. -/
structure Timely (s : Ball) : Prop where
  counter_le : s.counter.toNat ≤ 62 + 4096
  full : fullRows s.gameboard = 0 ∨ s.counter.toNat + 20 * fullRows s.gameboard ≤ 80

theorem timely_reset : Timely powerUp.reset := ⟨by decide, .inl (by decide)⟩

theorem Timely.still (h : Timely s) (hfull : (lastFull s.gameboard).isSome = true) :
    s.move = false := by
  have hpos := fullRows_pos hfull
  have hclock := h.full
  rw [Bool.eq_false_iff, ne_eq, move_iff]
  omega

theorem Timely.not_locks (h : Timely s) (hfull : (lastFull s.gameboard).isSome = true) :
    s.locks i = false := by
  rw [locks, h.still hfull, Bool.false_and]

theorem Timely.quiet (h : Timely s) (hlock : s.locks i = true) : lastFull s.gameboard = none := by
  by_contra hsome
  rw [h.not_locks (Option.isSome_iff_ne_none.mpr hsome)] at hlock
  cases hlock

/-- **Full rows** are gone in time while the score is below `81920`. -/
theorem timely_next (h : Timely s) (hfree : ¬s.Overlaps) (hover : s.gameOver i = false)
    (hscore : s.score.toNat < 81920) : Timely (s.next i) := by
  refine ⟨counter_le_next h.counter_le, ?_⟩
  cases hlast : lastFull s.gameboard with
  | some k =>
    have hsome : (lastFull s.gameboard).isSome = true := by rw [hlast]; rfl
    have hmove := h.still hsome
    have hclock := h.full
    have hpos := fullRows_pos hsome
    have hclear := fullRows_clear hlast
    have hspeed := toNat_speed s
    rw [gameboard_of_not_locks (h.not_locks hsome), hlast, Option.elim_some, counter_next hmove,
      toNat_counternext h.counter_le]
    omega
  | none =>
    cases hlock : s.locks i with
    | false =>
      rw [gameboard_of_not_locks hlock, hlast, Option.elim_none]
      exact .inl (count_eq_zero hlast)
    | true =>
      have hboard : (s.next i).gameboard = s.merged i := by
        simp [next, gameboardNext, hover, hlock, hlast]
      have hmove : s.move = true := by
        rw [locks, Bool.and_eq_true] at hlock
        exact hlock.1
      have hfour : fullRows (s.merged i) ≤ 4 := fullRows_lock hlast hfree
      have hzero : (0 : BitVec 32).toNat = 0 := rfl
      rw [hboard, counter_gravity hmove, hzero]
      omega

/-! ### The game shown -/

end Ball

def rules : Rules where
  height := 20
  columns := Finset.Icc 3 12
  shapes := {S | ∃ blockType orientation, S = boxCells (rowOf blockType orientation)}
  entry := (0, 4)

/-- The bar at the top of an empty well. -/
def start : Game rules where
  settled := ∅
  shape := boxCells (rowOf 0 0)
  row := 0
  col := 4
  shape_mem := ⟨0, 0, rfl⟩
  settled_subset := Finset.empty_subset _
  piece_subset := inWell_iff.mp inWell_entry
  free := fun p _ => Finset.notMem_empty p

namespace Ball

variable {s : Ball} {i : Input} {w : ℕ → Input} {n N : ℕ}

/-- The registers show the game. -/
structure Shows (s : Ball) (g : Game rules) : Prop where
  settled : g.settled = occupied s.gameboard
  shape : g.shape = boxCells s.row
  row : g.row = s.ypos.toNat
  col : g.col = s.xpos.toNat

theorem Confined.shows (h : Confined s) : ∃ g, Shows s g := by
  refine ⟨⟨occupied s.gameboard, boxCells s.row, s.ypos.toNat, s.xpos.toNat, ⟨_, _, rfl⟩,
    Finset.filter_subset _ _, inWell_iff.mp h.inWell, ?_⟩, ⟨rfl, rfl, rfl, rfl⟩⟩
  rintro ⟨r, c⟩ hp hmem
  have hbit := bit_of_free h.free hp
  rw [(mem_occupied.mp hmem).2.2] at hbit
  cases hbit

theorem shows_reset : Shows powerUp.reset start := by
  refine ⟨?_, rfl, rfl, rfl⟩
  rw [start]
  decide

/-- The move a frame makes. -/
def frameMove (i : Input) (s : Ball) : Move :=
  (lastFull s.gameboard).elim
    (if s.locks i then .land else if s.move then .fall else .shift) fun k => .clear k

/-- The moves of the first frames. -/
def moves (w : ℕ → Input) (s : Ball) : ℕ → List Move
  | 0 => []
  | n + 1 => moves w s n ++ [frameMove (w n) (run next w s n)]

variable {g g' : Game rules}

theorem Shows.full_iff (h : Shows s g) (k : ℕ) :
    g.Full k ↔ ∃ hk : k < 20, full s.gameboard ⟨k, hk⟩ = true := by
  have hcells : g.Full k ↔ k < 20 ∧ ∀ c ∈ Finset.Icc 3 12, (k, c) ∈ g.settled := Iff.rfl
  rw [hcells, h.settled]
  refine ⟨?_, ?_⟩
  · rintro ⟨hk, hall⟩
    refine ⟨hk, (Tetris.full_iff _ _).mpr fun c h3 h12 => ?_⟩
    exact (mem_occupied.mp (hall c (Finset.mem_Icc.mpr ⟨h3, h12⟩))).2.2
  · rintro ⟨hk, hfull⟩
    refine ⟨hk, fun c hc => ?_⟩
    rw [Finset.mem_Icc] at hc
    exact mem_occupied.mpr ⟨hk, hc, (Tetris.full_iff _ _).mp hfull c hc.1 hc.2⟩

theorem Shows.not_full (h : Shows s g) (hnone : lastFull s.gameboard = none) (k : ℕ) :
    ¬g.Full k := by
  rw [h.full_iff]
  rintro ⟨hk, hfull⟩
  rw [(lastFull_eq_none _).mp hnone ⟨k, hk⟩] at hfull
  cases hfull

/-- **The landing.**  A piece is locked where it has no room below. -/
theorem Shows.rests (h : Shows s g) (hwell : InWell s.row s.ypos.toNat s.xpos.toNat)
    (hlock : s.locks i = true) : g.Rests := by
  have hdown : s.testDown i ≠ 0 := by
    rw [locks, Bool.and_eq_true, bne_iff_ne] at hlock
    exact hlock.2
  rw [testDown, ne_eq, test_eq_zero] at hdown
  push Not at hdown
  obtain ⟨k, hk, j, hj, hrow, hread⟩ := hdown
  obtain ⟨hlow, h3, h12⟩ := hwell k hk j hj hrow
  rw [ne_eq, Bool.not_eq_false, read_of_lt _ _ (by omega) (by omega)] at hread
  refine ⟨(s.ypos.toNat + 1 + k, s.xpos.toNat + j), ?_, ?_⟩
  · rw [h.shape, h.row, h.col]
    exact mem_moved.mpr ⟨k, j, mem_boxCells.mpr ⟨hk, hj, hrow⟩, rfl⟩
  · by_cases hfloor : s.ypos.toNat + 1 + k < 20
    · refine .inr ?_
      rw [h.settled]
      exact mem_occupied.mpr ⟨hfloor, ⟨h3, h12⟩, hread⟩
    · exact .inl fun hmem => hfloor (Rules.mem_well.mp hmem).1

theorem Shows.near (h : Shows s g) (h' : Shows (s.next i) g') (hconf : Confined s)
    (hover : s.gameOver i = false) (hlock : s.locks i = false) :
    Near g g' ∧ (s.move = true → g'.row = g.row + 1) := by
  obtain ⟨dx, hdx, hx⟩ := aimX_near hconf hlock
  obtain ⟨dy, hdy, hy, hfall⟩ := aimY_near hconf hlock
  have hrow := h'.row
  have hcol := h'.col
  rw [next_ypos hover, hy, ← h.row] at hrow
  rw [next_xpos hover] at hcol
  rw [← h.col] at hx
  refine ⟨⟨by omega, by omega, by omega, by omega⟩, fun hmove => ?_⟩
  rw [hrow, hfall hmove]

/-- **A frame is a move.** -/
theorem step_of_frame (hconf : Confined s) (htime : Timely s) (hover : s.gameOver i = false)
    (h : Shows s g) (h' : Shows (s.next i) g') : Step g (frameMove i s) g' := by
  cases hlast : lastFull s.gameboard with
  | some k =>
    have hsome : (lastFull s.gameboard).isSome = true := by rw [hlast]; rfl
    have hlock : s.locks i = false := htime.not_locks hsome
    have hmove : frameMove i s = .clear k := by rw [frameMove, hlast, Option.elim_some]
    rw [hmove]
    refine .clear k ((h.full_iff k).mpr ⟨k.isLt, full_of_lastFull hlast⟩) (fun l hl hfull => ?_) ?_
      (h.near h' hconf hover hlock).1
    · obtain ⟨hl20, hfull⟩ := (h.full_iff l).mp hfull
      exact absurd hl (Nat.not_lt.mpr (lastFull_max hlast hfull))
    · rw [h'.settled, h.settled, gameboard_of_not_locks hlock, hlast, Option.elim_some,
        occupied_clear]
  | none =>
    have hfull := h.not_full hlast
    cases hlock : s.locks i with
    | true =>
      have hmove : frameMove i s = .land := by
        rw [frameMove, hlast, Option.elim_none, hlock, if_pos rfl]
      have hboard : (s.next i).gameboard = s.merged i := by
        simp [next, gameboardNext, hover, hlock, hlast]
      have hentry : (g'.row, g'.col) = rules.entry := by
        rw [h'.row, h'.col, next_ypos hover, next_xpos hover, aimY, aimX, hlock]
        rfl
      rw [hmove]
      refine .land hfull (h.rests hconf.inWell hlock) ?_ hentry
      rw [h'.settled, hboard, merged, occupied_lock hconf.free hconf.inWell, Game.piece, h.settled,
        h.shape, h.row, h.col]
    | false =>
      have hsettled : g'.settled = g.settled := by
        rw [h'.settled, h.settled, gameboard_of_not_locks hlock, hlast, Option.elim_none]
      obtain ⟨hnear, hfall⟩ := h.near h' hconf hover hlock
      cases hgravity : s.move with
      | true =>
        have hmove : frameMove i s = .fall := by
          rw [frameMove, hlast, Option.elim_none, hlock, if_neg Bool.false_ne_true, hgravity,
            if_pos rfl]
        rw [hmove]
        exact .fall hfull hsettled hnear (hfall hgravity)
      | false =>
        have hmove : frameMove i s = .shift := by
          rw [frameMove, hlast, Option.elim_none, hlock, if_neg Bool.false_ne_true, hgravity,
            if_neg Bool.false_ne_true]
        rw [hmove]
        exact .shift hfull hsettled hnear

/-! ### The points and the time -/

/-- **The points** of a frame. -/
theorem score_of_frame (hscore : s.score.toNat < 81920) :
    (s.next i).score.toNat =
      s.score.toNat + 64 * lands [frameMove i s] + 512 * clears [frameMove i s] := by
  cases hlast : lastFull s.gameboard with
  | some k =>
    have hnext : (s.next i).score = s.score + 512 := by simp [next, scoreNext, hlast]
    rw [hnext, frameMove, hlast, Option.elim_some, BitVec.toNat_add, Nat.mod_eq_of_lt]
    · rfl
    · simp
      omega
  | none =>
    rw [frameMove, hlast, Option.elim_none]
    cases hlock : s.locks i with
    | true =>
      have hnext : (s.next i).score = s.score + 64 := by simp [next, scoreNext, hlast, hlock]
      rw [hnext, if_pos rfl, BitVec.toNat_add, Nat.mod_eq_of_lt]
      · rfl
      · simp
        omega
    | false =>
      have hnext : (s.next i).score = s.score := by simp [next, scoreNext, hlast, hlock]
      rw [hnext, if_neg Bool.false_ne_true]
      cases s.move with
      | true => rfl
      | false => rfl

/-- How far a piece has come: a row counts as much as the frames it takes at the slowest. -/
def depth (s : Ball) : ℕ := 64 * s.ypos.toNat + min s.counter.toNat 63

theorem depth_le (hconf : Confined s) : s.depth ≤ 1151 := by
  have hrow := (inWell_bounds hconf.inWell).1
  have hmin := Nat.min_le_right s.counter.toNat 63
  rw [depth]
  omega

/-- **A frame** takes the piece further, or it lands. -/
theorem depth_next (hconf : Confined s) (htime : Timely s) (hover : s.gameOver i = false) :
    s.depth + 1 ≤ (s.next i).depth + 1152 * lands [frameMove i s] := by
  cases hlock : s.locks i with
  | true =>
    have hmove : frameMove i s = .land := by
      rw [frameMove, htime.quiet hlock, Option.elim_none, hlock, if_pos rfl]
    have hdepth := depth_le hconf
    have hone : lands [Move.land] = 1 := rfl
    rw [hmove, hone]
    omega
  | false =>
    obtain ⟨dy, hdy, hy, hfall⟩ := aimY_near hconf hlock
    have hrow : (s.next i).ypos.toNat = s.ypos.toNat + dy := by rw [next_ypos hover, hy]
    rw [depth, depth, hrow]
    cases hmove : s.move with
    | true =>
      have hzero : (0 : BitVec 32).toNat = 0 := rfl
      have hdy := hfall hmove
      rw [counter_gravity hmove, hzero]
      omega
    | false =>
      have hlow : ¬63 ≤ s.counter.toNat := by
        rw [← move_iff, hmove]
        exact Bool.false_ne_true
      have hspeed := toNat_speed s
      rw [counter_next hmove, toNat_counternext htime.counter_le]
      omega

/-! ### The whole game -/

/-- Up to frame `N` the game goes on, the piece is led to free cells, and gravity leaves the time to
clear four rows. -/
structure Fair (w : ℕ → Input) (N : ℕ) : Prop where
  going : ∀ n < N, (run next w powerUp.reset n).gameOver (w n) = false
  free : ∀ n ≤ N, ¬(run next w powerUp.reset n).Overlaps
  slow : ∀ n < N, (run next w powerUp.reset n).score.toNat < 81920

theorem Fair.inv (h : Fair w N) : ∀ n ≤ N,
    Confined (run next w powerUp.reset n) ∧ Timely (run next w powerUp.reset n) := by
  intro n
  induction n with
  | zero => exact fun _ => ⟨confined_reset, timely_reset⟩
  | succ n ih =>
    intro hn
    obtain ⟨hconf, htime⟩ := ih (Nat.le_of_succ_le hn)
    exact ⟨confined_next hconf (h.going n hn) htime.quiet (h.free (n + 1) hn),
      timely_next htime hconf.free (h.going n hn) (h.slow n hn)⟩

theorem Fair.plays (h : Fair w N) : ∀ n ≤ N, ∃ g, Plays start (moves w powerUp.reset n) g ∧
    Shows (run next w powerUp.reset n) g := by
  intro n
  induction n with
  | zero => exact fun _ => ⟨start, .start, shows_reset⟩
  | succ n ih =>
    intro hn
    obtain ⟨g, hplays, hshows⟩ := ih (Nat.le_of_succ_le hn)
    obtain ⟨hconf, htime⟩ := h.inv n (Nat.le_of_succ_le hn)
    obtain ⟨g', hshows'⟩ := (h.inv (n + 1) hn).1.shows
    exact ⟨g', hplays.step (step_of_frame hconf htime (h.going n hn) hshows hshows'), hshows'⟩

theorem Fair.score (h : Fair w N) : ∀ n ≤ N, (run next w powerUp.reset n).score.toNat =
    64 * lands (moves w powerUp.reset n) + 512 * clears (moves w powerUp.reset n) := by
  intro n
  induction n with
  | zero => exact fun _ => rfl
  | succ n ih =>
    intro hn
    have hscore := score_of_frame (i := w n) (h.slow n hn)
    rw [run_succ, hscore, ih (Nat.le_of_succ_le hn), moves, lands_concat, clears_concat]
    omega

theorem Fair.depth (h : Fair w N) : ∀ n ≤ N,
    n ≤ (run next w powerUp.reset n).depth + 1152 * lands (moves w powerUp.reset n) := by
  intro n
  induction n with
  | zero => exact fun _ => Nat.zero_le _
  | succ n ih =>
    intro hn
    obtain ⟨hconf, htime⟩ := h.inv n (Nat.le_of_succ_le hn)
    have hbefore := ih (Nat.le_of_succ_le hn)
    have hdepth := depth_next hconf htime (h.going n hn)
    rw [run_succ, moves, lands_concat]
    omega

theorem card_shape : ∀ S ∈ rules.shapes, S.card = 4 := by
  rintro S ⟨blockType, orientation, rfl⟩
  exact four_cells blockType orientation

theorem card_of_plays {ms : List Move} (h : Plays start ms g) :
    g.settled.card + 10 * clears ms = 4 * lands ms := by
  have hcard := h.card card_shape
  have hwidth : rules.columns.card = 10 := rfl
  have hempty : start.settled.card = 0 := rfl
  rw [hwidth, hempty, Nat.zero_add] at hcard
  exact hcard

/-- **The game is played by its rules.**  As long as it is fair, the registers show at every frame
the game that the moves of the frames before it have led to, and the score is `64` for each piece
that has landed and `512` for each row that has gone. -/
theorem plays_by_rules (w : ℕ → Input) (N : ℕ) (h : Fair w N) : ∀ n ≤ N,
    ∃ g, Plays start (moves w powerUp.reset n) g ∧ Shows (run next w powerUp.reset n) g ∧
      (run next w powerUp.reset n).score.toNat =
        64 * lands (moves w powerUp.reset n) + 512 * clears (moves w powerUp.reset n) ∧
      (occupied (run next w powerUp.reset n).gameboard).card +
        10 * clears (moves w powerUp.reset n) = 4 * lands (moves w powerUp.reset n) := by
  intro n hn
  obtain ⟨g, hplays, hshows⟩ := h.plays n hn
  refine ⟨g, hplays, hshows, h.score n hn, ?_⟩
  rw [← hshows.settled]
  exact card_of_plays hplays

/-- The bar is turned, moved to the right and moved down. -/
def turnAndMove : ℕ → Input := play [(0x52, 2), (0, 2), (0x07, 2), (0, 2), (0x16, 2), (0, 2)]

theorem fair_turnAndMove : Fair turnAndMove 12 := by
  refine ⟨?_, ?_, ?_⟩
  all_goals
    simp only [← run_normal next normal_eq]
    decide +kernel

theorem plays_by_rules_turnAndMove : ∃ g, Plays start (moves turnAndMove powerUp.reset 12) g ∧
    Shows (run next turnAndMove powerUp.reset 12) g := by
  obtain ⟨g, hplays, hshows, -⟩ :=
    plays_by_rules turnAndMove 12 fair_turnAndMove 12 (Nat.le_refl 12)
  exact ⟨g, hplays, hshows⟩

/-- **How long a game lasts.**  A piece lands in every `1152` frames, and no more pieces land than
have room in the well and in the rows that have gone. -/
theorem lasts (w : ℕ → Input) (N : ℕ) (h : Fair w N) :
    N < 1152 * (lands (moves w powerUp.reset N) + 1) ∧
      4 * lands (moves w powerUp.reset N) ≤ 200 + 10 * clears (moves w powerUp.reset N) := by
  have hdepth := h.depth N (Nat.le_refl N)
  have hle := depth_le (h.inv N (Nat.le_refl N)).1
  obtain ⟨g, hplays, -⟩ := h.plays N (Nat.le_refl N)
  have hcard := card_of_plays hplays
  have hroom : g.settled.card ≤ 200 := g.card_settled_le
  omega

theorem lasts_turnAndMove : 12 < 1152 * (lands (moves turnAndMove powerUp.reset 12) + 1) :=
  (lasts turnAndMove 12 fair_turnAndMove).1

end Ball

end ECE385.Tetris
