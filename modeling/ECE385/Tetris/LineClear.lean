import ECE385.Sorting.Compaction
import ECE385.Tetris.Board
import Mathlib.Data.List.FinRange

/-!
# The line clear

Of the blocks of assignments of a frame the one of the last full row wins: that row goes, the rows
above it come down by one, and an empty row comes in at the top.  So a frame is one round of a
compaction of the rows, whichever of them are full.

* `round_next`: a frame without a lock is such a round.
* `line_clear_compacts`: the board, when as many frames have passed as there were full rows.
-/

namespace ECE385.Tetris

open Bits Clocked Grid Sorting

/-- The ten columns between the walls. -/
def playRow (g : Board) (r : Fin 20) : BitVec 10 :=
  (g (r.castLE (Nat.le_add_right 20 3))).extractLsb' 3 10

def playRows (g : Board) : List (BitVec 10) := List.ofFn (playRow g)

/-- All ones. -/
def fullRow : BitVec 10 := 0x3FF#10

theorem full_eq (g : Board) (r : Fin 20) : full g r = (playRow g r == fullRow) := rfl

theorem getLsbD_playRow (g : Board) (r : Fin 20) (j : ℕ) :
    (playRow g r).getLsbD j = (decide (j < 10) && g.bit r (3 + j)) := by
  rw [playRow, BitVec.getLsbD_extractLsb', bit, dif_pos (by omega)]
  rfl

theorem playRow_clearRow (g : Board) (r j : Fin 20) : playRow (clearRow g g r) j =
    if j ≤ r then if j.val = 0 then 0#10 else playRow g ⟨j - 1, by omega⟩ else playRow g j := by
  apply BitVec.eq_of_getLsbD_eq
  intro c hc
  rw [getLsbD_playRow, bit_clearRow, decide_eq_true hc, Bool.true_and]
  by_cases hle : j ≤ r
  · rw [if_pos ⟨hle, by omega, by omega⟩, if_pos hle]
    by_cases hzero : j.val = 0
    · simp [hzero]
    · rw [if_neg hzero, getLsbD_playRow, decide_eq_true hc, decide_eq_true (by omega)]
  · rw [if_neg (fun h => hle h.1), if_neg hle, getLsbD_playRow, decide_eq_true hc, Bool.true_and]

/-- The cleared row goes and an empty one comes in. -/
theorem playRows_clearRow (g : Board) (r : Fin 20) :
    playRows (clearRow g g r) = 0#10 :: (playRows g).eraseIdx r := by
  have hlen : (playRows g).length = 20 := List.length_ofFn
  apply List.ext_getElem
  · rw [List.length_cons, List.length_eraseIdx_of_lt (by omega), hlen]
    exact List.length_ofFn
  · intro j hj hj'
    have hj20 : j < 20 := by
      rwa [playRows, List.length_ofFn] at hj
    simp only [playRows, List.getElem_ofFn, playRow_clearRow]
    cases j with
    | zero =>
      rw [if_pos (Fin.mk_le_of_le_val (Nat.zero_le _))]
      rfl
    | succ j =>
      rw [List.getElem_cons_succ, List.getElem_eraseIdx]
      by_cases hle : (⟨j + 1, hj20⟩ : Fin 20) ≤ r
      · have hlt : j < r.val := hle
        rw [if_pos hle, if_neg (Nat.succ_ne_zero j), dif_pos hlt, List.getElem_ofFn]
        rfl
      · have hge : ¬j < r.val := hle
        rw [if_neg hle, dif_neg hge, List.getElem_ofFn]

namespace Ball

variable {s : Ball} {i : Input} {w : ℕ → Input} {n : ℕ}

theorem count_eq_zero (h : lastFull s.gameboard = none) :
    (playRows s.gameboard).countP (· == fullRow) = 0 := by
  rw [List.countP_eq_zero]
  intro v hv
  obtain ⟨r, rfl⟩ := List.mem_ofFn.mp hv
  exact Bool.eq_false_iff.mp ((lastFull_eq_none _).mp h r)

/-- **A frame without a lock** is a round, and adds 512 when it takes a row. -/
theorem round_next (hlock : s.locks i = false) :
    Round (· == fullRow) 0#10 (playRows s.gameboard) (playRows (s.next i).gameboard) ∧
    (s.next i).score =
      s.score + BitVec.ofNat 24 (512 * min 1 ((playRows s.gameboard).countP (· == fullRow))) := by
  have hboard := gameboard_of_not_locks hlock
  have hscore : (s.next i).score =
      if (lastFull s.gameboard).isSome then s.score + 512 else s.score := by
    simp [next, scoreNext, hlock]
  cases hlast : lastFull s.gameboard with
  | none =>
    have hcount := count_eq_zero hlast
    rw [hlast] at hboard
    rw [hboard]
    refine ⟨.stay hcount, ?_⟩
    rw [hscore, hlast, hcount]
    exact (BitVec.add_zero _).symm
  | some r =>
    have hfull : (playRow s.gameboard r == fullRow) = true := full_of_lastFull hlast
    have hget : (playRows s.gameboard)[r.val]? = some (playRow s.gameboard r) := by
      rw [playRows, List.getElem?_ofFn, dif_pos r.isLt]
    have hcount := countP_drop (p := (· == fullRow)) (z := 0#10) hget hfull rfl
    rw [hlast] at hboard
    rw [hboard]
    refine ⟨?_, ?_⟩
    · rw [Option.elim_some, playRows_clearRow]
      exact .drop r _ hget hfull
    · rw [hscore, hlast, Nat.min_eq_left (by omega)]
      rfl

/-- A frame without a lock writes the ten columns of the first twenty rows only. -/
theorem bit_next (hlock : s.locks i = false) {r c : ℕ} (hout : 20 ≤ r ∨ c < 3 ∨ 12 < c) :
    (s.next i).gameboard.bit r c = s.gameboard.bit r c := by
  rw [gameboard_of_not_locks hlock]
  cases lastFull s.gameboard with
  | none => rfl
  | some k => exact (bit_clearRow _ _ k r c).trans (if_neg (by omega))

theorem run_rounds (hlock : ∀ t < n, (run next w s t).locks (w t) = false) (m : ℕ) (hm : m < n) :
    Round (· == fullRow) 0#10 (playRows (run next w s m).gameboard)
      (playRows (run next w s (m + 1)).gameboard) := (round_next (hlock m hm)).1

theorem run_score (hlock : ∀ t < n, (run next w s t).locks (w t) = false) :
    ∀ m ≤ n, (run next w s m).score =
      s.score + BitVec.ofNat 24 (512 * min m ((playRows s.gameboard).countP (· == fullRow))) := by
  intro m
  induction m with
  | zero =>
    intro _
    rw [Nat.zero_min]
    exact (BitVec.add_zero _).symm
  | succ m ih =>
    intro hm
    have hcount := rounds_countP (L := fun t => playRows (run next w s t).gameboard)
      (z := 0#10) rfl m fun t ht => run_rounds hlock t (by omega)
    rw [run_succ, (round_next (hlock m hm)).2, ih (Nat.le_of_succ_le hm), hcount, run_zero,
      BitVec.add_assoc, ← BitVec.ofNat_add, ← Nat.mul_add]
    congr 3
    omega

theorem run_outside (hlock : ∀ t < n, (run next w s t).locks (w t) = false) {r c : ℕ}
    (hout : 20 ≤ r ∨ c < 3 ∨ 12 < c) :
    (run next w s n).gameboard.bit r c = s.gameboard.bit r c := by
  have hkeep : ∀ (i : Input) (t : Ball), t.locks i = false →
      t.gameboard.bit r c = s.gameboard.bit r c →
      (t.next i).gameboard.bit r c = s.gameboard.bit r c := by
    intro i t hlock ht
    rw [bit_next hlock hout, ht]
  exact run_invariant hkeep rfl n hlock

/-- **The line clear compacts the board.**  With `k` full rows, after `k` frames without a lock and
in every later one, the other rows stand in their order below `k` empty rows, the score has grown
by 512 for each full row, and nothing else of the board has changed. -/
theorem line_clear_compacts (w : ℕ → Input) (s : Ball) (k n : ℕ)
    (hk : (List.finRange 20).countP (full s.gameboard) = k) (hn : k ≤ n)
    (hlock : ∀ t < n, (run next w s t).locks (w t) = false) :
    playRows (run next w s n).gameboard =
      List.replicate k 0#10 ++ (playRows s.gameboard).filter (· != fullRow) ∧
    (∀ r, full (run next w s n).gameboard r = false) ∧
    (run next w s n).score = s.score + BitVec.ofNat 24 (512 * k) ∧
    ∀ r c, 20 ≤ r ∨ c < 3 ∨ 12 < c →
      (run next w s n).gameboard.bit r c = s.gameboard.bit r c := by
  have hcount : (playRows s.gameboard).countP (· == fullRow) = k := by
    rw [← hk, playRows, List.ofFn_eq_map, List.countP_map]
    rfl
  have hrounds := run_rounds (w := w) hlock
  have hnone := rounds_countP (L := fun t => playRows (run next w s t).gameboard) rfl n hrounds
  refine ⟨?_, fun r => ?_, ?_, fun r c => run_outside hlock⟩
  · have h := compacted (L := fun t => playRows (run next w s t).gameboard) rfl hrounds
      (by rw [run_zero, hcount]; exact hn)
    rw [run_zero, hcount] at h
    exact h
  · rw [run_zero, hcount, Nat.sub_eq_zero_of_le hn, List.countP_eq_zero] at hnone
    rw [full_eq, Bool.eq_false_iff]
    exact hnone _ (List.mem_ofFn.mpr ⟨r, rfl⟩)
  · rw [run_score hlock n (Nat.le_refl n), hcount, Nat.min_eq_right hn]

/-- Full rows at the bottom and in the middle, and one cell between them. -/
def threeFull : Ball :=
  { powerUp.reset with
    gameboard := fun r =>
      if r.val = 5 ∨ r.val = 18 ∨ r.val = 19 then floorRow
      else if r.val = 10 then 0b0010000100000100#16 else emptyBoard r }

theorem line_clear_compacts_threeFull :
    playRow (run next (play []) threeFull 4).gameboard 12 = 0b0000100000#10 ∧
    (run next (play []) threeFull 4).score = 1536#24 := by
  obtain ⟨hrows, -, hscore, -⟩ := line_clear_compacts (play []) threeFull 3 4 (by decide)
    (by decide) (by decide)
  refine ⟨?_, hscore⟩
  have hrow := congrArg (·[12]?) hrows
  rw [playRows, List.getElem?_ofFn, dif_pos (by decide)] at hrow
  exact Option.some.inj (hrow.trans (by decide))

end Ball

end ECE385.Tetris
