import ECE385.Tetris.Reset
import ECE385.Vga.Controller

/-!
# The game and the picture

`ball` and `vga_controller` as `lab62.sv` wires them: the frame clock of the game is the
vertical sync.  It rises for the first time at the first pixel clock, as `Reset` clears the sync
register, and from then on below the picture.

* `frame_iff`: the pixel clocks at which a frame of the game is made.
* `game_changes_below_picture`: no other edge changes the game.
-/

namespace ECE385.Tetris

open Clocked Vga

/-- The signals at an edge of `MAX10_CLK1_50`. -/
structure ClkInput where
  reset : Bool
  game : Input

/-- `shack` and `tv` of `lab62`. -/
structure Lab62 where
  shack : Ball
  tv : Controller

namespace Lab62

/-- A frame of the game is made at a rising edge of `VGA_VS`. -/
def next (i : ClkInput) (s : Lab62) : Lab62 :=
  let tv := s.tv.next i.reset
  { shack :=
      if i.reset then s.shack.reset
      else if !s.tv.vs && tv.vs then s.shack.next i.game
      else s.shack
    tv := tv }

variable {w : ℕ → ClkInput} {s : Lab62}

theorem run_tv (w : ℕ → ClkInput) (s : Lab62) (n : ℕ) :
    (run next w s n).tv = run Controller.next (fun t => (w t).reset) s.tv n := by
  induction n with
  | zero => rfl
  | succ n ih => rw [run_succ, run_succ, ← ih]; rfl

/-! ### One edge -/

/-- `VGA_VS` rises. -/
def Frame (a b : Lab62) : Prop := a.tv.vs = false ∧ b.tv.vs = true

theorem shack_next {i : ClkInput} (hr : i.reset = false) (h : ¬Frame s (s.next i)) :
    (s.next i).shack = s.shack := by
  have htv : (s.next i).tv = s.tv.next false := by rw [← hr]; rfl
  rw [Frame, htv, ← Bool.not_eq_true', ← Bool.and_eq_true, Bool.not_eq_true] at h
  simp only [next, hr, h, Bool.false_eq_true, if_false]

theorem shack_next_of_frame {i : ClkInput} (hr : i.reset = false) (h : Frame s (s.next i)) :
    (s.next i).shack = s.shack.next i.game := by
  have htv : (s.next i).tv = s.tv.next false := by rw [← hr]; rfl
  rw [Frame, htv, ← Bool.not_eq_true', ← Bool.and_eq_true] at h
  simp only [next, hr, h, Bool.false_eq_true, if_false, if_true]

/-- Edge `k + 1` after a reset is a pixel clock, or changes nothing on the raster. -/
theorem edge_cases (h0 : (w 0).reset = true) {k : ℕ}
    (hlow : ∀ t, 0 < t → t ≤ k + 1 → (w t).reset = false) :
    (k % 2 = 0 ∧ Controller.Scans (k / 2) (run next w s (k + 1)).tv ∧
      Controller.Scans (k / 2 + 1) (run next w s (k + 2)).tv) ∨
    (k % 2 = 1 ∧ (run next w s (k + 2)).tv.vs = (run next w s (k + 1)).tv.vs) := by
  have ha := Controller.run_scans s.tv h0 k fun t ht hk => hlow t ht (by omega)
  have hb := Controller.run_scans s.tv h0 (k + 1) hlow
  rw [← run_tv w s] at ha hb
  rcases Nat.mod_two_eq_zero_or_one k with hpar | hpar
  · refine .inl ⟨hpar, ?_, ?_⟩
    · rw [show k / 2 = (k + 1) / 2 by omega]
      exact ha.2
    · rw [show k / 2 + 1 = (k + 1 + 1) / 2 by omega]
      exact hb.2
  · refine .inr ⟨hpar, ?_⟩
    rw [hb.2.vs, ha.2.vs, show (k + 1 + 1) / 2 = (k + 1) / 2 by omega]

/-- **The frames** of the game. -/
theorem frame_iff (h0 : (w 0).reset = true) {k : ℕ}
    (hlow : ∀ t, 0 < t → t ≤ k + 1 → (w t).reset = false) :
    Frame (run next w s (k + 1)) (run next w s (k + 2)) ↔
      k % 2 = 0 ∧ (k / 2 = 0 ∨ k / 2 % (800 * 525) = 800 * 491) := by
  rcases edge_cases (s := s) h0 hlow with ⟨hpar, ha, hb⟩ | ⟨hpar, hvs⟩
  · rw [Frame, Controller.vs_rises_iff ha hb]
    exact ⟨fun h => ⟨hpar, h⟩, fun h => h.2⟩
  · refine iff_of_false ?_ (by omega)
    rintro ⟨hlow, hhigh⟩
    rw [hvs, hlow] at hhigh
    cases hhigh

/-- The first frame after a reset shows what `Reset` has left in the registers of the piece, and
changes nothing else that is seen. -/
theorem output_first_iff (b : Ball) (i : Input) :
    (b.reset.next i).gameboard = b.reset.gameboard ∧
    ((b.reset.next i).output = b.reset.output ↔ b.newtype = 0 ∧ b.neworientation = 0 ∧
      b.blockXMotion.setWidth 4 = 0 ∧ b.blockYMotion.setWidth 5 = 0) := by
  have hmove : b.reset.move = false := rfl
  have hlocks : b.reset.locks i = false := by rw [Ball.locks, hmove, Bool.false_and]
  have hnone : lastFull b.reset.gameboard = none := by
    change lastFull emptyBoard = none
    decide
  have hboard : (b.reset.next i).gameboard = b.reset.gameboard := by
    simp only [Ball.next, Ball.gameboardNext, Ball.gameOver, hlocks, hnone]
    rfl
  have hscore : (b.reset.next i).score = b.reset.score := by
    simp only [Ball.next, Ball.scoreNext, hlocks, hnone]
    rfl
  obtain ⟨htype, horient, hx, hy⟩ := Ball.output_first b i
  refine ⟨hboard, ?_⟩
  rw [Ball.output, Ball.output, Ball.Output.mk.injEq, hboard, hscore, htype, horient, hx, hy]
  change _ ∧ 4 + b.blockXMotion.setWidth 4 = 4 ∧ b.blockYMotion.setWidth 5 = 0 ∧
    b.neworientation = 0 ∧ b.newtype = 0 ∧ _ ↔ _
  have hfour : ∀ v : BitVec 4, 4 + v = 4 ↔ v = 0 := by decide
  rw [hfour]
  refine ⟨?_, ?_⟩
  · rintro ⟨-, hx, hy, ho, ht, -⟩
    exact ⟨ht, ho, hx, hy⟩
  · rintro ⟨ht, ho, hx, hy⟩
    exact ⟨rfl, hx, hy, ho, ht, rfl⟩

/-! ### Runs -/

/-- **The game changes below the picture.**  Edge `r` of the clock is the last reset; `a` and `b`
are the states before and after a later edge `r + k`.  The vertical sync rises at the first pixel
clock, and then in every period of `800 * 525` pixel clocks at one, which takes the
counters to `hc = 1` and `vc = 491`.  No other edge changes the game, so but for the first one
none changes it while a pixel is displayed.  The first shows what the reset has left. -/
theorem game_changes_below_picture (w : ℕ → ClkInput) (s : Lab62) (r k : ℕ) (hk : 0 < k)
    (hreset : (w r).reset = true) (hlow : ∀ t, r < t → t ≤ r + k → (w t).reset = false)
    (a b : Lab62) (ha : a = run next w s (r + k)) (hb : b = run next w s (r + k + 1)) :
    (Frame a b ↔
      k % 2 = 1 ∧ ((k + 1) / 2 = 1 ∨ (k + 1) / 2 % (800 * 525) = 800 * 491 + 1)) ∧
    (Frame a b → k ≠ 1 → b.tv.hc = 1 ∧ b.tv.vc = 491) ∧
    (k ≠ 1 → (a.tv.display = true ∨ b.tv.display = true) → b.shack = a.shack) ∧
    (k = 1 → b.shack.gameboard = a.shack.gameboard ∧
      (b.shack.output = a.shack.output ↔ a.shack.newtype = 0 ∧ a.shack.neworientation = 0 ∧
        a.shack.blockXMotion.setWidth 4 = 0 ∧ a.shack.blockYMotion.setWidth 5 = 0)) := by
  obtain ⟨j, rfl⟩ : ∃ j, k = j + 1 := ⟨k - 1, by omega⟩
  have ha' : a = run next (delay r w) (run next w s r) (j + 1) := by rw [ha, run_add]
  have hb' : b = run next (delay r w) (run next w s r) (j + 2) := by
    rw [hb, Nat.add_assoc, run_add]
  have hstart : ∀ t, 0 < t → t ≤ j + 1 → (delay r w t).reset = false :=
    fun t ht hj => hlow (r + t) (by omega) (by omega)
  have hframe := frame_iff (s := run next w s r) (w := delay r w) hreset hstart
  rw [← ha', ← hb'] at hframe
  have hnext : b = a.next (w (r + (j + 1))) := by rw [hb, ha, run_succ]
  have hr := hlow (r + (j + 1)) (by omega) (Nat.le_refl _)
  -- where the raster is at a frame after the first
  have hbelow : Frame a b → j + 1 ≠ 1 → a.tv.hc.toNat = 0 ∧ a.tv.vc.toNat = 491 ∧
      b.tv.hc.toNat = 1 ∧ b.tv.vc.toNat = 491 := by
    intro hf hne
    rw [hframe] at hf
    rcases edge_cases (s := run next w s r) hreset hstart with ⟨-, hsa, hsb⟩ | ⟨hpar, -⟩
    · rw [← ha'] at hsa
      rw [← hb'] at hsb
      rw [hsa.hc, hsa.vc, hsb.hc, hsb.vc]
      omega
    · omega
  refine ⟨?_, ?_, ?_, ?_⟩
  · rw [hframe]
    omega
  · intro hf hne
    obtain ⟨-, -, hx, hy⟩ := hbelow hf hne
    exact ⟨BitVec.eq_of_toNat_eq hx, BitVec.eq_of_toNat_eq hy⟩
  · intro hne hdisplay
    by_cases hf : Frame a b
    · obtain ⟨-, hya, -, hyb⟩ := hbelow hf hne
      rw [Controller.display_eq_true, Controller.display_eq_true] at hdisplay
      omega
    · rw [hnext]
      exact shack_next hr (by rwa [← hnext])
  · intro hone
    obtain rfl : j = 0 := by omega
    have hf : Frame a b := hframe.mpr (by omega)
    have hshack : a.shack = (run next w s r).shack.reset := by
      rw [ha, run_succ, next, hreset]
      rfl
    have hfirst : b.shack = (run next w s r).shack.reset.next (w (r + 1)).game := by
      rw [hnext, shack_next_of_frame hr (by rwa [← hnext]), hshack]
    rw [hfirst, hshack]
    exact output_first_iff _ _

/-- The second frame of a game, from the power-up on. -/
theorem game_changes_below_picture_second :
    let w : ℕ → ClkInput := fun t => ⟨decide (t = 0), play [] t⟩
    let s : Lab62 := ⟨Ball.powerUp, ⟨false, 0, 0, false, false⟩⟩
    Frame (run next w s (0 + 785601)) (run next w s (0 + 785601 + 1)) ∧
      (run next w s (0 + 785601 + 1)).tv.hc = 1 ∧ (run next w s (0 + 785601 + 1)).tv.vc = 491 := by
  intro w s
  have hmain := game_changes_below_picture w s 0 785601 (by decide) rfl
    (fun t ht _ => decide_eq_false (by omega)) _ _ rfl rfl
  have hframe := hmain.1.mpr (by decide)
  exact ⟨hframe, hmain.2.1 hframe (by decide)⟩

end Lab62

end ECE385.Tetris
