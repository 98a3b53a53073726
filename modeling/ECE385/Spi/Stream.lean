import ECE385.Clocked.Run
import ECE385.Spi.Shifter

/-!
# The stream of bytes

Whatever the processor does on the bus: a byte that is written while `TRDY` is up is exchanged once,
in its turn, and its answer comes.

* `accepted`, `answered`, `rises`: the bytes taken in by the holding register, the answers given out
  to `rx_holding_reg` and the pulses of `SCLK`, in the first edges of a run.
* `Stream`: how they belong together.
* `Due k r`: the `k`th answer is at most `r` edges away.
* `stream_of_bytes`: all runs from the reset.
-/

namespace ECE385.Spi

open Bits Clocked

namespace Core

/-- The core after `n` edges. -/
def after (w : ℕ → Port) (n : ℕ) : Core := run next w reset n

/-- What an edge takes in. -/
def takes (i : Port) (c : Core) : List (BitVec 8) :=
  if c.write_tx_holding then [i.data_from_cpu.setWidth 8] else []

/-- What an edge gives out. -/
def gives (i : Port) (c : Core) : List (BitVec 8) :=
  if c.slowclock && c.state == 17 then [(c.next i).rx_holding_reg] else []

def accepted (w : ℕ → Port) : ℕ → List (BitVec 8)
  | 0 => []
  | n + 1 => accepted w n ++ takes (w n) (after w n)

def answered (w : ℕ → Port) : ℕ → List (BitVec 8)
  | 0 => []
  | n + 1 => answered w n ++ gives (w n) (after w n)

def rises (w : ℕ → Port) : ℕ → List Wire
  | 0 => []
  | n + 1 => rises w n ++ pulse (w n) (after w n)

/-! ### The holding register -/

/-- What waits in the holding register. -/
def waiting (c : Core) : List (BitVec 8) := if c.tx_holding_primed then [c.tx_holding_reg] else []

variable {i : Port} {c : Core}

/-- The holding register gives its byte to the shift register, and takes in the next one. -/
theorem waiting_next : waiting (next i c) =
    (if c.write_shift_reg then [] else waiting c) ++ takes i c := by
  have htake : c.write_tx_holding = true → c.tx_holding_primed = true →
      c.write_shift_reg = true := by
    rw [write_tx_holding, write_shift_reg, TRDY]
    cases c.data_wr_strobe <;> cases c.transmitting <;> cases c.tx_holding_primed <;> decide
  by_cases hload : c.write_shift_reg = true
  · by_cases htx : c.write_tx_holding = true
    · simp [waiting, takes, next, hload, htx]
    · simp [waiting, takes, next, hload, htx]
  · by_cases htx : c.write_tx_holding = true
    · have hprimed : c.tx_holding_primed = false := by
        by_contra h
        exact hload (htake htx (by simpa using h))
      simp [waiting, takes, next, hload, htx, hprimed]
    · simp [waiting, takes, next, hload, htx]

/-! ### The stream -/

/-- The bytes accepted are those exchanged for the answers, the one on its way and the one that
waits. -/
inductive Stream (acc ans : List (BitVec 8)) (log : List Wire) (c : Core) : Prop
  | still {done : List (BitVec 8)} : Still c → done.length = ans.length →
    acc = done ++ waiting c → log = exchanges done ans → Stream acc ans log c
  | sending {done : List (BitVec 8)} {b : BitVec 8} {got : List Bool} {s t : ℕ} :
    Sending b got s t c → done.length = ans.length → acc = done ++ b :: waiting c →
    log = exchanges done ans ++ pulses b got → Stream acc ans log c

variable {acc ans : List (BitVec 8)} {log : List Wire}

/-- **An edge**, whatever is on the bus. -/
theorem Stream.next (h : Stream acc ans log c) :
    Stream (acc ++ takes i c) (ans ++ gives i c) (log ++ pulse i c) (next i c) := by
  cases h with
  | @still done h hlen hacc hlog =>
    have hgives : gives i c = [] := by
      rw [gives, h.slowclock, Bool.false_and, if_neg Bool.false_ne_true]
    have hpulse : pulse i c = [] := by
      rw [pulse, h.next_SCLK, Bool.and_false, if_neg Bool.false_ne_true]
    rw [hgives, hpulse, List.append_nil, List.append_nil, hacc]
    by_cases hload : c.write_shift_reg = true
    · have hwaiting : waiting c = [c.tx_holding_reg] := by
        rw [write_shift_reg, Bool.and_eq_true] at hload
        rw [waiting, if_pos hload.1]
      refine .sending (h.next_load hload) hlen ?_
        (by rw [hlog, pulses, List.zipWith_nil_right, List.append_nil])
      rw [waiting_next, if_pos hload, hwaiting, List.nil_append, List.append_assoc]
      rfl
    · have hload' : c.write_shift_reg = false := by simpa using hload
      refine .still (h.next_still hload') hlen ?_ hlog
      rw [waiting_next, if_neg hload, List.append_assoc]
  | @sending done b got s t h hlen hacc hlog =>
    have hlt := h.lt_180
    have hwaiting : waiting (Core.next i c) = waiting c ++ takes i c := by
      rw [waiting_next, h.load, if_neg Bool.false_ne_true]
    have hgives : gives i c =
        if 10 * s + t = 179 then [(Core.next i c).rx_holding_reg] else [] := by
      rw [gives, h.last_edge]
      simp only [decide_eq_true_eq]
    by_cases hst : 10 * s + t = 179
    · obtain ⟨hstill, -, hpulse, hexchange⟩ := h.done (i := i) hst
      rw [hgives, if_pos hst, hpulse, List.append_nil]
      have hlen' : (done ++ [b]).length = (ans ++ [(Core.next i c).rx_holding_reg]).length := by
        rw [List.length_append, List.length_append, hlen]; rfl
      refine .still hstill hlen' ?_ ?_
      · rw [hacc, hwaiting, List.append_assoc, List.append_assoc]; rfl
      · rw [hlog, exchanges_concat hlen.symm, hexchange]
    · obtain ⟨got', s', t', h', -, hpulses⟩ := h.next (i := i) (by omega)
      rw [hgives, if_neg hst, List.append_nil]
      refine .sending h' hlen ?_ ?_
      · rw [hacc, hwaiting, List.append_assoc]; rfl
      · rw [hlog, hpulses, List.append_assoc]

theorem stream_after (w : ℕ → Port) (n : ℕ) :
    Stream (accepted w n) (answered w n) (rises w n) (after w n) := by
  induction n with
  | zero =>
    have hlen : ([] : List (BitVec 8)).length = (answered w 0).length := rfl
    exact .still ⟨rfl, rfl, rfl, rfl, rfl⟩ hlen rfl rfl
  | succ n ih => exact ih.next

/-- The last answer can be read. -/
theorem rx_after (w : ℕ → Port) (n : ℕ) :
    (after w n).rx_holding_reg = (answered w n).getLastD 0 := by
  induction n with
  | zero => rfl
  | succ n ih =>
    rw [answered, gives]
    by_cases h : ((after w n).slowclock && (after w n).state == 17) = true
    · rw [if_pos h, List.getLastD_concat]
      rfl
    · rw [if_neg h, List.append_nil, ← ih]
      rw [after, run_succ]
      simp only [Core.next]
      exact if_neg h

/-! ### The answers come -/

/-- The first `k` answers are there in at most `r` edges. -/
inductive Due (k : ℕ) (n : ℕ) (c : Core) : ℕ → Prop
  | here {r : ℕ} : k ≤ n → Due k n c r
  | waits : k = n + 1 → Still c → c.tx_holding_primed = true → Due k n c 181
  | goes {b : BitVec 8} {got : List Bool} {s t : ℕ} : k = n + 1 → Sending b got s t c →
    Due k n c (180 - (10 * s + t))
  | both {b : BitVec 8} {got : List Bool} {s t : ℕ} : k = n + 2 → Sending b got s t c →
    c.tx_holding_primed = true → Due k n c (361 - (10 * s + t))

theorem Stream.due (h : Stream acc ans log c) : ∃ r ≤ 361, Due acc.length ans.length c r := by
  cases h with
  | @still done h hlen hacc hlog =>
    by_cases hprimed : c.tx_holding_primed = true
    · refine ⟨181, by omega, .waits ?_ h hprimed⟩
      rw [hacc, List.length_append, hlen, waiting, if_pos hprimed, List.length_singleton]
    · refine ⟨0, by omega, .here ?_⟩
      rw [hacc, List.length_append, hlen, waiting, if_neg hprimed, List.length_nil]
      exact Nat.le_refl _
  | @sending done b got s t h hlen hacc hlog =>
    by_cases hprimed : c.tx_holding_primed = true
    · refine ⟨_, by omega, .both ?_ h hprimed⟩
      rw [hacc, List.length_append, hlen, waiting, if_pos hprimed]
      rfl
    · refine ⟨_, by omega, .goes ?_ h⟩
      rw [hacc, List.length_append, hlen, waiting, if_neg hprimed]
      rfl

/-- **An edge.** -/
theorem Due.next {k n r : ℕ} (h : Due k n c r) :
    Due k (n + (gives i c).length) (next i c) (r - 1) := by
  cases h with
  | here h => exact .here (Nat.le_trans h (Nat.le_add_right _ _))
  | waits hk h hprimed =>
    have hload : c.write_shift_reg = true := by rw [write_shift_reg, hprimed, h.transmitting]; rfl
    have hgives : gives i c = [] := by
      rw [gives, h.slowclock, Bool.false_and, if_neg Bool.false_ne_true]
    rw [hgives]
    exact .goes hk (h.next_load hload)
  | @goes b got s t hk h =>
    have hlt := h.lt_180
    by_cases hst : 10 * s + t = 179
    · refine .here ?_
      rw [gives, h.last_edge, decide_eq_true hst, if_pos rfl, hk]
      exact Nat.le_refl _
    · obtain ⟨got', s', t', h', hst', -⟩ := h.next (i := i) (by omega)
      rw [gives, h.last_edge, decide_eq_false hst, if_neg Bool.false_ne_true,
        show 180 - (10 * s + t) - 1 = 180 - (10 * s' + t') by omega]
      exact .goes hk h'
  | @both b got s t hk h hprimed =>
    have hlt := h.lt_180
    have hprimed' : (Core.next i c).tx_holding_primed = true := by
      simp [Core.next, h.load, hprimed]
    by_cases hst : 10 * s + t = 179
    · rw [gives, h.last_edge, decide_eq_true hst, if_pos rfl, hst]
      exact .waits hk (h.done hst).1 hprimed'
    · obtain ⟨got', s', t', h', hst', -⟩ := h.next (i := i) (by omega)
      rw [gives, h.last_edge, decide_eq_false hst, if_neg Bool.false_ne_true,
        show 361 - (10 * s + t) - 1 = 361 - (10 * s' + t') by omega]
      exact .both hk h' hprimed'

theorem Due.zero {k n : ℕ} (h : Due k n c 0) : k ≤ n := by
  generalize hr : 0 = r at h
  cases h with
  | here h => exact h
  | waits _ _ _ => exact absurd hr (by decide)
  | goes _ h => exact absurd hr (by have := h.lt_180; omega)
  | both _ h _ => exact absurd hr (by have := h.lt_180; omega)

theorem due_after (w : ℕ → Port) {n k r : ℕ} (h : Due k (answered w n).length (after w n) r) :
    ∀ m, Due k (answered w (n + m)).length (after w (n + m)) (r - m) := by
  intro m
  induction m with
  | zero => exact h
  | succ m ih =>
    have hnext := ih.next (i := w (n + m))
    rw [← List.length_append] at hnext
    exact hnext

/-- What has not been answered does not count. -/
theorem exchanges_append {done ans : List (BitVec 8)} (h : done.length = ans.length)
    (more : List (BitVec 8)) : exchanges (done ++ more) ans = exchanges done ans := by
  have hzip : List.zipWith exchange (done ++ more) (ans ++ []) =
      List.zipWith exchange done ans ++ List.zipWith exchange more [] := List.zipWith_append h
  rw [List.append_nil, List.zipWith_nil_right, List.append_nil] at hzip
  rw [exchanges, hzip, exchanges]

theorem length_waiting_le (c : Core) : (waiting c).length ≤ 1 := by
  rw [waiting]
  split
  · exact Nat.le_refl 1
  · exact Nat.zero_le 1

/-- **The stream of bytes**, in every run.  At most two accepted bytes are without an answer, and in
`361` edges they have theirs; `SCLK` has pulsed for the answered bytes in the order in which they
were written, and for a part of the next one; the last answer can be read. -/
theorem stream_of_bytes (w : ℕ → Port) (n : ℕ) :
    (answered w n).length ≤ (accepted w n).length ∧
      (accepted w n).length ≤ (answered w n).length + 2 ∧
      (accepted w n).length ≤ (answered w (n + 361)).length ∧
      (after w n).rx_holding_reg = (answered w n).getLastD 0 ∧
      ∃ got : List Bool, got.length ≤ 8 ∧
        rises w n = exchanges (accepted w n) (answered w n) ++
          pulses ((accepted w n).getD (answered w n).length 0) got := by
  have h := stream_after w n
  have hwaiting := length_waiting_le (after w n)
  have hdue : (accepted w n).length ≤ (answered w (n + 361)).length := by
    obtain ⟨r, hr, hdue⟩ := h.due
    have hlast := due_after w hdue 361
    rw [Nat.sub_eq_zero_of_le hr] at hlast
    exact hlast.zero
  cases h with
  | @still done h hlen hacc hlog =>
    refine ⟨?_, ?_, hdue, rx_after w n, [], Nat.zero_le 8, ?_⟩
    · rw [hacc, List.length_append]; omega
    · rw [hacc, List.length_append]; omega
    · rw [hlog, hacc, exchanges_append hlen, pulses, List.zipWith_nil_right, List.append_nil]
  | @sending done b got s t h hlen hacc hlog =>
    have hgot := h.length
    have hs := h.state_le
    refine ⟨?_, ?_, hdue, rx_after w n, got, by omega, ?_⟩
    · rw [hacc, List.length_append, List.length_cons]; omega
    · rw [hacc, List.length_append, List.length_cons]; omega
    · rw [hlog, hacc, exchanges_append hlen, ← hlen]
      simp

end Core

end ECE385.Spi
