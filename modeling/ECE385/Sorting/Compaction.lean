import Mathlib.Data.List.Basic

/-!
# Compaction of a list

In each round one element with the property `p` is taken out of the list, and `z`, which does not
have it, comes in at the front.

* `Round`: one round.
* `rounds_filter`: what the rounds make of the other elements.
* `compacted`: when no such element is left, the others stand at the end in their order.
-/

namespace ECE385.Sorting

variable {α : Type*} {p : α → Bool} {z x : α} {l l' : List α}

/-- A round takes out any element with the property; when there is none the list stays. -/
inductive Round (p : α → Bool) (z : α) (l : List α) : List α → Prop
  | drop (i : ℕ) (x : α) (hx : l[i]? = some x) (hp : p x = true) : Round p z l (z :: l.eraseIdx i)
  | stay (h : l.countP p = 0) : Round p z l l

theorem eq_take_cons_drop {i : ℕ} (hx : l[i]? = some x) : l = l.take i ++ x :: l.drop (i + 1) := by
  obtain ⟨hi, rfl⟩ := List.getElem?_eq_some_iff.mp hx
  rw [← List.drop_eq_getElem_cons hi, List.take_append_drop]

theorem filter_drop {i : ℕ} (hx : l[i]? = some x) (hp : p x = true) (hz : p z = false) :
    (z :: l.eraseIdx i).filter (!p ·) = z :: l.filter (!p ·) := by
  conv_rhs => rw [eq_take_cons_drop hx]
  rw [List.eraseIdx_eq_take_drop_succ, List.filter_cons_of_pos (by rw [hz]; rfl),
    List.filter_append, List.filter_append, List.filter_cons_of_neg (by rw [hp]; decide)]

theorem countP_drop {i : ℕ} (hx : l[i]? = some x) (hp : p x = true) (hz : p z = false) :
    (z :: l.eraseIdx i).countP p + 1 = l.countP p := by
  conv_rhs => rw [eq_take_cons_drop hx]
  rw [List.eraseIdx_eq_take_drop_succ,
    List.countP_cons_of_neg (by rw [hz]; exact Bool.false_ne_true), List.countP_append,
    List.countP_append, List.countP_cons_of_pos hp, Nat.add_assoc]

/-- **One round** takes one of the elements, if there is one. -/
theorem Round.spec (h : Round p z l l') (hz : p z = false) :
    l'.countP p = l.countP p - 1 ∧
    l'.filter (!p ·) = List.replicate (min 1 (l.countP p)) z ++ l.filter (!p ·) := by
  cases h with
  | drop i x hx hp =>
    have hcount := countP_drop hx hp hz
    refine ⟨by omega, ?_⟩
    rw [filter_drop hx hp hz, Nat.min_eq_left (by omega)]
    rfl
  | stay h =>
    rw [h]
    exact ⟨rfl, rfl⟩

variable {L : ℕ → List α} {n : ℕ}

theorem rounds_countP (hz : p z = false) :
    ∀ n, (∀ m < n, Round p z (L m) (L (m + 1))) → (L n).countP p = (L 0).countP p - n := by
  intro n
  induction n with
  | zero => exact fun _ => rfl
  | succ n ih =>
    intro h
    rw [((h n (Nat.lt_succ_self n)).spec hz).1, ih fun m hm => h m (Nat.lt_succ_of_lt hm),
      Nat.sub_sub]

/-- **Rounds** leave the other elements in their order, below the new ones. -/
theorem rounds_filter (hz : p z = false) :
    ∀ n, (∀ m < n, Round p z (L m) (L (m + 1))) → (L n).filter (!p ·) =
      List.replicate (min n ((L 0).countP p)) z ++ (L 0).filter (!p ·) := by
  intro n
  induction n with
  | zero =>
    intro _
    rw [Nat.zero_min]
    rfl
  | succ n ih =>
    intro h
    have hpre := fun m hm => h m (Nat.lt_succ_of_lt hm)
    rw [((h n (Nat.lt_succ_self n)).spec hz).2, rounds_countP hz n hpre, ih hpre,
      ← List.append_assoc, List.replicate_append_replicate]
    congr 2
    omega

/-- **Compaction**, when there were as many rounds as elements to take. -/
theorem compacted (hz : p z = false) (h : ∀ m < n, Round p z (L m) (L (m + 1)))
    (hn : (L 0).countP p ≤ n) :
    L n = List.replicate ((L 0).countP p) z ++ (L 0).filter (!p ·) := by
  have hnone : (L n).countP p = 0 := by
    rw [rounds_countP hz n h]
    omega
  have hself : (L n).filter (!p ·) = L n := by
    rw [List.filter_eq_self]
    intro x hx
    simpa using List.countP_eq_zero.mp hnone x hx
  rw [← hself, rounds_filter hz n h, Nat.min_eq_right hn]

end ECE385.Sorting
