import Mathlib.Algebra.BigOperators.Group.Finset.Piecewise
import Mathlib.Data.List.Basic
import Mathlib.Tactic.Ring

/-!
# Counting by key

The entries of a list belong to keys below `n`. What is counted over the whole list is the sum of
what is counted for each key (`countP_eq_sum`). An entry that is replaced by others is counted out,
and the others are counted in (`countP_replace`).
-/

namespace Tally

open List

variable {α : Type*} {p : α → Bool} {key : α → Option ℕ} {n : ℕ}

/-- The entries of one key. -/
def ofKey (key : α → Option ℕ) (k : ℕ) (l : List α) : List α :=
  l.filter fun a => key a = some k

theorem countP_ofKey_cons (a : α) (l : List α) (k : ℕ) :
    (ofKey key k (a :: l)).countP p =
      (ofKey key k l).countP p + if key a = some k ∧ p a = true then 1 else 0 := by
  unfold ofKey
  rw [filter_cons]
  by_cases hk : key a = some k
  · rw [if_pos (decide_eq_true hk), countP_cons]
    simp only [hk, true_and]
  · rw [if_neg (by rwa [decide_eq_true_eq]), if_neg fun h => hk h.1]
    rfl

theorem countP_eq_sum {l : List α} (h : ∀ a ∈ l, p a = true → ∃ k < n, key a = some k) :
    l.countP p = ∑ k ∈ Finset.range n, (ofKey key k l).countP p := by
  induction l with
  | nil => exact (Finset.sum_eq_zero fun _ _ => rfl).symm
  | cons a l ih =>
    simp only [countP_ofKey_cons, Finset.sum_add_distrib]
    rw [← ih fun b hb => h b (mem_cons_of_mem a hb), countP_cons]
    congr 1
    by_cases hp : p a = true
    · obtain ⟨k, hk, hkey⟩ := h a mem_cons_self hp
      simp [hp, hkey, hk]
    · simp [hp]

/-- Entry `i` leaves the list, and the entries of `new` join it. -/
theorem countP_replace {l : List α} {i : ℕ} {a : α} (hi : l[i]? = some a) (new : List α) :
    (l.eraseIdx i ++ new).countP p + [a].countP p = l.countP p + new.countP p := by
  obtain ⟨hlt, hget⟩ := List.getElem?_eq_some_iff.mp hi
  have hperm : (a :: l.eraseIdx i).Perm l := by
    rw [← hget]
    exact getElem_cons_eraseIdx_perm hlt
  have hcount : [a].countP p + (l.eraseIdx i).countP p = l.countP p := by
    rw [← countP_append]
    exact hperm.countP_eq p
  rw [countP_append, ← hcount]
  ring

end Tally
