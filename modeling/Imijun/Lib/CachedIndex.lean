import Mathlib.Data.List.Basic
import Mathlib.Data.List.Nodup
import Mathlib.Tactic.Common

/-!
# Removals by cached positions

A list without duplicates has pending removals, and every element to be removed carries a cached
position. A removal moves the elements behind it, so cached positions go stale; they stay right as
long as the removals run from the back to the front.

* `Ready xs pos ps`: the removals `ps`, first to run first, can run on `xs` with the positions
  `pos`.
* `Ready.remove`: running the first one keeps the others ready.
* `Ready.push`: an element in front of all pending ones can join the end of the queue.
* `zip_filter_ne`: taking one position out of two lists that stand side by side.
-/

namespace CachedIndex

open List

variable {α : Type*} {xs ps : List α} {pos pos' : α → Nat} {p q : α} {i : Nat}

section Removal

variable [DecidableEq α]

/-- Taking an element out of a list without duplicates takes out its position. -/
theorem filter_ne_eq_eraseIdx (hnodup : xs.Nodup) (hi : xs[i]? = some p) :
    xs.filter (· ≠ p) = xs.eraseIdx i := by
  obtain ⟨hlt, rfl⟩ := List.getElem?_eq_some_iff.mp hi
  rw [← hnodup.erase_getElem i hlt, hnodup.erase_eq_filter]
  exact filter_congr fun q _ => by rw [Bool.eq_iff_iff]; simp

/-- The elements in front of a removed one keep their positions. -/
theorem getElem?_filter_ne_of_lt (hnodup : xs.Nodup) (hi : xs[i]? = some p) {j : Nat}
    (hj : j < i) : (xs.filter (· ≠ p))[j]? = xs[j]? := by
  rw [filter_ne_eq_eraseIdx hnodup hi, getElem?_eraseIdx_of_lt hj]

theorem idxOf_eq_of_getElem? (hnodup : xs.Nodup) (hi : xs[i]? = some p) : xs.idxOf p = i := by
  obtain ⟨hlt, rfl⟩ := List.getElem?_eq_some_iff.mp hi
  exact hnodup.idxOf_getElem i hlt

theorem filter_ne_of_notMem (hp : p ∉ xs) : xs.filter (· ≠ p) = xs := by
  refine filter_eq_self.mpr fun x hx => decide_eq_true ?_
  rintro rfl
  exact hp hx

/-- Two lists side by side, when the elements at one position are taken out of both: the pairs are
the old ones without the pair at this position. -/
theorem zip_filter_ne {β : Type*} [DecidableEq β] {ys : List β} {q : β} (hxs : xs.Nodup)
    (hys : ys.Nodup) (hp : xs[i]? = some p) (hq : ys[i]? = some q) :
    (xs.filter (· ≠ p)).zip (ys.filter (· ≠ q)) = (xs.zip ys).filter fun e => e.1 ≠ p := by
  induction xs generalizing ys i with
  | nil => cases hp
  | cons x xs ih =>
    cases ys with
    | nil => cases hq
    | cons y ys =>
      have ⟨hx, hxs⟩ := nodup_cons.mp hxs
      have ⟨hy, hys⟩ := nodup_cons.mp hys
      cases i with
      | zero =>
        obtain rfl := Option.some.inj hp
        obtain rfl := Option.some.inj hq
        have hkept : (xs.zip ys).filter (fun e => e.1 ≠ x) = xs.zip ys := by
          refine filter_eq_self.mpr fun e he => decide_eq_true ?_
          rintro rfl
          exact hx (of_mem_zip he).1
        rw [zip_cons_cons, filter_cons_of_neg (by simp), filter_cons_of_neg (by simp),
          filter_cons_of_neg (by simp), filter_ne_of_notMem hx, filter_ne_of_notMem hy, hkept]
      | succ i =>
        have hp : xs[i]? = some p := hp
        have hq : ys[i]? = some q := hq
        have hxp : x ≠ p := fun h => hx (h ▸ mem_of_getElem? hp)
        have hyq : y ≠ q := fun h => hy (h ▸ mem_of_getElem? hq)
        rw [zip_cons_cons, filter_cons_of_pos (by simpa using hxp),
          filter_cons_of_pos (by simpa using hyq), filter_cons_of_pos (by simpa using hxp),
          zip_cons_cons, ih hxs hys hp hq]

end Removal

/-- The cached position of every pending element is right, and the queue goes from the back of the
list to the front. -/
structure Ready (xs : List α) (pos : α → Nat) (ps : List α) : Prop where
  cached : ∀ p ∈ ps, xs[pos p]? = some p
  backwards : ps.Pairwise fun p q => pos q < pos p

theorem Ready.nil (xs : List α) (pos : α → Nat) : Ready xs pos [] := ⟨by simp, .nil⟩

theorem Ready.congr (h : Ready xs pos ps) (hpos : ∀ p ∈ ps, pos' p = pos p) :
    Ready xs pos' ps where
  cached p hp := hpos p hp ▸ h.cached p hp
  backwards := h.backwards.imp_of_mem fun hp hq hlt => by rwa [hpos _ hp, hpos _ hq]

theorem Ready.remove [DecidableEq α] (hnodup : xs.Nodup) (h : Ready xs pos (p :: ps)) :
    Ready (xs.filter (· ≠ p)) pos ps := by
  obtain ⟨hlt, htail⟩ := pairwise_cons.mp h.backwards
  refine ⟨fun q hq => ?_, htail⟩
  rw [getElem?_filter_ne_of_lt hnodup (h.cached p mem_cons_self) (hlt q hq)]
  exact h.cached q (mem_cons_of_mem _ hq)

theorem Ready.push (h : Ready xs pos ps) (hp : xs[pos p]? = some p)
    (hfront : ∀ q ∈ ps, pos p < pos q) : Ready xs pos (ps ++ [p]) where
  cached q hq := by
    rcases mem_append.mp hq with hq | hq
    · exact h.cached q hq
    · exact mem_singleton.mp hq ▸ hp
  backwards := pairwise_append.mpr
    ⟨h.backwards, pairwise_singleton _ _, fun q hq r hr => mem_singleton.mp hr ▸ hfront q hq⟩

end CachedIndex
