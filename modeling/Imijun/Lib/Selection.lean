import Mathlib.Data.List.Perm.Basic
import Mathlib.Tactic.Common

/-!
# Shuffling by selection

A shuffle that takes the elements of a list out one after another. The `k`-th element to be taken
out stands at position `draws k` of what is left, counted round.

* `select_perm`: whatever is drawn, nothing is lost or doubled.
* `select_zero`: without a draw the order stays.
-/

namespace Selection

open List

variable {α : Type*} {draws : Nat → Nat}

/-- Takes the elements out of the list, which has the given length; `turn` elements have been taken
out before. -/
def select (draws : Nat → Nat) : Nat → Nat → List α → List α
  | 0, _, _ => []
  | length + 1, turn, xs =>
    let i := draws turn % (length + 1)
    xs[i]?.toList ++ select draws length (turn + 1) (xs.eraseIdx i)

theorem select_succ {length turn : Nat} {xs : List α} {x : α}
    (hx : xs[draws turn % (length + 1)]? = some x) :
    select draws (length + 1) turn xs =
      x :: select draws length (turn + 1) (xs.eraseIdx (draws turn % (length + 1))) := by
  rw [select, hx]
  rfl

theorem drawn_lt {length turn : Nat} {xs : List α} (hlength : xs.length = length + 1) :
    draws turn % (length + 1) < xs.length := by
  rw [hlength]
  exact Nat.mod_lt _ (Nat.succ_pos _)

/-- The next draw hits an element. -/
theorem exists_drawn (draws : Nat → Nat) (turn : Nat) {length : Nat} {xs : List α}
    (hlength : xs.length = length + 1) :
    ∃ x, xs[draws turn % (length + 1)]? = some x :=
  ⟨_, List.getElem?_eq_getElem (drawn_lt hlength)⟩

theorem length_eraseIdx_drawn {length turn : Nat} {xs : List α} (hlength : xs.length = length + 1) :
    (xs.eraseIdx (draws turn % (length + 1))).length = length := by
  rw [length_eraseIdx_of_lt (drawn_lt hlength), hlength]
  rfl

theorem select_perm (draws : Nat → Nat) {length turn : Nat} {xs : List α}
    (hlength : xs.length = length) : (select draws length turn xs).Perm xs := by
  induction length generalizing turn xs with
  | zero =>
    rw [length_eq_zero_iff.mp hlength]
    exact .refl _
  | succ length ih =>
    have ⟨x, hx⟩ := exists_drawn draws turn hlength
    rw [select_succ hx]
    obtain ⟨hlt, rfl⟩ := List.getElem?_eq_some_iff.mp hx
    exact ((ih (length_eraseIdx_drawn hlength)).cons _).trans (getElem_cons_eraseIdx_perm hlt)

theorem select_zero {length turn : Nat} {xs : List α} (hlength : xs.length = length) :
    select (fun _ => 0) length turn xs = xs := by
  induction length generalizing turn xs with
  | zero => exact (length_eq_zero_iff.mp hlength).symm
  | succ length ih =>
    cases xs with
    | nil => cases hlength
    | cons x xs =>
      have hx : (x :: xs)[0 % (length + 1)]? = some x := by rw [Nat.zero_mod]; rfl
      rw [select_succ hx, Nat.zero_mod]
      exact congrArg (x :: ·) (ih (Nat.succ.inj hlength))

end Selection
