import Mathlib.Data.List.Forall2
import Mathlib.Tactic.Common

/-!
# Lists related position by position

Rules for `List.Forall₂ R xs ys`, where `ys` is `xs` after an update: looking up a position
(`forall₂_getElem?_right`), and the updates of core (`modify`, `mapIdx`, `map`). Equal images
(`forall₂_of_map_eq`) and a computation of a list that succeeds (`mapM_eq_some`) are such relations
as well. Taking one position out of a list keeps the other elements (`mem_eraseIdx_of_ne`).
-/

namespace Pointwise

open List

variable {α β γ : Type*} {R : α → β → Prop} {S : β → γ → Prop}

theorem forall₂_getElem?_right {xs : List α} {ys : List β} (h : Forall₂ R xs ys) {i : Nat} {y : β}
    (hy : ys[i]? = some y) : ∃ x, xs[i]? = some x ∧ R x y := by
  induction h generalizing i with
  | nil => simp at hy
  | cons hR _ ih =>
    cases i with
    | zero =>
      obtain rfl : _ = y := by simpa using hy
      exact ⟨_, rfl, hR⟩
    | succ i => simpa using ih (by simpa using hy)

theorem forall₂_getElem?_left {xs : List α} {ys : List β} (h : Forall₂ R xs ys) {i : Nat} {x : α}
    (hx : xs[i]? = some x) : ∃ y, ys[i]? = some y ∧ R x y := by
  obtain ⟨y, hy, hR⟩ := forall₂_getElem?_right (R := fun y x => R x y) h.flip hx
  exact ⟨y, hy, hR⟩

theorem forall₂_trans {xs : List α} {ys : List β} {zs : List γ} (h : Forall₂ R xs ys)
    (h' : Forall₂ S ys zs) : Forall₂ (fun x z => ∃ y, R x y ∧ S y z) xs zs := by
  induction h generalizing zs with
  | nil => cases h'; exact .nil
  | cons hR _ ih =>
    cases h' with
    | cons hS h' => exact .cons ⟨_, hR, hS⟩ (ih h')

/-- An element other than the one at position `i` outlives the removal of that position. -/
theorem mem_eraseIdx_of_ne {xs : List α} {i : Nat} {x y : α} (hi : xs[i]? = some x) (hy : y ∈ xs)
    (hne : y ≠ x) : y ∈ xs.eraseIdx i := by
  obtain ⟨j, hj⟩ := mem_iff_getElem?.mp hy
  exact mem_eraseIdx_iff_getElem?.mpr
    ⟨j, fun h => hne (Option.some.inj (hj.symm.trans (h ▸ hi))), hj⟩

section Update

variable {R : α → α → Prop} {xs : List α}

theorem forall₂_self_map {f : α → α} (hf : ∀ x ∈ xs, R x (f x)) : Forall₂ R xs (xs.map f) :=
  forall₂_map_right_iff.mpr (forall₂_same.mpr hf)

theorem forall₂_self_mapIdx {f : Nat → α → α} (hf : ∀ i x, xs[i]? = some x → R x (f i x)) :
    Forall₂ R xs (xs.mapIdx f) := by
  induction xs generalizing f with
  | nil => exact .nil
  | cons x xs ih =>
    rw [mapIdx_cons]
    exact .cons (hf 0 x rfl) (ih fun i y hy => hf (i + 1) y (by simpa using hy))

theorem forall₂_self_modify {f : α → α} {k : Nat} (hR : ∀ x, R x x)
    (hf : ∀ x, xs[k]? = some x → R x (f x)) : Forall₂ R xs (xs.modify k f) := by
  induction xs generalizing k with
  | nil => simp
  | cons x xs ih =>
    cases k with
    | zero =>
      rw [modify_zero_cons]
      exact .cons (hf x rfl) (forall₂_same.mpr fun y _ => hR y)
    | succ k =>
      rw [modify_succ_cons]
      exact .cons (hR x) (ih fun y hy => hf y (by simpa using hy))

end Update

/-- Related lists have the same images when related elements do. -/
theorem map_eq_of_forall₂ {f : α → β} {ys : List α} (h : Forall₂ (fun x y => f y = f x) xs ys) :
    ys.map f = xs.map f := by
  induction h with
  | nil => rfl
  | cons hxy _ ih => exact congrArg₂ List.cons hxy ih

/-- Lists with the same images are related by having the same images. -/
theorem forall₂_of_map_eq {f : α → γ} {g : β → γ} {xs : List α} {ys : List β}
    (h : xs.map f = ys.map g) : Forall₂ (fun x y => f x = g y) xs ys := by
  have himages : Forall₂ Eq (xs.map f) (ys.map g) := by
    rw [forall₂_eq_eq_eq]
    exact h
  rw [forall₂_map_left_iff, forall₂_map_right_iff] at himages
  exact himages

/-- A computation of a whole list succeeds when it does on each element. -/
theorem mapM_eq_some {f : α → Option β} {xs : List α} {ys : List β} :
    xs.mapM f = some ys ↔ Forall₂ (fun x y => f x = some y) xs ys := by
  induction xs generalizing ys with
  | nil =>
    rw [mapM_nil, forall₂_nil_left_iff]
    exact ⟨fun h => (Option.some.inj h).symm, fun h => h ▸ rfl⟩
  | cons x xs ih =>
    rw [mapM_cons, forall₂_cons_left_iff]
    constructor
    · intro h
      obtain ⟨y, hy, h⟩ := Option.bind_eq_some_iff.mp h
      obtain ⟨ys', hys, h⟩ := Option.bind_eq_some_iff.mp h
      exact ⟨y, ys', hy, ih.mp hys, (Option.some.inj h).symm⟩
    · rintro ⟨y, ys', hy, hys, rfl⟩
      rw [hy, ih.mpr hys]
      rfl

/-- The images after an update of one element that acts on the image as `g'` does. -/
theorem map_modify (f : α → β) {g : α → α} (g' : β → β) (h : ∀ x, f (g x) = g' (f x))
    (xs : List α) (k : Nat) : (xs.modify k g).map f = (xs.map f).modify k g' := by
  refine ext_getElem? fun i => ?_
  simp only [getElem?_map, getElem?_modify]
  cases xs[i]? with
  | none => rfl
  | some x =>
    by_cases hi : k = i
    · simp [hi, h]
    · simp [hi]

end Pointwise
