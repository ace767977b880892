import Mathlib.Algebra.BigOperators.Group.List.Basic
import Mathlib.Tactic.Common
import Mathlib.Tactic.Ring

/-!
# Items in a row

Items with a left edge and a width, laid in a row: each item starts `gap` after the end of the one
before it, so a negative gap is an overlap.

* `after`: where an item starts that follows items of the given widths; `after_eq` is its closed
  form.
* `span`: the width of the whole row.
* `Laid`: the items stand in a row that starts at `x`; `laid_iff`: this is a condition on the first
  item and on neighbours.
-/

namespace Row

variable {K : Type*} [CommRing K] {gap x : K}

/-- Where the item starts that follows items of these widths in a row from `x` on. -/
def after (gap x : K) : List K → K
  | [] => x
  | width :: widths => after gap (x + width + gap) widths

theorem after_eq (gap x : K) (widths : List K) :
    after gap x widths = x + widths.sum + widths.length * gap := by
  induction widths generalizing x with
  | nil => simp [after]
  | cons width widths ih =>
    rw [after, ih, List.sum_cons, List.length_cons, Nat.cast_succ]
    ring

/-- The width of a row from the left edge of the first item to the right edge of the last. -/
def span (gap : K) (widths : List K) : K :=
  widths.sum + (widths.length - 1) * gap

/-- A row ends at the place where the next item would start, less the gap before that item. -/
theorem after_eq_span (gap x : K) (widths : List K) :
    after gap x widths = x + span gap widths + gap := by
  rw [after_eq, span]
  ring

/-- The items, each with its left edge and its width, stand in a row that starts at `x`. -/
def Laid (gap x : K) : List (K × K) → Prop
  | [] => True
  | item :: items => item.1 = x ∧ Laid gap (x + item.2 + gap) items

theorem laid_cons {item : K × K} {items : List (K × K)} :
    Laid gap x (item :: items) ↔ item.1 = x ∧ Laid gap (x + item.2 + gap) items := Iff.rfl

/-- Only the place of the first item and the gaps between neighbours matter. -/
theorem laid_iff {items : List (K × K)} :
    Laid gap x items ↔ (∀ item, items[0]? = some item → item.1 = x) ∧
      ∀ (i : Nat) item item', items[i]? = some item → items[i + 1]? = some item' →
        item'.1 = item.1 + item.2 + gap := by
  induction items generalizing x with
  | nil => simp [Laid]
  | cons first items ih =>
    rw [laid_cons, ih]
    constructor
    · rintro ⟨hfirst, hsecond, hnext⟩
      refine ⟨fun item hitem => ?_, fun i item item' hitem hitem' => ?_⟩
      · obtain rfl := Option.some.inj hitem
        exact hfirst
      · cases i with
        | zero =>
          obtain rfl := Option.some.inj hitem
          rw [hfirst]
          exact hsecond item' hitem'
        | succ i => exact hnext i item item' hitem hitem'
    · rintro ⟨hfirst, hnext⟩
      have hx := hfirst first rfl
      refine ⟨hx, fun item hitem => ?_, fun i => hnext (i + 1)⟩
      rw [← hx]
      exact hnext 0 first item rfl hitem

end Row
