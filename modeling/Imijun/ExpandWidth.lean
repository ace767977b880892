import Imijun.DisplayFacts
import Imijun.PatternPieceFacts
import Imijun.Lib.Row
import Imijun.Lib.Allotment

/-!
# The width of the row

`expandPieceWidth` shrinks the slots that are too wide for their text, gives the ones that are too
narrow what they lack, and spreads what is left of the row over the placed slots.

* One lemma for each pass: `shrinkAll_spec`, `growAll_spec`, `spreadAll_spec`.
* `row_filled_iff`: a call fills the row exactly when the grants that the second pass does not
  charge stay below what is left of its budget and the margin. The budget leaves out
  `kPatternLeftMargin`, which the row does not contain, and a slot that gets only a part of what it
  lacks is not charged.
* `unplaced_unmarked`: the mark of the first pass is on placed slots only, in every run.
-/

namespace Imijun

open Transition Fallible List Pointwise

/-- The left edge and the width of each slot. -/
def places (slots : List AIMPatternPiece) : List (ℚ × ℚ) :=
  slots.map fun v => (v.frame.x, v.frame.width)

def widths (slots : List AIMPatternPiece) : List ℚ :=
  slots.map (·.frame.width)

/-- The visual width of a row of slots, which overlap by `kPatternCoverSpace`. -/
def rowWidth (slots : List AIMPatternPiece) : ℚ :=
  Row.span (-kPatternCoverSpace) (widths slots)

/-- What `expandPieceWidth` is for: `slots'` fill the row, each starting on the end of the one
before it, and in an unfinished question the unplaced slots are as wide as before. -/
structure RowFilled (finished : Bool) (slots slots' : List AIMPatternPiece) : Prop where
  length : slots'.length = slots.length
  first : ∀ v, slots'[0]? = some v → v.frame.x = kPatternLeftMargin + 150
  next : ∀ (i : Nat) v w, slots'[i]? = some v → slots'[i + 1]? = some w →
    w.frame.x = v.frame.x + v.frame.width - kPatternCoverSpace
  total : rowWidth slots' = kPatternListViewWidth
  unplaced : finished = false → ∀ (i : Nat) v v', slots[i]? = some v → slots'[i]? = some v' →
    v.status = false → v'.frame.width = v.frame.width

namespace ExpandPieceWidth

variable {ui : Platform} {finished : Bool} {v v' : AIMPatternPiece}
  {slots vs : List AIMPatternPiece} {x patternViewsWidth : ℚ}

/-! ## The condition -/

/-- The width of a slot after the first pass. -/
def shrunkWidth (ui : Platform) (finished : Bool) (v : AIMPatternPiece) : ℚ :=
  if finished || v.status then min v.frame.width (neededWidth ui v) else v.frame.width

/-- The slot of an unfinished question is placed and too narrow for its text. -/
def Overlong (ui : Platform) (finished : Bool) (v : AIMPatternPiece) : Prop :=
  finished = false ∧ v.status = true ∧ v.frame.width < neededWidth ui v

instance (ui : Platform) (finished : Bool) (v : AIMPatternPiece) :
    Decidable (Overlong ui finished v) := by
  unfold Overlong; infer_instance

/-- What the over-long slots lack for their texts, in order. -/
def lacking (ui : Platform) (finished : Bool) (slots : List AIMPatternPiece) : List ℚ :=
  (slots.filter (Overlong ui finished ·)).map fun v => neededWidth ui v - v.frame.width

/-- The budget of the second pass: it stops `kPatternLeftMargin` short of the row. -/
def room (ui : Platform) (finished : Bool) (slots : List AIMPatternPiece) : ℚ :=
  kPatternListViewWidth - kPatternLeftMargin -
    Row.span (-kPatternCoverSpace) (slots.map (shrunkWidth ui finished))

/-- The over-long slots are served in order from the room that the shrunk row leaves. What is given
without a charge, to the slots whose lack is more than the room left, stays below the room left at
the end and the margin. -/
def StaysWithin (ui : Platform) (finished : Bool) (slots : List AIMPatternPiece) : Prop :=
  Allotment.uncharged (room ui finished slots) (lacking ui finished slots) <
    Allotment.left (room ui finished slots) (lacking ui finished slots) + kPatternLeftMargin

instance (ui : Platform) (finished : Bool) (slots : List AIMPatternPiece) :
    Decidable (StaysWithin ui finished slots) := by
  unfold StaysWithin; infer_instance

theorem lacking_nonneg : ∀ r ∈ lacking ui finished slots, 0 ≤ r := by
  intro r hr
  obtain ⟨v, hv, rfl⟩ := mem_map.mp hr
  have hlong : Overlong ui finished v := by simpa using (mem_filter.mp hv).2
  exact sub_nonneg.mpr hlong.2.2.le

/-- The condition holds when there is room for everything that is lacking. -/
theorem staysWithin_of_fits (h : (lacking ui finished slots).sum ≤ room ui finished slots) :
    StaysWithin ui finished slots := by
  have ⟨huncharged, hleft⟩ := Allotment.uncharged_of_sum_le lacking_nonneg h
  unfold StaysWithin
  rw [huncharged, hleft, kPatternLeftMargin]
  linarith

/-- The condition holds when only one slot is over-long. -/
theorem staysWithin_of_single {r : ℚ} (h : lacking ui finished slots = [r]) :
    StaysWithin ui finished slots := by
  unfold StaysWithin
  rw [h, kPatternLeftMargin]
  unfold Allotment.uncharged Allotment.left
  split
  · next hle =>
    simp only [Allotment.uncharged, Allotment.left]
    linarith
  · simp only [Allotment.uncharged, Allotment.left]
    linarith

/-! ## The first pass -/

/-- What the first pass makes of a slot. -/
structure Shrunk (ui : Platform) (finished : Bool) (v v' : AIMPatternPiece) : Prop where
  width : v'.frame.width = shrunkWidth ui finished v
  status : v'.status = v.status
  needed : neededWidth ui v' = neededWidth ui v
  long : v'.fixFrame = -1 ↔ Overlong ui finished v

theorem shrink_spec (ui : Platform)
    (hmark : finished = false → v.status = false → v.fixFrame ≠ -1) (x : ℚ) :
    Shrunk ui finished v (shrink ui finished v x) := by
  have hunmarked : (0 : Int) ≠ -1 := by decide
  unfold shrink
  split
  · next hon =>
    dsimp only
    have hstatus : finished = false → v.status = true := by
      intro hfinished
      rw [hfinished, Bool.false_or] at hon
      exact hon
    split_ifs with hlong hfinished hwide
    · have hnot : ¬ Overlong ui finished v := fun h => by rw [h.1] at hfinished; cases hfinished
      refine ⟨?_, rfl, rfl, iff_of_false hunmarked hnot⟩
      show v.frame.width = shrunkWidth ui finished v
      rw [shrunkWidth, if_pos hon, min_eq_left hlong.le]
    · have hunfinished : finished = false := Bool.not_eq_true _ ▸ hfinished
      refine ⟨?_, rfl, rfl, iff_of_true rfl ⟨hunfinished, hstatus hunfinished, hlong⟩⟩
      show v.frame.width = shrunkWidth ui finished v
      rw [shrunkWidth, if_pos hon, min_eq_left hlong.le]
    · refine ⟨?_, rfl, rfl, iff_of_false hunmarked fun h => hlong h.2.2⟩
      show neededWidth ui v = shrunkWidth ui finished v
      rw [shrunkWidth, if_pos hon, min_eq_right hwide.le]
    · refine ⟨?_, rfl, rfl, iff_of_false hunmarked fun h => hlong h.2.2⟩
      show v.frame.width = shrunkWidth ui finished v
      rw [shrunkWidth, if_pos hon, min_eq_left (not_lt.mp hwide)]
  · next hoff =>
    rw [Bool.or_eq_true, not_or, Bool.not_eq_true, Bool.not_eq_true] at hoff
    obtain ⟨hfinished, hstatus⟩ := hoff
    have hnot : ¬ Overlong ui finished v := fun h => by rw [h.2.1] at hstatus; cases hstatus
    refine ⟨?_, rfl, rfl, iff_of_false (hmark hfinished hstatus) hnot⟩
    show v.frame.width = shrunkWidth ui finished v
    rw [shrunkWidth, hfinished, hstatus]
    rfl

theorem shrinkAll_spec (ui : Platform)
    (hmark : finished = false → ∀ v ∈ vs, v.status = false → v.fixFrame ≠ -1) (w : ℚ) :
    Forall₂ (Shrunk ui finished) vs (shrinkAll ui finished vs w).1 ∧
      (shrinkAll ui finished vs w).2 =
        Row.after (-kPatternCoverSpace) w (vs.map (shrunkWidth ui finished)) := by
  induction vs generalizing w with
  | nil => exact ⟨.nil, rfl⟩
  | cons v vs ih =>
    have hfirst := shrink_spec ui (fun h => hmark h v mem_cons_self) (w - kPatternCoverSpace)
    have ⟨hrest, hafter⟩ := @ih (fun h v hv => hmark h v (mem_cons_of_mem _ hv))
      (w + (shrink ui finished v (w - kPatternCoverSpace)).frame.width - kPatternCoverSpace)
    refine ⟨.cons hfirst hrest, ?_⟩
    rw [map_cons, Row.after, ← hfirst.width, ← sub_eq_add_neg]
    exact hafter

/-! ## The second pass -/

/-- What the marked slots lack. -/
def requests (ui : Platform) (vs : List AIMPatternPiece) : List ℚ :=
  (vs.filter (·.fixFrame = -1)).map fun v => neededWidth ui v - v.frame.width

/-- The mark of the first pass is on the over-long slots, which keep their width there. -/
theorem requests_eq_lacking (h : Forall₂ (Shrunk ui finished) slots vs) :
    requests ui vs = lacking ui finished slots := by
  induction h with
  | nil => rfl
  | @cons v v' slots vs hshrunk _ ih =>
    unfold requests lacking at ih ⊢
    by_cases hlong : Overlong ui finished v
    · have hmarked := hshrunk.long.mpr hlong
      rw [filter_cons_of_pos (by simpa using hmarked), filter_cons_of_pos (by simpa using hlong),
        map_cons, map_cons, ih, hshrunk.needed, hshrunk.width, shrunkWidth,
        if_pos (by rw [hlong.2.1, Bool.or_true]), min_eq_left hlong.2.2.le]
    · have hunmarked : v'.fixFrame ≠ -1 := fun h => hlong (hshrunk.long.mp h)
      rw [filter_cons_of_neg (by simpa using hunmarked), filter_cons_of_neg (by simpa using hlong),
        ih]

/-- What the second and the third pass leave alone. -/
structure KeepsUnmarked (v v' : AIMPatternPiece) : Prop where
  status : v'.status = v.status
  width : v.fixFrame ≠ -1 → v'.frame.width = v.frame.width
  mark : v.fixFrame ≠ -1 → v'.fixFrame ≠ -1

/-- The second pass on a slot: a marked slot is granted what it lacks, or what is left. -/
theorem grow_spec {w : AIMPatternPiece} {patternViewsWidth' : ℚ}
    (h : grow ui v x patternViewsWidth = (w, patternViewsWidth')) :
    KeepsUnmarked v w ∧ w.frame.x = x ∧
      (v.fixFrame ≠ -1 → patternViewsWidth' = patternViewsWidth) ∧
      (v.fixFrame = -1 →
        neededWidth ui v - v.frame.width ≤ kPatternListViewWidth - patternViewsWidth →
        w.frame.width = neededWidth ui v ∧
          patternViewsWidth' = patternViewsWidth + (neededWidth ui v - v.frame.width)) ∧
      (v.fixFrame = -1 →
        ¬ neededWidth ui v - v.frame.width ≤ kPatternListViewWidth - patternViewsWidth →
        w.frame.width = kPatternListViewWidth - patternViewsWidth + v.frame.width ∧
          patternViewsWidth' = patternViewsWidth) := by
  unfold grow at h
  dsimp only at h
  split_ifs at h with hmarked hfits <;> obtain ⟨rfl, rfl⟩ := Prod.mk.inj h
  · refine ⟨⟨rfl, fun h => absurd hmarked h, fun h => absurd hmarked h⟩, rfl,
      fun h => absurd hmarked h, fun _ _ => ⟨rfl, rfl⟩, fun _ h => ?_⟩
    exact absurd (by linarith) h
  · refine ⟨⟨rfl, fun h => absurd hmarked h, fun h => absurd hmarked h⟩, rfl,
      fun h => absurd hmarked h, fun _ h => ?_, fun _ _ => ⟨rfl, rfl⟩⟩
    exact absurd (by linarith) hfits
  · exact ⟨⟨rfl, fun _ => rfl, fun h => h⟩, rfl, fun _ => rfl, fun h => absurd h hmarked,
      fun h => absurd h hmarked⟩

theorem growAll_cons {w : AIMPatternPiece} {patternViewsWidth' : ℚ}
    (h : grow ui v x patternViewsWidth = (w, patternViewsWidth')) (vs : List AIMPatternPiece) :
    growAll ui (v :: vs) x patternViewsWidth =
      (w :: (growAll ui vs (x + w.frame.width + -kPatternCoverSpace) patternViewsWidth').1,
        (growAll ui vs (x + w.frame.width + -kPatternCoverSpace) patternViewsWidth').2) := by
  simp only [growAll, h, sub_eq_add_neg]

theorem requests_cons (ui : Platform) (v : AIMPatternPiece) (vs : List AIMPatternPiece) :
    requests ui (v :: vs) = if v.fixFrame = -1 then
      (neededWidth ui v - v.frame.width) :: requests ui vs else requests ui vs := by
  unfold requests
  rw [filter_cons]
  split <;> simp_all

/-- The second pass lays the slots from `x` on and grants the requests from the room. -/
theorem growAll_spec (ui : Platform) (vs : List AIMPatternPiece) (x patternViewsWidth : ℚ) :
    Forall₂ KeepsUnmarked vs (growAll ui vs x patternViewsWidth).1 ∧
      Row.Laid (-kPatternCoverSpace) x (places (growAll ui vs x patternViewsWidth).1) ∧
      (growAll ui vs x patternViewsWidth).2 =
        Row.after (-kPatternCoverSpace) x (widths (growAll ui vs x patternViewsWidth).1) ∧
      (widths (growAll ui vs x patternViewsWidth).1).sum = (widths vs).sum +
        (Allotment.grants (kPatternListViewWidth - patternViewsWidth) (requests ui vs)).sum := by
  induction vs generalizing x patternViewsWidth with
  | nil => exact ⟨.nil, trivial, rfl, by simp [growAll, widths, requests, Allotment.grants]⟩
  | cons v vs ih =>
    obtain ⟨⟨w, patternViewsWidth'⟩, hgrow⟩ : ∃ r, grow ui v x patternViewsWidth = r := ⟨_, rfl⟩
    obtain ⟨hkeeps, hx, hunmarked, hfits, hexceeds⟩ := grow_spec hgrow
    obtain ⟨hrest, hlaid, hafter, hsum⟩ :=
      ih (x + w.frame.width + -kPatternCoverSpace) patternViewsWidth'
    rw [growAll_cons hgrow]
    refine ⟨.cons hkeeps hrest, ⟨hx, hlaid⟩, hafter, ?_⟩
    show w.frame.width + (widths _).sum = v.frame.width + (widths vs).sum + _
    rw [hsum, requests_cons]
    by_cases hmark : v.fixFrame = -1
    · rw [if_pos hmark]
      by_cases hle : neededWidth ui v - v.frame.width ≤ kPatternListViewWidth - patternViewsWidth
      · obtain ⟨hwidth, hcharged⟩ := hfits hmark hle
        rw [Allotment.grants_cons_of_le hle, sum_cons, hwidth, hcharged, ← sub_sub]
        ring
      · obtain ⟨hwidth, hsame⟩ := hexceeds hmark hle
        rw [Allotment.grants_cons_of_not_le hle, sum_cons, hwidth, hsame]
        ring
    · rw [if_neg hmark, hkeeps.width hmark, hunmarked hmark]
      ring

/-! ## The third pass -/

/-- The third pass lays the slots from `x` on and gives every placed slot its share. -/
theorem spreadAll_spec (xWidth : ℚ) (vs : List AIMPatternPiece) (x : ℚ) :
    Forall₂ (fun v v' => v.status = false → v'.frame.width = v.frame.width) vs
        (spreadAll xWidth vs x) ∧
      Row.Laid (-kPatternCoverSpace) x (places (spreadAll xWidth vs x)) ∧
      (widths (spreadAll xWidth vs x)).sum =
        (widths vs).sum + vs.countP (·.status) * xWidth := by
  induction vs generalizing x with
  | nil => exact ⟨.nil, trivial, by simp [spreadAll, widths]⟩
  | cons v vs ih =>
    obtain ⟨hrest, hlaid, hsum⟩ := ih
      (x + (moved v x (if v.status then v.frame.width + xWidth else v.frame.width)).frame.width +
        -kPatternCoverSpace)
    rw [spreadAll, sub_eq_add_neg]
    refine ⟨.cons (fun hstatus => ?_) hrest, ⟨rfl, hlaid⟩, ?_⟩
    · show (if v.status then v.frame.width + xWidth else v.frame.width) = v.frame.width
      rw [hstatus]
      rfl
    · show (if v.status then v.frame.width + xWidth else v.frame.width) + (widths _).sum =
        v.frame.width + (widths vs).sum + _
      rw [hsum, countP_cons]
      cases v.status with
      | false => simp [add_assoc]
      | true =>
        rw [if_pos rfl, if_pos rfl, Nat.cast_add, Nat.cast_one]
        ring

/-! ## The three passes together -/

theorem widths_shrunk (h : Forall₂ (Shrunk ui finished) slots vs) :
    widths vs = slots.map (shrunkWidth ui finished) := by
  induction h with
  | nil => rfl
  | cons hshrunk _ ih => exact congrArg₂ List.cons hshrunk.width ih

theorem rowWidth_of_length (h : slots.length = vs.length) :
    rowWidth vs = rowWidth slots + ((widths vs).sum - (widths slots).sum) := by
  unfold rowWidth Row.span
  rw [widths, widths, length_map, length_map, h]
  ring

theorem countP_status (h : Forall₂ (fun v v' => v'.status = v.status) slots vs) :
    vs.countP (·.status) = slots.countP (·.status) := by
  induction h with
  | nil => rfl
  | cons hstatus _ ih => rw [countP_cons, countP_cons, ih, hstatus]

/-- The two passes leave an unplaced slot of an unfinished question as wide as it was. -/
theorem unplaced_width {v'' : AIMPatternPiece} (h : Shrunk ui finished v v')
    (h' : KeepsUnmarked v' v'') (hfinished : finished = false) (hstatus : v.status = false) :
    v''.status = false ∧ v''.frame.width = v.frame.width := by
  have hnot : ¬ Overlong ui finished v := fun hlong => by rw [hlong.2.1] at hstatus; cases hstatus
  refine ⟨h'.status.trans (h.status.trans hstatus), ?_⟩
  rw [h'.width fun hmark => hnot (h.long.mp hmark), h.width, shrunkWidth, hfinished, hstatus]
  rfl

theorem rowFilled_of_laid {slots' : List AIMPatternPiece}
    (hlaid : Row.Laid (-kPatternCoverSpace) (kPatternLeftMargin + 150) (places slots'))
    (htotal : rowWidth slots' = kPatternListViewWidth)
    (hkeeps : Forall₂ (fun v v' => finished = false → v.status = false →
      v'.frame.width = v.frame.width) slots slots') : RowFilled finished slots slots' := by
  obtain ⟨hfirst, hnext⟩ := Row.laid_iff.mp hlaid
  have hplace {i : Nat} {v : AIMPatternPiece} (h : slots'[i]? = some v) :
      (places slots')[i]? = some (v.frame.x, v.frame.width) := by
    rw [places, getElem?_map, h]
    rfl
  refine ⟨hkeeps.length_eq.symm, fun v hv => hfirst _ (hplace hv), fun i v w hv hw => ?_, htotal,
    fun hfinished i v v' hv hv' => ?_⟩
  · rw [sub_eq_add_neg]
    exact hnext i _ _ (hplace hv) (hplace hw)
  · obtain ⟨u, hu, hwidth⟩ := forall₂_getElem?_right hkeeps hv'
    obtain rfl := Option.some.inj (hu.symm.trans hv)
    exact hwidth hfinished

/-- The row after the second pass, against the row it may fill. -/
theorem rowWidth_grown {grown : List AIMPatternPiece} (hlength : grown.length = slots.length)
    (hsum : (widths grown).sum = (slots.map (shrunkWidth ui finished)).sum +
      (Allotment.grants (room ui finished slots) (lacking ui finished slots)).sum) :
    rowWidth grown = kPatternListViewWidth - kPatternLeftMargin -
      Allotment.left (room ui finished slots) (lacking ui finished slots) +
      Allotment.uncharged (room ui finished slots) (lacking ui finished slots) := by
  have hroom : room ui finished slots = kPatternListViewWidth - kPatternLeftMargin -
      Row.span (-kPatternCoverSpace) (slots.map (shrunkWidth ui finished)) := rfl
  rw [Allotment.sum_grants] at hsum
  unfold rowWidth
  unfold Row.span at hroom ⊢
  rw [length_map] at hroom
  rw [widths, length_map, hlength, ← widths, hsum]
  linarith

end ExpandPieceWidth

open ExpandPieceWidth in
/-- A call of `expandPieceWidth` fills the row if and only if the second pass stays within it. -/
theorem expandSlots_filled_iff {ui : Platform} {finished : Bool} {slots : List AIMPatternPiece}
    (hplaced : ∃ v ∈ slots, v.status = true)
    (hmark : finished = false → ∀ v ∈ slots, v.status = false → v.fixFrame ≠ -1) :
    RowFilled finished slots (expandSlots ui finished slots) ↔ StaysWithin ui finished slots := by
  obtain ⟨hshrunk, hafter⟩ := shrinkAll_spec ui hmark
    (kPatternLeftMargin + kPatternCoverSpace)
  obtain ⟨⟨shrunk, patternViewsWidth⟩, hshrink⟩ :
    ∃ r, shrinkAll ui finished slots (kPatternLeftMargin + kPatternCoverSpace) = r := ⟨_, rfl⟩
  rw [hshrink] at hshrunk hafter
  obtain ⟨hgrown, hlaid, hsumWidth, hsum⟩ :=
    growAll_spec ui shrunk kPatternLeftMargin patternViewsWidth
  obtain ⟨⟨grown, sumWidth⟩, hgrow⟩ :
    ∃ r, growAll ui shrunk kPatternLeftMargin patternViewsWidth = r := ⟨_, rfl⟩
  rw [hgrow] at hgrown hlaid hsumWidth hsum
  dsimp only at hshrunk hafter hgrown hlaid hsumWidth hsum
  -- the budget of the second pass is the room the shrunk row leaves
  have hbudget : kPatternListViewWidth - patternViewsWidth = room ui finished slots := by
    rw [hafter, Row.after_eq_span, room]
    ring
  rw [hbudget, requests_eq_lacking hshrunk, widths_shrunk hshrunk] at hsum
  have hwidth := rowWidth_grown (hgrown.length_eq.symm.trans hshrunk.length_eq.symm) hsum
  have htotal : sumWidth + kPatternCoverSpace - kPatternLeftMargin = rowWidth grown := by
    rw [hsumWidth, Row.after_eq_span, rowWidth]
    ring
  have hwithin : rowWidth grown < kPatternListViewWidth ↔ StaysWithin ui finished slots := by
    rw [hwidth, StaysWithin]
    constructor <;> intro h <;> linarith
  have hcall : expandSlots ui finished slots =
      if rowWidth grown < kPatternListViewWidth then
        spreadAll ((kPatternListViewWidth - rowWidth grown) / slots.countP (·.status)) grown
          (kPatternLeftMargin + 150)
      else grown := by
    simp only [expandSlots, hshrink, hgrow, htotal]
  rw [hcall, ← hwithin]
  split
  · next hlt =>
    refine iff_of_true ?_ hlt
    have hstatus : Forall₂ (fun v v' => v'.status = v.status) slots grown := by
      refine (forall₂_trans hshrunk hgrown).imp fun v v' hboth => ?_
      obtain ⟨w, h, h'⟩ := hboth
      exact h'.status.trans h.status
    have hcount : (slots.countP (·.status) : ℚ) ≠ 0 := by
      rw [Nat.cast_ne_zero, ← Nat.pos_iff_ne_zero, countP_pos_iff]
      exact hplaced
    obtain ⟨hkeeps, hspread, hspreadSum⟩ := spreadAll_spec
      ((kPatternListViewWidth - rowWidth grown) / slots.countP (·.status)) grown
      (kPatternLeftMargin + 150)
    refine rowFilled_of_laid hspread ?_ ?_
    · rw [rowWidth_of_length hkeeps.length_eq, hspreadSum, countP_status hstatus,
        mul_div_cancel₀ _ hcount]
      ring
    · refine (forall₂_trans (forall₂_trans hshrunk hgrown) hkeeps).imp ?_
      rintro v v' ⟨w, ⟨u, hu, hw⟩, hv'⟩ hfinished hunplaced
      obtain ⟨hkept, hsame⟩ := unplaced_width hu hw hfinished hunplaced
      rw [hv' hkept, hsame]
  · next hnot =>
    refine iff_of_false (fun hfilled => ?_) hnot
    -- the third pass is left out, so the row still starts at the margin
    have hpos : 0 < grown.length := by
      rw [← hgrown.length_eq, ← hshrunk.length_eq]
      obtain ⟨v, hv, _⟩ := hplaced
      exact length_pos_of_mem hv
    have hfirst := hfilled.first _ (List.getElem?_eq_getElem hpos)
    have hleft : grown[0].frame.x = kPatternLeftMargin :=
      (Row.laid_iff.mp hlaid).1 (grown[0].frame.x, grown[0].frame.width) (by
        rw [places, getElem?_map, List.getElem?_eq_getElem hpos]
        rfl)
    linarith

/-! ## Calls -/

/-- Every call of `expandPieceWidth` after the first, with at least one slot placed, fills the row
if and only if the second pass stays within it. Before the call a mark stands on placed slots only,
which is so in every run (`unplaced_unmarked`). -/
theorem expandPieceWidth_fills_row (ui : Platform) {v : AIMQuestionContentView}
    (hcalled : v.deflowered = true) (hplaced : ∃ slot ∈ v.listPatternPieceView, slot.status = true)
    (hmark : ∀ slot ∈ v.listPatternPieceView, slot.status = false → slot.fixFrame ≠ -1) :
    RowFilled v.checkFinish v.listPatternPieceView (v.expandPieceWidth ui).listPatternPieceView ↔
      ExpandPieceWidth.StaysWithin ui v.checkFinish v.listPatternPieceView := by
  unfold AIMQuestionContentView.expandPieceWidth
  rw [if_pos hcalled]
  exact expandSlots_filled_iff hplaced fun _ => hmark

/-- Piece `i`, whose middle is at `start`, is dropped where its slot stands at first, with all that
follows. -/
def dropAndWiden (i : Nat) (start : CGPoint) : List Event :=
  QuestionRun.drag i start (QuestionRun.onSlot i) ++
    .dropCompletion 0 :: replicate 5 (.animationCompletion 0)

/-- The state of `sampleQuestion` after two drops, where the next call fills the row again. -/
theorem expandPieceWidth_fills_row_two_placed :
    ∃ v s, AIMQuestionContentView.setData .ascii QuestionRun.sampleQuestion (fun _ => 0) = .ok v ∧
      Reaches (QuestionRun.step .ascii) QuestionRun.Enabled (QuestionRun.start v) s ∧
      s.view.deflowered = true ∧ s.view.checkFinish = false ∧
      RowFilled false s.view.listPatternPieceView
        (s.view.expandPieceWidth .ascii).listPatternPieceView := by
  have hrun : (QuestionRun.playQuestion .ascii QuestionRun.Enabled QuestionRun.sampleQuestion
      (fun _ => 0) (dropAndWiden 0 (QuestionRun.inList 0) ++
        dropAndWiden 1 (QuestionRun.inList 0))).any
      (fun s => s.view.deflowered && !s.view.checkFinish &&
        s.view.listPatternPieceView.any (·.status) &&
        s.view.listPatternPieceView.all (fun slot => decide (slot.fixFrame ≠ -1)) &&
        decide (ExpandPieceWidth.StaysWithin .ascii false s.view.listPatternPieceView)) = true := by
    decide +kernel
  obtain ⟨v, s, hv, hreach, hend⟩ := QuestionRun.exists_run_of_playQuestion hrun
  simp only [Bool.and_eq_true, Bool.not_eq_true', decide_eq_true_eq, any_eq_true, all_eq_true]
    at hend
  obtain ⟨⟨⟨⟨hcalled, hfinish⟩, hplaced⟩, hmark⟩, hwithin⟩ := hend
  have hfilled := (expandPieceWidth_fills_row .ascii hcalled hplaced
    fun slot hslot _ => hmark slot hslot).mpr (by rw [hfinish]; exact hwithin)
  rw [hfinish] at hfilled
  exact ⟨v, s, hv, hreach, hcalled, hfinish, hfilled⟩

/-- A question whose pieces for the second and the fourth slot are long. -/
def longQuestion : AIMQuestion where
  index := "1"
  content := "僕は今図書館で面白い本を読む"
  pattern := some ⟨"3", ["だれが", "です", "だれ・なに", "どこ", "いつ"].map AIMPiece.mk⟩
  hints := ["僕は", "面白い本を", "で", "図書館", "今"].map AIMPiece.mk
  answers := ["I", "an interesting book", "at", "the old public library", "now"].map AIMPiece.mk

/-- The two long pieces are placed; the second one has moved to the left by then. -/
def placeLong : List Event :=
  dropAndWiden 1 ⟨389, 547⟩ ++ dropAndWiden 3 ⟨612, 547⟩

/-- With both long pieces on their slots, each of them is granted the room that the drop on the
first slot makes, and the row is too wide. -/
theorem expandPieceWidth_overfills_row :
    ∃ v s, AIMQuestionContentView.setData .ascii longQuestion (fun _ => 0) = .ok v ∧
      Reaches (QuestionRun.step .ascii) QuestionRun.Enabled (QuestionRun.start v) s ∧
      s.view.deflowered = true ∧ (∃ slot ∈ s.view.listPatternPieceView, slot.status = true) ∧
      (∀ slot ∈ s.view.listPatternPieceView, 0 < slot.frame.width) ∧
      rowWidth s.view.listPatternPieceView ≤ kPatternListViewWidth ∧
      rowWidth (s.view.expandPieceWidth .ascii).listPatternPieceView = 813 ∧
      ¬ RowFilled s.view.checkFinish s.view.listPatternPieceView
        (s.view.expandPieceWidth .ascii).listPatternPieceView := by
  have hrun : (QuestionRun.playQuestion .ascii QuestionRun.Enabled longQuestion (fun _ => 0)
      (placeLong ++ (dropAndWiden 0 (QuestionRun.inList 0)).take 7)).any
      (fun s => s.view.deflowered && s.view.listPatternPieceView.any (·.status) &&
        s.view.listPatternPieceView.all (fun slot => decide (0 < slot.frame.width)) &&
        decide (rowWidth s.view.listPatternPieceView ≤ kPatternListViewWidth) &&
        decide (rowWidth (s.view.expandPieceWidth .ascii).listPatternPieceView = 813)) = true := by
    decide +kernel
  obtain ⟨v, s, hv, hreach, hend⟩ := QuestionRun.exists_run_of_playQuestion hrun
  simp only [Bool.and_eq_true, decide_eq_true_eq, any_eq_true, all_eq_true] at hend
  obtain ⟨⟨⟨⟨hcalled, hplaced⟩, hpositive⟩, hbefore⟩, hafter⟩ := hend
  refine ⟨v, s, hv, hreach, hcalled, hplaced, hpositive, hbefore, hafter, fun hfilled => ?_⟩
  have htotal := hfilled.total
  rw [hafter] at htotal
  norm_num [kPatternListViewWidth] at htotal

/-! ## The marks in a run -/

/-- Only a placed slot is marked. -/
def UnplacedUnmarked (slot : AIMPatternPiece) : Prop :=
  slot.status = false → slot.fixFrame ≠ -1

/-- An update that neither takes a piece from the slot nor marks it. -/
structure SameMark (v v' : AIMPatternPiece) : Prop where
  status : v'.status = false → v.status = false
  fixFrame : v'.fixFrame = v.fixFrame

theorem SameMark.refl (v : AIMPatternPiece) : SameMark v v := ⟨id, rfl⟩

theorem sameMark_refl (slots : List AIMPatternPiece) : Forall₂ SameMark slots slots :=
  forall₂_same.mpr fun v _ => .refl v

theorem unmarked_of_sameMark {slots slots' : List AIMPatternPiece}
    (h : ∀ v ∈ slots, UnplacedUnmarked v) (hsame : Forall₂ SameMark slots slots') :
    ∀ v ∈ slots', UnplacedUnmarked v := by
  intro v' hv' hstatus
  obtain ⟨i, hi⟩ := mem_iff_getElem?.mp hv'
  have ⟨v, hv, hmark⟩ := forall₂_getElem?_right hsame hi
  rw [hmark.fixFrame]
  exact h v (mem_of_getElem? hv) (hmark.status hstatus)

open ExpandPieceWidth in
theorem sameMark_spreadAll (xWidth : ℚ) (vs : List AIMPatternPiece) (x : ℚ) :
    Forall₂ SameMark vs (spreadAll xWidth vs x) := by
  induction vs generalizing x with
  | nil => exact .nil
  | cons v vs ih => exact .cons ⟨id, rfl⟩ (ih _)

open ExpandPieceWidth in
/-- The first pass marks placed slots only, and the later passes mark none. -/
theorem unmarked_expandSlots {ui : Platform} {finished : Bool} {slots : List AIMPatternPiece}
    (h : ∀ v ∈ slots, UnplacedUnmarked v) :
    ∀ v ∈ expandSlots ui finished slots, UnplacedUnmarked v := by
  have ⟨hshrunk, _⟩ := shrinkAll_spec ui (fun (_ : finished = false) => h)
    (kPatternLeftMargin + kPatternCoverSpace)
  unfold expandSlots
  dsimp only
  have hgrown : ∀ v ∈ (growAll ui
      (shrinkAll ui finished slots (kPatternLeftMargin + kPatternCoverSpace)).1 kPatternLeftMargin
      (shrinkAll ui finished slots (kPatternLeftMargin + kPatternCoverSpace)).2).1,
      UnplacedUnmarked v := by
    intro w hw hstatus
    obtain ⟨i, hi⟩ := mem_iff_getElem?.mp hw
    have ⟨u, hu, hkeeps⟩ := forall₂_getElem?_right (growAll_spec ui _ _ _).1 hi
    have ⟨v, _, hv⟩ := forall₂_getElem?_right hshrunk hu
    refine hkeeps.mark fun hmarked => ?_
    rw [hkeeps.status, hv.status, (hv.long.mp hmarked).2.1] at hstatus
    cases hstatus
  split_ifs
  · exact unmarked_of_sameMark hgrown (sameMark_spreadAll _ _ _)
  · exact hgrown

theorem sameMark_showTextPattern (v : AIMQuestionContentView) :
    Forall₂ SameMark v.listPatternPieceView v.showTextPattern.listPatternPieceView := by
  unfold AIMQuestionContentView.showTextPattern
  split_ifs
  · exact forall₂_self_map fun _ _ => ⟨id, rfl⟩
  · exact forall₂_self_map fun _ _ => ⟨id, rfl⟩
  · exact sameMark_refl _

theorem sameMark_shownSlots (finished : Bool) (slots : List AIMPatternPiece) :
    Forall₂ SameMark slots (shownSlots finished slots) := by
  unfold shownSlots
  split_ifs
  · exact forall₂_self_map fun _ _ => ⟨id, rfl⟩
  · exact sameMark_refl _

namespace QuestionRun

variable {ui : Platform} {s s' : QuestionRun} {e : Event}

theorem unmarked_step (hs : ∀ v ∈ s.view.listPatternPieceView, UnplacedUnmarked v)
    (he : s.Enabled e) (h : s.step ui e = .ok s') :
    ∀ v ∈ s'.view.listPatternPieceView, UnplacedUnmarked v := by
  cases step_display he h with
  | same same _ => rwa [same.slots]
  | matched same _ =>
    rw [same.slots]
    -- the slot of the drop counts as placed from now on
    exact unmarked_of_sameMark hs (forall₂_self_modify .refl
      fun _ _ => ⟨fun h => (by cases h), rfl⟩)
  | @tapped i v _ hv =>
    have ⟨tapped, _, hslots, _⟩ := AIMQuestionContentView.hintCase2_slots hv
    refine unmarked_of_sameMark hs ?_
    show Forall₂ _ _ v.listPatternPieceView
    rw [hslots]
    refine forall₂_self_mapIdx fun j slot _ => ?_
    unfold AIMQuestionContentView.tapSlot AIMPatternPiece.deselect
    dsimp only
    split_ifs <;> exact ⟨id, rfl⟩
  | hintPressed =>
    refine unmarked_of_sameMark hs ?_
    unfold AIMQuestionContentView.btnShowHint
    split_ifs
    · exact sameMark_refl _
    · exact forall₂_self_map fun _ _ => ⟨id, rfl⟩
  | hintReleased => exact unmarked_of_sameMark hs (sameMark_showTextPattern _)
  | englishPressed =>
    unfold AIMQuestionContentView.btnShowEnglishHint
    split_ifs <;> exact hs
  | englishReleased =>
    unfold AIMQuestionContentView.showEnglishTextPattern
    split_ifs <;> exact hs
  | resigned same _ =>
    rw [same.slots]
    exact unmarked_of_sameMark hs (sameMark_showTextPattern
      { s.view with listPieceView := s.view.listPieceView.showHint false })
  | @placed i k p piece list _ _ _ _ same _ =>
    rw [same.slots]
    have hfixed := unmarked_of_sameMark hs (forall₂_self_modify .refl
      fun v (_ : s.view.listPatternPieceView[k]? = some v) =>
        (⟨id, rfl⟩ : SameMark v (v.fixed piece.content)))
    exact unmarked_of_sameMark hfixed (sameMark_shownSlots _ _)
  | widened same _ =>
    rw [same.slots]
    exact unmarked_expandSlots hs
  | cleared _ same _ =>
    rw [same.slots]
    exact unmarked_of_sameMark hs (forall₂_self_map fun _ _ => ⟨id, rfl⟩)

/-- In every state of a run only placed slots are marked. -/
theorem unplaced_unmarked {question : AIMQuestion} {pattern : AIMPattern} {data : PatternUIData}
    {list : AIMListPieceView} {slots : List AIMPatternPiece}
    (hslots : AIMQuestionContentView.initPatterView question pattern data = .ok slots)
    (h : Reaches (step ui) Enabled
      (QuestionRun.start (AIMQuestionContentView.fresh question pattern data list slots)) s) :
    ∀ v ∈ s.view.listPatternPieceView, UnplacedUnmarked v := by
  refine h.inv (fun s => ∀ v ∈ s.view.listPatternPieceView, UnplacedUnmarked v) ?_
    fun s e s' hs he hstep => unmarked_step hs he hstep
  intro v hv _
  obtain ⟨i, hi⟩ := mem_iff_getElem?.mp hv
  have ⟨type, _, hmade⟩ := makeSlots_getElem? hslots hi
  obtain ⟨_, label, hint, _, _, rfl⟩ := makeSlot_ok.mp hmade
  show (0 : Int) ≠ -1
  decide

end QuestionRun

end Imijun
