import Imijun.ExpandWidth
import Imijun.Placement

/-!
# The row of the slots along a run

The slots stand as `initPatterView` has placed them until `expandPieceWidth` runs for the second
time. From then on every call leaves them in one row.

* `expandSlots_row`: what a call leaves, whatever the slots are.
* `slot_row_of_run`: in every state of a run the slots stand as made or in one row that takes up the
  width of the view, none has left its line, and the unplaced ones of an unfinished question are as
  wide as they were made.
-/

namespace Imijun

open Transition Fallible List Pointwise

/-! ## One call -/

/-- Slot `v'` is slot `v`, apart from its place in the row: it has not left its line, has lost no
piece, and without a piece in an unfinished question it is as wide. -/
structure KeptFrom (finished : Bool) (v v' : AIMPatternPiece) : Prop where
  line : v'.frame.y = v.frame.y ∧ v'.frame.height = v.frame.height
  status : v'.status = false → v.status = false
  width : finished = false → v'.status = false → v'.frame.width = v.frame.width

namespace KeptFrom

variable {finished finished' : Bool} {v v' v'' : AIMPatternPiece}

theorem trans (h : KeptFrom finished v v') (h' : KeptFrom finished v' v'') :
    KeptFrom finished v v'' where
  line := ⟨h'.line.1.trans h.line.1, h'.line.2.trans h.line.2⟩
  status hstatus := h.status (h'.status hstatus)
  width hfinished hstatus :=
    (h'.width hfinished hstatus).trans (h.width hfinished (h'.status hstatus))

theorem mono (h : KeptFrom finished v v') (hfinished : finished' = false → finished = false) :
    KeptFrom finished' v v' :=
  ⟨h.line, h.status, fun hoff => h.width (hfinished hoff)⟩

end KeptFrom

theorem keptFrom_trans {finished : Bool} {xs ys zs : List AIMPatternPiece}
    (h : Forall₂ (KeptFrom finished) xs ys) (h' : Forall₂ (KeptFrom finished) ys zs) :
    Forall₂ (KeptFrom finished) xs zs :=
  (forall₂_trans h h').imp fun _ _ ⟨_, hxy, hyz⟩ => hxy.trans hyz

namespace ExpandPieceWidth

variable {ui : Platform} {finished : Bool} {v : AIMPatternPiece} {vs : List AIMPatternPiece}

theorem keptFrom_shrink (ui : Platform) (finished : Bool) (v : AIMPatternPiece) (x : ℚ) :
    KeptFrom finished v (shrink ui finished v x) := by
  unfold shrink
  split
  · next hon =>
    have hplaced : finished = false → v.status = false → False := fun hoff hstatus => by
      rw [hoff, hstatus] at hon
      cases hon
    dsimp only
    split_ifs
    · exact ⟨⟨rfl, rfl⟩, id, fun _ _ => rfl⟩
    · exact ⟨⟨rfl, rfl⟩, id, fun _ _ => rfl⟩
    · exact ⟨⟨rfl, rfl⟩, id, fun hoff hstatus => (hplaced hoff hstatus).elim⟩
    · exact ⟨⟨rfl, rfl⟩, id, fun _ _ => rfl⟩
  · exact ⟨⟨rfl, rfl⟩, id, fun _ _ => rfl⟩

/-- The first pass marks a placed slot, and in an unfinished question only. -/
theorem unmarked_shrink (hv : UnplacedUnmarked v) (x : ℚ) :
    UnplacedUnmarked (shrink ui finished v x) := by
  have hspec := shrink_spec ui (fun (_ : finished = false) => hv) x
  intro hstatus hmarked
  rw [hspec.status, (hspec.long.mp hmarked).2.1] at hstatus
  cases hstatus

theorem keptFrom_grow (hv : UnplacedUnmarked v) (x w : ℚ) :
    KeptFrom finished v (grow ui v x w).1 := by
  unfold grow
  dsimp only
  split_ifs with hmarked
  · exact ⟨⟨rfl, rfl⟩, id, fun _ hstatus => absurd hmarked (hv hstatus)⟩
  · exact ⟨⟨rfl, rfl⟩, id, fun _ hstatus => absurd hmarked (hv hstatus)⟩
  · exact ⟨⟨rfl, rfl⟩, id, fun _ _ => rfl⟩

theorem keptFrom_shrinkAll (ui : Platform) (finished : Bool) (vs : List AIMPatternPiece) (w : ℚ) :
    Forall₂ (KeptFrom finished) vs (shrinkAll ui finished vs w).1 := by
  induction vs generalizing w with
  | nil => exact .nil
  | cons v vs ih => exact .cons (keptFrom_shrink ui finished v _) (ih _)

theorem unmarked_shrinkAll (h : ∀ v ∈ vs, UnplacedUnmarked v) (w : ℚ) :
    ∀ v ∈ (shrinkAll ui finished vs w).1, UnplacedUnmarked v := by
  induction vs generalizing w with
  | nil => exact h
  | cons v vs ih =>
    obtain ⟨hfirst, hrest⟩ := forall_mem_cons.mp h
    exact forall_mem_cons.mpr ⟨unmarked_shrink hfirst _, ih hrest _⟩

theorem keptFrom_growAll (h : ∀ v ∈ vs, UnplacedUnmarked v) (x w : ℚ) :
    Forall₂ (KeptFrom finished) vs (growAll ui vs x w).1 := by
  induction vs generalizing x w with
  | nil => exact .nil
  | cons v vs ih =>
    obtain ⟨hfirst, hrest⟩ := forall_mem_cons.mp h
    exact .cons (keptFrom_grow hfirst x w) (ih hrest _ _)

theorem keptFrom_spreadAll (xWidth : ℚ) (vs : List AIMPatternPiece) (x : ℚ) :
    Forall₂ (KeptFrom finished) vs (spreadAll xWidth vs x) := by
  induction vs generalizing x with
  | nil => exact .nil
  | cons v vs ih =>
    refine .cons ⟨⟨rfl, rfl⟩, id, fun _ hstatus => ?_⟩ (ih _)
    have hstatus : v.status = false := hstatus
    show (if v.status then v.frame.width + xWidth else v.frame.width) = v.frame.width
    rw [hstatus]
    rfl

end ExpandPieceWidth

open ExpandPieceWidth

variable {ui : Platform} {finished : Bool} {slots : List AIMPatternPiece}

/-- The slots after the first two passes: they stand in a row from the margin on, and the third pass
runs when this row is not wide enough. -/
theorem expandSlots_eq (ui : Platform) (finished : Bool) (h : ∀ v ∈ slots, UnplacedUnmarked v) :
    ∃ grown, Forall₂ (KeptFrom finished) slots grown ∧
      grown.countP (·.status) = slots.countP (·.status) ∧
      Row.Laid (-kPatternCoverSpace) kPatternLeftMargin (places grown) ∧
      expandSlots ui finished slots =
        if rowWidth grown < kPatternListViewWidth then
          spreadAll ((kPatternListViewWidth - rowWidth grown) / slots.countP (·.status)) grown
            (kPatternLeftMargin + 150)
        else grown := by
  obtain ⟨⟨shrunk, patternViewsWidth⟩, hshrink⟩ :
    ∃ r, shrinkAll ui finished slots (kPatternLeftMargin + kPatternCoverSpace) = r := ⟨_, rfl⟩
  obtain ⟨⟨grown, sumWidth⟩, hgrow⟩ :
    ∃ r, growAll ui shrunk kPatternLeftMargin patternViewsWidth = r := ⟨_, rfl⟩
  have hkept := keptFrom_shrinkAll ui finished slots (kPatternLeftMargin + kPatternCoverSpace)
  have hunmarked := @unmarked_shrinkAll ui finished slots h
    (kPatternLeftMargin + kPatternCoverSpace)
  have hwidened := widened_shrinkAll ui finished slots (kPatternLeftMargin + kPatternCoverSpace)
  rw [hshrink] at hkept hunmarked hwidened
  have hkept' := @keptFrom_growAll ui finished shrunk hunmarked kPatternLeftMargin
    patternViewsWidth
  have hwidened' := widened_growAll ui shrunk kPatternLeftMargin patternViewsWidth
  obtain ⟨-, hlaid, hsumWidth, -⟩ := growAll_spec ui shrunk kPatternLeftMargin patternViewsWidth
  rw [hgrow] at hkept' hwidened' hlaid hsumWidth
  dsimp only at hkept hwidened hkept' hwidened' hlaid hsumWidth
  have htotal : sumWidth + kPatternCoverSpace - kPatternLeftMargin = rowWidth grown := by
    rw [hsumWidth, Row.after_eq_span, rowWidth]
    ring
  refine ⟨grown, keptFrom_trans hkept hkept', ?_, hlaid, ?_⟩
  · refine countP_status ((widened_trans hwidened hwidened').imp fun v v' h => ?_)
    unfold Widened at h
    rw [h]
  · simp only [expandSlots, hshrink, hgrow, htotal]

/-- The slots stand in one row, which starts 150 points past the margin and is as wide as the view,
or starts at the margin and is at least as wide. -/
def InOneRow (slots : List AIMPatternPiece) : Prop :=
  (Row.Laid (-kPatternCoverSpace) (kPatternLeftMargin + 150) (places slots) ∧
      rowWidth slots = kPatternListViewWidth) ∨
    (Row.Laid (-kPatternCoverSpace) kPatternLeftMargin (places slots) ∧
      kPatternListViewWidth ≤ rowWidth slots)

/-- With a placed slot a call leaves all slots in one row. -/
theorem expandSlots_row (h : ∀ v ∈ slots, UnplacedUnmarked v)
    (hplaced : ∃ v ∈ slots, v.status = true) : InOneRow (expandSlots ui finished slots) := by
  obtain ⟨grown, -, hstatus, hlaid, hcall⟩ := expandSlots_eq ui finished h
  rw [hcall]
  split
  · have hcount : (slots.countP (·.status) : ℚ) ≠ 0 := by
      rw [Nat.cast_ne_zero, ← Nat.pos_iff_ne_zero, countP_pos_iff]
      exact hplaced
    obtain ⟨hkeeps, hspread, hsum⟩ := spreadAll_spec
      ((kPatternListViewWidth - rowWidth grown) / slots.countP (·.status)) grown
      (kPatternLeftMargin + 150)
    refine .inl ⟨hspread, ?_⟩
    rw [rowWidth_of_length hkeeps.length_eq, hsum, hstatus, mul_div_cancel₀ _ hcount]
    ring
  · next hnot => exact .inr ⟨hlaid, not_lt.mp hnot⟩

theorem expandSlots_kept (ui : Platform) (finished : Bool)
    (h : ∀ v ∈ slots, UnplacedUnmarked v) :
    Forall₂ (KeptFrom finished) slots (expandSlots ui finished slots) := by
  obtain ⟨grown, hkept, -, -, hcall⟩ := expandSlots_eq ui finished h
  rw [hcall]
  split
  · exact keptFrom_trans hkept (keptFrom_spreadAll _ _ _)
  · exact hkept

/-! ## One step -/

/-- The slot stands where it stood, and has lost no piece. -/
structure SameFrame (v v' : AIMPatternPiece) : Prop where
  frame : v'.frame = v.frame
  status : v'.status = false → v.status = false

theorem sameFrame_refl (slots : List AIMPatternPiece) : Forall₂ SameFrame slots slots :=
  forall₂_same.mpr fun _ _ => ⟨rfl, id⟩

theorem sameFrame_shownSlots (finished : Bool) (slots : List AIMPatternPiece) :
    Forall₂ SameFrame slots (shownSlots finished slots) := by
  unfold shownSlots
  split
  · exact forall₂_self_map fun _ _ => ⟨rfl, id⟩
  · exact sameFrame_refl slots

theorem sameFrame_showTextPattern (v : AIMQuestionContentView) :
    Forall₂ SameFrame v.listPatternPieceView v.showTextPattern.listPatternPieceView := by
  unfold AIMQuestionContentView.showTextPattern
  split
  · refine forall₂_self_map fun slot _ => ?_
    split <;> exact ⟨rfl, id⟩
  · exact sameFrame_refl _

theorem sameFrame_tapSlot (i : Nat) (tapped : AIMPatternPiece) (j : Nat) (v : AIMPatternPiece) :
    SameFrame v (AIMQuestionContentView.tapSlot i tapped j v) := by
  unfold AIMQuestionContentView.tapSlot AIMPatternPiece.deselect
  dsimp only
  split_ifs <;> exact ⟨rfl, id⟩

theorem rowWidth_congr {slots' : List AIMPatternPiece}
    (hframes : slots'.map (·.frame) = slots.map (·.frame)) : rowWidth slots' = rowWidth slots := by
  have hwidths := congrArg (List.map CGRect.width) hframes
  rw [map_map, map_map] at hwidths
  exact congrArg (Row.span (-kPatternCoverSpace)) hwidths

/-- Slots with the same frames stand in the same row. -/
theorem InOneRow.congr {slots' : List AIMPatternPiece} (h : InOneRow slots)
    (hframes : slots'.map (·.frame) = slots.map (·.frame)) : InOneRow slots' := by
  have hplaces := congrArg (List.map fun r : CGRect => (r.x, r.width)) hframes
  rw [map_map, map_map] at hplaces
  have hplaces : places slots' = places slots := hplaces
  unfold InOneRow
  rw [hplaces, rowWidth_congr hframes]
  exact h

namespace QuestionRun

variable {s s' : QuestionRun} {e : Event}

/-- What an event does to the places of the slots. -/
inductive SlotStep (ui : Platform) (s : QuestionRun) : Event → QuestionRun → Prop
  | kept {e : Event} {s' : QuestionRun}
      (slots : Forall₂ SameFrame s.view.listPatternPieceView s'.view.listPatternPieceView) :
      SlotStep ui s e s'
  | widened {i : Nat} {s' : QuestionRun}
      (slots : s'.view.listPatternPieceView =
        expandSlots ui s.view.checkFinish s.view.listPatternPieceView)
      (finished : s'.view.checkFinish = s.view.checkFinish) :
      SlotStep ui s (.animationCompletion i) s'

/-- Only the end of a blur moves the slots. -/
theorem step_slots (he : s.Enabled e) (h : s.step ui e = .ok s') : SlotStep ui s e s' := by
  cases step_display he h with
  | same same _ _ => exact .kept (same.slots ▸ sameFrame_refl _)
  | matched same _ =>
    refine .kept (same.slots ▸ ?_)
    exact forall₂_self_modify (fun _ => ⟨rfl, id⟩) fun _ _ => ⟨rfl, nofun⟩
  | tapped _ hv =>
    obtain ⟨tapped, -, hslots, -⟩ := AIMQuestionContentView.hintCase2_slots hv
    refine .kept ?_
    show Forall₂ SameFrame _ (AIMQuestionContentView.listPatternPieceView _)
    rw [hslots]
    exact forall₂_self_mapIdx fun j v _ => sameFrame_tapSlot _ tapped j v
  | hintPressed =>
    refine .kept ?_
    show Forall₂ SameFrame _ s.view.btnShowHint.listPatternPieceView
    unfold AIMQuestionContentView.btnShowHint
    split
    · exact sameFrame_refl _
    · exact forall₂_self_map fun _ _ => ⟨rfl, id⟩
  | hintReleased => exact .kept (sameFrame_showTextPattern s.view)
  | englishPressed =>
    refine .kept ?_
    show Forall₂ SameFrame _ s.view.btnShowEnglishHint.listPatternPieceView
    unfold AIMQuestionContentView.btnShowEnglishHint
    split <;> exact sameFrame_refl _
  | englishReleased =>
    refine .kept ?_
    show Forall₂ SameFrame _ s.view.showEnglishTextPattern.listPatternPieceView
    unfold AIMQuestionContentView.showEnglishTextPattern
    split <;> exact sameFrame_refl _
  | resigned same _ =>
    exact .kept (same.slots ▸ sameFrame_showTextPattern
      { s.view with listPieceView := s.view.listPieceView.showHint false })
  | @placed i k p piece list _ _ _ _ same _ =>
    refine .kept (same.slots ▸ ?_)
    have hfixed : Forall₂ SameFrame s.view.listPatternPieceView
        (s.view.listPatternPieceView.modify k (·.fixed piece.content)) :=
      forall₂_self_modify (fun _ => ⟨rfl, id⟩) fun _ _ => ⟨rfl, id⟩
    refine (forall₂_trans hfixed (sameFrame_shownSlots _ _)).imp ?_
    rintro v v' ⟨w, hw, hv'⟩
    exact ⟨hv'.frame.trans hw.frame, fun h => hw.status (hv'.status h)⟩
  | widened same _ =>
    exact .widened same.slots same.checkFinish
  | cleared _ same _ =>
    exact .kept (same.slots ▸ forall₂_self_map fun _ _ => ⟨rfl, id⟩)

/-- A drop that is accepted sets a status, and only such a drop leads to an animation. -/
def PlacedSome (s : QuestionRun) : Prop :=
  (∃ k p, .accepted k p ∈ s.drops) ∨ s.animations ≠ [] →
    ∃ k, StatusAt s.view.listPatternPieceView k

theorem placedSome_step (hs : s.PlacedSome) (he : s.Enabled e) (h : s.step ui e = .ok s') :
    s'.PlacedSome := by
  have hkept (hother : e ≠ .touchEnded)
      (hpending : (∃ k p, .accepted k p ∈ s'.drops) ∨ s'.animations ≠ [] →
        (∃ k p, .accepted k p ∈ s.drops) ∨ s.animations ≠ []) : s'.PlacedSome := fun h' =>
    (hs (hpending h')).imp fun _ hk => (statusAt_step he hother h).mpr hk
  cases step_outcome he h with
  | quiet hquiet _ _ =>
    refine hkept ?_ id
    rintro rfl
    cases hquiet
  | began _ => exact hkept (by simp) id
  | accepted _ hslot _ _ => exact fun _ => ⟨_, (statusAt_setStatus hslot).mpr (.inl rfl)⟩
  | wrong _ _ _ _ _ =>
    intro h'
    refine hs (h'.imp_left ?_)
    rintro ⟨k, p, hmem⟩
    rcases mem_append.mp hmem with hmem | hmem
    · exact ⟨k, p, hmem⟩
    · cases mem_singleton.mp hmem
  | cancelled => exact hkept (by simp) id
  | resignedIdle _ _ _ => exact hkept (by simp) id
  | resigned _ _ _ _ _ => exact hkept (by simp) id
  | acceptedDone hi _ => exact hkept (by simp) fun _ => .inl ⟨_, _, mem_of_getElem? hi⟩
  | returnedDone _ =>
    refine hkept (by simp) fun h' => h'.imp (fun hmem => ?_) fun hne => ?_
    · obtain ⟨k, p, hmem⟩ := hmem
      exact ⟨k, p, mem_of_mem_eraseIdx hmem⟩
    · simpa [completed] using hne
  | animation hi => exact hkept (by simp) fun _ => .inr (ne_nil_of_mem (mem_of_getElem? hi))

/-- How the slots stand, against the slots as they were made. -/
structure SlotRowInv (slots : List AIMPatternPiece) (s : QuestionRun) : Prop where
  kept : Forall₂ (KeptFrom s.view.checkFinish) slots s.view.listPatternPieceView
  row : s.view.listPatternPieceView.map (·.frame) = slots.map (·.frame) ∨
    InOneRow s.view.listPatternPieceView
  unmarked : ∀ v ∈ s.view.listPatternPieceView, UnplacedUnmarked v
  placed : s.PlacedSome

theorem slotRowInv_step (hs : s.SlotRowInv slots) (he : s.Enabled e)
    (h : s.step ui e = .ok s') : s'.SlotRowInv slots := by
  have hunfinished : s'.view.checkFinish = false → s.view.checkFinish = false := fun hoff =>
    Bool.eq_false_iff.mpr fun hon => by
      cases ((step_question he h).2 hon).symm.trans hoff
  refine ⟨?_, ?_, unmarked_step hs.unmarked he h, placedSome_step hs.placed he h⟩
  · have hstep : Forall₂ (KeptFrom s'.view.checkFinish) s.view.listPatternPieceView
        s'.view.listPatternPieceView := by
      cases step_slots he h with
      | kept hslots =>
        refine hslots.imp fun v v' hv => ?_
        refine ⟨⟨?_, ?_⟩, hv.status, fun _ _ => ?_⟩ <;> rw [hv.frame]
      | widened hslots hfinished =>
        rw [hslots, hfinished]
        exact expandSlots_kept ui _ hs.unmarked
    exact keptFrom_trans (hs.kept.imp fun _ _ hv => hv.mono hunfinished) hstep
  · cases step_slots he h with
    | kept hslots =>
      have hframes : s'.view.listPatternPieceView.map (·.frame) =
          s.view.listPatternPieceView.map (·.frame) :=
        map_eq_of_forall₂ (hslots.imp fun _ _ h => h.frame)
      rw [hframes]
      exact hs.row.imp_right fun hrow => hrow.congr hframes
    | @widened i _ hslots _ =>
      -- the animation goes back to a drop that was accepted
      have hpending : s.animations ≠ [] := ne_nil_of_length_pos (Nat.zero_lt_of_lt he)
      obtain ⟨k, slot, hslot, hstatus⟩ := hs.placed (.inr hpending)
      rw [hslots]
      exact .inr (expandSlots_row hs.unmarked ⟨slot, mem_of_getElem? hslot, hstatus⟩)

/-! ## Runs -/

/-- In every state of every run of a question: the slots stand as `initPatterView` has placed them,
or all in one row, each `kPatternCoverSpace` before the end of the one before it, which starts 150
points past the margin and is exactly as wide as the view, or starts at the margin and is at least
as wide. No slot has left its line, and while pieces are left the slots without a piece are as wide
as they were made. -/
theorem slot_row_of_run {question : AIMQuestion} {v : AIMQuestionContentView}
    (hstart : Started ui question v) (h : Reaches (step ui) Enabled (QuestionRun.start v) s) :
    (s.view.listPatternPieceView.map (·.frame) = v.listPatternPieceView.map (·.frame) ∨
      InOneRow s.view.listPatternPieceView) ∧
    Forall₂ (KeptFrom s.view.checkFinish) v.listPatternPieceView s.view.listPatternPieceView := by
  obtain ⟨draws, pattern, data, list, slots, hlist, hslots, rfl⟩ := hstart
  have hs := h.inv (SlotRowInv slots) ⟨?_, .inl rfl, ?_, ?_⟩ fun _ _ _ hs he hstep =>
    slotRowInv_step hs he hstep
  · exact ⟨hs.row, hs.kept⟩
  · exact forall₂_same.mpr fun _ _ => ⟨⟨rfl, rfl⟩, id, fun _ _ => rfl⟩
  · exact @unplaced_unmarked ui _ question pattern data list slots hslots .refl
  · rintro (⟨k, p, hmem⟩ | hne)
    · cases hmem
    · exact absurd rfl hne

/-- Two long pieces have taken the room of the margin: the row starts there, and is too wide. -/
theorem slot_row_of_run_overfull :
    ∃ v s, AIMQuestionContentView.setData .ascii longQuestion (fun _ => 0) = .ok v ∧
      Reaches (step .ascii) Enabled (QuestionRun.start v) s ∧
      rowWidth s.view.listPatternPieceView = 813 ∧
      Row.Laid (-kPatternCoverSpace) kPatternLeftMargin (places s.view.listPatternPieceView) := by
  have hrun : (playQuestion .ascii Enabled longQuestion (fun _ => 0)
      (placeLong ++ dropAndWiden 0 (inList 0))).any
      (fun s => decide (rowWidth s.view.listPatternPieceView = 813)) = true := by decide +kernel
  have hmade : (AIMQuestionContentView.setData .ascii longQuestion fun _ => 0).toOption.any
      (fun v => decide (rowWidth v.listPatternPieceView = 799)) = true := by decide +kernel
  obtain ⟨v, s, hv, hreach, hend⟩ := exists_run_of_playQuestion hrun
  have hwidth := of_decide_eq_true hend
  rw [hv] at hmade
  have hfirst : rowWidth v.listPatternPieceView = 799 := of_decide_eq_true hmade
  obtain ⟨hframes | ⟨-, hfull⟩ | ⟨hlaid, -⟩, -⟩ := slot_row_of_run (started_of_setData hv) hreach
  · rw [← rowWidth_congr hframes, hwidth] at hfirst
    norm_num at hfirst
  · rw [hwidth, kPatternListViewWidth] at hfull
    norm_num at hfull
  · exact ⟨v, s, hv, hreach, hwidth, hlaid⟩

end QuestionRun

end Imijun
