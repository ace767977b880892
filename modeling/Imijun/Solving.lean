import Imijun.Lib.Progress
import Imijun.Placement
import Imijun.TouchFinish
import Imijun.Traps

/-!
# A question can be finished

* `WellTimed`: touches begin in front of the pending pieces, completions run in drop order and
  between touches, and no touch is taken away by the system.
* `WorkInv`: what these runs keep; `wellTimed_total`: none of their events traps, when the pattern
  has a slot for every piece.
* `settle`: the touch in progress, the drops and the animations can always be brought to an end.
* `place`: at rest, any piece of the list can be dropped on its slot.
* `question_can_be_finished`: from every state of such a run the question can still be finished.
-/

namespace Imijun

open Transition Fallible List

/-- How many more completions the animation stands for. -/
def Animation.weight : Animation → Nat
  | .blur left => left + 3
  | .expanded => 2
  | .answerHidden => 1

namespace QuestionRun

variable {ui : Platform} {s s' : QuestionRun} {e : Event} {hints : List AIMPiece}
  {list : AIMListPieceView} {n : Nat}

/-- Touches and completions do not get in each other's way. -/
def WellTimed (s : QuestionRun) (e : Event) : Prop :=
  s.Enabled e ∧ InDropOrder e ∧ s.BeforePending e ∧ s.BetweenTouches e ∧ s.FinishesTouch e

instance (s : QuestionRun) (e : Event) : Decidable (s.WellTimed e) := by
  unfold WellTimed; infer_instance

/-- What a well-timed run keeps. -/
structure WorkInv (hints : List AIMPiece) (list : AIMListPieceView) (n : Nat) (s : QuestionRun) :
    Prop where
  handled : s.Handled hints list n
  touch : s.TouchInv
  start : s.HoldsStart
  placement : s.PlacementInv list n

/-- Every piece of the list has an answer, and a slot of its own among the slots of the run. -/
structure Fits (list : AIMListPieceView) (n : Nat) (s : QuestionRun) : Prop where
  answered : ∀ p < n, (list.pieceView p).piece.isSome = true
  slot : ∀ p < n, (list.pieceView p).patternIndex < s.view.listPatternPieceView.length
  distinct : ∀ p < n, ∀ q < n,
    (list.pieceView p).patternIndex = (list.pieceView q).patternIndex → p = q

/-- A pending piece is not in front of itself. -/
theorem BeforePending.notPending (h : s.BeforePending e) : s.NotPending e := by
  cases e with
  | touchBegan p location offset => exact fun hp => lt_irrefl _ (h p hp)
  | _ => trivial

/-- No event adds a slot or removes one. -/
theorem slots_length_step (he : s.Enabled e) (h : s.step ui e = .ok s') :
    s'.view.listPatternPieceView.length = s.view.listPatternPieceView.length := by
  cases step_outcome he h with
  | quiet _ same _ => exact same.slots.length_eq.symm
  | began _ => rfl
  | accepted _ _ _ _ => exact length_modify ..
  | wrong _ _ _ _ _ => rfl
  | cancelled => rfl
  | resignedIdle same _ _ => exact same.slots.length_eq.symm
  | resigned same _ _ _ _ => exact same.slots.length_eq.symm
  | acceptedDone _ done =>
    obtain ⟨a, -, hslots⟩ := done.slots
    exact hslots.length_eq.symm.trans (length_modify ..)
  | returnedDone _ => rfl
  | animation _ =>
    exact (AIMQuestionContentView.runAnimation_sameDrag ui s.view _).slots.length_eq.symm

theorem fits_step (hf : s.Fits list n) (he : s.Enabled e) (h : s.step ui e = .ok s') :
    s'.Fits list n :=
  ⟨hf.answered, fun p hp => by rw [slots_length_step he h]; exact hf.slot p hp, hf.distinct⟩

theorem workInv_step (hs : s.WorkInv hints list n) (hf : s.Fits list n) (he : s.WellTimed e)
    (h : s.step ui e = .ok s') : s'.WorkInv hints list n := by
  obtain ⟨henabled, horder, hbefore, hbetween, hfinishes⟩ := he
  exact ⟨handled_step hs.handled henabled horder hbefore h,
    touchInv_step hs.touch henabled hfinishes h,
    (holdsStart_step hs.start henabled h).mpr hbetween,
    placementInv_step hs.placement hf.distinct henabled hbefore.notPending h⟩

/-- The invariant together with the slots it is about. -/
def Working (hints : List AIMPiece) (list : AIMListPieceView) (n : Nat) (s : QuestionRun) : Prop :=
  s.WorkInv hints list n ∧ s.Fits list n

theorem working_step (hs : s.Working hints list n) (he : s.WellTimed e)
    (h : s.step ui e = .ok s') : s'.Working hints list n :=
  ⟨workInv_step hs.1 hs.2 he h, fits_step hs.2 he.1 h⟩

/-- No event of a well-timed run traps, but for the finger that leaves the hint button. -/
theorem wellTimed_total (hs : s.Working hints list n) (he : s.WellTimed e)
    (hstays : e.leavesHint = false) : ∃ s', s.step ui e = .ok s' := by
  obtain ⟨hinv, hf⟩ := hs
  cases hstep : s.step ui e with
  | ok s' => exact ⟨s', rfl⟩
  | error t =>
    have htraps := (hinv.handled.step_error_iff hf.answered he.1 he.2.1).mp hstep
    have hstart (ht : s.touch.isSome = true) : s.view.centerfirtPoint ≠ none := by
      obtain ⟨u, hu⟩ := Option.isSome_iff_exists.mp ht
      rw [hinv.start u hu]
      exact Option.some_ne_none _
    cases e with
    | touchBegan p location offset =>
      have hslot := hf.slot p (hinv.handled.refs.listed p he.1.2.1)
      have htraps := htraps.2
      rw [hinv.handled.refs.patternIndex] at htraps
      exact absurd hslot (not_lt.mpr htraps)
    | touchMoved location => exact absurd htraps.2 (hstart he.1)
    | touchEnded => exact absurd htraps.2.1 (hstart he.1)
    | touchDragOutside => cases hstays
    | _ => exact htraps.elim

/-- A finger that leaves the hint button stops the program. -/
theorem leavesHint_of_ok (h : s.step ui e = .ok s') : e.leavesHint = false := by
  cases e with
  | touchDragOutside => cases h
  | _ => rfl

/-! ## Coming to rest -/

/-- No touch is in progress, and no completion is pending. -/
structure AtEase (s : QuestionRun) : Prop where
  touch : s.touch = none
  drops : s.drops = []
  animations : s.animations = []

/-- The completions that are still to run, and the touch that is still to end. -/
def unsettled (s : QuestionRun) : Nat :=
  s.touch.elim 0 (fun _ => 20) + 10 * s.drops.length + (s.animations.map Animation.weight).sum

theorem runAnimation_weight (v : AIMQuestionContentView) (a : Animation) :
    ((v.runAnimation ui a).2.map Animation.weight).sum < a.weight := by
  match a with
  | .blur (left + 2) => simp [AIMQuestionContentView.runAnimation, Animation.weight]
  | .blur 0 | .blur 1 => simp [AIMQuestionContentView.runAnimation, Animation.weight]
  | .expanded =>
    simp only [AIMQuestionContentView.runAnimation]
    split <;> simp [Animation.weight]
  | .answerHidden => simp [AIMQuestionContentView.runAnimation, Animation.weight]

/-- The number of pieces in the list. -/
def count (s : QuestionRun) : Nat := s.view.listPieceView.pieceViewArray.length

/-- The end of a touch, a completion or the end of an animation leaves less to come, and adds no
piece to the list. -/
theorem unsettled_step (he : s.Enabled e) (h : s.step ui e = .ok s')
    (hclosing : e = .touchEnded ∨ e = .dropCompletion 0 ∨ e = .animationCompletion 0) :
    s'.unsettled < s.unsettled ∧ s'.count ≤ s.count := by
  cases step_outcome he h with
  | quiet hquiet _ _ => rcases hclosing with rfl | rfl | rfl <;> cases hquiet
  | began _ => rcases hclosing with hc | hc | hc <;> cases hc
  | @accepted t slot l ht _ _ hlist =>
    refine ⟨?_, (congrArg length (AIMListPieceView.reRender_same hlist).pieceViewArray).le⟩
    simp only [unsettled, dropped, ht, length_append, length_singleton, Option.elim_some,
      Option.elim_none]
    omega
  | @wrong t slot start failure ht _ _ _ _ =>
    refine ⟨?_, le_rfl⟩
    simp only [unsettled, dropped, ht, length_append, length_singleton, Option.elim_some,
      Option.elim_none]
    omega
  | cancelled => rcases hclosing with hc | hc | hc <;> cases hc
  | resignedIdle _ _ _ => rcases hclosing with hc | hc | hc <;> cases hc
  | resigned _ _ _ _ _ => rcases hclosing with hc | hc | hc <;> cases hc
  | @acceptedDone i k p v hi done =>
    obtain ⟨t, -, hlist⟩ := AIMListPieceView.removePiece_ok.mp done.list
    have hlt : i < s.drops.length := (List.getElem?_eq_some_iff.mp hi).1
    refine ⟨?_, ?_⟩
    · have hblur : Animation.weight (.blur 4) = 7 := rfl
      simp only [unsettled, completed, length_eraseIdx, if_pos hlt, map_append, sum_append]
      simp only [map_cons, map_nil, sum_cons, sum_nil, hblur]
      omega
    · show v.listPieceView.pieceViewArray.length ≤ _
      rw [hlist]
      exact length_filter_le _ _
  | @returnedDone i p hi =>
    have hlt : i < s.drops.length := (List.getElem?_eq_some_iff.mp hi).1
    refine ⟨?_, le_rfl⟩
    simp only [unsettled, completed, length_eraseIdx, if_pos hlt, append_nil]
    omega
  | @animation i a hi =>
    have same := AIMQuestionContentView.runAnimation_sameDrag ui s.view a
    refine ⟨?_, (congrArg length same.pieceViewArray).le⟩
    have hlt : i < s.animations.length := (List.getElem?_eq_some_iff.mp hi).1
    have hperm := getElem_cons_eraseIdx_perm hlt
    have hsum := (hperm.map Animation.weight).sum_eq
    rw [(List.getElem?_eq_some_iff.mp hi).2, map_cons, sum_cons] at hsum
    have hless : ((s.view.runAnimation ui a).2.map Animation.weight).sum < a.weight :=
      runAnimation_weight s.view a
    simp only [unsettled, map_append, sum_append]
    omega

/-- A well-timed event happens, and the run goes on from there. -/
theorem Working.event {Q : QuestionRun → Prop} (hs : s.Working hints list n) (he : s.WellTimed e)
    (hstays : e.leavesHint = false) (hnext : ∀ t, s.step ui e = .ok t → t.Working hints list n →
      CanReach (step ui) WellTimed t Q) : CanReach (step ui) WellTimed s Q := by
  obtain ⟨t, hstep⟩ : ∃ t, s.step ui e = .ok t := wellTimed_total hs he hstays
  exact .event he hstep (hnext t hstep (working_step hs he hstep))

/-- Some closing event can happen, as long as the run is not at ease. -/
theorem exists_closing (hrest : ¬ s.AtEase) : ∃ e, s.WellTimed e ∧
    (e = .touchEnded ∨ e = .dropCompletion 0 ∨ e = .animationCompletion 0) := by
  cases ht : s.touch with
  | some t =>
    refine ⟨.touchEnded, ⟨?_, trivial, trivial, trivial, trivial⟩, .inl rfl⟩
    exact Option.isSome_iff_exists.mpr ⟨t, ht⟩
  | none =>
    by_cases hd : s.drops = []
    · have ha : s.animations ≠ [] := fun ha => hrest ⟨ht, hd, ha⟩
      exact ⟨.animationCompletion 0, ⟨length_pos_of_ne_nil ha, trivial, trivial, trivial, trivial⟩,
        .inr (.inr rfl)⟩
    · exact ⟨.dropCompletion 0, ⟨length_pos_of_ne_nil hd, rfl, trivial, ht, trivial⟩,
        .inr (.inl rfl)⟩

/-- The run can come to rest without a piece coming back into the list. -/
theorem settle (hs : s.Working hints list n) :
    CanReach (step ui) WellTimed s fun t =>
      (t.Working hints list n ∧ t.count ≤ s.count) ∧ t.AtEase := by
  refine canReach_of_measure (fun t => t.Working hints list n ∧ t.count ≤ s.count) AtEase
    unsettled ?_ ⟨hs, le_rfl⟩
  rintro t ⟨ht, hcount⟩ hrest
  obtain ⟨e, he, hclosing⟩ := exists_closing hrest
  have hstays : e.leavesHint = false := by rcases hclosing with rfl | rfl | rfl <;> rfl
  refine ht.event he hstays fun u hstep hu => .refl ?_
  obtain ⟨hless, hcount'⟩ := unsettled_step he.1 hstep hclosing
  exact ⟨⟨hu, hcount'.trans hcount⟩, hless⟩

/-! ## One piece -/

/-- A move puts the proxy anywhere. -/
theorem touchMoved_to {start first : CGPoint} (hstart : s.view.centerfirtPoint = some start)
    (hfirst : s.view.currentSelectPieceView.firstCenterPoint = some first) (c : CGPoint) :
    s.step ui (.touchMoved ⟨c.x - start.x + first.x, c.y - start.y + first.y⟩) =
      .ok { s with view := s.view.moveProxy c } := by
  have hmoved : s.view.movedChoosePieceView
      ⟨c.x - start.x + first.x, c.y - start.y + first.y⟩ = .ok (s.view.moveProxy c) := by
    refine bind_eq_ok.mpr ⟨first, orThrow_eq_ok.mpr hfirst, bind_eq_ok.mpr ⟨start,
      orThrow_eq_ok.mpr hstart, ?_⟩⟩
    simp only [add_sub_cancel_right, add_sub_cancel]
    rfl
  exact bind_eq_ok.mpr ⟨_, hmoved, rfl⟩

theorem near_center (slot : AIMPatternPiece) : Near slot.frame.center slot := by
  refine matched_iff_near.mp (decide_eq_true ?_)
  simp only [sub_self, mul_zero, add_zero]
  exact mul_self_nonneg _

theorem touch_none_of_ended (he : s.Enabled .touchEnded) (h : s.step ui .touchEnded = .ok s') :
    s'.touch = none := by
  cases step_outcome he h with
  | quiet hquiet _ _ => cases hquiet
  | accepted _ _ _ _ => rfl
  | wrong _ _ _ _ _ => rfl

/-- From rest, a piece of the list can be dragged from anywhere to the centre of its slot; the drop
is accepted and completed, and the piece leaves the list. -/
theorem place (hs : s.Working hints list n) (hrest : s.AtEase) {p : Nat}
    (hp : p ∈ s.view.listPieceView.pieceViewArray) (location offset : CGPoint) :
    CanReach (step ui) WellTimed s fun t => t.Working hints list n ∧ t.count < s.count := by
  have hnone : s.acceptedPieces = [] := by
    rw [acceptedPieces, hrest.drops]
    rfl
  have hbegin : s.WellTimed (.touchBegan p location offset) := by
    have hcan := (hs.1.touch.restored hrest.touch hrest.drops hrest.animations).canBegin p hp
    refine ⟨hcan, trivial, fun q hq => ?_, trivial, trivial⟩
    rw [hnone] at hq
    cases hq
  refine hs.event hbegin rfl fun s₁ h₁ hs₁ => ?_
  have hdrag := dragging_began hrest.drops hbegin.1 h₁
  obtain ⟨u, hu, rfl⟩ := hdrag.touch
  have hlisted₁ : s₁.view.listPieceView.pieceViewArray = s.view.listPieceView.pieceViewArray := by
    cases step_outcome hbegin.1 h₁ with
    | quiet hquiet _ _ => cases hquiet
    | began _ => rfl
  -- the proxy goes to the centre of the slot
  obtain ⟨slot, hslot⟩ : ∃ slot, s₁.view.listPatternPieceView[
      (s₁.view.listPieceView.pieceView u.piece).patternIndex]? = some slot :=
    ⟨_, getElem?_eq_getElem (hs₁.1.handled.touch.slot u hu)⟩
  obtain ⟨start, hstart⟩ := Option.isSome_iff_exists.mp hdrag.start
  obtain ⟨first, hfirst⟩ := Option.isSome_iff_exists.mp
    (hs₁.1.handled.touch.first (hu ▸ rfl))
  have hmove := @touchMoved_to ui s₁ start first hstart hfirst slot.frame.center
  have htouched : s₁.touch.isSome = true := Option.isSome_iff_exists.mpr ⟨u, hu⟩
  have hmoving : s₁.WellTimed (.touchMoved
      ⟨slot.frame.center.x - start.x + first.x, slot.frame.center.y - start.y + first.y⟩) :=
    ⟨htouched, trivial, trivial, trivial, trivial⟩
  refine .event hmoving hmove ?_
  have hs₂ := working_step hs₁ hmoving hmove
  have hdrag₂ := hdrag.run (.tail .refl ⟨hmoving.1, rfl⟩ hmove) htouched
  -- so the drop is accepted
  have hending : WellTimed { s₁ with view := s₁.view.moveProxy slot.frame.center } .touchEnded :=
    ⟨hmoving.1, trivial, trivial, trivial, trivial⟩
  refine hs₂.event hending rfl fun s₃ h₃ hs₃ => ?_
  rcases hdrag₂.ended hslot h₃ with ⟨-, haccepting⟩ | ⟨hfar, -⟩
  · have hpending : 0 < s₃.drops.length := by
      rw [haccepting.drops]
      exact Nat.one_pos
    have hcompleting : s₃.WellTimed (.dropCompletion 0) :=
      ⟨hpending, rfl, trivial, touch_none_of_ended hending.1 h₃, trivial⟩
    refine hs₃.event hcompleting rfl fun s₄ h₄ hs₄ => ?_
    refine .refl ⟨hs₄, ?_⟩
    obtain ⟨-, hpieces, -⟩ := haccepting.completed h₄
    rw [count, count, hpieces, ← hlisted₁]
    refine length_filter_lt_length_iff_exists.mpr ⟨u.piece, hdrag.listed, ?_⟩
    simp
  · refine absurd ?_ hfar
    have hnear := near_center slot
    rwa [← CGRect.center_withCenter s₁.view.currentSelectPieceView.frame slot.frame.center]
      at hnear

/-- All pieces of the list can be placed, one after the other. -/
theorem solve (hs : s.Working hints list n) :
    CanReach (step ui) WellTimed s fun t =>
      (t.Working hints list n ∧ t.AtEase) ∧ t.count = 0 := by
  refine (settle hs).bind ?_
  rintro t ⟨⟨ht, -⟩, hrest⟩
  refine canReach_of_measure (fun t => t.Working hints list n ∧ t.AtEase) (fun t => t.count = 0)
    count ?_ ⟨ht, hrest⟩
  rintro t ⟨ht, hrest⟩ hleft
  obtain ⟨p, hp⟩ := exists_mem_of_length_pos (Nat.pos_of_ne_zero hleft)
  refine (place ht hrest hp (t.view.centerInSelf p ⟨0, 0⟩) ⟨0, 0⟩).bind ?_
  rintro u ⟨hu, hless⟩
  exact (settle hu).mono fun v hv => ⟨⟨hv.1.1, hv.2⟩, hv.1.2.trans_lt hless⟩

/-! ## Runs -/

theorem working_start {question : AIMQuestion} {draws : Nat → Nat}
    (hlist : AIMQuestionContentView.initAIMListPieceView ui question draws = .ok list)
    {pattern : AIMPattern} {data : PatternUIData} {slots : List AIMPatternPiece}
    (hslots : AIMQuestionContentView.initPatterView question pattern data = .ok slots)
    (hfits : ∀ (k : Nat) a, question.answers[k]? = some a → isBlank a.content = false →
      k < slots.length) :
    Working question.hints list (AIMListPieceView.pieceCount question.answers)
      (QuestionRun.start (AIMQuestionContentView.fresh question pattern data list slots)) := by
  have hpieces := AIMListPieceView.setData_pieces hlist
  refine ⟨⟨handled_start hlist hslots, ?_, fun t ht => (by cases ht),
    placementInv_start hlist hslots⟩, answered_of_setData hlist, fun p hp => ?_,
    hpieces.slot_injective⟩
  · exact touchInv_start ⟨draws, pattern, data, list, slots, hlist, hslots, rfl⟩
  · obtain ⟨a, ha, hblank, -⟩ := hpieces.answer p hp
    exact hfits _ a ha hblank

/-- The question is solved: every answer stands on its slot, the end has been reported (a question
without pieces never reports it), nothing of a drag is left, and the view, the list and its scroll
view take touches. -/
structure Solved (question : AIMQuestion) (s : QuestionRun) : Prop where
  atEase : s.AtEase
  restored : s.Restored
  interactive : s.view.isUserInteractionEnabled = true
  finished : s.view.checkFinish = true
  reported : s.view.calls.count .finishAtCurrentQuestion =
    if AIMListPieceView.pieceCount question.answers = 0 then 0 else 1
  placed : ∀ (k : Nat) a, question.answers[k]? = some a → isBlank a.content = false →
    PlacedAt s.view.listPatternPieceView k a.content

theorem solved_of_working {question : AIMQuestion} {draws : Nat → Nat}
    (hlist : AIMQuestionContentView.initAIMListPieceView ui question draws = .ok list)
    (hs : s.Working hints list (AIMListPieceView.pieceCount question.answers)) (hrest : s.AtEase)
    (hcount : s.count = 0) : s.Solved question := by
  have hempty : s.view.listPieceView.pieceViewArray = [] := List.eq_nil_of_length_eq_zero hcount
  have hpieces := AIMListPieceView.setData_pieces hlist
  refine ⟨hrest, hs.1.touch.restored hrest.touch hrest.drops hrest.animations,
    hs.1.touch.interactive hrest.animations, AIMQuestionContentView.checkFinish_iff.mpr hempty, ?_,
    fun k a ha hblank => ?_⟩
  · have hfinish := hs.1.placement.finish
    rw [AIMQuestionContentView.reports, count_filter rfl] at hfinish
    rw [hfinish]
    by_cases hn : AIMListPieceView.pieceCount question.answers = 0
    · rw [if_pos hn, if_neg fun h => h.2 hn]
    · rw [if_neg hn, if_pos ⟨hempty, hn⟩]
  · obtain ⟨p, hp, rfl⟩ := hpieces.complete k a ha hblank
    obtain ⟨b, hb, -, hpiece⟩ := hpieces.answer p hp
    obtain rfl := Option.some.inj (ha.symm.trans hb)
    obtain ⟨c, hc, hplaced⟩ := hs.1.placement.removed p hp (by simp [hempty])
    obtain rfl := Option.some.inj (hpiece.symm.trans hc)
    exact hplaced

/-- From every state of a well-timed run, whatever has been dropped, tapped or shown so far, a
well-timed run without a trap leads to the solved question, when the pattern has a slot for every
non-blank answer. -/
theorem question_can_be_finished {question : AIMQuestion} {draws : Nat → Nat}
    (hlist : AIMQuestionContentView.initAIMListPieceView ui question draws = .ok list)
    {pattern : AIMPattern} {data : PatternUIData} {slots : List AIMPatternPiece}
    (hslots : AIMQuestionContentView.initPatterView question pattern data = .ok slots)
    (hfits : ∀ (k : Nat) a, question.answers[k]? = some a → isBlank a.content = false →
      k < slots.length)
    (h : Reaches (step ui) WellTimed
      (QuestionRun.start (AIMQuestionContentView.fresh question pattern data list slots)) s) :
    CanReach (step ui) WellTimed s (Solved question) := by
  have hs := h.inv (Working question.hints list (AIMListPieceView.pieceCount question.answers))
    (working_start hlist hslots hfits) fun _ _ _ ht he hstep => working_step ht he hstep
  refine (solve hs).mono ?_
  rintro t ⟨⟨ht, hrest⟩, hcount⟩
  exact solved_of_working hlist ht hrest hcount

/-- A wrong drop is on its way back, two idea buttons have been tapped and the English hints are
shown: the three pieces can still be placed. -/
theorem question_can_be_finished_after_wrong_drop :
    ∃ v s t, AIMQuestionContentView.setData .ascii sampleQuestion (fun _ => 0) = .ok v ∧
      Reaches (step .ascii) WellTimed (QuestionRun.start v) s ∧ s.drops = [.returned 0] ∧
      Reaches (step .ascii) WellTimed s t ∧ t.view.calls.count .finishAtCurrentQuestion = 1 := by
  have hrun : (playQuestion .ascii WellTimed sampleQuestion (fun _ => 0)
      [.hintCase2 0, .hintCase2 1, .touchBegan 0 (inList 0) ⟨0, 0⟩, .btnShowEnglishHint,
        .touchMoved offSlots, .touchEnded]).any (fun s =>
          decide (s.drops = [.returned 0])) = true := by decide +kernel
  obtain ⟨v, s, hv, hreach, hdrops⟩ := exists_run_of_playQuestion hrun
  obtain ⟨pattern, list, slots, -, hlist, hslots, rfl⟩ := sampleQuestion_parts hv
  obtain ⟨t, hrun, hsolved⟩ := question_can_be_finished hlist hslots
    (fun k a ha _ => by
      have hk : k < sampleQuestion.answers.length := (List.getElem?_eq_some_iff.mp ha).1
      rw [makeSlots_length hslots]
      exact hk) hreach
  refine ⟨_, s, t, hv, hreach, of_decide_eq_true hdrops, hrun, ?_⟩
  rw [hsolved.reported, if_neg (by decide +kernel)]

end QuestionRun

end Imijun
