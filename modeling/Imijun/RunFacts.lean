import Imijun.ContentViewFacts
import Imijun.QuestionRun

/-!
# What one event of a run does

`Outcome` lists everything an event can do to a run, one constructor for each kind of change, and
`step_outcome` says that the list is complete. The proofs about runs are case analyses on it: none
of them unfolds a handler again.
-/

namespace Imijun

open Transition Fallible

/-- The events whose handlers touch no drag state (`SameDrag`) and no animation. -/
def Event.isQuiet : Event → Bool
  | .touchMoved _ | .hintCase2 _ | .btnShowHint | .showTextPattern | .btnShowEnglishHint
  | .showEnglishTextPattern => true
  | _ => false

namespace QuestionRun

/-- What event `e` can do to the run `s`. -/
inductive Outcome (ui : Platform) (s : QuestionRun) : Event → QuestionRun → Prop
  | quiet {e : Event} {v : AIMQuestionContentView} (he : e.isQuiet = true)
      (same : SameDrag s.view v)
      (content : v.isUserInteractionEnabled = s.view.isUserInteractionEnabled) :
      Outcome ui s e { s with view := v }
  | began {p : Nat} {location offset : CGPoint} {slot : AIMPatternPiece}
      (hslot : s.view.listPatternPieceView[(s.view.listPieceView.pieceView p).patternIndex]? =
        some slot) :
      Outcome ui s (.touchBegan p location offset)
        { s with
          view := AIMQuestionContentView.chosen
            { s.view with listPieceView := s.view.listPieceView.setScroll false } p location offset
            slot
          touch := some ⟨p, s.view.centerInSelf p offset⟩ }
  | accepted {t : Touch} {slot : AIMPatternPiece} {list : AIMListPieceView}
      (ht : s.touch = some t)
      (hslot : s.view.listPatternPieceView[
        (s.view.listPieceView.pieceView t.piece).patternIndex]? = some slot)
      (hmatched : slot.matched s.view.currentSelectPieceView.frame.center = true)
      (hlist : s.view.listPieceView.reRender = .ok list) :
      Outcome ui s .touchEnded
        (s.dropped
          (s.view.accepted slot (s.view.listPieceView.pieceView t.piece).patternIndex list) t.piece
          (.accepted (s.view.listPieceView.pieceView t.piece).patternIndex t.piece))
  | wrong {t : Touch} {slot : AIMPatternPiece} {start : CGPoint} {failure : List Call}
      (ht : s.touch = some t)
      (hslot : s.view.listPatternPieceView[
        (s.view.listPieceView.pieceView t.piece).patternIndex]? = some slot)
      (hfar : slot.matched s.view.currentSelectPieceView.frame.center = false)
      (hstart : s.view.centerfirtPoint = some start)
      (hfailure : ∀ c ∈ failure, c.isReport = false) :
      Outcome ui s .touchEnded
        (s.dropped (s.view.rejected failure start) t.piece (.returned t.piece))
  | cancelled : Outcome ui s .touchCancelled { s with touch := none }
  | resignedIdle {w : AIMQuestionContentView} (same : SameDrag s.view w)
      (content : w.isUserInteractionEnabled = s.view.isUserInteractionEnabled)
      (hstart : s.view.centerfirtPoint = none) :
      Outcome ui s .willResignActive { s with view := w, touch := none }
  | resigned {w : AIMQuestionContentView} {p : Option Nat} {start : CGPoint}
      (same : SameDrag s.view w)
      (content : w.isUserInteractionEnabled = s.view.isUserInteractionEnabled)
      (hstart : s.view.centerfirtPoint = some start)
      (hempty : p = none → s.view.listPieceView.pieceViewArray = [])
      (hpiece : p.isSome = true → p = s.view.currentSelectPieceViewOnScrollview) :
      Outcome ui s .willResignActive { s with view := w.restored p start, touch := none }
  | acceptedDone {i k p : Nat} {v : AIMQuestionContentView}
      (hi : s.drops[i]? = some (.accepted k p)) (done : s.view.AcceptedDone k p v) :
      Outcome ui s (.dropCompletion i) (s.completed i (.accepted k p) v [.blur 4])
  | returnedDone {i p : Nat} (hi : s.drops[i]? = some (.returned p)) :
      Outcome ui s (.dropCompletion i)
        (s.completed i (.returned p) (s.view.returnedCompletion p) [])
  | animation {i : Nat} {a : Animation} (hi : s.animations[i]? = some a) :
      Outcome ui s (.animationCompletion i)
        { s with
          view := (s.view.runAnimation ui a).1
          animations := s.animations.eraseIdx i ++ (s.view.runAnimation ui a).2 }

variable {ui : Platform} {s s' : QuestionRun} {e : Event}

/-- Every enabled event does one of these things. -/
theorem step_outcome (he : s.Enabled e) (h : s.step ui e = .ok s') : Outcome ui s e s' := by
  cases e with
  | touchBegan p location offset =>
    obtain ⟨v, hv, h⟩ := bind_eq_ok.mp h
    obtain rfl := Except.ok.inj h
    obtain ⟨slot, hslot, rfl⟩ := AIMQuestionContentView.tapAIMPieceView_ok.mp hv
    exact .began hslot
  | touchMoved location =>
    obtain ⟨v, hv, h⟩ := bind_eq_ok.mp h
    obtain rfl := Except.ok.inj h
    obtain ⟨c, rfl⟩ := AIMQuestionContentView.movedChoosePieceView_ok hv
    exact .quiet rfl (AIMQuestionContentView.moveProxy_sameDrag _ c) rfl
  | touchEnded =>
    obtain ⟨t, ht⟩ := Option.isSome_iff_exists.mp he
    simp only [step, ht] at h
    obtain ⟨⟨v, completion⟩, hv, h⟩ := bind_eq_ok.mp h
    obtain rfl := Except.ok.inj h
    obtain ⟨slot, hslot, ⟨hmatched, rfl, list, hlist, rfl⟩ |
      ⟨hfar, rfl, start, failure, hstart, hfailure, rfl⟩⟩ :=
      AIMQuestionContentView.endMovedAIMPieceView_ok hv
    · exact .accepted ht hslot hmatched hlist
    · exact .wrong ht hslot hfar hstart hfailure
  | touchCancelled => exact Except.ok.inj h ▸ .cancelled
  | willResignActive =>
    obtain ⟨v, hv, h⟩ := bind_eq_ok.mp h
    obtain rfl := Except.ok.inj h
    obtain ⟨w, same, content, ⟨hnone, rfl⟩ | ⟨start, p, hstart, rfl, hempty, hpiece⟩⟩ :=
      AIMQuestionContentView.resignActive_ok hv
    · exact .resignedIdle same content hnone
    · exact .resigned same content hstart hempty hpiece
  | hintCase2 i =>
    obtain ⟨v, hv, h⟩ := bind_eq_ok.mp h
    obtain rfl := Except.ok.inj h
    obtain ⟨same, content⟩ := AIMQuestionContentView.hintCase2_sameDrag hv fun slot hslot => by
      have := he
      simp only [Enabled, CanTapIdea, hslot, Option.any_some, Bool.and_eq_true] at this
      exact this.1
    exact .quiet rfl same content
  | btnShowHint =>
    obtain ⟨same, content⟩ := AIMQuestionContentView.btnShowHint_sameDrag s.view
    exact Except.ok.inj h ▸ .quiet rfl same content
  | showTextPattern =>
    obtain ⟨same, content⟩ := AIMQuestionContentView.showTextPattern_sameDrag s.view
    exact Except.ok.inj h ▸ .quiet rfl same content
  | touchDragOutside => cases h
  | btnShowEnglishHint =>
    obtain ⟨same, content⟩ := AIMQuestionContentView.btnShowEnglishHint_sameDrag s.view
    exact Except.ok.inj h ▸ .quiet rfl same content
  | showEnglishTextPattern =>
    obtain ⟨same, content⟩ := AIMQuestionContentView.showEnglishTextPattern_sameDrag s.view
    exact Except.ok.inj h ▸ .quiet rfl same content
  | dropCompletion i =>
    obtain ⟨completion, hi⟩ : ∃ c, s.drops[i]? = some c := ⟨_, List.getElem?_eq_getElem he⟩
    simp only [step, hi] at h
    obtain ⟨⟨v, animations⟩, hv, h⟩ := bind_eq_ok.mp h
    obtain rfl := Except.ok.inj h
    cases completion with
    | accepted k p =>
      obtain ⟨⟨w, a⟩, hw, hv⟩ := bind_eq_ok.mp hv
      obtain ⟨rfl, rfl⟩ := Prod.mk.inj (Except.ok.inj hv)
      obtain ⟨done, rfl⟩ := AIMQuestionContentView.acceptedCompletion_ok hw
      exact .acceptedDone hi done
    | returned p =>
      obtain ⟨rfl, rfl⟩ := Prod.mk.inj (Except.ok.inj hv)
      exact .returnedDone hi
  | animationCompletion i =>
    obtain ⟨a, hi⟩ : ∃ a, s.animations[i]? = some a := ⟨_, List.getElem?_eq_getElem he⟩
    simp only [step, hi] at h
    exact Except.ok.inj h ▸ .animation hi

/-! ## Pending accepted drops -/

@[simp] theorem acceptedPieces_dropped_accepted (s : QuestionRun) (v : AIMQuestionContentView)
    (p k : Nat) : (s.dropped v p (.accepted k p)).acceptedPieces = s.acceptedPieces ++ [p] := by
  simp [acceptedPieces, dropped, DropCompletion.isAccepted, DropCompletion.piece]

@[simp] theorem acceptedPieces_dropped_returned (s : QuestionRun) (v : AIMQuestionContentView)
    (p : Nat) : (s.dropped v p (.returned p)).acceptedPieces = s.acceptedPieces := by
  simp [acceptedPieces, dropped, DropCompletion.isAccepted]

/-- The completion of a drop takes the drop's own entry out, and nothing else. -/
theorem acceptedPieces_perm {i : Nat} {c : DropCompletion} (hi : s.drops[i]? = some c)
    (v : AIMQuestionContentView) (animations : List Animation) :
    s.acceptedPieces.Perm ((if c.isAccepted = true then [c.piece] else []) ++
      (s.completed i c v animations).acceptedPieces) := by
  obtain ⟨hlt, hget⟩ := List.getElem?_eq_some_iff.mp hi
  have hperm : s.drops.Perm (c :: s.drops.eraseIdx i) := by
    rw [← hget]
    exact (List.getElem_cons_eraseIdx_perm hlt).symm
  refine ((hperm.filter _).map DropCompletion.piece).trans ?_
  by_cases hc : c.isAccepted = true <;> simp [hc, acceptedPieces, completed]

theorem mem_acceptedPieces {p : Nat} : p ∈ s.acceptedPieces ↔ ∃ k, .accepted k p ∈ s.drops := by
  simp only [acceptedPieces, List.mem_map, List.mem_filter]
  constructor
  · rintro ⟨c, ⟨hc, hacc⟩, rfl⟩
    cases c with
    | accepted k p => exact ⟨k, hc⟩
    | returned p => cases hacc
  · rintro ⟨k, hk⟩
    exact ⟨_, ⟨hk, rfl⟩, rfl⟩

/-! ## Reports -/

theorem reports_rejected {v : AIMQuestionContentView} {failure : List Call} {start : CGPoint}
    (hfailure : ∀ c ∈ failure, c.isReport = false) :
    (v.rejected failure start).reports = v.reports ++
      [.endDragPiece v.currentSelectPieceView (AIMQuestionContentView.searchSlot
        v.listPatternPieceView v.currentSelectPieceView.frame.center)] := by
  have hquiet : failure.filter (·.isReport) = [] :=
    List.filter_eq_nil_iff.mpr fun c hc => by simp [hfailure c hc]
  show (v.calls ++ failure ++ [_]).filter Call.isReport = _
  rw [List.filter_append, List.filter_append, hquiet, List.append_nil]
  rfl

theorem reports_acceptedDone {v v' : AIMQuestionContentView} {k p : Nat}
    (done : v.AcceptedDone k p v') :
    v'.reports = v.reports ++
      .endDragPiece v'.currentSelectPieceView v.currentSelectPieceView.patternIndex ::
        if v'.listPieceView.pieceViewArray = [] then [.finishAtCurrentQuestion] else [] := by
  rw [AIMQuestionContentView.reports, done.calls]
  split_ifs <;> simp [AIMQuestionContentView.reports, Call.isReport]

/-- The touch in progress ends in a wrong drop. -/
def WrongDrop (s : QuestionRun) : Prop :=
  ∃ t slot, s.touch = some t ∧
    s.view.listPatternPieceView[(s.view.listPieceView.pieceView t.piece).patternIndex]? =
      some slot ∧ slot.matched s.view.currentSelectPieceView.frame.center = false

/-- The events that report a drop to the delegate: the end of a wrong drop, and the completion of an
accepted one. -/
def Reports (s : QuestionRun) : Event → Prop
  | .touchEnded => s.WrongDrop
  | .dropCompletion i => ∃ k p, s.drops[i]? = some (.accepted k p)
  | _ => False

/-- The calls an event makes: a report comes from a reporting event, and the end of the question
from a view whose list has become empty. -/
theorem step_calls (he : s.Enabled e) (h : s.step ui e = .ok s') :
    ∃ calls, s'.view.calls = s.view.calls ++ calls ∧
      ((∃ c ∈ calls, c.isReport = true) → s.Reports e) ∧
      (.finishAtCurrentQuestion ∈ calls → s'.view.checkFinish = true) := by
  have hquiet {quiet : List Call} (h : ∀ c ∈ quiet, c.isReport = false) :
      ((∃ c ∈ quiet, c.isReport = true) → s.Reports e) ∧
        (.finishAtCurrentQuestion ∈ quiet → s'.view.checkFinish = true) :=
    ⟨fun ⟨c, hc, hreport⟩ => (by cases (h c hc).symm.trans hreport),
      fun hfinish => (by cases h _ hfinish)⟩
  cases step_outcome he h with
  | quiet _ same _ =>
    obtain ⟨calls, hcalls, hnone⟩ := same.calls
    exact ⟨calls, hcalls, hquiet hnone⟩
  | began _ => exact ⟨[], (List.append_nil _).symm, hquiet (by simp)⟩
  | accepted _ _ _ _ => exact ⟨[], (List.append_nil _).symm, hquiet (by simp)⟩
  | wrong ht hslot hfar _ hfailure =>
    refine ⟨_, List.append_assoc _ _ _, fun _ => ⟨_, _, ht, hslot, hfar⟩, fun hfinish => ?_⟩
    rcases List.mem_append.mp hfinish with hfinish | hfinish
    · cases hfailure _ hfinish
    · cases List.mem_singleton.mp hfinish
  | cancelled => exact ⟨[], (List.append_nil _).symm, hquiet (by simp)⟩
  | resignedIdle same _ _ =>
    obtain ⟨calls, hcalls, hnone⟩ := same.calls
    exact ⟨calls, hcalls, hquiet hnone⟩
  | resigned same _ _ _ _ =>
    obtain ⟨calls, hcalls, hnone⟩ := same.calls
    exact ⟨calls, hcalls, hquiet hnone⟩
  | @acceptedDone i k p v hi done =>
    refine ⟨_, done.calls, fun _ => ⟨k, p, hi⟩, fun hfinish => ?_⟩
    refine AIMQuestionContentView.checkFinish_iff.mpr ?_
    show v.listPieceView.pieceViewArray = []
    simpa using hfinish
  | returnedDone _ => exact ⟨[], (List.append_nil _).symm, hquiet (by simp)⟩
  | animation hi =>
    obtain ⟨calls, hcalls, hnone⟩ :=
      (AIMQuestionContentView.runAnimation_sameDrag ui s.view _).calls
    exact ⟨calls, hcalls, hquiet hnone⟩

/-- A view keeps its question, and a finished question stays finished. -/
theorem step_question (he : s.Enabled e) (h : s.step ui e = .ok s') :
    s'.view.question = s.view.question ∧
      (s.view.checkFinish = true → s'.view.checkFinish = true) := by
  simp only [AIMQuestionContentView.checkFinish_iff]
  cases step_outcome he h with
  | quiet _ same _ => exact ⟨same.question, fun h => same.pieceViewArray.trans h⟩
  | began _ => exact ⟨rfl, fun h => h⟩
  | accepted _ _ _ hlist =>
    exact ⟨rfl, fun h => (AIMListPieceView.reRender_same hlist).pieceViewArray.trans h⟩
  | wrong _ _ _ _ _ => exact ⟨rfl, fun h => h⟩
  | cancelled => exact ⟨rfl, fun h => h⟩
  | resignedIdle same _ _ => exact ⟨same.question, fun h => same.pieceViewArray.trans h⟩
  | @resigned w p start same _ _ _ _ =>
    cases p <;> exact ⟨same.question, fun h => same.pieceViewArray.trans h⟩
  | @acceptedDone i k p v hi done =>
    refine ⟨done.question, fun h => ?_⟩
    obtain ⟨t, -, hlist⟩ := AIMListPieceView.removePiece_ok.mp done.list
    show v.listPieceView.pieceViewArray = []
    rw [hlist]
    simp [h]
  | returnedDone _ => exact ⟨rfl, fun h => h⟩
  | animation hi =>
    have same := AIMQuestionContentView.runAnimation_sameDrag ui s.view
    exact ⟨(same _).question, fun h => (same _).pieceViewArray.trans h⟩

end QuestionRun

end Imijun
