import Imijun.RunFacts

/-!
# The start point of a drag

`centerfirtPoint` and the proxy are shared by the touch in progress and by the completions of
earlier drops.

* `touch_keeps_start_point`: as long as no drop completion runs during a touch, `centerfirtPoint` is
  the start centre of the dragged piece, and neither `movedChoosePieceView` nor the return of a
  wrong drop finds it `nil`. A completion during a touch always breaks this.
* `completion_clears_start_point`: the interaction flags do not keep such a completion away, and the
  next move traps.
-/

namespace Imijun

open Transition Fallible

namespace AIMListPieceView

theorem reRenderLoop_error {ps : List Nat} {index : Nat} {w : ℚ} {l : AIMListPieceView} {t : Trap}
    (h : reRenderLoop ps index w l = .error t) : t = .indexOutOfRange := by
  induction ps generalizing index w l with
  | nil => cases h
  | cons p ps ih =>
    simp only [reRenderLoop] at h
    split at h
    · exact ih h
    · rcases bind_eq_error.mp h with h | ⟨label, -, h⟩
      · exact (orThrow_eq_error.mp h).2.symm
      · exact ih h

theorem reRender_error {l : AIMListPieceView} {t : Trap} (h : l.reRender = .error t) :
    t = .indexOutOfRange := by
  rcases bind_eq_error.mp h with h | ⟨r, -, h⟩
  · exact reRenderLoop_error h
  · cases h

end AIMListPieceView

namespace AIMQuestionContentView

/-- The end of a touch traps on the start point only when there is none. -/
theorem endMovedAIMPieceView_missing {v : AIMQuestionContentView} {p : Nat}
    (h : v.endMovedAIMPieceView p = .error .missingStartPoint) : v.centerfirtPoint = none := by
  rcases bind_eq_error.mp h with h | ⟨r, -, h⟩
  · rcases bind_eq_error.mp h with h | ⟨slot, -, h⟩
    · cases (orThrow_eq_error.mp h).2
    · split at h
      · rcases bind_eq_error.mp h with h | ⟨w, -, h⟩
        · rcases bind_eq_error.mp h with h | ⟨list, -, h⟩
          · cases AIMListPieceView.reRender_error h
          · cases h
        · cases h
      · rcases bind_eq_error.mp h with h | ⟨w, -, h⟩
        · rcases bind_eq_error.mp h with h | ⟨start, -, h⟩
          · exact (orThrow_eq_error.mp h).1
          · cases h
        · cases h
  · cases h

end AIMQuestionContentView

namespace QuestionRun

variable {ui : Platform} {s s' : QuestionRun} {e : Event}

/-- The dragged piece's start centre is at hand during a touch. -/
def HoldsStart (s : QuestionRun) : Prop :=
  ∀ t, s.touch = some t → s.view.centerfirtPoint = some t.startCenter

/-- A drop completion runs between touches only. -/
def BetweenTouches (s : QuestionRun) (e : Event) : Prop :=
  e.AtDropCompletion fun _ => s.touch = none

instance (s : QuestionRun) (e : Event) : Decidable (s.BetweenTouches e) := by
  unfold BetweenTouches; infer_instance

/-- A step keeps the start point exactly when it is not a drop completion during a touch. -/
theorem holdsStart_step (hs : s.HoldsStart) (he : s.Enabled e) (h : s.step ui e = .ok s') :
    s'.HoldsStart ↔ s.BetweenTouches e := by
  cases step_outcome he h with
  | quiet hquiet same _ =>
    have hbetween : s.BetweenTouches e := by cases e <;> trivial
    exact iff_of_true (fun t ht => same.centerfirtPoint.trans (hs t ht)) hbetween
  | began _ =>
    refine iff_of_true (fun t ht => ?_) trivial
    obtain rfl := Option.some.inj ht
    rfl
  | accepted _ _ _ _ => exact iff_of_true (fun t ht => by cases ht) trivial
  | wrong _ _ _ _ _ => exact iff_of_true (fun t ht => by cases ht) trivial
  | cancelled => exact iff_of_true (fun t ht => by cases ht) trivial
  | resignedIdle _ _ _ => exact iff_of_true (fun t ht => by cases ht) trivial
  | resigned _ _ _ _ _ => exact iff_of_true (fun t ht => by cases ht) trivial
  | acceptedDone _ done =>
    refine ⟨fun hs' => Option.eq_none_iff_forall_not_mem.mpr fun t ht => ?_, fun hnone t ht => ?_⟩
    · cases done.centerfirtPoint.symm.trans (hs' t ht)
    · cases hnone.symm.trans ht
  | returnedDone _ =>
    refine ⟨fun hs' => Option.eq_none_iff_forall_not_mem.mpr fun t ht => ?_, fun hnone t ht => ?_⟩
    · cases hs' t ht
    · cases hnone.symm.trans ht
  | animation _ =>
    exact iff_of_true (fun t ht =>
      (AIMQuestionContentView.runAnimation_sameDrag ui s.view _).centerfirtPoint.trans (hs t ht))
      trivial

/-- Moves and ends of a touch find the start point. -/
theorem step_ne_missingStartPoint (hs : s.HoldsStart) (he : s.Enabled e)
    (hdrag : (∃ location, e = .touchMoved location) ∨ e = .touchEnded) :
    s.step ui e ≠ .error .missingStartPoint := by
  intro h
  rcases hdrag with ⟨location, rfl⟩ | rfl
  · obtain ⟨t, ht⟩ := Option.isSome_iff_exists.mp he
    rcases bind_eq_error.mp h with h | ⟨v, -, h⟩
    · cases (hs t ht).symm.trans (AIMQuestionContentView.movedChoosePieceView_missing.mp h).2
    · cases h
  · obtain ⟨t, ht⟩ := Option.isSome_iff_exists.mp he
    simp only [step, ht] at h
    rcases bind_eq_error.mp h with h | ⟨r, -, h⟩
    · cases (hs t ht).symm.trans (AIMQuestionContentView.endMovedAIMPieceView_missing h)
    · cases h

/-- In every run whose drop completions fall between touches, the start point of the touch in
progress is at hand in every state, and no drag handler traps on it. The condition is exact: a step
that breaks it leaves a touch without its start point. -/
theorem touch_keeps_start_point {ui : Platform} {v : AIMQuestionContentView} {s : QuestionRun}
    (h : Reaches (step ui) (fun s e => s.Enabled e ∧ s.BetweenTouches e) (start v) s) :
    s.HoldsStart ∧
      (∀ e, s.Enabled e → ((∃ location, e = .touchMoved location) ∨ e = .touchEnded) →
        s.step ui e ≠ .error .missingStartPoint) ∧
      ∀ e s', s.Enabled e → s.step ui e = .ok s' → (s'.HoldsStart ↔ s.BetweenTouches e) := by
  have hs : s.HoldsStart :=
    h.inv HoldsStart (fun t ht => by cases ht)
      fun _ _ _ hs he hstep => (holdsStart_step hs he.1 hstep).mpr he.2
  exact ⟨hs, fun e he hdrag => step_ne_missingStartPoint hs he hdrag,
    fun e s' he hstep => holdsStart_step hs he hstep⟩

/-- A run of this kind with a completed drop and a second touch in progress. -/
theorem touch_keeps_start_point_second_touch :
    ∃ v s, AIMQuestionContentView.setData .ascii sampleQuestion (fun _ => 0) = .ok v ∧
      Reaches (step .ascii) (fun s e => s.Enabled e ∧ s.BetweenTouches e) (start v) s ∧
      s.touch.isSome = true ∧ s.HoldsStart := by
  have hrun : (playQuestion .ascii (fun s e => s.Enabled e ∧ s.BetweenTouches e) sampleQuestion
      (fun _ => 0) (drag 1 (inList 1) (onSlot 1) ++
        .dropCompletion 0 :: List.replicate 5 (.animationCompletion 0) ++
        [.touchBegan 0 (inList 0) ⟨0, 0⟩])).any
      (fun s => s.touch.isSome) = true := by decide +kernel
  obtain ⟨v, s, hv, hreach, htouch⟩ := exists_run_of_playQuestion hrun
  exact ⟨v, s, hv, hreach, htouch, (touch_keeps_start_point hreach).1⟩

/-- Touches and completions as UIKit delivers them. -/
def DragRun (s : QuestionRun) (e : Event) : Prop :=
  s.Enabled e ∧ e.isDrag = true ∧ s.AtRest e

instance (s : QuestionRun) (e : Event) : Decidable (s.DragRun e) := by
  unfold DragRun; infer_instance

/-- Piece `1` is dropped on its slot, a touch begins on piece `0`, which stands before it, and the
completion of the drop runs. -/
def completionDuringTouch : List Event :=
  drag 1 (inList 1) (onSlot 1) ++ [.touchBegan 0 (inList 0) ⟨0, 0⟩, .dropCompletion 0]

/-- The completion of an accepted drop takes the start point from a touch that began meanwhile: the
next move is allowed and traps. -/
theorem completion_clears_start_point :
    ∃ v s, AIMQuestionContentView.setData .ascii sampleQuestion (fun _ => 0) = .ok v ∧
      Reaches (step .ascii) DragRun (start v) s ∧
      s.touch.isSome = true ∧ s.view.centerfirtPoint = none ∧
      s.DragRun (.touchMoved offSlots) ∧
      s.step .ascii (.touchMoved offSlots) = .error .missingStartPoint := by
  have hrun : (playQuestion .ascii DragRun sampleQuestion (fun _ => 0) completionDuringTouch).any
      (fun s => s.touch.isSome && s.view.centerfirtPoint.isNone &&
        decide (s.DragRun (.touchMoved offSlots)) &&
        decide (trap (s.step .ascii (.touchMoved offSlots)) = some .missingStartPoint)) = true := by
    decide +kernel
  obtain ⟨v, s, hv, hreach, hend⟩ := exists_run_of_playQuestion hrun
  simp only [Bool.and_eq_true, decide_eq_true_eq, Option.isNone_iff_eq_none, trap_eq_some] at hend
  obtain ⟨⟨⟨htouch, hnone⟩, hmove⟩, htrap⟩ := hend
  exact ⟨v, s, hv, hreach, htouch, hnone, hmove, htrap⟩

end QuestionRun

end Imijun
