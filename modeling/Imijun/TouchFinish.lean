import Imijun.RunFacts

/-!
# The end of a touch

A touch disables the scroll view and hides its piece; `endMovedAIMPieceView`, the completions and
`cancelTouch` each undo a part of that.

* `TouchInv`: what the view shows of the touch and of the pending drops.
* `finished_touches_restore`: when every touch ends in a drop, or in a resignation that finds the
  start point, a view at rest is fully restored, and every piece can be dragged again.
* `system_cancel_sticks`, `resign_after_completion_sticks`: the two ways out that restore nothing.
-/

namespace Imijun

open Transition Fallible Pointwise

namespace QuestionRun

variable {ui : Platform} {s s' : QuestionRun} {e : Event}

/-- The piece is dragged, or its drop is pending. -/
def Held (s : QuestionRun) (p : Nat) : Prop :=
  (∃ t, s.touch = some t ∧ t.piece = p) ∨ ∃ c ∈ s.drops, c.piece = p

theorem Held.dropped {t : Touch} (ht : s.touch = some t) {q : Nat} (h : s.Held q)
    (v : AIMQuestionContentView) {c : DropCompletion} (hc : c.piece = t.piece) :
    (s.dropped v t.piece c).Held q := by
  rcases h with ⟨u, hu, rfl⟩ | ⟨d, hd, hdq⟩
  · obtain rfl := Option.some.inj (ht.symm.trans hu)
    exact .inr ⟨c, List.mem_append_right _ (List.mem_singleton_self _), hc⟩
  · exact .inr ⟨d, List.mem_append_left _ hd, hdq⟩

theorem Held.completed {i : Nat} {c : DropCompletion} (hi : s.drops[i]? = some c) {q : Nat}
    (h : s.Held q) (hq : q ≠ c.piece) (v : AIMQuestionContentView) (animations : List Animation) :
    (s.completed i c v animations).Held q := by
  rcases h with htouch | ⟨d, hd, hdq⟩
  · exact .inl htouch
  · refine .inr ⟨d, mem_eraseIdx_of_ne hi hd ?_, hdq⟩
    rintro rfl
    exact hq hdq.symm

/-- How the state of the view is tied to the touch and to the pending completions. -/
structure TouchInv (s : QuestionRun) : Prop where
  /-- the proxy is shown while there is a start point only -/
  proxy : s.view.centerfirtPoint = none → s.view.currentSelectPieceView.isHidden = true
  /-- the list scrolls when no touch is in progress, and then only -/
  scroll : s.view.listPieceView.scrollEnabled = s.touch.isNone ∧
    s.view.listPieceView.scrollInteractionEnabled = s.touch.isNone
  chosen : ∀ t, s.touch = some t → s.view.currentSelectPieceViewOnScrollview = some t.piece
  hidden : ∀ p ∈ s.view.listPieceView.pieceViewArray,
    (s.view.listPieceView.pieceView p).isHidden = true → s.Held p
  /-- the list is disabled while the return of a wrong drop is pending only -/
  list : s.view.listPieceView.isUserInteractionEnabled = false → ∃ p, .returned p ∈ s.drops
  /-- a start point belongs to the touch or to a pending drop -/
  start : s.touch = none → s.drops = [] → s.view.centerfirtPoint = none
  /-- the view is disabled while the row is being widened only -/
  content : s.view.isUserInteractionEnabled = false → ∃ a ∈ s.animations, a ≠ .answerHidden

/-- The touch ends in a drop, or in a resignation while its start point is there. -/
def FinishesTouch (s : QuestionRun) : Event → Prop
  | .touchCancelled => False
  | .willResignActive => s.touch.isSome = true → s.view.centerfirtPoint.isSome = true
  | _ => True

instance (s : QuestionRun) (e : Event) : Decidable (s.FinishesTouch e) :=
  match e with
  | .touchCancelled => instDecidableFalse
  | .willResignActive => inferInstanceAs (Decidable (_ → _))
  | .touchBegan _ _ _ | .touchMoved _ | .touchEnded | .hintCase2 _ | .btnShowHint
  | .showTextPattern | .touchDragOutside | .btnShowEnglishHint | .showEnglishTextPattern
  | .dropCompletion _ | .animationCompletion _ => instDecidableTrue

/-! ## The start -/

theorem touchInv_start {question : AIMQuestion} {v : AIMQuestionContentView}
    (h : Started ui question v) : TouchInv (QuestionRun.start v) := by
  obtain ⟨draws, pattern, data, list, slots, hlist, -, rfl⟩ := h
  have hfilled := (AIMListPieceView.setData_pieces hlist).filled
  refine ⟨fun _ => rfl, ⟨hfilled.scrollEnabled, hfilled.scrollInteractionEnabled⟩,
    fun t ht => (by cases ht), fun p hp hhidden => ?_, fun hlist => ?_, fun _ _ => rfl,
    fun h => (by cases h)⟩
  · have hp : p ∈ list.pieceViewArray := hp
    rw [hfilled.pieceViewArray, List.mem_range] at hp
    cases (hfilled.visible p hp).symm.trans hhidden
  · cases hfilled.isUserInteractionEnabled.symm.trans hlist

/-! ## One step -/

/-- A step that changes nothing of a drag keeps the invariant. -/
theorem TouchInv.of_sameDrag (hs : s.TouchInv) {v : AIMQuestionContentView}
    (same : SameDrag s.view v) {animations : List Animation}
    (content : v.isUserInteractionEnabled = false → ∃ a ∈ animations, a ≠ .answerHidden) :
    TouchInv { s with view := v, animations := animations } where
  proxy h := same.proxyHidden.trans (hs.proxy (same.centerfirtPoint.symm.trans h))
  scroll := ⟨same.scrollEnabled.trans hs.scroll.1, same.scrollInteraction.trans hs.scroll.2⟩
  chosen t ht := same.onScrollview.trans (hs.chosen t ht)
  hidden p hp hhidden := hs.hidden p (same.pieceViewArray ▸ hp) (same.pieceView ▸ hhidden)
  list h := hs.list (same.listInteraction.symm.trans h)
  start ht hd := same.centerfirtPoint.trans (hs.start ht hd)
  content := content

/-- Running the `i`-th animation leaves an animation pending that will enable the view again. -/
theorem content_runAnimation (hs : s.TouchInv) {i : Nat} {a : Animation}
    (hi : s.animations[i]? = some a)
    (h : (s.view.runAnimation ui a).1.isUserInteractionEnabled = false) :
    ∃ b ∈ s.animations.eraseIdx i ++ (s.view.runAnimation ui a).2, b ≠ .answerHidden := by
  match a with
  | .blur (left + 2) => exact ⟨.blur (left + 1), by simp [AIMQuestionContentView.runAnimation]⟩
  | .blur 0 | .blur 1 => exact ⟨.expanded, by simp [AIMQuestionContentView.runAnimation]⟩
  | .expanded =>
    simp only [AIMQuestionContentView.runAnimation] at h
    split at h <;> cases h
  | .answerHidden =>
    -- the last animation leaves the flag alone, so another one is to set it
    obtain ⟨b, hb, hne⟩ := hs.content h
    exact ⟨b, List.mem_append_left _ (mem_eraseIdx_of_ne hi hb hne), hne⟩

theorem touchInv_began (hs : s.TouchInv) (hnone : s.touch = none) {p : Nat}
    {location offset : CGPoint} {slot : AIMPatternPiece} :
    TouchInv { s with
      view := AIMQuestionContentView.chosen
        { s.view with listPieceView := s.view.listPieceView.setScroll false } p location offset slot
      touch := some ⟨p, s.view.centerInSelf p offset⟩ } where
  proxy h := by cases h
  scroll := ⟨rfl, rfl⟩
  chosen t ht := by obtain rfl := Option.some.inj ht; rfl
  hidden q hq hhidden := by
    by_cases hqp : q = p
    · exact .inl ⟨_, rfl, hqp.symm⟩
    · have hold : (s.view.listPieceView.pieceView q).isHidden = true := by
        simpa [AIMQuestionContentView.chosen, AIMListPieceView.setScroll, hqp] using hhidden
      rcases hs.hidden q hq hold with ⟨t, ht, -⟩ | hdrop
      · cases hnone.symm.trans ht
      · exact .inr hdrop
  list h := hs.list h
  start ht := by cases ht
  content := hs.content

theorem touchInv_accepted (hs : s.TouchInv) {t : Touch} (ht : s.touch = some t)
    {slot : AIMPatternPiece} {k : Nat} {list : AIMListPieceView}
    (hlist : s.view.listPieceView.reRender = .ok list) :
    TouchInv (s.dropped (s.view.accepted slot k list) t.piece (.accepted k t.piece)) where
  proxy h := hs.proxy h
  scroll := ⟨rfl, rfl⟩
  chosen u hu := by cases hu
  hidden q hq hhidden := by
    have hsame := AIMListPieceView.reRender_same hlist
    have hq : q ∈ s.view.listPieceView.pieceViewArray := hsame.pieceViewArray ▸ hq
    exact (hs.hidden q hq ((hsame.isHidden q).symm.trans hhidden)).dropped ht _ rfl
  list h := by cases h
  start _ hd := by simp [dropped] at hd
  content := hs.content

theorem touchInv_wrong (hs : s.TouchInv) {t : Touch} (ht : s.touch = some t) {start : CGPoint}
    {failure : List Call} :
    TouchInv (s.dropped (s.view.rejected failure start) t.piece (.returned t.piece)) where
  proxy h := hs.proxy h
  scroll := ⟨rfl, rfl⟩
  chosen u hu := by cases hu
  hidden q hq hhidden := (hs.hidden q hq hhidden).dropped ht _ rfl
  list _ := ⟨t.piece, List.mem_append_right _ (List.mem_singleton_self _)⟩
  start _ hd := by simp [dropped] at hd
  content := hs.content

/-- A resignation without a start point, when no touch is in progress. -/
theorem touchInv_resignedIdle (hs : s.TouchInv) {w : AIMQuestionContentView}
    (same : SameDrag s.view w)
    (content : w.isUserInteractionEnabled = s.view.isUserInteractionEnabled)
    (hnone : s.touch = none) : TouchInv { s with view := w, touch := none } := by
  have hinv : TouchInv { s with view := w, animations := s.animations } :=
    hs.of_sameDrag same fun h => hs.content (content ▸ h)
  rwa [hnone] at hinv

theorem touchInv_resigned (hs : s.TouchInv) {w : AIMQuestionContentView} {p : Option Nat}
    {start : CGPoint} (same : SameDrag s.view w)
    (content : w.isUserInteractionEnabled = s.view.isUserInteractionEnabled)
    (hempty : p = none → s.view.listPieceView.pieceViewArray = [])
    (hpiece : p.isSome = true → p = s.view.currentSelectPieceViewOnScrollview) :
    TouchInv { s with view := w.restored p start, touch := none } where
  proxy _ := rfl
  scroll := ⟨rfl, rfl⟩
  chosen t ht := by cases ht
  hidden q hq hhidden := by
    cases p with
    | none =>
      have hq : q ∈ s.view.listPieceView.pieceViewArray := same.pieceViewArray ▸ hq
      rw [hempty rfl] at hq
      cases hq
    | some p =>
      have hq : q ∈ s.view.listPieceView.pieceViewArray := same.pieceViewArray ▸ hq
      have hhidden : ((w.listPieceView.hidePiece p false).pieceView q).isHidden = true := hhidden
      rw [AIMListPieceView.hidePiece_pieceView] at hhidden
      split_ifs at hhidden with hqp
      -- a piece other than the chosen one is not dragged, so its drop is pending
      rcases hs.hidden q hq (same.pieceView ▸ hhidden) with ⟨t, ht, rfl⟩ | hdrop
      · exact absurd (Option.some.inj ((hs.chosen t ht).symm.trans (hpiece rfl).symm)) hqp
      · exact .inr hdrop
  list h := by cases h
  start _ _ := rfl
  content h := hs.content (content ▸ h)

theorem touchInv_acceptedDone (hs : s.TouchInv) {i k p : Nat} {v : AIMQuestionContentView}
    (hi : s.drops[i]? = some (.accepted k p)) (done : s.view.AcceptedDone k p v) :
    TouchInv (s.completed i (.accepted k p) v [.blur 4]) where
  proxy _ := congrArg AIMPieceView.isHidden done.proxy
  scroll := by
    obtain ⟨t, -, hlist⟩ := AIMListPieceView.removePiece_ok.mp done.list
    have hv : (s.completed i (.accepted k p) v [.blur 4]).view.listPieceView = _ := hlist
    rw [hv]
    exact hs.scroll
  chosen t ht := done.onScrollview.trans (hs.chosen t ht)
  hidden q hq hhidden := by
    obtain ⟨t, -, hlist⟩ := AIMListPieceView.removePiece_ok.mp done.list
    have hq : q ∈ v.listPieceView.pieceViewArray := hq
    have hhidden : (v.listPieceView.pieceView q).isHidden = true := hhidden
    rw [hlist] at hq hhidden
    obtain ⟨hq, hqp⟩ := List.mem_filter.mp hq
    exact (hs.hidden q hq hhidden).completed hi (of_decide_eq_true hqp) _ _
  list h := by
    obtain ⟨t, -, hlist⟩ := AIMListPieceView.removePiece_ok.mp done.list
    have h : v.listPieceView.isUserInteractionEnabled = false := h
    rw [hlist] at h
    obtain ⟨q, hq⟩ := hs.list h
    exact ⟨q, mem_eraseIdx_of_ne hi hq (by simp)⟩
  start _ _ := done.centerfirtPoint
  content _ := ⟨.blur 4, by simp [completed], by simp⟩

theorem touchInv_returnedDone (hs : s.TouchInv) {i p : Nat}
    (hi : s.drops[i]? = some (.returned p)) :
    TouchInv (s.completed i (.returned p) (s.view.returnedCompletion p) []) where
  proxy _ := rfl
  scroll := hs.scroll
  chosen t ht := hs.chosen t ht
  hidden q hq hhidden := by
    have hhidden : ((s.view.listPieceView.hidePiece p false).pieceView q).isHidden = true := hhidden
    rw [AIMListPieceView.hidePiece_pieceView] at hhidden
    split_ifs at hhidden with hqp
    exact (hs.hidden q hq hhidden).completed hi hqp _ _
  list h := by cases h
  start _ _ := rfl
  content h := by simpa [completed] using hs.content h

/-- A step that finishes its touch keeps the invariant. -/
theorem touchInv_step (hs : s.TouchInv) (he : s.Enabled e) (hf : s.FinishesTouch e)
    (h : s.step ui e = .ok s') : s'.TouchInv := by
  cases step_outcome he h with
  | quiet _ same content =>
    exact hs.of_sameDrag same fun h => hs.content (content ▸ h)
  | began _ => exact touchInv_began hs he.1
  | accepted ht _ _ hlist => exact touchInv_accepted hs ht hlist
  | wrong ht _ _ _ _ => exact touchInv_wrong hs ht
  | cancelled => exact hf.elim
  | resignedIdle same content hnone =>
    refine touchInv_resignedIdle hs same content (Option.not_isSome_iff_eq_none.mp fun ht => ?_)
    cases hnone ▸ hf ht
  | resigned same content _ hempty hpiece =>
    exact touchInv_resigned hs same content hempty hpiece
  | acceptedDone hi done => exact touchInv_acceptedDone hs hi done
  | returnedDone hi => exact touchInv_returnedDone hs hi
  | animation hi =>
    exact hs.of_sameDrag (AIMQuestionContentView.runAnimation_sameDrag ui s.view _)
      (content_runAnimation hs hi)

/-! ## Runs -/

/-- Nothing of a touch is left in the view, and every piece of the list can be dragged. -/
structure Restored (s : QuestionRun) : Prop where
  proxy : s.view.currentSelectPieceView.isHidden = true
  centerfirtPoint : s.view.centerfirtPoint = none
  scrollInteraction : s.view.listPieceView.scrollInteractionEnabled = true
  scrollEnabled : s.view.listPieceView.scrollEnabled = true
  listInteraction : s.view.listPieceView.isUserInteractionEnabled = true
  visible : ∀ p ∈ s.view.listPieceView.pieceViewArray,
    (s.view.listPieceView.pieceView p).isHidden = false
  canBegin : ∀ p ∈ s.view.listPieceView.pieceViewArray, s.CanBegin p

/-- Without a pending animation the view takes touches. -/
theorem TouchInv.interactive (hs : s.TouchInv) (ha : s.animations = []) :
    s.view.isUserInteractionEnabled = true :=
  Bool.eq_true_of_not_eq_false fun h => by simpa [ha] using hs.content h

theorem TouchInv.restored (hs : s.TouchInv) (ht : s.touch = none) (hd : s.drops = [])
    (ha : s.animations = []) : s.Restored := by
  have hscroll : s.view.listPieceView.scrollEnabled = true ∧
      s.view.listPieceView.scrollInteractionEnabled = true := by simpa [ht] using hs.scroll
  have hlist : s.view.listPieceView.isUserInteractionEnabled = true :=
    Bool.eq_true_of_not_eq_false fun h => by simpa [hd] using hs.list h
  have hvisible : ∀ p ∈ s.view.listPieceView.pieceViewArray,
      (s.view.listPieceView.pieceView p).isHidden = false := fun p hp =>
    Bool.eq_false_iff.mpr fun h => by simpa [Held, ht, hd] using hs.hidden p hp h
  exact ⟨hs.proxy (hs.start ht hd), hs.start ht hd, hscroll.2, hscroll.1, hlist, hvisible,
    fun p hp => ⟨ht, hp, hvisible p hp, hs.interactive ha, hlist, hscroll.2⟩⟩

/-- The list scrolls again after a step without a touch exactly when the step finishes its touch. -/
theorem scrollEnabled_step (hs : s.TouchInv) (he : s.Enabled e) (h : s.step ui e = .ok s') :
    (s'.touch = none → s'.view.listPieceView.scrollEnabled = true) ↔ s.FinishesTouch e := by
  refine ⟨fun hscroll => ?_, fun hf ht => ?_⟩
  · by_contra hf
    cases step_outcome he h with
    | cancelled =>
      have hoff : s.view.listPieceView.scrollEnabled = false := by
        rw [hs.scroll.1, Option.isNone_eq_false_iff]; exact he
      cases hoff.symm.trans (hscroll rfl)
    | resignedIdle same _ hnone =>
      simp only [FinishesTouch, hnone, Option.isSome_none, Bool.false_eq_true, imp_false,
        not_not] at hf
      have hoff : s.view.listPieceView.scrollEnabled = false := by
        rw [hs.scroll.1, Option.isNone_eq_false_iff]; exact hf
      cases (same.scrollEnabled.trans hoff).symm.trans (hscroll rfl)
    | resigned _ _ hsome _ _ => exact hf fun _ => Option.isSome_iff_exists.mpr ⟨_, hsome⟩
    | quiet hquiet _ _ => exact hf (by cases e <;> trivial)
    | began _ => exact hf trivial
    | accepted _ _ _ _ => exact hf trivial
    | wrong _ _ _ _ _ => exact hf trivial
    | acceptedDone _ _ => exact hf trivial
    | returnedDone _ => exact hf trivial
    | animation _ => exact hf trivial
  · rw [(touchInv_step hs he hf h).scroll.1, ht]; rfl

/-- In every run whose touches all end in a drop, or in a resignation that still finds the start
point, a state without a touch and without a pending animation is restored. The condition is exact:
a step that breaks it leaves the list unable to scroll with no touch in progress. -/
theorem finished_touches_restore {question : AIMQuestion} {v : AIMQuestionContentView}
    (hstart : Started ui question v)
    (h : Reaches (step ui) (fun s e => s.Enabled e ∧ s.FinishesTouch e) (QuestionRun.start v) s) :
    (s.touch = none → s.drops = [] → s.animations = [] → s.Restored) ∧
      ∀ e s', s.Enabled e → s.step ui e = .ok s' →
        ((s'.touch = none → s'.view.listPieceView.scrollEnabled = true) ↔ s.FinishesTouch e) := by
  have hs : s.TouchInv := h.inv TouchInv (touchInv_start hstart)
    fun _ _ _ hs he hstep => touchInv_step hs he.1 he.2 hstep
  exact ⟨hs.restored, fun e s' he hstep => scrollEnabled_step hs he hstep⟩

/-- A completed drop, a wrong one and a resignation during a touch. -/
def finishedTouches : List Event :=
  drag 1 (inList 1) (onSlot 1) ++
    .dropCompletion 0 :: List.replicate 5 (.animationCompletion 0) ++
    drag 0 (inList 0) offSlots ++
    [.dropCompletion 0, .touchBegan 2 (inList 1) ⟨0, 0⟩, .willResignActive]

/-- A run of this kind that ends at rest with two pieces left. -/
theorem finished_touches_restore_two_left :
    ∃ v s, AIMQuestionContentView.setData .ascii sampleQuestion (fun _ => 0) = .ok v ∧
      Reaches (step .ascii) (fun s e => s.Enabled e ∧ s.FinishesTouch e) (QuestionRun.start v) s ∧
      s.view.listPieceView.countPieceAnswer = 2 ∧ s.Restored := by
  have hrun : (playQuestion .ascii (fun s e => s.Enabled e ∧ s.FinishesTouch e) sampleQuestion
      (fun _ => 0) finishedTouches).any (fun s => s.touch.isNone && s.drops.isEmpty &&
        s.animations.isEmpty && decide (s.view.listPieceView.countPieceAnswer = 2)) = true := by
    decide +kernel
  obtain ⟨v, s, hv, hreach, hend⟩ := exists_run_of_playQuestion hrun
  simp only [Bool.and_eq_true, decide_eq_true_eq, Option.isNone_iff_eq_none,
    List.isEmpty_iff] at hend
  obtain ⟨⟨⟨ht, hd⟩, ha⟩, hcount⟩ := hend
  exact ⟨v, s, hv, hreach, hcount,
    (finished_touches_restore (started_of_setData hv) hreach).1 ht hd ha⟩

/-! ## Touches that are not finished -/

/-- The view is at rest, but a listed piece is hidden and nothing can be touched. -/
def Stuck (s : QuestionRun) : Prop :=
  s.touch = none ∧ s.drops = [] ∧ s.animations = [] ∧
    (∃ p ∈ s.view.listPieceView.pieceViewArray,
      (s.view.listPieceView.pieceView p).isHidden = true) ∧
    s.view.listPieceView.scrollInteractionEnabled = false ∧
    s.view.listPieceView.scrollEnabled = false

instance (s : QuestionRun) : Decidable s.Stuck := by
  unfold Stuck; infer_instance

/-- A touch that the system cancels leaves its piece hidden and the list disabled. -/
theorem system_cancel_sticks :
    ∃ v s, AIMQuestionContentView.setData .ascii sampleQuestion (fun _ => 0) = .ok v ∧
      Reaches (step .ascii) Enabled (QuestionRun.start v) s ∧ s.Stuck := by
  have hrun : (playQuestion .ascii Enabled sampleQuestion (fun _ => 0)
      [.touchBegan 0 (inList 0) ⟨0, 0⟩, .touchCancelled]).any (fun s => s.Stuck) = true := by
    decide +kernel
  obtain ⟨v, s, hv, hreach, hend⟩ := exists_run_of_playQuestion hrun
  exact ⟨v, s, hv, hreach, of_decide_eq_true hend⟩

/-- So does a resignation during a touch whose start point the completion of an earlier drop has
cleared: `cancelTouch` returns early. -/
theorem resign_after_completion_sticks :
    ∃ v s, AIMQuestionContentView.setData .ascii sampleQuestion (fun _ => 0) = .ok v ∧
      Reaches (step .ascii) (fun s e => s.Enabled e ∧ s.AtRest e) (QuestionRun.start v) s ∧
      s.Stuck := by
  have hrun : (playQuestion .ascii (fun s e => s.Enabled e ∧ s.AtRest e) sampleQuestion
      (fun _ => 0) (drag 1 (inList 1) (onSlot 1) ++
        [.touchBegan 0 (inList 0) ⟨0, 0⟩, .dropCompletion 0, .willResignActive] ++
        List.replicate 5 (.animationCompletion 0))).any
      (fun s => s.Stuck) = true := by decide +kernel
  obtain ⟨v, s, hv, hreach, hend⟩ := exists_run_of_playQuestion hrun
  exact ⟨v, s, hv, hreach, of_decide_eq_true hend⟩

end QuestionRun

end Imijun
