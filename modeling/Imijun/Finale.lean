import Imijun.Score

/-!
# The finale of a question

An accepted drop starts a chain of animations, and `animationPieceFixed` tests for the end of the
question when the chain has widened the row. A chain that finds the question finished plays the
finale: the list slides down, its English hint button goes off, and the complete sound is played.
Every chain makes the test, not only the chain of the last piece.

* `SameEnding`: nothing of the finale has changed. `step_chain`: what an event does to the chains.
* `FinaleInv`: the list has slid down as often as finales were begun.
* `finales_of_run`: in every run in which no touch begins on a piece whose accepted drop is pending,
  the finales are as many as the chains that were open when the last piece left the list.
-/

namespace Imijun

open Transition Fallible List

/-- A chain that has not come to the test for the end of the question. -/
def Animation.isOpen : Animation → Bool
  | .blur _ | .expanded => true
  | .answerHidden => false

/-- A finale that has begun, and whose sound is still to be played. -/
def Animation.isSliding : Animation → Bool
  | .blur _ | .expanded => false
  | .answerHidden => true

/-! ## Handlers that leave the finale alone -/

namespace AIMListPieceView

variable {l l' : AIMListPieceView}

/-- What `hideAnwserView` changes. -/
def ending (l : AIMListPieceView) : CGRect × Bool := (l.frame, l.englishHintInteractionEnabled)

theorem ending_showHint (l : AIMListPieceView) (b : Bool) : (l.showHint b).ending = l.ending := by
  unfold showHint
  generalize l.hintLabelArray = labels
  induction labels generalizing l with
  | nil => rfl
  | cons t labels ih => exact ih (l.modifyLabel t fun v => { v with isHidden := !b })

theorem ending_reRenderLoop {ps : List Nat} {index : Nat} {w : ℚ} {r : AIMListPieceView × ℚ}
    (h : reRenderLoop ps index w l = .ok r) : r.1.ending = l.ending := by
  induction ps generalizing index w l with
  | nil =>
    obtain rfl := Except.ok.inj h
    rfl
  | cons p ps ih =>
    rcases reRenderLoop_cons h with ⟨-, h⟩ | ⟨-, t, -, h⟩
    · exact (ih h).trans rfl
    · exact (ih h).trans rfl

theorem ending_reRender (h : l.reRender = .ok l') : l'.ending = l.ending := by
  obtain ⟨r, hloop, hr⟩ := bind_eq_ok.mp h
  obtain rfl := Except.ok.inj hr
  exact ending_reRenderLoop hloop

theorem ending_removePiece {p : Nat} (h : l.removePiece p = .ok l') : l'.ending = l.ending := by
  obtain ⟨t, -, rfl⟩ := removePiece_ok.mp h
  rfl

theorem ending_setDataLoop {ui : Platform} {hints : List AIMPiece} {draws : Nat → Nat}
    {entries : List (AIMPiece × Nat)} {count index : Nat} {w : ℚ} {r : AIMListPieceView × ℚ}
    (h : setDataLoop ui hints draws count (entries.map Prod.fst) (entries.map Prod.snd) index w l
      = .ok r) : r.1.ending = l.ending := by
  induction count generalizing entries index w l with
  | zero =>
    obtain rfl := Except.ok.inj h
    rfl
  | succ count ih =>
    obtain ⟨e, view, hint, -, -, -, h⟩ := setDataLoop_succ.mp h
    exact (ih h).trans rfl

/-- The list of a fresh view stands in its place, and its hint button takes taps. -/
theorem ending_setData {ui : Platform} {frame : CGRect} {answers hints : List AIMPiece}
    {draws : Nat → Nat}
    (h : (loadFromNibWithBundle frame).setData ui answers hints draws = .ok l) :
    l.ending = (frame, true) := by
  obtain ⟨r, hloop, hr⟩ := bind_eq_ok.mp h
  obtain rfl := Except.ok.inj hr
  exact ending_setDataLoop hloop

end AIMListPieceView

namespace AIMQuestionContentView

variable {ui : Platform} {v v' : AIMQuestionContentView} {p i k : Nat}

/-- How often the sound of a finished question was played. -/
def completeSounds (v : AIMQuestionContentView) : Nat :=
  v.calls.count (.playAudio .kSoundComplete)

/-- Nothing of the finale differs. -/
structure SameEnding (v v' : AIMQuestionContentView) : Prop where
  sounds : v'.completeSounds = v.completeSounds
  list : v'.listPieceView.ending = v.listPieceView.ending

theorem SameEnding.refl (v : AIMQuestionContentView) : SameEnding v v := ⟨rfl, rfl⟩

theorem SameEnding.trans {v'' : AIMQuestionContentView} (h : SameEnding v v')
    (h' : SameEnding v' v'') : SameEnding v v'' :=
  ⟨h'.sounds.trans h.sounds, h'.list.trans h.list⟩

/-- Calls other than the complete sound, and the list left alone. -/
theorem SameEnding.of_calls {calls : List Call} (hcalls : v'.calls = v.calls ++ calls)
    (hother : .playAudio .kSoundComplete ∉ calls)
    (hlist : v'.listPieceView.ending = v.listPieceView.ending) : SameEnding v v' := by
  refine ⟨?_, hlist⟩
  unfold completeSounds
  rw [hcalls, count_append, count_eq_zero.mpr hother, Nat.add_zero]

theorem btnShowHint_ending (v : AIMQuestionContentView) : SameEnding v v.btnShowHint := by
  unfold btnShowHint
  split
  · exact .refl v
  · exact .of_calls rfl (by simp) rfl

theorem showTextPattern_ending (v : AIMQuestionContentView) :
    SameEnding v v.showTextPattern := by
  unfold showTextPattern
  split
  · exact ⟨rfl, rfl⟩
  · exact .refl v

theorem btnShowEnglishHint_ending (v : AIMQuestionContentView) :
    SameEnding v v.btnShowEnglishHint := by
  unfold btnShowEnglishHint
  split
  · exact .refl v
  · exact .of_calls rfl (by simp) (AIMListPieceView.ending_showHint _ _)

theorem showEnglishTextPattern_ending (v : AIMQuestionContentView) :
    SameEnding v v.showEnglishTextPattern := by
  unfold showEnglishTextPattern
  split
  · exact ⟨rfl, AIMListPieceView.ending_showHint _ _⟩
  · exact .refl v

theorem hintCase2_ending (h : v.hintCase2 i = .ok v') : SameEnding v v' := by
  obtain ⟨tapped, -, h⟩ := bind_eq_ok.mp h
  dsimp only at h
  split at h
  · obtain ⟨w, hw, h⟩ := bind_eq_ok.mp h
    obtain ⟨slots, -, hw⟩ := bind_eq_ok.mp hw
    obtain rfl := Except.ok.inj hw
    obtain ⟨bar, -, h⟩ := bind_eq_ok.mp h
    obtain rfl := Except.ok.inj h
    exact ⟨rfl, rfl⟩
  · obtain ⟨bar, -, h⟩ := bind_eq_ok.mp h
    obtain rfl := Except.ok.inj h
    exact ⟨rfl, rfl⟩

/-- A drop plays the sound of a failure, if any. -/
theorem endMovedAIMPieceView_ending {completion : DropCompletion}
    (h : v.endMovedAIMPieceView p = .ok (v', completion)) : SameEnding v v' := by
  obtain ⟨⟨w, c⟩, hend, h⟩ := bind_eq_ok.mp h
  obtain ⟨rfl, rfl⟩ := Prod.mk.inj (Except.ok.inj h)
  obtain ⟨slot, -, hend⟩ := bind_eq_ok.mp hend
  split at hend
  · obtain ⟨w', haccept, hend⟩ := bind_eq_ok.mp hend
    obtain ⟨rfl, -⟩ := Prod.mk.inj (Except.ok.inj hend)
    obtain ⟨list, hlist, haccept⟩ := bind_eq_ok.mp haccept
    obtain rfl := Except.ok.inj haccept
    have hending := AIMListPieceView.ending_reRender hlist
    exact ⟨rfl, hending⟩
  · obtain ⟨w', hreject, hend⟩ := bind_eq_ok.mp hend
    obtain ⟨rfl, -⟩ := Prod.mk.inj (Except.ok.inj hend)
    obtain ⟨start, -, hreject⟩ := bind_eq_ok.mp hreject
    obtain rfl := Except.ok.inj hreject
    refine .of_calls (append_assoc ..) ?_ rfl
    split <;> simp

theorem acceptedDone_ending (done : v.AcceptedDone k p v') : SameEnding v v' := by
  refine .of_calls done.calls ?_ (AIMListPieceView.ending_removePiece done.list)
  split <;> simp

theorem resignActive_ending (h : v.resignActive = .ok v') : SameEnding v v' := by
  have hhide : SameEnding v { v with listPieceView := v.listPieceView.showHint false } :=
    ⟨rfl, AIMListPieceView.ending_showHint _ _⟩
  have hshow := hhide.trans (showTextPattern_ending _)
  rcases cancelTouch_ok h with ⟨-, rfl⟩ | ⟨start, p, -, rfl, -, -⟩
  · exact hshow
  · refine hshow.trans ⟨rfl, ?_⟩
    cases p <;> rfl

end AIMQuestionContentView

/-! ## The end of an animation -/

namespace AIMQuestionContentView

/-- The finales that begin when animation `a` ends. -/
def begun (v : AIMQuestionContentView) (a : Animation) : Nat :=
  if a = .expanded ∧ v.checkFinish = true then 1 else 0

/-- A finale that begins is not finished yet, and a finale that ends plays the sound once. -/
theorem runAnimation_sounds (ui : Platform) (v : AIMQuestionContentView) (a : Animation) :
    (v.runAnimation ui a).1.completeSounds + (v.runAnimation ui a).2.countP Animation.isSliding =
      v.completeSounds + [a].countP Animation.isSliding + v.begun a := by
  match a with
  | .blur (left + 2) => rfl
  | .blur 0 | .blur 1 =>
    simp only [runAnimation, expandPieceWidth]
    split <;> rfl
  | .expanded =>
    simp only [runAnimation, begun, true_and]
    split <;> rfl
  | .answerHidden =>
    have hsounds : (v.runAnimation ui .answerHidden).1.completeSounds = v.completeSounds + 1 := by
      simp [runAnimation, completeSounds]
    exact hsounds

/-- A chain goes on until it makes the test. -/
theorem runAnimation_open (ui : Platform) (v : AIMQuestionContentView) (a : Animation) :
    (v.runAnimation ui a).2.countP Animation.isOpen + v.begun a ≤ [a].countP Animation.isOpen ∧
      (v.checkFinish = true →
        (v.runAnimation ui a).2.countP Animation.isOpen + v.begun a =
          [a].countP Animation.isOpen) := by
  match a with
  | .blur (left + 2) => exact ⟨le_rfl, fun _ => rfl⟩
  | .blur 0 | .blur 1 => exact ⟨le_rfl, fun _ => rfl⟩
  | .expanded =>
    simp only [runAnimation, begun, true_and]
    split
    · exact ⟨le_rfl, fun _ => rfl⟩
    · next hfinish => exact ⟨Nat.zero_le _, fun h => absurd h hfinish⟩
  | .answerHidden => exact ⟨le_rfl, fun _ => rfl⟩

/-- The list of a view in which `m` finales have begun. -/
def slid (m : Nat) : CGRect × Bool :=
  ({ kAnswerViewFrame with y := kAnswerViewFrame.y + m * (scrollViewFrame.height - 10) },
    decide (m = 0))

theorem slid_zero : slid 0 = (kAnswerViewFrame, true) := by
  simp [slid]

/-- A finale that begins moves the list. -/
theorem runAnimation_list (ui : Platform) {v : AIMQuestionContentView} {m : Nat}
    (hv : v.listPieceView.ending = slid m) (a : Animation) :
    (v.runAnimation ui a).1.listPieceView.ending = slid (m + v.begun a) := by
  match a with
  | .blur (left + 2) => exact hv
  | .blur 0 | .blur 1 =>
    simp only [runAnimation, expandPieceWidth]
    split <;> exact hv
  | .expanded =>
    simp only [runAnimation, begun, true_and]
    split
    · obtain ⟨hframe, -⟩ := Prod.mk.inj hv
      refine Prod.ext ?_ rfl
      show { v.listPieceView.frame with
        y := v.listPieceView.frame.y + scrollViewFrame.height - 10 } = _
      rw [hframe]
      simp only [slid, CGRect.mk.injEq, true_and, and_true]
      push_cast
      ring
    · exact hv
  | .answerHidden => exact hv

end AIMQuestionContentView

/-! ## Chains along a run -/

namespace QuestionRun

open AIMQuestionContentView (SameEnding slid)

variable {ui : Platform} {s s' : QuestionRun} {e : Event} {list : AIMListPieceView} {n : Nat}

/-- The chains that have not made the test yet. -/
def openChains (s : QuestionRun) : Nat := s.animations.countP Animation.isOpen

/-- The finales that have begun. -/
def finales (s : QuestionRun) : Nat :=
  s.view.completeSounds + s.animations.countP Animation.isSliding

/-- What an event does to the chains. -/
inductive ChainStep (ui : Platform) (s s' : QuestionRun) : Prop
  | kept (same : SameEnding s.view s'.view) (animations : s'.animations = s.animations)
      (pieces : s'.view.listPieceView.pieceViewArray = s.view.listPieceView.pieceViewArray)
  | opened (same : SameEnding s.view s'.view)
      (animations : s'.animations = s.animations ++ [.blur 4])
      (pieces : s'.view.listPieceView.countPieceAnswer + 1 =
        s.view.listPieceView.countPieceAnswer)
  | ran {i : Nat} {a : Animation} (hi : s.animations[i]? = some a)
      (view : s'.view = (s.view.runAnimation ui a).1)
      (animations : s'.animations = s.animations.eraseIdx i ++ (s.view.runAnimation ui a).2)

/-- Only the end of an animation changes what the finale changes. -/
theorem ending_step (he : s.Enabled e) (hother : ∀ i, e ≠ .animationCompletion i)
    (h : s.step ui e = .ok s') : SameEnding s.view s'.view := by
  cases e with
  | touchBegan p location offset =>
    obtain ⟨v, hv, h⟩ := bind_eq_ok.mp h
    obtain rfl := Except.ok.inj h
    obtain ⟨slot, -, rfl⟩ := AIMQuestionContentView.tapAIMPieceView_ok.mp hv
    exact ⟨rfl, rfl⟩
  | touchMoved location =>
    obtain ⟨v, hv, h⟩ := bind_eq_ok.mp h
    obtain rfl := Except.ok.inj h
    obtain ⟨c, rfl⟩ := AIMQuestionContentView.movedChoosePieceView_ok hv
    exact ⟨rfl, rfl⟩
  | touchEnded =>
    obtain ⟨t, ht⟩ := Option.isSome_iff_exists.mp he
    simp only [step, ht] at h
    obtain ⟨⟨v, completion⟩, hv, h⟩ := bind_eq_ok.mp h
    obtain rfl := Except.ok.inj h
    exact AIMQuestionContentView.endMovedAIMPieceView_ending hv
  | touchCancelled => exact Except.ok.inj h ▸ .refl _
  | willResignActive =>
    obtain ⟨v, hv, h⟩ := bind_eq_ok.mp h
    obtain rfl := Except.ok.inj h
    exact AIMQuestionContentView.resignActive_ending hv
  | hintCase2 i =>
    obtain ⟨v, hv, h⟩ := bind_eq_ok.mp h
    obtain rfl := Except.ok.inj h
    exact AIMQuestionContentView.hintCase2_ending hv
  | btnShowHint => exact Except.ok.inj h ▸ AIMQuestionContentView.btnShowHint_ending s.view
  | showTextPattern =>
    exact Except.ok.inj h ▸ AIMQuestionContentView.showTextPattern_ending s.view
  | touchDragOutside => cases h
  | btnShowEnglishHint =>
    exact Except.ok.inj h ▸ AIMQuestionContentView.btnShowEnglishHint_ending s.view
  | showEnglishTextPattern =>
    exact Except.ok.inj h ▸ AIMQuestionContentView.showEnglishTextPattern_ending s.view
  | dropCompletion i =>
    cases step_outcome he h with
    | quiet hquiet _ _ => cases hquiet
    | acceptedDone _ done => exact AIMQuestionContentView.acceptedDone_ending done
    | returnedDone _ => exact ⟨rfl, rfl⟩
  | animationCompletion i => exact absurd rfl (hother i)

theorem step_chain (hs : s.PlacementInv list n) (he : s.Enabled e) (h : s.step ui e = .ok s') :
    s.ChainStep ui s' := by
  have hending (hother : ∀ i, e ≠ .animationCompletion i) := ending_step he hother h
  cases step_outcome he h with
  | quiet hquiet same _ =>
    refine .kept (hending fun i hi => ?_) rfl same.pieceViewArray
    rw [hi] at hquiet
    cases hquiet
  | began _ => exact .kept (hending fun _ => nofun) rfl rfl
  | accepted _ _ _ hlist =>
    exact .kept (hending fun _ => nofun) rfl (AIMListPieceView.reRender_same hlist).pieceViewArray
  | wrong _ _ _ _ _ => exact .kept (hending fun _ => nofun) rfl rfl
  | cancelled => exact .kept (.refl _) rfl rfl
  | resignedIdle same _ _ => exact .kept (hending fun _ => nofun) rfl same.pieceViewArray
  | @resigned w p start same _ _ _ _ =>
    refine .kept (hending fun _ => nofun) rfl ?_
    cases p <;> exact same.pieceViewArray
  | acceptedDone hi done =>
    exact .opened (hending fun _ => nofun) rfl (hs.length_acceptedDone hi done)
  | returnedDone _ => exact .kept (hending fun _ => nofun) (append_nil _) rfl
  | animation hi => exact .ran hi rfl rfl

theorem ChainStep.ran_counts {i : Nat} {a : Animation} (hi : s.animations[i]? = some a)
    (hview : s'.view = (s.view.runAnimation ui a).1)
    (hanimations : s'.animations = s.animations.eraseIdx i ++ (s.view.runAnimation ui a).2) :
    s'.finales = s.finales + s.view.begun a ∧
      s'.openChains + s.view.begun a ≤ s.openChains ∧
      (s.view.checkFinish = true → s'.openChains + s.view.begun a = s.openChains) := by
  have hsounds := AIMQuestionContentView.runAnimation_sounds ui s.view a
  obtain ⟨hless, hsame⟩ := AIMQuestionContentView.runAnimation_open ui s.view a
  have hsliding : s'.animations.countP Animation.isSliding + [a].countP Animation.isSliding =
      s.animations.countP Animation.isSliding +
        (s.view.runAnimation ui a).2.countP Animation.isSliding :=
    hanimations ▸ Tally.countP_replace hi _
  have hopen : s'.openChains + [a].countP Animation.isOpen =
      s.openChains + (s.view.runAnimation ui a).2.countP Animation.isOpen := by
    unfold openChains
    rw [hanimations]
    exact Tally.countP_replace hi _
  refine ⟨?_, ?_, fun hfinish => ?_⟩
  · unfold finales
    rw [hview]
    omega
  · omega
  · have := hsame hfinish
    omega

/-- The list has slid down as often as finales were begun, none before the last piece has left the
list, and never more often than pieces have been placed. -/
structure FinaleInv (n : Nat) (s : QuestionRun) : Prop where
  list : s.view.listPieceView.ending = slid s.finales
  unfinished : s.view.checkFinish = false → s.finales = 0
  placed : s.finales + s.openChains + s.view.listPieceView.countPieceAnswer ≤ n

theorem checkFinish_iff_count :
    s.view.checkFinish = true ↔ s.view.listPieceView.countPieceAnswer = 0 := by
  unfold AIMQuestionContentView.checkFinish
  exact decide_eq_true_iff

theorem checkFinish_congr
    (h : s'.view.listPieceView.pieceViewArray = s.view.listPieceView.pieceViewArray) :
    s'.view.checkFinish = s.view.checkFinish := by
  unfold AIMQuestionContentView.checkFinish AIMListPieceView.countPieceAnswer
  rw [h]

theorem finaleInv_step (hs : s.FinaleInv n) (h : s.ChainStep ui s') : s'.FinaleInv n := by
  have hplaced := hs.placed
  cases h with
  | kept same animations pieces =>
    have hfinales : s'.finales = s.finales := by
      unfold finales
      rw [same.sounds, animations]
    have hopen : s'.openChains = s.openChains := by
      unfold openChains
      rw [animations]
    refine ⟨?_, fun hfinish => ?_, ?_⟩
    · rw [same.list, hfinales]
      exact hs.list
    · rw [hfinales]
      exact hs.unfinished ((checkFinish_congr pieces).symm.trans hfinish)
    · unfold AIMListPieceView.countPieceAnswer
      rw [hfinales, hopen, pieces]
      exact hplaced
  | opened same animations pieces =>
    have hfinales : s'.finales = s.finales := by
      unfold finales
      rw [same.sounds, animations, countP_append]
      rfl
    have hopen : s'.openChains = s.openChains + 1 := by
      unfold openChains
      rw [animations, countP_append]
      rfl
    refine ⟨?_, fun _ => ?_, ?_⟩
    · rw [same.list, hfinales]
      exact hs.list
    · rw [hfinales]
      refine hs.unfinished (Bool.eq_false_iff.mpr fun hfinish => ?_)
      rw [checkFinish_iff_count] at hfinish
      omega
    · omega
  | @ran i a hi view animations =>
    obtain ⟨hfinales, hopen, -⟩ := ChainStep.ran_counts hi view animations
    have hpieces : s'.view.listPieceView.pieceViewArray = s.view.listPieceView.pieceViewArray := by
      rw [view]
      exact (AIMQuestionContentView.runAnimation_sameDrag ui s.view a).pieceViewArray
    refine ⟨?_, fun hfinish => ?_, ?_⟩
    · rw [view, hfinales]
      exact AIMQuestionContentView.runAnimation_list ui hs.list a
    · have hbefore := (checkFinish_congr hpieces).symm.trans hfinish
      have hnone : s.view.begun a = 0 := by
        unfold AIMQuestionContentView.begun
        rw [hbefore]
        exact if_neg fun h => Bool.false_ne_true h.2
      rw [hfinales, hs.unfinished hbefore, hnone]
    · unfold AIMListPieceView.countPieceAnswer at hplaced ⊢
      rw [hfinales, hpieces]
      omega

/-- A finished question opens no chain: what is open leads to a finale. -/
theorem chains_finished (hfinish : s.view.checkFinish = true) (h : s.ChainStep ui s') :
    s'.finales + s'.openChains = s.finales + s.openChains := by
  cases h with
  | kept same animations pieces =>
    unfold finales openChains
    rw [same.sounds, animations]
  | opened same animations pieces =>
    rw [checkFinish_iff_count] at hfinish
    omega
  | ran hi view animations =>
    obtain ⟨hfinales, -, hopen⟩ := ChainStep.ran_counts hi view animations
    have := hopen hfinish
    omega

/-- The last piece opens one more chain. -/
theorem chains_last (hunfinished : s.view.checkFinish = false) (h : s.ChainStep ui s')
    (hfinished : s'.view.checkFinish = true) :
    s'.finales = s.finales ∧ s'.openChains = s.openChains + 1 := by
  have hkept : s'.view.checkFinish ≠ s.view.checkFinish := by
    rw [hunfinished, hfinished]
    decide
  cases h with
  | kept same animations pieces => exact absurd (checkFinish_congr pieces) hkept
  | opened same animations pieces =>
    unfold finales openChains
    rw [same.sounds, animations, countP_append, countP_append]
    exact ⟨rfl, rfl⟩
  | @ran i a hi view animations =>
    refine absurd (checkFinish_congr ?_) hkept
    rw [view]
    exact (AIMQuestionContentView.runAnimation_sameDrag ui s.view a).pieceViewArray

/-! ## Runs -/

/-- Placement and the finale together. -/
def Ending (list : AIMListPieceView) (n : Nat) (s : QuestionRun) : Prop :=
  s.PlacementInv list n ∧ s.FinaleInv n

theorem ending_of_run {question : AIMQuestion} {v : AIMQuestionContentView}
    (hstart : Started ui question v) :
    ∃ list, Ending list (AIMListPieceView.pieceCount question.answers) (start v) ∧
      ∀ s e s', Ending list (AIMListPieceView.pieceCount question.answers) s →
        (s.Enabled e ∧ s.NotPending e) → s.step ui e = .ok s' →
        s.ChainStep ui s' ∧ Ending list (AIMListPieceView.pieceCount question.answers) s' := by
  obtain ⟨draws, pattern, data, list, slots, hlist, hslots, rfl⟩ := hstart
  have hpieces := AIMListPieceView.setData_pieces hlist
  refine ⟨list, ⟨placementInv_start hlist hslots, ?_, fun _ => rfl, ?_⟩, fun s e s' hs he h => ?_⟩
  · exact (AIMListPieceView.ending_setData hlist).trans AIMQuestionContentView.slid_zero.symm
  · show 0 + list.pieceViewArray.length ≤ _
    rw [hpieces.filled.pieceViewArray, length_range, Nat.zero_add]
  · have hchain := step_chain hs.1 he.1 h
    exact ⟨hchain, placementInv_step hs.1 hpieces.slot_injective he.1 he.2 h,
      finaleInv_step hs.2 hchain⟩

/-- In every run in which no touch begins on a piece whose accepted drop is pending: nothing of the
finale shows in any state with pieces left. When the last one leaves the list, every chain that is
open, its own and those of earlier pieces, leads to a finale of its own; each of them moves the list
down once more and plays the sound once more, so that both happen exactly once if no other chain was
open. -/
theorem finales_of_run {question : AIMQuestion} {v : AIMQuestionContentView}
    (hstart : Started ui question v) {s : QuestionRun}
    (h : Reaches (step ui) (fun s e => s.Enabled e ∧ s.NotPending e) (QuestionRun.start v) s)
    (hunfinished : s.view.checkFinish = false) :
    (s.finales = 0 ∧ s.view.completeSounds = 0 ∧ s.view.listPieceView.frame = kAnswerViewFrame ∧
      s.view.listPieceView.englishHintInteractionEnabled = true) ∧
    ∀ last f t, s.Enabled last ∧ s.NotPending last → s.step ui last = .ok f →
      f.view.checkFinish = true →
      Reaches (step ui) (fun s e => s.Enabled e ∧ s.NotPending e) f t →
        t.finales + t.openChains = s.openChains + 1 ∧
        t.finales ≤ AIMListPieceView.pieceCount question.answers ∧
        t.view.listPieceView.frame = { kAnswerViewFrame with
          y := kAnswerViewFrame.y + t.finales * (scrollViewFrame.height - 10) } ∧
        t.view.listPieceView.englishHintInteractionEnabled = decide (t.finales = 0) ∧
        (t.animations = [] → t.view.completeSounds = s.openChains + 1) := by
  obtain ⟨list, hbegin, hend⟩ := ending_of_run hstart
  have hs := h.inv (Ending list (AIMListPieceView.pieceCount question.answers)) hbegin
    fun _ _ _ hs he hstep => (hend _ _ _ hs he hstep).2
  have hnone : s.finales = 0 := hs.2.unfinished hunfinished
  have hbefore := hs.2.list
  rw [hnone, AIMQuestionContentView.slid_zero] at hbefore
  obtain ⟨hstands, htaken⟩ := Prod.mk.inj hbefore
  refine ⟨⟨hnone, Nat.eq_zero_of_add_eq_zero_right hnone, hstands, htaken⟩,
    fun last f t hlast hstep hfinished h' => ?_⟩
  obtain ⟨hchain, hf⟩ := hend _ _ _ hs hlast hstep
  obtain ⟨hffinales, hfopen⟩ := chains_last hunfinished hchain hfinished
  obtain ⟨ht, -, hcount⟩ := h'.inv (fun t =>
      Ending list (AIMListPieceView.pieceCount question.answers) t ∧
        t.view.checkFinish = true ∧ t.finales + t.openChains = f.finales + f.openChains)
    ⟨hf, hfinished, rfl⟩ fun u e w hu he hstep => by
      obtain ⟨hu, hfinish, hcount⟩ := hu
      obtain ⟨hchain, hw⟩ := hend _ _ _ hu he hstep
      exact ⟨hw, (step_question he.1 hstep).2 hfinish,
        (chains_finished hfinish hchain).trans hcount⟩
  obtain ⟨hframe, hhint⟩ := Prod.mk.inj ht.2.list
  have hchains : t.finales + t.openChains = s.openChains + 1 := by
    rw [hcount, hffinales, hnone, hfopen, Nat.zero_add]
  have hplaced := ht.2.placed
  refine ⟨hchains, by omega, hframe, hhint, fun hrest => ?_⟩
  unfold finales openChains at hchains
  rw [hrest] at hchains
  exact hchains

/-- A run up to the last completion: the first piece of `sampleQuestion` is placed, and the last one
is held while the completion of the second one runs. -/
def overlapping : List Event :=
  drag 0 (inList 0) (onSlot 0) ++ .dropCompletion 0 :: replicate 5 (.animationCompletion 0) ++
    drag 2 (inList 1) (onSlot 2) ++
    [.touchBegan 1 (inList 0) ⟨0, 0⟩, .touchMoved (onSlot 1), .dropCompletion 0, .touchEnded]

/-- The run ends with two finales: the list has left the screen, and the sound was played twice. -/
theorem finales_of_run_overlapping :
    ∃ v s f t, Started .ascii sampleQuestion v ∧
      Reaches (step .ascii) (fun s e => s.Enabled e ∧ s.NotPending e) (QuestionRun.start v) s ∧
      s.step .ascii (.dropCompletion 0) = .ok f ∧
      Reaches (step .ascii) (fun s e => s.Enabled e ∧ s.NotPending e) f t ∧
      t.finales = 2 ∧ t.view.listPieceView.frame = ⟨0, 802, 1024, 245⟩ ∧
      t.view.completeSounds = 2 := by
  have hrun : (playQuestion .ascii (fun s e => s.Enabled e ∧ s.NotPending e) sampleQuestion
      (fun _ => 0) overlapping).any (fun s => !s.view.checkFinish && s.openChains == 1 &&
        decide (s.Enabled (.dropCompletion 0) ∧ s.NotPending (.dropCompletion 0)) &&
        (s.step .ascii (.dropCompletion 0)).toOption.any fun f => f.view.checkFinish &&
          (play (step .ascii) (fun s e => s.Enabled e ∧ s.NotPending e) f
            (replicate 12 (.animationCompletion 0))).any fun t => t.animations.isEmpty) = true := by
    decide +kernel
  obtain ⟨v, s, hv, hreach, hend⟩ := exists_run_of_playQuestion hrun
  simp only [Bool.and_eq_true, Bool.not_eq_true', beq_iff_eq, decide_eq_true_eq] at hend
  obtain ⟨⟨⟨hunfinished, hopen⟩, hlast⟩, hend⟩ := hend
  obtain ⟨f, hstep, hend⟩ := exists_ok_of_any hend
  rw [Bool.and_eq_true] at hend
  obtain ⟨hfinished, hend⟩ := hend
  obtain ⟨t, hreach', hrest⟩ := exists_reaches_of_play hend
  have hstart := started_of_setData hv
  obtain ⟨hchains, -, hframe, -, hsounds⟩ :=
    (finales_of_run hstart hreach hunfinished).2 _ f t hlast hstep hfinished hreach'
  have hrest := isEmpty_iff.mp hrest
  have hnone : t.openChains = 0 := by
    unfold openChains
    rw [hrest]
    rfl
  have hfinales : t.finales = 2 := by
    rw [hopen, hnone] at hchains
    exact hchains
  refine ⟨v, s, f, t, hstart, hreach, hstep, hreach', hfinales, ?_, ?_⟩
  · rw [hframe, hfinales]
    decide +kernel
  · rw [hsounds hrest, hopen]

end QuestionRun

end Imijun
