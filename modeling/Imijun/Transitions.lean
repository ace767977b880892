import Imijun.Navigation
import Imijun.Lib.Handover

/-!
# Overlapping transitions

A switch makes a content view and starts a transition to it; a completion removes whatever view is
current when it runs, and makes the view it has captured current.

* `handover`: the content views of the screen as a handover of the role "current content view".
* `handover_step`: every event of the screen is a step of this handover, or leaves it alone.
* `ShowsPosition`: the newest content view shows the question at the current position.
* `transitions_leave_one_view`: so at most one view is removed for each transition, and without a
  pending transition the current view is the only one left and shows the right question.
-/

namespace Imijun

open Transition Fallible

theorem setData_question {ui : Platform} {question : AIMQuestion} {draws : Nat → Nat}
    {v : AIMQuestionContentView} (h : AIMQuestionContentView.setData ui question draws = .ok v) :
    v.question = question := by
  obtain ⟨_, pattern, data, list, slots, -, -, rfl⟩ := QuestionRun.started_of_setData h
  rfl

namespace AIMQuestionAnswerScreenViewController

variable {ui : Platform} {s s' : AIMQuestionAnswerScreenViewController} {e : ScreenEvent}

/-! ## The handover -/

/-- The content views as objects that hand over the role of the current one. -/
def handover (s : AIMQuestionAnswerScreenViewController) : Handover.State where
  current := s.currentQuestionContentView
  pending := s.transitions
  present := s.subviews
  removed := s.removed
  installed := s.installed
  created := s.created

/-- An event of the screen is a step of the handover, or changes nothing of it. -/
theorem handover_step (hpos : 0 ≤ s.currentPositionQuestion) (he : s.Enabled e)
    (h : s.step ui e = .ok s') :
    Reaches Handover.step (fun _ _ => True) s.handover s'.handover := by
  cases screen_outcome hpos he h with
  | popped _ _ => exact .refl
  | switched _ _ _ _ => exact .tail (e := .start) .refl trivial rfl
  | completed hview =>
    refine .tail (e := .finish) .refl trivial ?_
    simp [Handover.step, handover, hview, transitionCompletion]
  | inView _ _ delivered =>
    rw [delivered.state]
    exact .refl
  | finished _ => exact .refl

/-! ## The question shown -/

/-- The newest content view shows the question at the current position. -/
structure ShowsPosition (s : AIMQuestionAnswerScreenViewController) : Prop where
  inRange : 0 ≤ s.currentPositionQuestion
  created : 0 < s.created
  shown : s.question s.currentPositionQuestion =
    .ok (s.contentViews (s.created - 1)).view.question

theorem showsPosition_step (hs : s.ShowsPosition) (he : s.Enabled e) (h : s.step ui e = .ok s') :
    s'.ShowsPosition := by
  cases screen_outcome hs.inRange he h with
  | popped _ _ => exact ⟨hs.inRange, hs.created, hs.shown⟩
  | @switched _ position q draws content lbSubTitle entries _ hquestion hcontent _ =>
    refine ⟨(question_inRange hquestion).1, Nat.succ_pos _, ?_⟩
    have hshown : ((s.switched position content lbSubTitle entries).contentViews
        s.created).view.question = q := by
      simp [switched, addContentView, QuestionRun.start, setData_question hcontent]
    exact hshown ▸ hquestion
  | completed _ => exact ⟨hs.inRange, hs.created, hs.shown⟩
  | @inView view event run calls _ hstep _ delivered =>
    have hkept : ((Function.update s.contentViews view run) (s.created - 1)).view.question =
        (s.contentViews (s.created - 1)).view.question := by
      by_cases hview : s.created - 1 = view
      · rw [hview, Function.update_self]
        exact (QuestionRun.step_question he.2.1 hstep).1
      · rw [Function.update_of_ne hview]
    rw [delivered.state]
    exact ⟨hs.inRange, hs.created, hs.shown.trans (congrArg _ hkept.symm)⟩
  | finished _ => exact ⟨hs.inRange, hs.created, hs.shown⟩

theorem showsPosition_start {chapter : AIMChapter} {chapterType : Log.ChapterType}
    {title : String} {draws : Nat → Nat}
    (h : (loaded chapter chapterType title).viewDidLoad ui draws = .ok s) : s.ShowsPosition := by
  obtain ⟨q, content, lbTitle, lbSubTitle, entry, hq, hcontent, -, rfl⟩ := viewDidLoad_ok h
  refine ⟨le_refl _, Nat.one_pos, question_eq_ok.mpr ⟨le_refl _, hq.trans ?_⟩⟩
  simp [addContentView, loaded, QuestionRun.start, setData_question hcontent]

/-! ## Runs -/

/-- The handover follows every run of the screen. -/
theorem orderly_of_run {chapter : AIMChapter} {chapterType : Log.ChapterType} {title : String}
    {draws : Nat → Nat} {s₀ : AIMQuestionAnswerScreenViewController}
    (h₀ : (loaded chapter chapterType title).viewDidLoad ui draws = .ok s₀)
    (h : Reaches (step ui) Enabled s₀ s) : Handover.Orderly s.handover ∧ s.ShowsPosition := by
  have hinitial : s₀.handover = Handover.initial := by
    obtain ⟨q, content, lbTitle, lbSubTitle, entry, -, -, -, rfl⟩ := viewDidLoad_ok h₀
    rfl
  obtain ⟨t, hreach, rfl, hshows⟩ := h.map (fun s t => t = s.handover ∧ s.ShowsPosition)
    (fun t e u t' ht he hstep => ⟨u.handover, ht.1 ▸ handover_step ht.2.inRange he hstep, rfl,
      showsPosition_step ht.2 he hstep⟩)
    ⟨hinitial.symm, showsPosition_start h₀⟩
  exact ⟨Handover.orderly_of_reaches hreach, hshows⟩

/-- In every state of every run from `viewDidLoad`: the transitions install the views in the order
they were made, and the current view is the one installed last (the first view at the start); every
view made is in the hierarchy until it is removed, which happens once; and without a pending
transition the current view is the only one in the hierarchy, and it shows the question at the
current position. -/
theorem transitions_leave_one_view {chapter : AIMChapter} {chapterType : Log.ChapterType}
    {draws : Nat → Nat} {s₀ : AIMQuestionAnswerScreenViewController}
    (h₀ : (loaded chapter chapterType kSkip).viewDidLoad ui draws = .ok s₀)
    (h : Reaches (step ui) Enabled s₀ s) :
    0 :: (s.installed ++ s.transitions) = List.range s.created ∧
      s.currentQuestionContentView = s.installed.getLast?.getD 0 ∧
      (∀ view, view < s.created ↔ (view ∈ s.subviews ∧ view ∉ s.removed) ∨
        (view ∈ s.removed ∧ view ∉ s.subviews)) ∧
      s.removed.Nodup ∧
      (s.transitions = [] → s.subviews = [s.currentQuestionContentView] ∧
        s.question s.currentPositionQuestion =
          .ok (s.contentViews s.currentQuestionContentView).view.question) := by
  obtain ⟨horderly, hshows⟩ := orderly_of_run h₀ h
  refine ⟨horderly.in_order, horderly.current_eq, fun view => horderly.mem_iff,
    horderly.removed_nodup, fun hnone => ?_⟩
  obtain ⟨hpresent, hnewest⟩ := horderly.settled hnone
  have hcurrent : s.created - 1 = s.currentQuestionContentView :=
    (Nat.eq_sub_of_add_eq hnewest).symm
  exact ⟨hpresent, hcurrent ▸ hshows.shown⟩

/-- Two taps forward and one back before any transition has ended, and the three completions. -/
def overlapping : List ScreenEvent :=
  [.rightButtonTap fun _ => 0, .rightButtonTap fun _ => 0, .leftButtonTap fun _ => 0,
    .transitionCompletion, .transitionCompletion, .transitionCompletion]

theorem transitions_leave_one_view_three :
    ∃ s₀ s, (loaded (sampleChapter 3) .BasicQuestion kSkip).viewDidLoad .ascii (fun _ => 0) =
        .ok s₀ ∧ Reaches (step .ascii) Enabled s₀ s ∧ s.created = 4 ∧
      s.subviews = [s.currentQuestionContentView] := by
  have hrun : (playChapter 3 Enabled overlapping).any
      (fun s => decide (s.created = 4) && s.transitions.isEmpty) = true := by decide +kernel
  obtain ⟨s₀, s, h₀, hreach, hend⟩ := exists_run_of_playChapter hrun
  simp only [Bool.and_eq_true, decide_eq_true_eq, List.isEmpty_iff] at hend
  obtain ⟨-, -, -, -, hone⟩ := transitions_leave_one_view h₀ hreach
  exact ⟨s₀, s, h₀, hreach, hend.1, (hone hend.2).1⟩

end AIMQuestionAnswerScreenViewController

end Imijun
