import Imijun.Transitions

/-!
# The question a callback is credited to

The screen answers a callback with the question at the current position, whatever content view it
comes from, and a view that is being replaced keeps its delegate.

* `Credited`: the records of reported drops and ends carry the number of the question of the view
  that reported them, and `kNext` stands for a finished question.
* `callbacks_credited`: this holds in every run in which a content view reports only while it is the
  newest one, that is, in which no tap changes the question between a drop and its report.
* `late_completion_miscredited`: a tap between a drop and its completion breaks both parts.
-/

namespace Imijun

open Transition Fallible

namespace AIMQuestionAnswerScreenViewController

variable {ui : Platform} {s s' : AIMQuestionAnswerScreenViewController} {e : ScreenEvent}

/-- Callbacks come from content views only. -/
def FromViews : ScreenEvent → Prop
  | .finishAtCurrentQuestion => False
  | _ => True

instance (e : ScreenEvent) : Decidable (FromViews e) :=
  match e with
  | .finishAtCurrentQuestion => instDecidableFalse
  | .rightButtonTap _ | .leftButtonTap _ | .transitionCompletion | .inView _ _ => instDecidableTrue

/-- A content view reports a drop only while it is the newest one. -/
def InTime (s : AIMQuestionAnswerScreenViewController) : ScreenEvent → Prop
  | .inView view event => (s.contentViews view).Reports event → view = s.created - 1
  | _ => True

structure Credited (s : AIMQuestionAnswerScreenViewController) : Prop where
  log : ∀ entry ∈ s.log, ∀ view call, entry.source = some (view, call) →
    call.isReport = true → view < s.created ∧
      entry.record.questionNumber = (s.contentViews view).view.question.index
  kNext : s.rightButtonTitle = kNext →
    (s.contentViews (s.created - 1)).view.checkFinish = true

/-- The screen's own records change nothing. -/
theorem Credited.log_append (hs : s.Credited) {entries : List LogEntry}
    (hentries : ∀ entry ∈ entries, entry.source = none) :
    ∀ entry ∈ s.log ++ entries, ∀ view call, entry.source = some (view, call) →
      call.isReport = true → view < s.created ∧
        entry.record.questionNumber = (s.contentViews view).view.question.index := by
  intro entry hentry view call hsource hreport
  rcases List.mem_append.mp hentry with hentry | hentry
  · exact hs.log entry hentry view call hsource hreport
  · cases (hentries entry hentry).symm.trans hsource

theorem credited_switched (hs : s.Credited) {position : Int} {content : AIMQuestionContentView}
    {lbSubTitle : String} {entries : List LogEntry}
    (hentries : ∀ entry ∈ entries, entry.source = none) :
    (s.switched position content lbSubTitle entries).Credited where
  log entry hentry view call hsource hreport := by
    obtain ⟨hview, hnumber⟩ := hs.log_append hentries entry hentry view call hsource hreport
    refine ⟨Nat.lt_succ_of_lt hview, hnumber.trans ?_⟩
    simp [switched, addContentView, hview.ne]
  kNext htitle := by
    have htitle : (if position ≥ (s.currentChapter.questions.length : Int) - 1 then kClose
      else kSkip) = kNext := htitle
    split_ifs at htitle
    · exact absurd htitle.symm kNext_ne_kClose
    · exact absurd htitle kSkip_ne_kNext

theorem credited_inView (hs : s.Credited) (hshows : s.ShowsPosition) {view : Nat} {event : Event}
    {run : QuestionRun} (he : (s.contentViews view).Enabled event)
    (hstep : (s.contentViews view).step ui event = .ok run) (hview : view < s.created)
    (htime : (s.contentViews view).Reports event → view = s.created - 1)
    (delivered : Delivered view (run.view.calls.drop (s.contentViews view).view.calls.length)
      { s with contentViews := Function.update s.contentViews view run } s') : s'.Credited := by
  obtain ⟨calls, hcalls, hreports, hfinish⟩ := QuestionRun.step_calls he hstep
  obtain ⟨hquestion, hkept⟩ := QuestionRun.step_question he hstep
  obtain ⟨hstate, entries, hlog, hentries⟩ := delivered
  rw [hcalls, List.drop_left] at hstate hentries
  have hsame (w : Nat) : ((Function.update s.contentViews view run) w).view.question =
      (s.contentViews w).view.question := by
    by_cases hw : w = view
    · rw [hw, Function.update_self, hquestion]
    · rw [Function.update_of_ne hw]
  have hsolved (w : Nat) (h : (s.contentViews w).view.checkFinish = true) :
      ((Function.update s.contentViews view run) w).view.checkFinish = true := by
    by_cases hw : w = view
    · subst hw
      rw [Function.update_self]
      exact hkept h
    · rwa [Function.update_of_ne hw]
  constructor
  · intro entry hentry w call hsource hreport
    rw [hlog] at hentry
    rw [hstate]
    show w < s.created ∧
      _ = ((Function.update s.contentViews view run) w).view.question.index
    rw [hsame]
    rcases List.mem_append.mp hentry with hentry | hentry
    · exact hs.log entry hentry w call hsource hreport
    · obtain ⟨⟨call', hcall', hsource'⟩, q, hq, hnumber⟩ := hentries entry hentry
      obtain ⟨rfl, rfl⟩ := Prod.mk.inj (Option.some.inj (hsource.symm.trans hsource'))
      -- the view that reports is the newest one, which shows the question at the position
      obtain rfl := htime (hreports ⟨_, hcall', hreport⟩)
      obtain rfl := Except.ok.inj (hshows.shown.symm.trans hq)
      exact ⟨hview, hnumber⟩
  · intro htitle
    rw [hstate] at htitle ⊢
    show ((Function.update s.contentViews view run) (s.created - 1)).view.checkFinish = true
    have htitle : (if .finishAtCurrentQuestion ∈ calls then _ else s.rightButtonTitle) = kNext :=
      htitle
    split_ifs at htitle with hend
    · obtain rfl := htime (hreports ⟨_, hend, rfl⟩)
      rw [Function.update_self]
      exact hfinish hend
    · exact hsolved _ (hs.kNext htitle)

theorem credited_step (hs : s.Credited) (hshows : s.ShowsPosition) (he : s.Enabled e)
    (hfrom : FromViews e) (htime : s.InTime e) (h : s.step ui e = .ok s') : s'.Credited := by
  cases screen_outcome hshows.inRange he h with
  | popped _ hsource => exact ⟨hs.log_append (by simpa using hsource), hs.kNext⟩
  | switched _ _ _ hentries => exact credited_switched hs hentries
  | completed _ => exact ⟨hs.log, hs.kNext⟩
  | inView hstep hcalls delivered =>
    subst hcalls
    exact credited_inView hs hshows he.2.1 hstep he.1 htime delivered
  | finished _ => exact hfrom.elim

/-! ## Runs -/

/-- In every run from `viewDidLoad` in which content views report drops only while they are the
newest one, the record of every reported drop and of every reported end carries the number of the
question of the view it comes from, and the title is `kNext` only while the newest view, which
shows the question at the current position, is finished. -/
theorem callbacks_credited {chapter : AIMChapter} {chapterType : Log.ChapterType}
    {draws : Nat → Nat} {s₀ : AIMQuestionAnswerScreenViewController}
    (h₀ : (loaded chapter chapterType kSkip).viewDidLoad ui draws = .ok s₀)
    (h : Reaches (step ui) (fun s e => s.Enabled e ∧ FromViews e ∧ s.InTime e) s₀ s) :
    (∀ entry ∈ s.log, ∀ view call, entry.source = some (view, call) → call.isReport = true →
      entry.record.questionNumber = (s.contentViews view).view.question.index) ∧
      (s.rightButtonTitle = kNext →
        (s.contentViews (s.created - 1)).view.checkFinish = true ∧
          s.question s.currentPositionQuestion =
            .ok (s.contentViews (s.created - 1)).view.question) := by
  have hstart : s₀.Credited := by
    obtain ⟨q, content, lbTitle, lbSubTitle, entry, -, -, hsource, rfl⟩ := viewDidLoad_ok h₀
    refine ⟨fun entry' hentry view call hsome => ?_, fun htitle => absurd htitle kSkip_ne_kNext⟩
    obtain rfl := List.mem_singleton.mp hentry
    cases hsource.symm.trans hsome
  obtain ⟨hs, hshows⟩ := h.inv (fun s => s.Credited ∧ s.ShowsPosition)
    ⟨hstart, showsPosition_start h₀⟩ fun _ _ _ hs he hstep =>
      ⟨credited_step hs.1 hs.2 he.1 he.2.1 he.2.2 hstep, showsPosition_step hs.2 he.1 hstep⟩
  exact ⟨fun entry hentry view call hsource hreport =>
      (hs.log entry hentry view call hsource hreport).2,
    fun htitle => ⟨hs.kNext htitle, hshows.shown⟩⟩

/-- The three pieces of the view `view` are dropped on their slots. -/
def dropAll (view : Nat) : List ScreenEvent :=
  [2, 1, 0].flatMap fun i =>
    (QuestionRun.drag i (QuestionRun.inList i) (QuestionRun.onSlot i)).map (.inView view)

/-- The three completions. -/
def completeAll (view : Nat) : List ScreenEvent :=
  List.replicate 3 (.inView view (.dropCompletion 0))

/-- All events of content views happen in the newest one. -/
def InNewest (s : AIMQuestionAnswerScreenViewController) : ScreenEvent → Prop
  | .inView view _ => view = s.created - 1
  | _ => True

instance (s : AIMQuestionAnswerScreenViewController) (e : ScreenEvent) :
    Decidable (s.InNewest e) :=
  match e with
  | .inView view _ => inferInstanceAs (Decidable (view = s.created - 1))
  | .rightButtonTap _ | .leftButtonTap _ | .transitionCompletion | .finishAtCurrentQuestion =>
    instDecidableTrue

theorem inTime_of_inNewest (h : s.InNewest e) : s.InTime e := by
  cases e with
  | inView view event => exact fun _ => h
  | _ => trivial

/-- A run in which the first question is solved before the next tap. -/
theorem callbacks_credited_first_solved :
    ∃ s₀ s, (loaded (sampleChapter 3) .BasicQuestion kSkip).viewDidLoad .ascii (fun _ => 0) =
        .ok s₀ ∧
      Reaches (step .ascii) (fun s e => s.Enabled e ∧ FromViews e ∧ s.InTime e) s₀ s ∧
      s.rightButtonTitle = kNext ∧ (s.contentViews (s.created - 1)).view.checkFinish = true := by
  have hrun : (playChapter 3 (fun s e => s.Enabled e ∧ FromViews e ∧ s.InNewest e)
      (dropAll 0 ++ completeAll 0)).any (fun s => decide (s.rightButtonTitle = kNext)) = true := by
    decide +kernel
  obtain ⟨s₀, s, h₀, hreach, htitle⟩ := exists_run_of_playChapter hrun
  have htitle := of_decide_eq_true htitle
  have hreach : Reaches (step .ascii) (fun s e => s.Enabled e ∧ FromViews e ∧ s.InTime e) s₀ s :=
    hreach.mono fun _ _ h => ⟨h.1, h.2.1, inTime_of_inNewest h.2.2⟩
  exact ⟨s₀, s, h₀, hreach, htitle, ((callbacks_credited h₀ hreach).2 htitle).1⟩

/-- All pieces of the first question are dropped, the skip button is tapped, and the completions
run: the drops and the end are recorded for the second question, and the button says that it is
solved. -/
theorem late_completion_miscredited :
    ∃ s₀ s, (loaded (sampleChapter 3) .BasicQuestion kSkip).viewDidLoad .ascii (fun _ => 0) =
        .ok s₀ ∧ Reaches (step .ascii) (fun s e => s.Enabled e ∧ FromViews e) s₀ s ∧
      (∃ entry ∈ s.log, ∃ call, entry.source = some (0, call) ∧ call.isReport = true ∧
        entry.record.questionNumber ≠ (s.contentViews 0).view.question.index) ∧
      s.rightButtonTitle = kNext ∧
      (s.contentViews (s.created - 1)).view.checkFinish = false := by
  have hrun : (playChapter 3 (fun s e => s.Enabled e ∧ FromViews e)
      (dropAll 0 ++ [.rightButtonTap fun _ => 0] ++ completeAll 0)).any (fun s =>
      s.log.any (fun entry => decide (entry.source = some (0, .finishAtCurrentQuestion)) &&
        decide (entry.record.questionNumber ≠ (s.contentViews 0).view.question.index)) &&
      decide (s.rightButtonTitle = kNext) &&
      !(s.contentViews (s.created - 1)).view.checkFinish) = true := by decide +kernel
  obtain ⟨s₀, s, h₀, hreach, hend⟩ := exists_run_of_playChapter hrun
  simp only [Bool.and_eq_true, decide_eq_true_eq, Bool.not_eq_true', List.any_eq_true] at hend
  obtain ⟨⟨⟨entry, hentry, hsource, hnumber⟩, htitle⟩, hopen⟩ := hend
  exact ⟨s₀, s, h₀, hreach, ⟨entry, hentry, _, hsource, rfl, hnumber⟩, htitle, hopen⟩

end AIMQuestionAnswerScreenViewController

end Imijun
