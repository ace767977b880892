import Imijun.ScreenFacts

/-!
# Navigation between the questions

The only bound on the position is the title of the right button: a tap moves on while it is `kNext`
or `kSkip`.

* `InRange`: the position is a question, and the title is `kClose` exactly at the last one.
* `inRange_step`, `step_ne_questionOutOfRange`: every event keeps this, and no handler subscripts
  the questions outside their bounds.
* `navigation_in_range_iff`: so all depends on the start. The title of the nib is `kSkip`, which is
  right exactly for a chapter with two questions or more.
* `single_question_out_of_range`: with one question the first tap traps.
-/

namespace Imijun

open Transition Fallible

namespace AIMQuestionAnswerScreenViewController

variable {ui : Platform} {s s' : AIMQuestionAnswerScreenViewController} {e : ScreenEvent}

/-- The position is in range, and the title of the right button says whether it is the last one. -/
structure InRange (s : AIMQuestionAnswerScreenViewController) : Prop where
  lower : 0 ≤ s.currentPositionQuestion
  upper : s.currentPositionQuestion < s.currentChapter.questions.length
  title : s.rightButtonTitle = kClose ↔
    s.currentPositionQuestion = (s.currentChapter.questions.length : Int) - 1

/-! ## One step -/

/-- The title that the end of a question sets is right at every position in range. -/
theorem finishTitle_eq_kClose (hs : s.InRange) : s.finishTitle = kClose ↔
    s.currentPositionQuestion = (s.currentChapter.questions.length : Int) - 1 := by
  have hupper := hs.upper
  unfold finishTitle atLastQuestion
  split_ifs with hlast
  · have hlast := of_decide_eq_true hlast
    exact iff_of_true rfl (by omega)
  · have hlast : ¬ _ := fun h => hlast (decide_eq_true h)
    exact iff_of_false kNext_ne_kClose (by omega)

theorem inRange_step (hs : s.InRange) (he : s.Enabled e) (h : s.step ui e = .ok s') :
    s'.InRange := by
  cases screen_outcome hs.lower he h with
  | popped _ _ => exact ⟨hs.lower, hs.upper, hs.title⟩
  | @switched _ position q draws content lbSubTitle entries _ hquestion _ _ =>
    obtain ⟨hlower, hupper⟩ := question_inRange hquestion
    refine ⟨hlower, hupper, ?_⟩
    show (if position ≥ (s.currentChapter.questions.length : Int) - 1 then kClose else kSkip) =
      kClose ↔ position = (s.currentChapter.questions.length : Int) - 1
    split_ifs with hlast
    · exact iff_of_true rfl (by omega)
    · exact iff_of_false kSkip_ne_kClose (by omega)
  | completed _ => exact ⟨hs.lower, hs.upper, hs.title⟩
  | inView _ _ delivered =>
    rw [delivered.state]
    refine ⟨hs.lower, hs.upper, ?_⟩
    show (if _ then s.finishTitle else s.rightButtonTitle) = kClose ↔ _
    split_ifs
    · exact finishTitle_eq_kClose hs
    · exact hs.title
  | finished _ => exact ⟨hs.lower, hs.upper, finishTitle_eq_kClose hs⟩

/-! ## No subscript out of range -/

theorem inContent_ne {α : Type} {x : Except Trap α} :
    inContent x ≠ .error .questionOutOfRange := by
  cases x <;> simp [inContent]

theorem chapterNumber_ne : s.chapterNumber ≠ .error .questionOutOfRange :=
  bind_ne_error (by simp) fun _ _ => by simp [pure, Except.pure]

theorem question_ne {i : Int} (h0 : 0 ≤ i) (hi : i < s.currentChapter.questions.length) :
    s.question i ≠ .error .questionOutOfRange := by
  obtain ⟨q, hq⟩ := exists_question h0 hi
  simp [hq]

section Position

variable (h0 : 0 ≤ s.currentPositionQuestion)
  (hn : s.currentPositionQuestion < s.currentChapter.questions.length)
include h0 hn

theorem record_ne {actionName : Log.ActionName} {objectName objectType boxResult result : String}
    {source : Option (Nat × Call)} :
    s.record actionName objectName objectType boxResult result source ≠
      .error .questionOutOfRange :=
  bind_ne_error chapterNumber_ne fun _ _ =>
    bind_ne_error (question_ne h0 hn) fun _ _ => by simp [pure, Except.pure]

theorem recordDisplay_ne : s.recordDisplay ≠ .error .questionOutOfRange :=
  bind_ne_error (question_ne h0 hn) fun _ _ => record_ne h0 hn

theorem delegate_ne {view : Nat} {call : Call} :
    delegate view s call ≠ .error .questionOutOfRange := by
  cases call with
  | endDragPiece piece k => exact record_ne h0 hn
  | pressedHintButton => exact record_ne h0 hn
  | pressedEnglishHintButton => exact record_ne h0 hn
  | playAudio sound => simp [delegate]
  | finishAtCurrentQuestion =>
    exact bind_ne_error (record_ne h0 hn) fun _ _ => by simp [pure, Except.pure]

theorem setSubTitle_ne : s.setSubTitle s.currentPositionQuestion ≠ .error .questionOutOfRange :=
  bind_ne_error chapterNumber_ne fun _ _ =>
    bind_ne_error (question_ne h0 hn) fun _ _ => by simp [pure, Except.pure]

end Position

theorem switchTo_ne {q : AIMQuestion} {draws : Nat → Nat} {title : String} :
    s.switchTo ui q draws title ≠ .error .questionOutOfRange :=
  bind_ne_error inContent_ne fun _ _ => by simp [pure, Except.pure]

theorem rightButtonTap_ne (hs : s.InRange) {draws : Nat → Nat} :
    s.rightButtonTap ui draws ≠ .error .questionOutOfRange := by
  have hlower := hs.lower
  have hupper := hs.upper
  unfold rightButtonTap
  by_cases htitle : s.rightButtonTitle = kNext ∨ s.rightButtonTitle = kSkip
  · rw [if_pos htitle]
    -- the title is not `kClose`, so there is a next question
    have hclose : s.rightButtonTitle ≠ kClose := by
      rcases htitle with h | h <;> simp [h]
    have hnotLast := hs.title.not.mp hclose
    have h0 : 0 ≤ s.currentPositionQuestion + 1 := by omega
    have hpos : 0 < s.currentPositionQuestion + 1 := by omega
    have hn : s.currentPositionQuestion + 1 < s.currentChapter.questions.length := by omega
    refine bind_ne_error (record_ne hlower hupper) fun t ht => ?_
    obtain ⟨tap, -, rfl, -⟩ := record_ok ht
    refine bind_ne_error ?_ fun u hu => ?_
    · refine bind_ne_error (setSubTitle_ne h0 hn) fun w hw => ?_
      obtain ⟨lbSubTitle, rfl⟩ := setSubTitle_ok hw
      rw [if_pos hpos]
      exact bind_ne_error (question_ne h0 hn) fun _ _ => switchTo_ne
    · obtain ⟨w, hw, hu⟩ := bind_eq_ok.mp hu
      obtain ⟨lbSubTitle, rfl⟩ := setSubTitle_ok hw
      rw [if_pos hpos] at hu
      obtain ⟨q, -, hu⟩ := bind_eq_ok.mp hu
      obtain ⟨content, -, rfl⟩ := switchTo_ok hu
      exact recordDisplay_ne h0 hn
  · rw [if_neg htitle]
    exact bind_ne_error (record_ne hlower hupper) fun _ _ => by simp [pure, Except.pure]

theorem leftButtonTap_ne (hs : s.InRange) {draws : Nat → Nat} :
    s.leftButtonTap ui draws ≠ .error .questionOutOfRange := by
  have hlower := hs.lower
  have hupper := hs.upper
  refine bind_ne_error (record_ne hlower hupper) fun t ht => ?_
  obtain ⟨tap, -, rfl, -⟩ := record_ok ht
  split_ifs with hzero
  · simp [pure, Except.pure]
  · have hne : s.currentPositionQuestion ≠ 0 := hzero
    have h0 : 0 ≤ s.currentPositionQuestion - 1 := by omega
    have hn : s.currentPositionQuestion - 1 < s.currentChapter.questions.length := by omega
    refine bind_ne_error (setSubTitle_ne h0 hn) fun u hu => ?_
    obtain ⟨lbSubTitle, rfl⟩ := setSubTitle_ok hu
    refine bind_ne_error (question_ne h0 hn) fun q _ => ?_
    refine bind_ne_error switchTo_ne fun w hw => ?_
    obtain ⟨content, -, rfl⟩ := switchTo_ok hw
    exact recordDisplay_ne h0 hn

/-- In range, no handler subscripts the questions outside their bounds. -/
theorem step_ne_questionOutOfRange (hs : s.InRange) (e : ScreenEvent) :
    s.step ui e ≠ .error .questionOutOfRange := by
  cases e with
  | rightButtonTap draws => exact rightButtonTap_ne hs
  | leftButtonTap draws => exact leftButtonTap_ne hs
  | transitionCompletion => cases ht : s.transitions <;> simp [step, ht]
  | inView view event =>
    refine bind_ne_error inContent_ne fun run _ => ?_
    refine foldlM_ne_error (fun t => 0 ≤ t.currentPositionQuestion ∧
      t.currentPositionQuestion < t.currentChapter.questions.length) ⟨hs.lower, hs.upper⟩
      (fun t call ht => delegate_ne ht.1 ht.2) fun t call t' ht h => ?_
    rw [(delegate_ok h).state]
    exact ht
  | finishAtCurrentQuestion =>
    exact bind_ne_error (record_ne hs.lower hs.upper) fun _ _ => by simp [pure, Except.pure]

/-! ## Runs -/

/-- The screen after `viewDidLoad`: the first question is shown, and the title is the nib's. -/
theorem viewDidLoad_ok {chapter : AIMChapter} {chapterType : Log.ChapterType} {title : String}
    {draws : Nat → Nat} (h : (loaded chapter chapterType title).viewDidLoad ui draws = .ok s) :
    ∃ question content lbTitle lbSubTitle entry, chapter.questions[0]? = some question ∧
      AIMQuestionContentView.setData ui question draws = .ok content ∧ entry.source = none ∧
      s = { (loaded chapter chapterType title).addContentView content with
        lbTitle := lbTitle, lbSubTitle := lbSubTitle, log := [entry] } := by
  obtain ⟨t, ht, h⟩ := bind_eq_ok.mp h
  obtain ⟨u, hu, ht⟩ := bind_eq_ok.mp ht
  obtain ⟨lbSubTitle, rfl⟩ := setSubTitle_ok hu
  obtain rfl := Except.ok.inj ht
  obtain ⟨q, hq, h⟩ := bind_eq_ok.mp h
  obtain ⟨content, hcontent, h⟩ := bind_eq_ok.mp h
  obtain ⟨entry, rfl, hsource⟩ := recordDisplay_ok h
  exact ⟨q, content, _, lbSubTitle, entry, (question_eq_ok.mp hq).2,
    inContent_eq_ok.mp hcontent, hsource, rfl⟩

/-- Navigation stays in range in every run, from the nib's title on, exactly for the chapters with
at least two questions. -/
theorem navigation_in_range_iff {chapter : AIMChapter} {chapterType : Log.ChapterType}
    {draws : Nat → Nat} {s₀ : AIMQuestionAnswerScreenViewController}
    (h₀ : (loaded chapter chapterType kSkip).viewDidLoad ui draws = .ok s₀) :
    (∀ s, Reaches (step ui) Enabled s₀ s →
      s.InRange ∧ ∀ e, s.step ui e ≠ .error .questionOutOfRange) ↔
      2 ≤ chapter.questions.length := by
  obtain ⟨q, content, lbTitle, lbSubTitle, entry, hq, -, -, rfl⟩ := viewDidLoad_ok h₀
  have hlen : 0 < chapter.questions.length := (List.getElem?_eq_some_iff.mp hq).choose
  constructor
  · intro hall
    -- the start state itself: position 0 with the title `kSkip`
    have hstart := (hall _ .refl).1.title
    have hne : ¬ (0 : Int) = (chapter.questions.length : Int) - 1 :=
      hstart.not.mp kSkip_ne_kClose
    omega
  · intro htwo s hreach
    have hs : s.InRange := by
      refine hreach.inv InRange ?_ fun _ _ _ hs he hstep => inRange_step hs he hstep
      have hupper : (0 : Int) < chapter.questions.length := by omega
      have hnotLast : ¬ (0 : Int) = (chapter.questions.length : Int) - 1 := by omega
      exact ⟨le_refl _, hupper, iff_of_false kSkip_ne_kClose hnotLast⟩
    exact ⟨hs, step_ne_questionOutOfRange hs⟩

/-- A chapter that repeats one question `n` times. -/
def sampleChapter (n : Nat) : AIMChapter where
  index := "1"
  title := "1"
  questions := (List.range n).map fun i =>
    { QuestionRun.sampleQuestion with index := toString (i + 1) }

/-- The screen of `sampleChapter n` after the listed events. -/
def playChapter (n : Nat) (ok : AIMQuestionAnswerScreenViewController → ScreenEvent → Prop)
    [∀ s e, Decidable (ok s e)] (events : List ScreenEvent) :
    Option AIMQuestionAnswerScreenViewController :=
  match (loaded (sampleChapter n) .BasicQuestion kSkip).viewDidLoad .ascii (fun _ => 0) with
  | .ok s => play (step .ascii) ok s events
  | .error _ => none

theorem exists_run_of_playChapter {n : Nat}
    {ok : AIMQuestionAnswerScreenViewController → ScreenEvent → Prop} [∀ s e, Decidable (ok s e)]
    {events : List ScreenEvent} {P : AIMQuestionAnswerScreenViewController → Bool}
    (h : (playChapter n ok events).any P = true) :
    ∃ s₀ s, (loaded (sampleChapter n) .BasicQuestion kSkip).viewDidLoad .ascii (fun _ => 0) =
      .ok s₀ ∧ Reaches (step .ascii) ok s₀ s ∧ P s = true := by
  unfold playChapter at h
  split at h
  · next s₀ h₀ =>
    obtain ⟨s, hs, hP⟩ := exists_reaches_of_play h
    exact ⟨s₀, s, h₀, hs, hP⟩
  · cases h

/-- A chapter with two questions meets the condition. -/
theorem navigation_in_range_two :
    ∃ s₀, (loaded (sampleChapter 2) .BasicQuestion kSkip).viewDidLoad .ascii (fun _ => 0) =
        .ok s₀ ∧
      ∀ s, Reaches (step .ascii) Enabled s₀ s →
        s.InRange ∧ ∀ e, s.step .ascii e ≠ .error .questionOutOfRange := by
  have hrun : (playChapter 2 Enabled []).any (fun _ => true) = true := by decide +kernel
  obtain ⟨s₀, -, h₀, -⟩ := exists_run_of_playChapter hrun
  exact ⟨s₀, h₀, (navigation_in_range_iff h₀).mpr (by decide)⟩

/-- With a single question the title is `kSkip` at the last question, and a tap on it traps. -/
theorem single_question_out_of_range :
    ∃ s₀ s, (loaded (sampleChapter 1) .BasicQuestion kSkip).viewDidLoad .ascii (fun _ => 0) =
        .ok s₀ ∧ Reaches (step .ascii) Enabled s₀ s ∧
      s.currentPositionQuestion = (s.currentChapter.questions.length : Int) - 1 ∧
      s.rightButtonTitle ≠ kClose ∧
      s.step .ascii (.rightButtonTap fun _ => 0) = .error .questionOutOfRange := by
  have hrun : (playChapter 1 Enabled []).any (fun s =>
      decide (s.currentPositionQuestion = (s.currentChapter.questions.length : Int) - 1) &&
        decide (s.rightButtonTitle ≠ kClose) &&
        decide (trap (s.step .ascii (.rightButtonTap fun _ => 0)) =
          some .questionOutOfRange)) = true := by decide +kernel
  obtain ⟨s₀, s, h₀, hreach, hend⟩ := exists_run_of_playChapter hrun
  simp only [Bool.and_eq_true, decide_eq_true_eq, trap_eq_some] at hend
  exact ⟨s₀, s, h₀, hreach, hend.1.1, hend.1.2, hend.2⟩

end AIMQuestionAnswerScreenViewController

end Imijun
