import Imijun.QuestionScreen
import Imijun.RunFacts

/-!
# What one event of the screen does

Inversion lemmas for the handlers of `AIMQuestionAnswerScreenViewController` (`record_ok`,
`delegate_ok`, `deliver_ok`, `switchTo_ok`) and the list of all outcomes of an event
(`ScreenOutcome`, `screen_outcome`).
-/

namespace Imijun

open Transition Fallible

namespace AIMQuestionAnswerScreenViewController

variable {ui : Platform} {s s' : AIMQuestionAnswerScreenViewController} {i : Int}
  {q : AIMQuestion} {view : Nat} {source : Option (Nat × Call)}

/-! ## Records -/

theorem question_eq_ok : s.question i = .ok q ↔
    0 ≤ i ∧ s.currentChapter.questions[i.toNat]? = some q := by
  unfold question
  split_ifs with h
  · simp [not_le.mpr h]
  · simp [not_lt.mp h]

theorem question_inRange (h : s.question i = .ok q) :
    0 ≤ i ∧ i < s.currentChapter.questions.length := by
  obtain ⟨h0, h⟩ := question_eq_ok.mp h
  have hlt := (List.getElem?_eq_some_iff.mp h).choose
  exact ⟨h0, by omega⟩

theorem exists_question (h0 : 0 ≤ i) (hi : i < s.currentChapter.questions.length) :
    ∃ q, s.question i = .ok q :=
  ⟨_, question_eq_ok.mpr ⟨h0, List.getElem?_eq_getElem (by omega)⟩⟩

/-- `record` adds one entry, with the number of the question at the current position. -/
theorem record_ok {actionName : Log.ActionName} {objectName objectType boxResult result : String}
    (h : s.record actionName objectName objectType boxResult result source = .ok s') :
    ∃ entry q, s' = { s with log := s.log ++ [entry] } ∧ entry.source = source ∧
      s.question s.currentPositionQuestion = .ok q ∧ entry.record.questionNumber = q.index ∧
      entry.record.actionName = actionName.rawValue ∧
      (entry.record.objectName, entry.record.objectType, entry.record.boxResult,
        entry.record.result) = (objectName, objectType, boxResult, result) := by
  obtain ⟨number, -, h⟩ := bind_eq_ok.mp h
  obtain ⟨q, hq, h⟩ := bind_eq_ok.mp h
  exact ⟨_, q, (Except.ok.inj h).symm, rfl, hq, rfl, rfl, rfl⟩

theorem recordDisplay_ok (h : s.recordDisplay = .ok s') :
    ∃ entry, s' = { s with log := s.log ++ [entry] } ∧ entry.source = none := by
  obtain ⟨q, -, h⟩ := bind_eq_ok.mp h
  obtain ⟨entry, q, hs', hsource, -⟩ := record_ok h
  exact ⟨entry, hs', hsource⟩

/-- The title after the end of a question has been reported. -/
def finishTitle (s : AIMQuestionAnswerScreenViewController) : String :=
  if s.atLastQuestion then kClose else kNext

/-- What the screen does with calls of content view `view`: it adds records, each for one of the
calls and with the number of the question at the current position, and the end of a question sets
the title. -/
structure Delivered (view : Nat) (calls : List Call)
    (s s' : AIMQuestionAnswerScreenViewController) : Prop where
  state : s' = { s with
    log := s'.log
    rightButtonTitle :=
      if .finishAtCurrentQuestion ∈ calls then s.finishTitle else s.rightButtonTitle }
  log : ∃ entries, s'.log = s.log ++ entries ∧ ∀ entry ∈ entries,
    (∃ call ∈ calls, entry.source = some (view, call)) ∧
      ∃ q, s.question s.currentPositionQuestion = .ok q ∧ entry.record.questionNumber = q.index

/-- A delegate method that only records. -/
theorem delivered_record {call : Call} {actionName : Log.ActionName}
    {objectName objectType boxResult result : String} (hcall : call ≠ .finishAtCurrentQuestion)
    (h : s.record actionName objectName objectType boxResult result (some (view, call)) = .ok s') :
    Delivered view [call] s s' := by
  obtain ⟨entry, q, rfl, hsource, hq, hnumber, -⟩ := record_ok h
  refine ⟨by simp [hcall.symm], [entry], rfl, fun entry' hentry => ?_⟩
  obtain rfl := List.mem_singleton.mp hentry
  exact ⟨⟨call, List.mem_singleton_self _, hsource⟩, q, hq, hnumber⟩

theorem delegate_ok {call : Call} (h : delegate view s call = .ok s') :
    Delivered view [call] s s' := by
  cases call with
  | endDragPiece piece k => exact delivered_record (by simp) h
  | pressedHintButton => exact delivered_record (by simp) h
  | pressedEnglishHintButton => exact delivered_record (by simp) h
  | playAudio sound =>
    obtain rfl := Except.ok.inj h
    exact ⟨by simp, [], by simp, by simp⟩
  | finishAtCurrentQuestion =>
    obtain ⟨t, ht, h⟩ := bind_eq_ok.mp h
    obtain ⟨entry, q, rfl, hsource, hq, hnumber, -⟩ := record_ok ht
    obtain rfl := Except.ok.inj h
    refine ⟨by simp [finishTitle, atLastQuestion], [entry], rfl, fun entry' hentry => ?_⟩
    obtain rfl := List.mem_singleton.mp hentry
    exact ⟨⟨_, List.mem_singleton_self _, hsource⟩, q, hq, hnumber⟩

theorem deliver_ok {calls : List Call} (h : calls.foldlM (delegate view) s = .ok s') :
    Delivered view calls s s' := by
  induction calls generalizing s with
  | nil =>
    obtain rfl := Except.ok.inj h
    exact ⟨by simp, [], by simp, by simp⟩
  | cons call calls ih =>
    obtain ⟨t, ht, h⟩ := foldlM_cons_eq_ok.mp h
    obtain ⟨hstate, entries, hlog, hentries⟩ := delegate_ok ht
    obtain ⟨hstate', entries', hlog', hentries'⟩ := ih h
    have htitle : t.finishTitle = s.finishTitle := by rw [hstate]; rfl
    have hposition : t.question t.currentPositionQuestion =
        s.question s.currentPositionQuestion := by rw [hstate]; rfl
    refine ⟨?_, entries ++ entries', ?_, fun entry hentry => ?_⟩
    · rw [hstate', htitle, hstate]
      by_cases hcall : call = .finishAtCurrentQuestion
      · simp [hcall]
      · by_cases hcalls : .finishAtCurrentQuestion ∈ calls
        · simp [hcalls]
        · simp [hcalls, Ne.symm hcall]
    · rw [hlog', hlog, List.append_assoc]
    · rcases List.mem_append.mp hentry with hentry | hentry
      · obtain ⟨⟨call', hcall', hsource⟩, hnumber⟩ := hentries entry hentry
        obtain rfl := List.mem_singleton.mp hcall'
        exact ⟨⟨_, List.mem_cons_self, hsource⟩, hnumber⟩
      · obtain ⟨⟨call', hcall', hsource⟩, hnumber⟩ := hentries' entry hentry
        exact ⟨⟨call', List.mem_cons_of_mem _ hcall', hsource⟩, hposition ▸ hnumber⟩

/-! ## Switching -/

/-- The screen after a switch to position `position`, where the new content view is `content`. -/
def switched (s : AIMQuestionAnswerScreenViewController) (position : Int)
    (content : AIMQuestionContentView) (lbSubTitle : String) (entries : List LogEntry) :
    AIMQuestionAnswerScreenViewController :=
  { s.addContentView content with
    currentPositionQuestion := position
    rightButtonTitle :=
      if position ≥ (s.currentChapter.questions.length : Int) - 1 then kClose else kSkip
    transitions := s.transitions ++ [s.created]
    lbSubTitle := lbSubTitle
    log := s.log ++ entries }

theorem setSubTitle_ok (h : s.setSubTitle i = .ok s') :
    ∃ lbSubTitle, s' = { s with lbSubTitle := lbSubTitle } := by
  obtain ⟨number, -, h⟩ := bind_eq_ok.mp h
  obtain ⟨q, -, h⟩ := bind_eq_ok.mp h
  exact ⟨_, (Except.ok.inj h).symm⟩

theorem switchTo_ok {draws : Nat → Nat} {title : String}
    (h : s.switchTo ui q draws title = .ok s') :
    ∃ content, AIMQuestionContentView.setData ui q draws = .ok content ∧
      s' = { s.addContentView content with
        rightButtonTitle := title
        transitions := s.transitions ++ [s.created] } := by
  obtain ⟨content, hcontent, h⟩ := bind_eq_ok.mp h
  exact ⟨content, inContent_eq_ok.mp hcontent, (Except.ok.inj h).symm⟩

/-! ## Outcomes -/

/-- What an event can do to the screen. -/
inductive ScreenOutcome (ui : Platform) (s : AIMQuestionAnswerScreenViewController) :
    ScreenEvent → AIMQuestionAnswerScreenViewController → Prop
  /-- a tap that leaves the screen -/
  | popped {e : ScreenEvent} {pops : List Pop} {entry : LogEntry}
      (htap : ∃ draws, e = .rightButtonTap draws ∨ e = .leftButtonTap draws)
      (hsource : entry.source = none) :
      ScreenOutcome ui s e { s with log := s.log ++ [entry], pops := pops }
  | switched {e : ScreenEvent} {position : Int} {question : AIMQuestion} {draws : Nat → Nat}
      {content : AIMQuestionContentView} {lbSubTitle : String} {entries : List LogEntry}
      (htap : e = .rightButtonTap draws ∨ e = .leftButtonTap draws)
      (hquestion : s.question position = .ok question)
      (hcontent : AIMQuestionContentView.setData ui question draws = .ok content)
      (hentries : ∀ entry ∈ entries, entry.source = none) :
      ScreenOutcome ui s e (s.switched position content lbSubTitle entries)
  | completed {view : Nat} {transitions : List Nat} (hview : s.transitions = view :: transitions) :
      ScreenOutcome ui s .transitionCompletion
        { s.transitionCompletion view with transitions := transitions }
  | inView {view : Nat} {event : Event} {run : QuestionRun} {calls : List Call}
      {s' : AIMQuestionAnswerScreenViewController}
      (hstep : (s.contentViews view).step ui event = .ok run)
      (hcalls : calls = run.view.calls.drop (s.contentViews view).view.calls.length)
      (delivered : Delivered view calls
        { s with contentViews := Function.update s.contentViews view run } s') :
      ScreenOutcome ui s (.inView view event) s'
  | finished {entry : LogEntry} (hsource : entry.source = none) :
      ScreenOutcome ui s .finishAtCurrentQuestion
        { s with log := s.log ++ [entry], rightButtonTitle := s.finishTitle }

/-- The close button asks for the choice of a chapter. -/
theorem closeTap_ok {draws : Nat → Nat}
    (htitle : ¬ (s.rightButtonTitle = kNext ∨ s.rightButtonTitle = kSkip))
    (h : s.rightButtonTap ui draws = .ok s') :
    ∃ entry, s' =
      { s with log := s.log ++ [entry], pops := s.pops ++ [.popToQuestionChoice] } := by
  unfold rightButtonTap at h
  rw [if_neg htitle] at h
  obtain ⟨t, ht, h⟩ := bind_eq_ok.mp h
  obtain ⟨entry, -, rfl, -⟩ := record_ok ht
  exact ⟨entry, (Except.ok.inj h).symm⟩

theorem rightButtonTap_outcome {draws : Nat → Nat} (hpos : 0 ≤ s.currentPositionQuestion)
    (h : s.rightButtonTap ui draws = .ok s') : ScreenOutcome ui s (.rightButtonTap draws) s' := by
  unfold rightButtonTap at h
  by_cases htitle : s.rightButtonTitle = kNext ∨ s.rightButtonTitle = kSkip
  · rw [if_pos htitle] at h
    obtain ⟨t, ht, h⟩ := bind_eq_ok.mp h
    obtain ⟨tap, -, rfl, htap, -⟩ := record_ok ht
    obtain ⟨u, hu, h⟩ := bind_eq_ok.mp h
    obtain ⟨w, hw, hu⟩ := bind_eq_ok.mp hu
    obtain ⟨lbSubTitle, rfl⟩ := setSubTitle_ok hw
    rw [if_pos (by show s.currentPositionQuestion + 1 > 0; omega)] at hu
    obtain ⟨q, hq, hu⟩ := bind_eq_ok.mp hu
    obtain ⟨content, hcontent, rfl⟩ := switchTo_ok hu
    obtain ⟨display, rfl, hdisplay⟩ := recordDisplay_ok h
    have hout : ScreenOutcome ui s _ (s.switched _ content lbSubTitle [tap, display]) :=
      .switched (.inl rfl) hq hcontent (by simp [htap, hdisplay])
    convert hout using 1
    simp [switched, addContentView, atLastQuestion]
  · rw [if_neg htitle] at h
    obtain ⟨t, ht, h⟩ := bind_eq_ok.mp h
    obtain ⟨tap, -, rfl, htap, -⟩ := record_ok ht
    obtain rfl := Except.ok.inj h
    exact .popped ⟨draws, .inl rfl⟩ htap

theorem leftButtonTap_outcome {draws : Nat → Nat} (h : s.leftButtonTap ui draws = .ok s') :
    ScreenOutcome ui s (.leftButtonTap draws) s' := by
  obtain ⟨t, ht, h⟩ := bind_eq_ok.mp h
  obtain ⟨tap, q₀, rfl, htap, hq₀, -⟩ := record_ok ht
  split_ifs at h with hzero
  · obtain rfl := Except.ok.inj h
    exact .popped ⟨draws, .inr rfl⟩ htap
  · obtain ⟨u, hu, h⟩ := bind_eq_ok.mp h
    obtain ⟨lbSubTitle, rfl⟩ := setSubTitle_ok hu
    obtain ⟨q, hq, h⟩ := bind_eq_ok.mp h
    obtain ⟨w, hw, h⟩ := bind_eq_ok.mp h
    obtain ⟨content, hcontent, rfl⟩ := switchTo_ok hw
    obtain ⟨display, rfl, hdisplay⟩ := recordDisplay_ok h
    have hout : ScreenOutcome ui s _ (s.switched _ content lbSubTitle [tap, display]) :=
      .switched (.inr rfl) hq hcontent (by simp [htap, hdisplay])
    -- the position before the tap is in range, so the one after it is not the last
    have hnotLast : ¬ s.currentPositionQuestion - 1 ≥
        (s.currentChapter.questions.length : Int) - 1 := by
      have := (question_inRange hq₀).2
      omega
    convert hout using 1
    simp [switched, addContentView, hnotLast]

/-- Every event of the screen does one of these things, when the position is not negative. -/
theorem screen_outcome {e : ScreenEvent} (hpos : 0 ≤ s.currentPositionQuestion)
    (he : s.Enabled e) (h : s.step ui e = .ok s') : ScreenOutcome ui s e s' := by
  cases e with
  | rightButtonTap draws => exact rightButtonTap_outcome hpos h
  | leftButtonTap draws => exact leftButtonTap_outcome h
  | transitionCompletion =>
    obtain ⟨view, transitions, hview⟩ := List.exists_cons_of_ne_nil he
    simp only [step, hview] at h
    exact Except.ok.inj h ▸ .completed hview
  | inView view event =>
    obtain ⟨run, hrun, h⟩ := bind_eq_ok.mp h
    exact .inView (inContent_eq_ok.mp hrun) rfl (deliver_ok h)
  | finishAtCurrentQuestion =>
    obtain ⟨t, ht, h⟩ := bind_eq_ok.mp h
    obtain ⟨entry, q, rfl, hsource, -⟩ := record_ok ht
    exact Except.ok.inj h ▸ .finished hsource

end AIMQuestionAnswerScreenViewController

end Imijun
