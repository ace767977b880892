import Imijun.Credit

/-!
# The records of the question screen

The content views of a screen run side by side: the one that is shown, and those that a transition
has replaced and whose completions still run.

* `ViewsRun`, `viewsRun_step`: every content view goes through a run of its own, so what is proved
  about the runs of a question holds for each view of a screen.
* `screen_records_views`: the records made for a view are, in order, those of the calls it has made.
* `OfChapter`, `ofChapter_step`: every record names the screen, the chapter and one of its
  questions.
-/

namespace Imijun

open Transition Fallible List

/-! ## What the screen writes for a call -/

/-- The columns of a record that say what happened: the action, and the object with its result. -/
def Call.recorded : Call → Option (String × DragColumns)
  | .endDragPiece piece k => some (Log.ActionName.Drag.rawValue, dragColumns piece k)
  | .finishAtCurrentQuestion => some (Log.ActionName.Display.rawValue,
      ⟨Log.ObjectName.ImijunBox.rawValue, Log.ObjectKind.ImijunBox.rawValue, "-",
        Log.Resutl.Right.rawValue⟩)
  | .pressedHintButton => some (Log.ActionName.Tap.rawValue,
      ⟨Log.ObjectName.JapaneseHintButton.rawValue, Log.ObjectKind.Button.rawValue, "-",
        Log.Resutl.Success.rawValue⟩)
  | .pressedEnglishHintButton => some (Log.ActionName.Tap.rawValue,
      ⟨Log.ObjectName.EnglishHintButton.rawValue, Log.ObjectKind.Button.rawValue, "-",
        Log.Resutl.Success.rawValue⟩)
  | .playAudio _ => none

/-- These columns of an entry. -/
def LogEntry.columns (entry : LogEntry) : String × DragColumns :=
  (entry.record.actionName, ⟨entry.record.objectName, entry.record.objectType,
    entry.record.boxResult, entry.record.result⟩)

/-- The entry was made for content view `view`. -/
def LogEntry.IsFrom (view : Nat) (entry : LogEntry) : Prop :=
  entry.source.map Prod.fst = some view

instance (view : Nat) : DecidablePred (LogEntry.IsFrom view) := fun entry => by
  unfold LogEntry.IsFrom; infer_instance

theorem LogEntry.isFrom_of_source {view w : Nat} {call : Call} {entry : LogEntry}
    (h : entry.source = some (view, call)) : entry.IsFrom w ↔ view = w := by
  unfold IsFrom
  rw [h, Option.map_some, Option.some.injEq]

theorem LogEntry.not_isFrom_of_none {view : Nat} {entry : LogEntry} (h : entry.source = none) :
    ¬ entry.IsFrom view := by
  unfold IsFrom
  rw [h]
  exact fun h => by cases h

namespace AIMQuestionAnswerScreenViewController

variable {ui : Platform} {s s' : AIMQuestionAnswerScreenViewController} {e : ScreenEvent}
  {view : Nat}

/-- The columns of the records made for content view `view`. -/
def recordsOf (s : AIMQuestionAnswerScreenViewController) (view : Nat) :
    List (String × DragColumns) :=
  (s.log.filter (·.IsFrom view)).map (·.columns)

theorem recordsOf_append {entries : List LogEntry} (h : s'.log = s.log ++ entries) (w : Nat) :
    s'.recordsOf w = s.recordsOf w ++ (entries.filter (·.IsFrom w)).map (·.columns) := by
  rw [recordsOf, recordsOf, h, filter_append, map_append]

/-- The screen's own records belong to no view. -/
theorem recordsOf_append_none {entries : List LogEntry} (h : s'.log = s.log ++ entries)
    (hnone : ∀ entry ∈ entries, entry.source = none) (w : Nat) :
    s'.recordsOf w = s.recordsOf w := by
  have hempty : entries.filter (·.IsFrom w) = [] :=
    filter_eq_nil_iff.mpr fun entry hentry => by
      rw [decide_eq_true_eq]
      exact LogEntry.not_isFrom_of_none (hnone entry hentry)
  rw [recordsOf_append h, hempty, map_nil, append_nil]

/-- A delegate method that records the call. -/
theorem recordsOf_record {call : Call} {actionName : Log.ActionName} (columns : DragColumns)
    (h : s.record actionName columns.objectName columns.objectType columns.boxResult columns.result
      (some (view, call)) = .ok s') (w : Nat) :
    s'.recordsOf w =
      s.recordsOf w ++ if view = w then [(actionName.rawValue, columns)] else [] := by
  obtain ⟨entry, q, rfl, hsource, -, -, haction, hcolumns⟩ := record_ok h
  obtain ⟨h1, h2, h3, h4⟩ := by simpa only [Prod.mk.injEq] using hcolumns
  have hentry : entry.columns = (actionName.rawValue, columns) := by
    rw [LogEntry.columns, haction, h1, h2, h3, h4]
  have hfrom : entry.IsFrom w ↔ view = w := LogEntry.isFrom_of_source hsource
  rw [recordsOf_append rfl]
  by_cases hw : view = w <;> simp [hfrom, hw, hentry]

theorem recordsOf_delegate {call : Call} (h : delegate view s call = .ok s') (w : Nat) :
    s'.recordsOf w = s.recordsOf w ++ if view = w then call.recorded.toList else [] := by
  cases call with
  | endDragPiece piece k => exact recordsOf_record (dragColumns piece k) h w
  | pressedHintButton => exact recordsOf_record ⟨_, _, _, _⟩ h w
  | pressedEnglishHintButton => exact recordsOf_record ⟨_, _, _, _⟩ h w
  | playAudio sound =>
    obtain rfl := Except.ok.inj h
    simp [Call.recorded]
  | finishAtCurrentQuestion =>
    obtain ⟨t, ht, h⟩ := bind_eq_ok.mp h
    obtain rfl := Except.ok.inj h
    exact recordsOf_record ⟨_, _, _, _⟩ ht w

theorem recordsOf_deliver {calls : List Call} (h : calls.foldlM (delegate view) s = .ok s')
    (w : Nat) :
    s'.recordsOf w = s.recordsOf w ++ if view = w then calls.filterMap Call.recorded else [] := by
  induction calls generalizing s with
  | nil =>
    obtain rfl := Except.ok.inj h
    simp
  | cons call calls ih =>
    obtain ⟨t, ht, h⟩ := foldlM_cons_eq_ok.mp h
    rw [ih h, recordsOf_delegate ht, append_assoc]
    by_cases hw : view = w
    · simp only [if_pos hw]
      cases hcall : call.recorded with
      | none => rw [filterMap_cons_none hcall, Option.toList_none, nil_append]
      | some columns => rw [filterMap_cons_some hcall, Option.toList_some, singleton_append]
    · simp only [if_neg hw, append_nil]

/-! ## The runs of the content views -/

/-- The events of the content views meet the condition `ok`. -/
def InViews (ok : QuestionRun → Event → Prop) (s : AIMQuestionAnswerScreenViewController) :
    ScreenEvent → Prop
  | .inView view event => ok (s.contentViews view) event
  | _ => True

instance (ok : QuestionRun → Event → Prop) [∀ s e, Decidable (ok s e)]
    (s : AIMQuestionAnswerScreenViewController) (e : ScreenEvent) : Decidable (InViews ok s e) :=
  match e with
  | .inView view event => inferInstanceAs (Decidable (ok (s.contentViews view) event))
  | .rightButtonTap _ | .leftButtonTap _ | .transitionCompletion | .finishAtCurrentQuestion =>
    instDecidableTrue

/-- A content view was made for a question of the chapter, and it has gone through a run of its own
since; a number that is not used yet stands for no view. -/
structure ViewsRun (ui : Platform) (ok : QuestionRun → Event → Prop)
    (s : AIMQuestionAnswerScreenViewController) : Prop where
  ran : ∀ view < s.created, ∃ question ∈ s.currentChapter.questions, ∃ draws content,
    AIMQuestionContentView.setData ui question draws = .ok content ∧
      Reaches (QuestionRun.step ui) ok (QuestionRun.start content) (s.contentViews view)
  unused : ∀ view, s.created ≤ view → (s.contentViews view).view.calls = []

theorem viewsRun_start {ok : QuestionRun → Event → Prop} {chapter : AIMChapter}
    {chapterType : Log.ChapterType} {title : String} {draws : Nat → Nat}
    (h : (loaded chapter chapterType title).viewDidLoad ui draws = .ok s) : s.ViewsRun ui ok := by
  obtain ⟨q, content, lbTitle, lbSubTitle, entry, hq, hcontent, -, rfl⟩ := viewDidLoad_ok h
  refine ⟨fun view hview => ?_, fun view hview => ?_⟩
  · obtain rfl : view = 0 := Nat.lt_one_iff.mp hview
    exact ⟨q, mem_of_getElem? hq, draws, content, hcontent, .refl⟩
  · have hne : view ≠ 0 := Nat.one_le_iff_ne_zero.mp hview
    have hother : (((loaded chapter chapterType title).addContentView content).contentViews
        view).view.calls = ((loaded chapter chapterType title).contentViews view).view.calls :=
      congrArg (fun run : QuestionRun => run.view.calls)
        (Function.update_of_ne hne _ (loaded chapter chapterType title).contentViews)
    exact hother

/-- A tap that shows another question starts the run of its view. -/
theorem viewsRun_switched {ok : QuestionRun → Event → Prop} (hs : s.ViewsRun ui ok)
    {position : Int} {question : AIMQuestion} {draws : Nat → Nat}
    {content : AIMQuestionContentView} (hquestion : s.question position = .ok question)
    (hcontent : AIMQuestionContentView.setData ui question draws = .ok content)
    (lbSubTitle : String) (entries : List LogEntry) :
    (s.switched position content lbSubTitle entries).ViewsRun ui ok := by
  refine ⟨fun view hview => ?_, fun view hview => ?_⟩
  · show ∃ q ∈ s.currentChapter.questions, ∃ draws content', _ ∧ Reaches _ ok _
      ((Function.update s.contentViews s.created (QuestionRun.start content)) view)
    rcases Nat.lt_succ_iff_lt_or_eq.mp hview with hview | rfl
    · rw [Function.update_of_ne hview.ne]
      exact hs.ran view hview
    · rw [Function.update_self]
      exact ⟨question, mem_of_getElem? (question_eq_ok.mp hquestion).2, draws, content, hcontent,
        .refl⟩
  · have hview : s.created + 1 ≤ view := hview
    show ((Function.update s.contentViews s.created _) view).view.calls = []
    rw [Function.update_of_ne (by omega)]
    exact hs.unused view (by omega)

theorem viewsRun_step {ok : QuestionRun → Event → Prop} (hs : s.ViewsRun ui ok)
    (hpos : 0 ≤ s.currentPositionQuestion) (he : s.Enabled e) (hok : InViews ok s e)
    (h : s.step ui e = .ok s') : s'.ViewsRun ui ok := by
  cases screen_outcome hpos he h with
  | popped _ _ => exact ⟨hs.ran, hs.unused⟩
  | switched _ hquestion hcontent _ => exact viewsRun_switched hs hquestion hcontent _ _
  | completed _ => exact ⟨hs.ran, hs.unused⟩
  | @inView view event run calls _ hstep _ delivered =>
    have hview : view < s.created := he.1
    rw [delivered.state]
    refine ⟨fun w hw => ?_, fun w hw => ?_⟩
    · show ∃ q ∈ s.currentChapter.questions, ∃ draws content, _ ∧ Reaches _ ok _
        ((Function.update s.contentViews view run) w)
      by_cases hwv : w = view
      · rw [hwv, Function.update_self]
        obtain ⟨q, hq, draws, content, hcontent, hrun⟩ := hs.ran view hview
        exact ⟨q, hq, draws, content, hcontent, hrun.tail hok hstep⟩
      · rw [Function.update_of_ne hwv]
        exact hs.ran w hw
    · have hw : s.created ≤ w := hw
      show ((Function.update s.contentViews view run) w).view.calls = []
      rw [Function.update_of_ne (by omega)]
      exact hs.unused w hw
  | finished _ => exact ⟨hs.ran, hs.unused⟩

/-- In every run of the screen whose events in content views meet `ok`, so do the runs of the
content views. -/
theorem viewsRun_of_run {ok : QuestionRun → Event → Prop} {chapter : AIMChapter}
    {chapterType : Log.ChapterType} {title : String} {draws : Nat → Nat}
    {s₀ : AIMQuestionAnswerScreenViewController}
    (h₀ : (loaded chapter chapterType title).viewDidLoad ui draws = .ok s₀)
    (h : Reaches (step ui) (fun s e => s.Enabled e ∧ InViews ok s e) s₀ s) :
    s.ViewsRun ui (fun s e => s.Enabled e ∧ ok s e) := by
  obtain ⟨hs, -⟩ := h.inv
    (fun s => s.ViewsRun ui (fun s e => s.Enabled e ∧ ok s e) ∧ s.ShowsPosition)
    ⟨viewsRun_start h₀, showsPosition_start h₀⟩ fun t e u ht he hstep => by
      refine ⟨viewsRun_step ht.1 ht.2.inRange he.1 ?_ hstep, showsPosition_step ht.2 he.1 hstep⟩
      cases e with
      | inView view event => exact ⟨he.1.2.1, he.2⟩
      | _ => trivial
  exact hs

/-! ## Every call has its record -/

/-- The records made for each view are, in order, those of its calls. -/
def RecordsCalls (s : AIMQuestionAnswerScreenViewController) : Prop :=
  ∀ view, s.recordsOf view = (s.contentViews view).view.calls.filterMap Call.recorded

theorem calls_of_setData {question : AIMQuestion} {draws : Nat → Nat}
    {content : AIMQuestionContentView}
    (h : AIMQuestionContentView.setData ui question draws = .ok content) : content.calls = [] := by
  obtain ⟨draws, pattern, data, list, slots, -, -, rfl⟩ := QuestionRun.started_of_setData h
  rfl

/-- An event of a view delivers exactly the calls it makes. -/
theorem recordsCalls_inView (hs : s.RecordsCalls) {event : Event}
    (he : (s.contentViews view).Enabled event) (h : s.inView ui view event = .ok s') :
    s'.RecordsCalls := by
  obtain ⟨run, hrun, h⟩ := bind_eq_ok.mp h
  rw [inContent_eq_ok] at hrun
  obtain ⟨calls, hcalls, -⟩ := QuestionRun.step_calls he hrun
  rw [hcalls, drop_left] at h
  intro w
  have hdelivered := recordsOf_deliver h w
  have hviews : s'.contentViews = Function.update s.contentViews view run := by
    rw [(deliver_ok h).state]
  rw [hdelivered, hviews]
  by_cases hw : view = w
  · subst hw
    rw [if_pos rfl, Function.update_self, hcalls, filterMap_append]
    exact congrArg (· ++ _) (hs view)
  · rw [if_neg hw, append_nil, Function.update_of_ne (Ne.symm hw)]
    exact hs w

theorem recordsCalls_step {ok : QuestionRun → Event → Prop} (hs : s.RecordsCalls)
    (hruns : s.ViewsRun ui ok) (hpos : 0 ≤ s.currentPositionQuestion) (he : s.Enabled e)
    (h : s.step ui e = .ok s') : s'.RecordsCalls := by
  cases screen_outcome hpos he h with
  | popped _ hsource =>
    exact fun w => (recordsOf_append_none rfl (by simpa using hsource) w).trans (hs w)
  | switched _ _ hcontent hentries =>
    intro w
    refine (recordsOf_append_none rfl hentries w).trans ((hs w).trans ?_)
    -- the new view has made no call, and neither had the unused number
    show _ = ((Function.update s.contentViews s.created _) w).view.calls.filterMap Call.recorded
    by_cases hw : w = s.created
    · rw [hw, Function.update_self, hruns.unused _ le_rfl]
      exact (congrArg (filterMap Call.recorded) (calls_of_setData hcontent)).symm
    · rw [Function.update_of_ne hw]
  | completed _ => exact hs
  | inView _ _ _ => exact recordsCalls_inView hs he.2.1 h
  | finished hsource =>
    exact fun w => (recordsOf_append_none rfl (by simpa using hsource) w).trans (hs w)

theorem recordsCalls_of_run {chapter : AIMChapter} {chapterType : Log.ChapterType}
    {title : String} {draws : Nat → Nat} {s₀ : AIMQuestionAnswerScreenViewController}
    (h₀ : (loaded chapter chapterType title).viewDidLoad ui draws = .ok s₀)
    (h : Reaches (step ui) Enabled s₀ s) : s.RecordsCalls := by
  have hstart : s₀.RecordsCalls := by
    have hruns : s₀.ViewsRun ui fun _ _ => True := viewsRun_start h₀
    obtain ⟨q, content, lbTitle, lbSubTitle, entry, -, hcontent, hsource, rfl⟩ := viewDidLoad_ok h₀
    intro w
    refine (recordsOf_append_none (s := loaded chapter chapterType title) rfl
      (by simpa using hsource) w).trans ?_
    by_cases hw : w = 0
    · subst hw
      exact (congrArg (filterMap Call.recorded) (calls_of_setData hcontent)).symm
    · exact (congrArg (filterMap Call.recorded)
        (hruns.unused w (Nat.one_le_iff_ne_zero.mpr hw))).symm
  obtain ⟨hs, -⟩ := h.inv
    (fun s => s.RecordsCalls ∧ s.ViewsRun ui QuestionRun.Enabled ∧ s.ShowsPosition)
    ⟨hstart, viewsRun_start h₀, showsPosition_start h₀⟩ fun t e u ht he hstep => by
      obtain ⟨hrecords, hruns, hshows⟩ := ht
      refine ⟨recordsCalls_step hrecords hruns hshows.inRange he hstep,
        viewsRun_step hruns hshows.inRange he ?_ hstep, showsPosition_step hshows he hstep⟩
      cases e with
      | inView view event => exact he.2.1
      | _ => trivial
  exact hs

/-! ## What a record names -/

/-- The record names the screen, the chapter and one of its questions. -/
structure OfChapter (chapter : AIMChapter) (chapterType : Log.ChapterType) (r : LogRecord) :
    Prop where
  screenName : r.screenName = Log.ScreenName.AnswerAndQuestion.rawValue
  questionType : r.questionType = chapterType.rawValue
  chapterNumber : ∃ n, swiftInt chapter.index = some n ∧
    r.chapterNumber = toString (n.tmod 8 + n.tdiv 8)
  question : ∃ q ∈ chapter.questions, r.questionNumber = q.index

/-- What the columns of an entry can say: a button was tapped, a question of the chapter appeared,
the end of a question came from nowhere, or a view made the call of the entry. -/
inductive EntryFor (chapter : AIMChapter) (entry : LogEntry) : Prop
  | tap {button : Log.ObjectName} (hsource : entry.source = none)
      (hcolumns : entry.columns = (Log.ActionName.Tap.rawValue,
        ⟨button.rawValue, Log.ObjectKind.Button.rawValue, "-", Log.Resutl.Success.rawValue⟩))
  | display {q : AIMQuestion} (hq : q ∈ chapter.questions) (hsource : entry.source = none)
      (hcolumns : entry.columns = (Log.ActionName.Display.rawValue,
        ⟨q.content, Log.ObjectKind.Screen.rawValue, "-", Log.Resutl.Success.rawValue⟩))
  | finish (hsource : entry.source = none)
      (hcolumns : some entry.columns = Call.finishAtCurrentQuestion.recorded)
  | call {view : Nat} {call : Call} (hsource : entry.source = some (view, call))
      (hcolumns : some entry.columns = call.recorded)

/-- Every entry names the chapter and has the columns of one of these. -/
def EntryInv (s : AIMQuestionAnswerScreenViewController) : Prop :=
  ∀ entry ∈ s.log, OfChapter s.currentChapter s.chapterType entry.record ∧
    EntryFor s.currentChapter entry

/-- A part of a handler keeps the chapter, and writes such entries only. -/
structure KeepsEntries (s s' : AIMQuestionAnswerScreenViewController) : Prop where
  currentChapter : s'.currentChapter = s.currentChapter
  chapterType : s'.chapterType = s.chapterType
  entries : s.EntryInv → s'.EntryInv

theorem KeepsEntries.trans {t : AIMQuestionAnswerScreenViewController} (h : KeepsEntries s t)
    (h' : KeepsEntries t s') : KeepsEntries s s' :=
  ⟨h'.currentChapter.trans h.currentChapter, h'.chapterType.trans h.chapterType,
    fun hs => h'.entries (h.entries hs)⟩

/-- A part that writes no record. -/
theorem keepsEntries_of_log (hchapter : s'.currentChapter = s.currentChapter)
    (htype : s'.chapterType = s.chapterType) (hlog : s'.log = s.log) : KeepsEntries s s' := by
  refine ⟨hchapter, htype, fun hs entry hentry => ?_⟩
  rw [hchapter, htype]
  exact hs entry (hlog ▸ hentry)

theorem keepsEntries_record {actionName : Log.ActionName}
    {objectName objectType boxResult result : String} {source : Option (Nat × Call)}
    (h : s.record actionName objectName objectType boxResult result source = .ok s')
    (hentry : ∀ entry : LogEntry, entry.source = source →
      entry.columns = (actionName.rawValue, ⟨objectName, objectType, boxResult, result⟩) →
      EntryFor s.currentChapter entry) : KeepsEntries s s' := by
  obtain ⟨number, hnumber, h⟩ := bind_eq_ok.mp h
  obtain ⟨q, hq, h⟩ := bind_eq_ok.mp h
  obtain ⟨n, hn, hnumber⟩ := bind_eq_ok.mp hnumber
  rw [orThrow_eq_ok] at hn
  obtain rfl := Except.ok.inj hnumber
  obtain rfl := Except.ok.inj h
  refine ⟨rfl, rfl, fun hs entry hmem => ?_⟩
  rcases mem_append.mp hmem with hmem | hmem
  · exact hs entry hmem
  · obtain rfl := mem_singleton.mp hmem
    exact ⟨⟨rfl, rfl, ⟨n, hn, rfl⟩, q, mem_of_getElem? (question_eq_ok.mp hq).2, rfl⟩,
      hentry _ rfl rfl⟩

theorem keepsEntries_recordTap {button : Log.ObjectName}
    (h : s.recordTap button none = .ok s') : KeepsEntries s s' :=
  keepsEntries_record h fun _ hsource hcolumns => .tap hsource hcolumns

theorem keepsEntries_recordDisplay (h : s.recordDisplay = .ok s') : KeepsEntries s s' := by
  obtain ⟨q, hq, h⟩ := bind_eq_ok.mp h
  have hmem : q ∈ s.currentChapter.questions := mem_of_getElem? (question_eq_ok.mp hq).2
  exact keepsEntries_record h fun _ hsource hcolumns => .display hmem hsource hcolumns

theorem keepsEntries_setSubTitle {i : Int} (h : s.setSubTitle i = .ok s') : KeepsEntries s s' := by
  obtain ⟨lbSubTitle, rfl⟩ := setSubTitle_ok h
  exact keepsEntries_of_log rfl rfl rfl

theorem keepsEntries_switchTo {q : AIMQuestion} {draws : Nat → Nat} {title : String}
    (h : s.switchTo ui q draws title = .ok s') : KeepsEntries s s' := by
  obtain ⟨content, -, rfl⟩ := switchTo_ok h
  exact keepsEntries_of_log rfl rfl rfl

theorem keepsEntries_delegate {call : Call} (h : delegate view s call = .ok s') :
    KeepsEntries s s' := by
  cases call with
  | endDragPiece piece k =>
    exact keepsEntries_record h fun _ hsource hcolumns => .call hsource (congrArg some hcolumns)
  | pressedHintButton =>
    exact keepsEntries_record h fun _ hsource hcolumns => .call hsource (congrArg some hcolumns)
  | pressedEnglishHintButton =>
    exact keepsEntries_record h fun _ hsource hcolumns => .call hsource (congrArg some hcolumns)
  | playAudio sound =>
    obtain rfl := Except.ok.inj h
    exact keepsEntries_of_log rfl rfl rfl
  | finishAtCurrentQuestion =>
    obtain ⟨t, ht, h⟩ := bind_eq_ok.mp h
    obtain rfl := Except.ok.inj h
    exact (keepsEntries_record ht fun _ hsource hcolumns =>
      .call hsource (congrArg some hcolumns)).trans (keepsEntries_of_log rfl rfl rfl)

theorem keepsEntries_deliver {calls : List Call} (h : calls.foldlM (delegate view) s = .ok s') :
    KeepsEntries s s' := by
  induction calls generalizing s with
  | nil =>
    obtain rfl := Except.ok.inj h
    exact keepsEntries_of_log rfl rfl rfl
  | cons call calls ih =>
    obtain ⟨t, ht, h⟩ := foldlM_cons_eq_ok.mp h
    exact (keepsEntries_delegate ht).trans (ih h)

theorem keepsEntries_rightButtonTap {draws : Nat → Nat} (h : s.rightButtonTap ui draws = .ok s') :
    KeepsEntries s s' := by
  unfold rightButtonTap at h
  by_cases htitle : s.rightButtonTitle = kNext ∨ s.rightButtonTitle = kSkip
  · rw [if_pos htitle] at h
    obtain ⟨t, ht, h⟩ := bind_eq_ok.mp h
    obtain ⟨u, hu, h⟩ := bind_eq_ok.mp h
    refine (keepsEntries_recordTap ht).trans
      (KeepsEntries.trans ?_ (keepsEntries_recordDisplay h))
    obtain ⟨w, hw, hu⟩ := bind_eq_ok.mp hu
    have hmoved : KeepsEntries t
        { t with currentPositionQuestion := t.currentPositionQuestion + 1 } :=
      keepsEntries_of_log rfl rfl rfl
    refine hmoved.trans ((keepsEntries_setSubTitle hw).trans ?_)
    split_ifs at hu
    · obtain ⟨q, -, hu⟩ := bind_eq_ok.mp hu
      exact keepsEntries_switchTo hu
    · obtain rfl := Except.ok.inj hu
      exact keepsEntries_of_log rfl rfl rfl
  · rw [if_neg htitle] at h
    obtain ⟨t, ht, h⟩ := bind_eq_ok.mp h
    obtain rfl := Except.ok.inj h
    exact (keepsEntries_recordTap ht).trans (keepsEntries_of_log rfl rfl rfl)

theorem keepsEntries_leftButtonTap {draws : Nat → Nat} (h : s.leftButtonTap ui draws = .ok s') :
    KeepsEntries s s' := by
  obtain ⟨t, ht, h⟩ := bind_eq_ok.mp h
  refine (keepsEntries_recordTap ht).trans ?_
  split_ifs at h
  · obtain rfl := Except.ok.inj h
    exact keepsEntries_of_log rfl rfl rfl
  · obtain ⟨u, hu, h⟩ := bind_eq_ok.mp h
    obtain ⟨q, -, h⟩ := bind_eq_ok.mp h
    obtain ⟨w, hw, h⟩ := bind_eq_ok.mp h
    have hmoved : KeepsEntries t
        { t with currentPositionQuestion := t.currentPositionQuestion - 1 } :=
      keepsEntries_of_log rfl rfl rfl
    exact hmoved.trans ((keepsEntries_setSubTitle hu).trans
      ((keepsEntries_switchTo hw).trans (keepsEntries_recordDisplay h)))

theorem keepsEntries_step (h : s.step ui e = .ok s') : KeepsEntries s s' := by
  cases e with
  | rightButtonTap draws => exact keepsEntries_rightButtonTap h
  | leftButtonTap draws => exact keepsEntries_leftButtonTap h
  | transitionCompletion =>
    simp only [step] at h
    split at h <;> obtain rfl := Except.ok.inj h <;> exact keepsEntries_of_log rfl rfl rfl
  | inView view event =>
    obtain ⟨run, -, h⟩ := bind_eq_ok.mp h
    have hupdated : KeepsEntries s
        { s with contentViews := Function.update s.contentViews view run } :=
      keepsEntries_of_log rfl rfl rfl
    exact hupdated.trans (keepsEntries_deliver h)
  | finishAtCurrentQuestion =>
    obtain ⟨t, ht, h⟩ := bind_eq_ok.mp h
    obtain rfl := Except.ok.inj h
    exact (keepsEntries_record ht fun _ hsource hcolumns =>
      .finish hsource (congrArg some hcolumns)).trans (keepsEntries_of_log rfl rfl rfl)

theorem entryInv_of_run {chapter : AIMChapter} {chapterType : Log.ChapterType}
    {title : String} {draws : Nat → Nat} {s₀ : AIMQuestionAnswerScreenViewController}
    (h₀ : (loaded chapter chapterType title).viewDidLoad ui draws = .ok s₀)
    (h : Reaches (step ui) Enabled s₀ s) :
    s.EntryInv ∧ s.currentChapter = chapter ∧ s.chapterType = chapterType := by
  have hstart : KeepsEntries (loaded chapter chapterType title) s₀ := by
    obtain ⟨t, ht, h₀⟩ := bind_eq_ok.mp h₀
    obtain ⟨u, hu, ht⟩ := bind_eq_ok.mp ht
    obtain rfl := Except.ok.inj ht
    obtain ⟨q, -, h₀⟩ := bind_eq_ok.mp h₀
    obtain ⟨content, -, h₀⟩ := bind_eq_ok.mp h₀
    have htitled : KeepsEntries (loaded chapter chapterType title)
        { loaded chapter chapterType title with lbTitle := titleString chapter.title } :=
      keepsEntries_of_log rfl rfl rfl
    have hadded : KeepsEntries u
        { u.addContentView content with currentQuestionContentView := u.created } :=
      keepsEntries_of_log rfl rfl rfl
    exact htitled.trans ((keepsEntries_setSubTitle hu).trans
      (hadded.trans (keepsEntries_recordDisplay h₀)))
  have hs := h.inv (KeepsEntries (loaded chapter chapterType title)) hstart
    fun _ _ _ ht _ hstep => ht.trans (keepsEntries_step hstep)
  exact ⟨hs.entries fun entry hentry => (by cases hentry), hs.currentChapter, hs.chapterType⟩

/-- In every run of the screen, whichever views are on it and in whatever order their events come,
the records made for a view are those of the calls it has made, in order: none is lost, made twice
or given to another view. Every record names the screen, the kind and the number of the chapter and
a question of it, and its columns are those of a button, of a question that appeared, of the end of
a question, or of a call. -/
theorem screen_records_views {chapter : AIMChapter} {chapterType : Log.ChapterType}
    {title : String} {draws : Nat → Nat} {s₀ : AIMQuestionAnswerScreenViewController}
    (h₀ : (loaded chapter chapterType title).viewDidLoad ui draws = .ok s₀)
    (h : Reaches (step ui) Enabled s₀ s) :
    (∀ view, s.recordsOf view = (s.contentViews view).view.calls.filterMap Call.recorded) ∧
      ∀ entry ∈ s.log, OfChapter chapter chapterType entry.record ∧ EntryFor chapter entry := by
  obtain ⟨hs, rfl, rfl⟩ := entryInv_of_run h₀ h
  exact ⟨recordsCalls_of_run h₀ h, hs⟩

/-- A drop in the first view is completed after the second view has come up, while a piece of the
second one is dropped. -/
theorem screen_records_views_two_views :
    ∃ s₀ s, (loaded (sampleChapter 3) .BasicQuestion kSkip).viewDidLoad .ascii (fun _ => 0) =
        .ok s₀ ∧ Reaches (step .ascii) Enabled s₀ s ∧
      s.recordsOf 0 = [(Log.ActionName.Drag.rawValue, ⟨"am", "ピース2", "BOX2", "正解"⟩)] ∧
      s.recordsOf 1 = [(Log.ActionName.Drag.rawValue, ⟨"I", "ピース1", "-", "中断"⟩)] := by
  have hrun : (playChapter 3 Enabled
      ((QuestionRun.drag 1 (QuestionRun.inList 1) (QuestionRun.onSlot 1)).map (.inView 0) ++
        [.rightButtonTap fun _ => 0, .inView 1 (.touchBegan 0 (QuestionRun.inList 0) ⟨0, 0⟩),
          .inView 0 (.dropCompletion 0), .inView 1 (.touchMoved QuestionRun.offSlots),
          .inView 1 .touchEnded])).any (fun s =>
      decide ((s.contentViews 0).view.calls.filterMap Call.recorded =
          [(Log.ActionName.Drag.rawValue, ⟨"am", "ピース2", "BOX2", "正解"⟩)]) &&
        decide ((s.contentViews 1).view.calls.filterMap Call.recorded =
          [(Log.ActionName.Drag.rawValue, ⟨"I", "ピース1", "-", "中断"⟩)])) = true := by
    decide +kernel
  obtain ⟨s₀, s, h₀, hreach, hend⟩ := exists_run_of_playChapter hrun
  rw [Bool.and_eq_true, decide_eq_true_eq, decide_eq_true_eq] at hend
  have hrecords := (screen_records_views h₀ hreach).1
  exact ⟨s₀, s, h₀, hreach, (hrecords 0).trans hend.1, (hrecords 1).trans hend.2⟩

end AIMQuestionAnswerScreenViewController

end Imijun
