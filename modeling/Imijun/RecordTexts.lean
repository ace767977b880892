import Imijun.AppRecords
import Imijun.LogFacts

/-!
# The texts in the records

A line of the log splits into its columns when no text in it holds a tab or a newline. The texts
that a record takes from a chapter are the numbers and the wording of its questions, its title, and
the answers as the pieces show them.

* `TextInv`: a view names pieces by texts that were made for them.
* `Recordable`: the texts of a chapter are without the separator.
* `appRecord_without`: so is every record of the application.
-/

namespace Imijun

open Transition Fallible List

/-! ## The texts of a content view -/

namespace AIMListPieceView

variable {ui : Platform} {P : String → Prop}

/-- The loop of `setData` shows a piece with the text of its answer. -/
theorem setDataLoop_texts {hints : List AIMPiece} {draws : Nat → Nat}
    (entries : List (AIMPiece × Nat)) {count index : Nat} {w : ℚ} {l : AIMListPieceView}
    {r : AIMListPieceView × ℚ}
    (hentries : ∀ e ∈ entries, ∀ text, ui.lowercaseFirstCharater e.1.content = .ok text → P text)
    (hl : ∀ p, P (l.pieceView p).contentLabelText)
    (h : setDataLoop ui hints draws count (entries.map Prod.fst) (entries.map Prod.snd) index w l =
      .ok r) : ∀ p, P (r.1.pieceView p).contentLabelText := by
  induction count generalizing entries index w l with
  | zero =>
    obtain rfl := Except.ok.inj h
    exact hl
  | succ count ih =>
    obtain ⟨e, view, hint, he, hview, -, h⟩ := setDataLoop_succ.mp h
    refine ih _ (fun e he => hentries e (mem_of_mem_eraseIdx he)) (fun p => ?_) h
    obtain ⟨text, htext, hview⟩ := bind_eq_ok.mp hview
    obtain rfl := Except.ok.inj hview
    show P ((Function.update l.pieceView index _) p).contentLabelText
    by_cases hp : p = index
    · rw [hp, Function.update_self]
      exact hentries e (mem_of_getElem? he) text htext
    · rw [Function.update_of_ne hp]
      exact hl p

end AIMListPieceView

namespace QuestionRun

variable {ui : Platform} {s s' : QuestionRun} {e : Event} {P : String → Prop}

/-- The pieces, the proxy and the reported pieces have such texts. -/
structure TextInv (P : String → Prop) (s : QuestionRun) : Prop where
  pieces : ∀ p, P (s.view.listPieceView.pieceView p).contentLabelText
  proxy : P s.view.currentSelectPieceView.contentLabelText
  calls : ∀ piece k, .endDragPiece piece k ∈ s.view.calls → P piece.contentLabelText

/-- A step that keeps the data of the pieces and of the proxy, and reports the proxy only. -/
theorem TextInv.of_keeps (hs : s.TextInv P)
    (hface : ∀ p, (s'.view.listPieceView.pieceView p).face =
      (s.view.listPieceView.pieceView p).face)
    (hproxy : s'.view.currentSelectPieceView.face = s.view.currentSelectPieceView.face)
    {calls : List Call} (hcalls : s'.view.calls = s.view.calls ++ calls)
    (hreports : ∀ piece k, .endDragPiece piece k ∈ calls →
      piece.face = s.view.currentSelectPieceView.face) : s'.TextInv P := by
  have htext {v w : AIMPieceView} (h : v.face = w.face) : v.contentLabelText = w.contentLabelText :=
    congrArg (fun f => f.2.2.2) h
  refine ⟨fun p => htext (hface p) ▸ hs.pieces p, htext hproxy ▸ hs.proxy, fun piece k hcall => ?_⟩
  rw [hcalls, mem_append] at hcall
  rcases hcall with hcall | hcall
  · exact hs.calls piece k hcall
  · exact htext (hreports piece k hcall) ▸ hs.proxy

theorem TextInv.of_sameDrag (hs : s.TextInv P) {v : AIMQuestionContentView}
    (same : SameDrag s.view v) (touch : Option Touch)
    (animations : List Animation) :
    TextInv P { s with view := v, touch := touch, animations := animations } := by
  obtain ⟨quiet, hcalls, hquiet⟩ := same.calls
  exact hs.of_keeps (fun p => by rw [same.pieceView]) same.proxyFace hcalls fun piece k hcall => by
    cases hquiet _ hcall

theorem textInv_step (hs : s.TextInv P) (he : s.Enabled e) (h : s.step ui e = .ok s') :
    s'.TextInv P := by
  have hnone (piece : AIMPieceView) (k : Int) (hcall : .endDragPiece piece k ∈ ([] : List Call)) :
      piece.face = s.view.currentSelectPieceView.face := by cases hcall
  cases step_outcome he h with
  | quiet _ same _ => exact hs.of_sameDrag same s.touch s.animations
  | @began p location offset slot _ =>
    have hface := AIMListPieceView.hidePiece_face (s.view.listPieceView.setScroll false) p true
    refine ⟨fun q => ?_, hs.pieces p, hs.calls⟩
    exact Eq.subst (congrArg (fun f => f.2.2.2) (hface q)).symm (hs.pieces q)
  | accepted _ _ _ hlist =>
    exact hs.of_keeps (AIMListPieceView.reRender_same hlist).face rfl (append_nil _).symm hnone
  | @wrong t slot start failure _ _ _ _ hfailure =>
    have hcalls : (s.view.rejected failure start).calls = s.view.calls ++ (failure ++
        [.endDragPiece s.view.currentSelectPieceView (AIMQuestionContentView.searchSlot
          s.view.listPatternPieceView s.view.currentSelectPieceView.frame.center)]) :=
      append_assoc ..
    refine hs.of_keeps (fun _ => rfl) rfl hcalls fun piece k hcall => ?_
    rcases mem_append.mp hcall with hcall | hcall
    · cases hfailure _ hcall
    · cases mem_singleton.mp hcall
      rfl
  | cancelled => exact hs.of_keeps (fun _ => rfl) rfl (append_nil _).symm hnone
  | resignedIdle same _ _ => exact hs.of_sameDrag same none s.animations
  | @resigned w p start same _ _ _ _ =>
    refine (hs.of_sameDrag same none s.animations).of_keeps ?_ rfl (append_nil _).symm
      fun piece k hcall => by cases hcall
    cases p with
    | none => exact fun _ => rfl
    | some p => exact AIMListPieceView.hidePiece_face _ _ _
  | acceptedDone _ done =>
    obtain ⟨t, -, hlist⟩ := AIMListPieceView.removePiece_ok.mp done.list
    refine hs.of_keeps (fun q => by rw [completed, hlist]) (by rw [completed, done.proxy]; rfl)
      done.calls fun piece k hcall => ?_
    rcases mem_cons.mp hcall with hcall | hcall
    · cases hcall
      rw [done.proxy]
      rfl
    · simp only [mem_cons, reduceCtorEq, false_or] at hcall
      split_ifs at hcall <;> simp at hcall
  | returnedDone _ =>
    exact hs.of_keeps (AIMListPieceView.hidePiece_face _ _ _) rfl (append_nil _).symm hnone
  | animation _ =>
    exact hs.of_sameDrag (AIMQuestionContentView.runAnimation_sameDrag ui s.view _) s.touch _

/-- In every run a view names its pieces by the texts of the answers, or by the text of the nib. -/
theorem textInv_of_run {question : AIMQuestion} {draws : Nat → Nat}
    {content : AIMQuestionContentView} {ok : QuestionRun → Event → Prop}
    (hanswers : ∀ a ∈ question.answers, ∀ text,
      ui.lowercaseFirstCharater a.content = .ok text → P text) (hlabel : P "Label")
    (hcontent : AIMQuestionContentView.setData ui question draws = .ok content)
    (h : Reaches (step ui) (fun s e => s.Enabled e ∧ ok s e) (QuestionRun.start content) s) :
    s.TextInv P := by
  refine h.inv (TextInv P) ?_ fun _ _ _ hs he hstep => textInv_step hs he.1 hstep
  obtain ⟨draws, pattern, data, list, slots, hlist, -, rfl⟩ := started_of_setData hcontent
  refine ⟨fun p => ?_, hlabel, fun piece k hcall => by cases hcall⟩
  obtain ⟨⟨l, w⟩, hloop, hlist⟩ := bind_eq_ok.mp hlist
  obtain rfl := Except.ok.inj hlist
  refine AIMListPieceView.setDataLoop_texts _ (fun e he => hanswers e.1 ?_) (fun _ => hlabel)
    hloop p
  exact mem_of_getElem? (AIMListPieceView.mem_answerEntries.mp he).1

end QuestionRun

/-! ## Texts without a separator -/

/-- The separator of the lines, or that of the columns. -/
def IsSeparator (ch : Char) : Prop := ch = '\t' ∨ ch = '\n'

def Free (ch : Char) (text : String) : Prop := ch ∉ text.toList

instance (ch : Char) : DecidablePred (Free ch) := fun text => by unfold Free; infer_instance

variable {ch : Char} {a b : String}

theorem Free.append (ha : Free ch a) (hb : Free ch b) : Free ch (a ++ b) := by
  unfold Free at *
  rw [String.toList_append, mem_append]
  exact not_or.mpr ⟨ha, hb⟩

section Separators

variable (hch : IsSeparator ch)
include hch

/-- A text of the program, where neither separator occurs. -/
theorem free_of_decide (htab : Free '\t' a) (hnew : Free '\n' a) : Free ch a := by
  rcases hch with rfl | rfl
  · exact htab
  · exact hnew

theorem free_minus : Free ch "-" := free_of_decide hch (by decide) (by decide)

theorem free_nat (n : Nat) : Free ch (toString n) := by
  intro hmem
  have hdigit := AIMUtilities.isDigit_of_mem_toString hmem
  rcases hch with rfl | rfl <;> exact absurd hdigit (by decide)

theorem free_int (n : Int) : Free ch (toString n) := by
  cases n with
  | ofNat n => exact free_nat hch n
  | negSucc n => exact (free_minus hch).append (free_nat hch (n + 1))

theorem free_actionName (x : Log.ActionName) : Free ch x.rawValue := by
  cases x <;> exact free_of_decide hch (by decide) (by decide)

theorem free_objectName (x : Log.ObjectName) : Free ch x.rawValue := by
  cases x <;> exact free_of_decide hch (by decide) (by decide)

theorem free_objectKind (x : Log.ObjectKind) : Free ch x.rawValue := by
  cases x <;> exact free_of_decide hch (by decide) (by decide)

theorem free_resutl (x : Log.Resutl) : Free ch x.rawValue := by
  cases x <;> exact free_of_decide hch (by decide) (by decide)

theorem free_chapterType (x : Log.ChapterType) : Free ch x.rawValue := by
  cases x <;> exact free_of_decide hch (by decide) (by decide)

theorem free_outerScreenName (x : Log.OuterScreenName) : Free ch x.rawValue := by
  cases x <;> exact free_of_decide hch (by decide) (by decide)

theorem free_outerObjectName (x : Log.OuterObjectName) : Free ch x.rawValue := by
  cases x <;> exact free_of_decide hch (by decide) (by decide)

/-! ## The columns of a call -/

theorem free_dragColumns {piece : AIMPieceView} (hpiece : Free ch piece.contentLabelText)
    (k : Int) :
    Free ch (dragColumns piece k).objectName ∧ Free ch (dragColumns piece k).objectType ∧
      Free ch (dragColumns piece k).boxResult ∧ Free ch (dragColumns piece k).result := by
  refine ⟨hpiece, (free_objectKind hch .Piece).append (free_nat hch _), ?_, ?_⟩
  · have hbox : Free ch "BOX" := free_of_decide hch (by decide) (by decide)
    unfold dragColumns
    split_ifs
    · exact free_minus hch
    · exact hbox.append (free_nat hch _)
    · exact hbox.append (free_int hch _)
  · unfold dragColumns
    split_ifs
    · exact free_resutl hch .Discontinuity
    · exact free_resutl hch .Right
    · exact free_resutl hch .Wrong

/-- No column holds the separator. -/
def ColumnsFree (ch : Char) (columns : String × DragColumns) : Prop :=
  Free ch columns.1 ∧ Free ch columns.2.objectName ∧ Free ch columns.2.objectType ∧
    Free ch columns.2.boxResult ∧ Free ch columns.2.result

omit hch in
/-- The columns of a call are free when the piece it names is. -/
theorem columnsFree_of_recorded (hch : IsSeparator ch) {call : Call}
    (hpiece : ∀ piece k, call = .endDragPiece piece k → Free ch piece.contentLabelText)
    {columns : String × DragColumns} (h : call.recorded = some columns) :
    ColumnsFree ch columns := by
  cases call with
  | endDragPiece piece k =>
    obtain rfl := Option.some.inj h
    exact ⟨free_actionName hch .Drag, free_dragColumns hch (hpiece piece k rfl) k⟩
  | finishAtCurrentQuestion =>
    obtain rfl := Option.some.inj h
    exact ⟨free_actionName hch .Display, free_objectName hch .ImijunBox,
      free_objectKind hch .ImijunBox, free_minus hch, free_resutl hch .Right⟩
  | pressedHintButton =>
    obtain rfl := Option.some.inj h
    exact ⟨free_actionName hch .Tap, free_objectName hch .JapaneseHintButton,
      free_objectKind hch .Button, free_minus hch, free_resutl hch .Success⟩
  | pressedEnglishHintButton =>
    obtain rfl := Option.some.inj h
    exact ⟨free_actionName hch .Tap, free_objectName hch .EnglishHintButton,
      free_objectKind hch .Button, free_minus hch, free_resutl hch .Success⟩
  | playAudio sound => cases h

end Separators

/-! ## The records of a question screen -/

/-- The texts of a chapter that its question screen records are free of the separator. -/
structure Recordable (ui : Platform) (ch : Char) (chapter : AIMChapter) : Prop where
  index : ∀ q ∈ chapter.questions, Free ch q.index
  content : ∀ q ∈ chapter.questions, Free ch q.content
  answers : ∀ q ∈ chapter.questions, ∀ a ∈ q.answers,
    ∀ text ∈ (ui.lowercaseFirstCharater a.content).toOption, Free ch text

namespace AIMQuestionAnswerScreenViewController

variable {ui : Platform} {s s₀ : AIMQuestionAnswerScreenViewController} {chapter : AIMChapter}
  {chapterType : Log.ChapterType} {title : String} {draws : Nat → Nat}

/-- The calls of every view name pieces by free texts. -/
theorem calls_free (hch : IsSeparator ch) (hchapter : Recordable ui ch chapter)
    (h₀ : (loaded chapter chapterType title).viewDidLoad ui draws = .ok s₀)
    (h : Reaches (step ui) Enabled s₀ s) (view : Nat) {piece : AIMPieceView} {k : Int}
    (hcall : .endDragPiece piece k ∈ (s.contentViews view).view.calls) :
    Free ch piece.contentLabelText := by
  obtain ⟨-, hcurrent, -⟩ := entryInv_of_run h₀ h
  have hguarded : Reaches (step ui)
      (fun s e => s.Enabled e ∧ InViews (fun _ _ => True) s e) s₀ s :=
    h.mono fun s e he => ⟨he, by cases e <;> trivial⟩
  have hruns := viewsRun_of_run h₀ hguarded
  by_cases hview : view < s.created
  · obtain ⟨q, hq, draws, content, hcontent, hrun⟩ := hruns.ran view hview
    rw [hcurrent] at hq
    refine (QuestionRun.textInv_of_run (P := Free ch) (fun a ha text htext => ?_)
      (free_of_decide hch (by decide) (by decide)) hcontent hrun).calls piece k hcall
    exact hchapter.answers q hq a ha text (by rw [htext]; rfl)
  · rw [hruns.unused view (not_lt.mp hview)] at hcall
    cases hcall

theorem entry_without (hch : IsSeparator ch) (hchapter : Recordable ui ch chapter)
    (h₀ : (loaded chapter chapterType title).viewDidLoad ui draws = .ok s₀)
    (h : Reaches (step ui) Enabled s₀ s) {entry : LogEntry} (hentry : entry ∈ s.log) :
    entry.record.Without ch := by
  obtain ⟨hentries, hcurrent, htype⟩ := entryInv_of_run h₀ h
  obtain ⟨hof, hfor⟩ := hentries entry hentry
  rw [hcurrent] at hof hfor
  have hcolumns : ColumnsFree ch entry.columns := by
    cases hfor with
    | @tap button _ hcolumns =>
      rw [hcolumns]
      exact ⟨free_actionName hch .Tap, free_objectName hch button, free_objectKind hch .Button,
        free_minus hch, free_resutl hch .Success⟩
    | @display q hq _ hcolumns =>
      rw [hcolumns]
      exact ⟨free_actionName hch .Display, hchapter.content q hq, free_objectKind hch .Screen,
        free_minus hch, free_resutl hch .Success⟩
    | finish _ hcolumns =>
      exact columnsFree_of_recorded hch (fun piece k h => by cases h) hcolumns.symm
    | @call view call hsource _ =>
      have hmem : entry.columns ∈ s.recordsOf view :=
        mem_map_of_mem (mem_filter.mpr ⟨hentry,
          decide_eq_true ((LogEntry.isFrom_of_source hsource).mpr rfl)⟩)
      rw [recordsCalls_of_run h₀ h view] at hmem
      obtain ⟨made, hmade, hrecorded⟩ := mem_filterMap.mp hmem
      refine columnsFree_of_recorded hch (fun piece k heq => ?_) hrecorded
      exact calls_free hch hchapter h₀ h view (heq ▸ hmade)
  obtain ⟨haction, hname, htype', hbox, hresult⟩ := hcolumns
  obtain ⟨n, -, hnumber⟩ := hof.chapterNumber
  obtain ⟨q, hq, hquestion⟩ := hof.question
  have hscreen : Free ch entry.record.screenName := by
    rw [hof.screenName]
    exact free_of_decide hch (by decide) (by decide)
  have hkind : Free ch entry.record.questionType := hof.questionType ▸ free_chapterType hch _
  have hchapterNumber : Free ch entry.record.chapterNumber := hnumber ▸ free_int hch _
  have hquestionNumber : Free ch entry.record.questionNumber :=
    hquestion ▸ hchapter.index q hq
  simp only [LogRecord.Without, LogRecord.fields, forall_mem_cons]
  exact ⟨hscreen, haction, hname, htype', hbox, hresult, hkind, hchapterNumber, hquestionNumber,
    fun _ h => by cases h⟩

end AIMQuestionAnswerScreenViewController

/-! ## The records of the application -/

/-- The texts of the chapters that the application records are free of the separators. -/
def RecordableBundle (ui : Platform) (bundle : List DescribedChapter) : Prop :=
  ∀ ch, IsSeparator ch → ∀ chapter ∈ bundle,
    Free ch (titleString chapter.title) ∧ Recordable ui ch chapter.toAIMChapter

variable {ui : Platform} {bundle : List DescribedChapter}

theorem OuterObject.free (hch : IsSeparator ch) (hbundle : RecordableBundle ui bundle)
    (h : OuterObject bundle a) : Free ch a := by
  cases h with
  | fixed objectName => exact free_outerObjectName hch objectName
  | backButton => exact free_objectName hch .BackButton
  | title hchapter => exact (hbundle ch hch _ hchapter).1
  | row hchapter index =>
    have hfixed {text : String} (htab : Free '\t' text) (hnew : Free '\n' text) : Free ch text :=
      free_of_decide hch htab hnew
    have hindex : Free ch ("第" ++ toString index ++ "章") :=
      ((hfixed (by decide) (by decide)).append (free_nat hch index)).append
        (hfixed (by decide) (by decide))
    exact ((hindex.append (hfixed (by decide) (by decide))).append
      (hbundle ch hch _ hchapter).1).append (hfixed (by decide) (by decide))

theorem outerRecord_without (hch : IsSeparator ch) (screenName : Log.OuterScreenName)
    (actionName : Log.ActionName) (objectType : Log.ObjectKind)
    {questionType chapterNumber : String} (hobject : Free ch a) (htype : Free ch questionType)
    (hnumber : Free ch chapterNumber) :
    (outerRecord screenName actionName a objectType questionType chapterNumber).Without ch := by
  simp only [LogRecord.Without, LogRecord.fields, forall_mem_cons]
  exact ⟨free_outerScreenName hch _, free_actionName hch _, hobject, free_objectKind hch _,
    free_minus hch, free_resutl hch .Success, htype, hnumber, free_minus hch,
    fun _ h => by cases h⟩

/-- Every record of the application splits into its columns. -/
theorem appRecord_without (hch : IsSeparator ch) (hbundle : RecordableBundle ui bundle)
    {r : LogRecord} (h : AppRecord ui bundle r) : r.Without ch := by
  cases h with
  | outer _ actionName hobject objectType htype =>
    refine outerRecord_without hch _ _ _ (hobject.free hch hbundle) ?_ (free_minus hch)
    rcases htype with rfl | ⟨table, rfl⟩
    · exact free_minus hch
    · exact free_chapterType hch _
  | description _ hobject h =>
    obtain ⟨n, -, h⟩ := bind_eq_ok.mp h
    obtain rfl := Except.ok.inj h
    exact outerRecord_without hch _ _ _ (hobject.free hch hbundle) (free_chapterType hch _)
      (free_int hch _)
  | question hopened hentry =>
    obtain ⟨draws, s₀, h₀, hrun⟩ := hopened.run
    exact AIMQuestionAnswerScreenViewController.entry_without hch
      (hbundle ch hch _ hopened.shown.mem).2 h₀ hrun hentry

end Imijun
