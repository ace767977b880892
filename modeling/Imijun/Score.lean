import Imijun.Lib.Tally
import Imijun.Placement
import Imijun.ScreenLog
import Imijun.Verdict

/-!
# The score in the log

A log is read by counting its records. In every run in which no touch begins on a piece whose
accepted drop is pending,

* `ScoreInv`: a view has reported as many right drops as pieces have left its list, whatever the
  proxy showed when the completion ran;
* `score_in_log`: so the right drops in the log are the pieces placed in all views together, those
  recorded for a view are the pieces placed in it, and its end is recorded when all of them are,
  once.
-/

namespace Imijun

open Transition Fallible List

/-- The columns of a drop that the screen has judged right. -/
def isRightDrag (columns : String × DragColumns) : Bool :=
  columns.1 = Log.ActionName.Drag.rawValue && columns.2.result = Log.Resutl.Right.rawValue

/-- The columns of the end of a question. -/
def isFinish (columns : String × DragColumns) : Bool :=
  some columns = Call.finishAtCurrentQuestion.recorded

namespace AIMQuestionContentView

/-- The right drops among the calls of a view. -/
def rightDrags (v : AIMQuestionContentView) : Nat :=
  (v.calls.filterMap Call.recorded).countP isRightDrag

/-- A call that is no report is no drop. -/
theorem isRightDrag_quiet {quiet : List Call} (h : ∀ c ∈ quiet, c.isReport = false) :
    (quiet.filterMap Call.recorded).countP isRightDrag = 0 := by
  rw [countP_eq_zero]
  intro columns hcolumns
  obtain ⟨c, hc, hrecorded⟩ := mem_filterMap.mp hcolumns
  cases c with
  | endDragPiece piece k => cases h _ hc
  | finishAtCurrentQuestion => cases h _ hc
  | pressedHintButton => cases hrecorded; decide
  | pressedEnglishHintButton => cases hrecorded; decide
  | playAudio sound => cases hrecorded

theorem rightDrags_append {v v' : AIMQuestionContentView} {calls : List Call}
    (h : v'.calls = v.calls ++ calls) :
    v'.rightDrags = v.rightDrags + (calls.filterMap Call.recorded).countP isRightDrag := by
  rw [rightDrags, h, filterMap_append, countP_append]
  rfl

theorem rightDrags_sameDrag {v v' : AIMQuestionContentView} (same : SameDrag v v') :
    v'.rightDrags = v.rightDrags := by
  obtain ⟨quiet, hcalls, hquiet⟩ := same.calls
  rw [rightDrags_append hcalls, isRightDrag_quiet hquiet]
  rfl

/-- The completion of an accepted drop is recorded as right, whatever the proxy shows. -/
theorem rightDrags_acceptedDone {v v' : AIMQuestionContentView} {k p : Nat}
    (done : v.AcceptedDone k p v') : v'.rightDrags = v.rightDrags + 1 := by
  rw [rightDrags_append done.calls]
  have hproxy : v'.currentSelectPieceView.patternIndex = v.currentSelectPieceView.patternIndex := by
    rw [done.proxy]
  have hne : ¬ (v.currentSelectPieceView.patternIndex : Int) = -1 := by omega
  have hright : isRightDrag (Log.ActionName.Drag.rawValue,
      dragColumns v'.currentSelectPieceView v.currentSelectPieceView.patternIndex) = true := by
    simp [isRightDrag, dragColumns, hproxy, hne]
  have hfinish : isRightDrag (Log.ActionName.Display.rawValue,
      ⟨Log.ObjectName.ImijunBox.rawValue, Log.ObjectKind.ImijunBox.rawValue, "-",
        Log.Resutl.Right.rawValue⟩) = false := by decide
  split_ifs <;> simp [Call.recorded, hright, hfinish]

/-- A wrong drop of the piece that the proxy shows is not recorded as right. -/
theorem rightDrags_rejected {v : AIMQuestionContentView} {failure : List Call} {start : CGPoint}
    {slot : AIMPatternPiece} (hfailure : ∀ c ∈ failure, c.isReport = false)
    (hslot : v.listPatternPieceView[v.currentSelectPieceView.patternIndex]? = some slot)
    (hfar : slot.matched v.currentSelectPieceView.frame.center = false) :
    (v.rejected failure start).rightDrags = v.rightDrags := by
  have hcalls : (v.rejected failure start).calls = v.calls ++ (failure ++
      [.endDragPiece v.currentSelectPieceView (searchSlot v.listPatternPieceView
        v.currentSelectPieceView.frame.center)]) := append_assoc ..
  rw [rightDrags_append hcalls, filterMap_append, countP_append, isRightDrag_quiet hfailure]
  have hwrong : (dragColumns v.currentSelectPieceView (searchSlot v.listPatternPieceView
      v.currentSelectPieceView.frame.center)).result ≠ Log.Resutl.Right.rawValue := by
    rcases QuestionRun.records_rejected hslot (QuestionRun.matched_eq_false_iff.mp hfar) with
      ⟨j, -, hrecords⟩ | ⟨-, hrecords⟩
    · exact hrecords.ne_right (by decide)
    · exact hrecords.ne_right (by decide)
  simp [Call.recorded, isRightDrag, hwrong]

end AIMQuestionContentView

namespace QuestionRun

variable {ui : Platform} {s s' : QuestionRun} {e : Event} {list : AIMListPieceView} {n : Nat}

/-- The proxy stands for the dragged piece, and the right drops are the pieces that have left the
list of `n` pieces. -/
structure ScoreInv (list : AIMListPieceView) (n : Nat) (s : QuestionRun) : Prop where
  placement : s.PlacementInv list n
  proxy : ∀ t, s.touch = some t → s.view.currentSelectPieceView.patternIndex =
    (list.pieceView t.piece).patternIndex
  score : s.view.rightDrags + s.view.listPieceView.pieceViewArray.length = n

/-- The proxy shows another piece only when a touch begins. -/
theorem proxy_step (hs : s.PlacementInv list n)
    (hproxy : ∀ t, s.touch = some t → s.view.currentSelectPieceView.patternIndex =
      (list.pieceView t.piece).patternIndex) (he : s.Enabled e) (h : s.step ui e = .ok s') :
    ∀ t, s'.touch = some t → s'.view.currentSelectPieceView.patternIndex =
      (list.pieceView t.piece).patternIndex := by
  intro t ht
  cases step_outcome he h with
  | quiet _ same _ => exact (congrArg Prod.fst same.proxyFace).trans (hproxy t ht)
  | @began p location offset slot _ =>
    obtain rfl := Option.some.inj ht
    exact hs.patternIndex p
  | accepted _ _ _ _ => cases ht
  | wrong _ _ _ _ _ => cases ht
  | cancelled => cases ht
  | resignedIdle _ _ _ => cases ht
  | resigned _ _ _ _ _ => cases ht
  | acceptedDone _ done =>
    exact (congrArg AIMPieceView.patternIndex done.proxy).trans (hproxy t ht)
  | returnedDone _ => exact hproxy t ht
  | animation _ =>
    exact (congrArg Prod.fst (AIMQuestionContentView.runAnimation_sameDrag ui s.view
      _).proxyFace).trans (hproxy t ht)

/-- The completion of an accepted drop takes out one piece. -/
theorem PlacementInv.length_acceptedDone (hs : s.PlacementInv list n) {i k p : Nat}
    {v : AIMQuestionContentView} (hi : s.drops[i]? = some (.accepted k p))
    (done : s.view.AcceptedDone k p v) :
    v.listPieceView.pieceViewArray.length + 1 = s.view.listPieceView.pieceViewArray.length := by
  obtain ⟨t, -, hlist⟩ := AIMListPieceView.removePiece_ok.mp done.list
  obtain ⟨hlisted, -, -⟩ := hs.pending k p (mem_of_getElem? hi)
  have hp := getElem?_idxOf hlisted
  rw [hlist]
  show (filter (· ≠ p) s.view.listPieceView.pieceViewArray).length + 1 = _
  rw [CachedIndex.filter_ne_eq_eraseIdx (hs.listed.nodup nodup_range) hp,
    length_eraseIdx_of_lt (List.getElem?_eq_some_iff.mp hp).1]
  exact Nat.sub_add_cancel (length_pos_of_mem hlisted)

/-- Only the completion of an accepted drop takes a piece out, and it reports one right drop. -/
theorem score_step (hs : s.ScoreInv list n) (he : s.Enabled e) (h : s.step ui e = .ok s') :
    s'.view.rightDrags + s'.view.listPieceView.pieceViewArray.length = n := by
  cases step_outcome he h with
  | quiet _ same _ =>
    rw [AIMQuestionContentView.rightDrags_sameDrag same, same.pieceViewArray]
    exact hs.score
  | began _ => exact hs.score
  | accepted _ _ _ hlist =>
    have hlength := congrArg length (AIMListPieceView.reRender_same hlist).pieceViewArray
    exact (congrArg (s.view.rightDrags + ·) hlength).trans hs.score
  | @wrong t slot start failure ht hslot hfar _ hfailure =>
    have hproxy : s.view.currentSelectPieceView.patternIndex =
        (s.view.listPieceView.pieceView t.piece).patternIndex :=
      (hs.proxy t ht).trans (hs.placement.patternIndex t.piece).symm
    have hrights : (s.view.rejected failure start).rightDrags = s.view.rightDrags :=
      AIMQuestionContentView.rightDrags_rejected hfailure (hproxy ▸ hslot) hfar
    exact (congrArg (· + s.view.listPieceView.pieceViewArray.length) hrights).trans hs.score
  | cancelled => exact hs.score
  | resignedIdle same _ _ =>
    show _ + length (AIMQuestionContentView.listPieceView _).pieceViewArray = n
    rw [AIMQuestionContentView.rightDrags_sameDrag same, same.pieceViewArray]
    exact hs.score
  | @resigned w p start same _ _ _ _ =>
    have hcalls : (w.restored p start).rightDrags = w.rightDrags := rfl
    have hrestored := hcalls.trans (AIMQuestionContentView.rightDrags_sameDrag same)
    have hlist : (w.restored p start).listPieceView.pieceViewArray =
        s.view.listPieceView.pieceViewArray := by
      cases p <;> exact same.pieceViewArray
    show (w.restored p start).rightDrags + _ = n
    rw [hrestored, hlist]
    exact hs.score
  | @acceptedDone i k p v hi done =>
    have hremoved := hs.placement.length_acceptedDone hi done
    have hscore := hs.score
    show v.rightDrags + v.listPieceView.pieceViewArray.length = n
    rw [AIMQuestionContentView.rightDrags_acceptedDone done]
    omega
  | returnedDone _ => exact hs.score
  | animation _ =>
    have same := AIMQuestionContentView.runAnimation_sameDrag ui s.view
    show _ + length (AIMQuestionContentView.listPieceView _).pieceViewArray = n
    rw [AIMQuestionContentView.rightDrags_sameDrag (same _), (same _).pieceViewArray]
    exact hs.score

theorem scoreInv_step (hs : s.ScoreInv list n)
    (hslots : ∀ p < n, ∀ q < n,
      (list.pieceView p).patternIndex = (list.pieceView q).patternIndex → p = q)
    (he : s.Enabled e) (hnot : s.NotPending e) (h : s.step ui e = .ok s') :
    s'.ScoreInv list n where
  placement := placementInv_step hs.placement hslots he hnot h
  proxy := proxy_step hs.placement hs.proxy he h
  score := score_step hs he h

theorem scoreInv_of_run {question : AIMQuestion} {v : AIMQuestionContentView}
    (hstart : Started ui question v)
    (h : Reaches (step ui) (fun s e => s.Enabled e ∧ s.NotPending e) (QuestionRun.start v) s) :
    ∃ list, s.ScoreInv list (AIMListPieceView.pieceCount question.answers) := by
  obtain ⟨draws, pattern, data, list, slots, hlist, hslots, rfl⟩ := hstart
  have hpieces := AIMListPieceView.setData_pieces hlist
  refine ⟨list, h.inv (ScoreInv list (AIMListPieceView.pieceCount question.answers))
    ⟨placementInv_start hlist hslots, fun t ht => (by cases ht), ?_⟩
    fun _ _ _ hs he hstep => scoreInv_step hs hpieces.slot_injective he.1 he.2 hstep⟩
  show 0 + list.pieceViewArray.length = _
  rw [hpieces.filled.pieceViewArray, length_range, Nat.zero_add]

end QuestionRun

/-! ## The log -/

/-- The end of a question has columns of its own. -/
theorem isFinish_recorded {call : Call} {columns : String × DragColumns}
    (h : call.recorded = some columns) :
    isFinish columns = true ↔ call = .finishAtCurrentQuestion := by
  unfold isFinish
  rw [decide_eq_true_eq, ← h]
  refine ⟨fun heq => ?_, fun heq => congrArg Call.recorded heq⟩
  cases call with
  | finishAtCurrentQuestion => rfl
  | endDragPiece piece k =>
    have haction : Log.ActionName.Drag.rawValue = Log.ActionName.Display.rawValue :=
      congrArg Prod.fst (Option.some.inj heq)
    exact absurd haction (by decide)
  | pressedHintButton => exact absurd heq (by decide)
  | pressedEnglishHintButton => exact absurd heq (by decide)
  | playAudio sound => cases heq

theorem countP_isFinish (calls : List Call) :
    (calls.filterMap Call.recorded).countP isFinish = calls.count .finishAtCurrentQuestion := by
  induction calls with
  | nil => rfl
  | cons call calls ih =>
    rw [count_cons, ← ih]
    cases hcall : call.recorded with
    | none =>
      have hne : call ≠ .finishAtCurrentQuestion := by
        rintro rfl
        cases hcall
      rw [filterMap_cons_none hcall]
      simp [hne]
    | some columns =>
      rw [filterMap_cons_some hcall, countP_cons]
      simp only [isFinish_recorded hcall, beq_iff_eq]

namespace AIMQuestionAnswerScreenViewController

variable {ui : Platform} {s : AIMQuestionAnswerScreenViewController}

/-- The pieces that have been placed in a view. -/
def placedIn (s : AIMQuestionAnswerScreenViewController) (view : Nat) : Nat :=
  AIMListPieceView.pieceCount (s.contentViews view).view.question.answers -
    (s.contentViews view).view.listPieceView.countPieceAnswer

/-- An entry of a drop comes from a view that has been made. -/
theorem source_of_drag (hunused : ∀ view, s.created ≤ view → (s.contentViews view).view.calls = [])
    (hrecords : s.RecordsCalls) {entry : LogEntry} (hentry : entry ∈ s.log)
    (hfor : EntryFor s.currentChapter entry)
    (hdrag : isRightDrag entry.columns = true) :
    ∃ view < s.created, entry.source.map Prod.fst = some view := by
  cases hfor with
  | tap _ hcolumns =>
    rw [hcolumns] at hdrag
    exact absurd hdrag (by simp [isRightDrag, Log.ActionName.rawValue])
  | display _ _ hcolumns =>
    rw [hcolumns] at hdrag
    exact absurd hdrag (by simp [isRightDrag, Log.ActionName.rawValue])
  | finish _ hcolumns =>
    rw [Option.some.inj hcolumns] at hdrag
    exact absurd hdrag (by simp [isRightDrag, Log.ActionName.rawValue])
  | @call view call hsource _ =>
    refine ⟨view, ?_, by rw [hsource]; rfl⟩
    by_contra hview
    have hmem : entry.columns ∈ s.recordsOf view :=
      mem_map_of_mem (mem_filter.mpr ⟨hentry,
        decide_eq_true ((LogEntry.isFrom_of_source hsource).mpr rfl)⟩)
    rw [hrecords view, hunused view (not_lt.mp hview)] at hmem
    cases hmem

/-- In every run of the screen in which no touch begins on a piece whose accepted drop is pending,
the log counts what was done: the drops recorded as right are as many as the pieces placed in all
views that were ever made; those recorded for a view are the pieces placed in it; and its end is
recorded exactly when all its pieces are placed, and once. -/
theorem score_in_log {chapter : AIMChapter} {chapterType : Log.ChapterType} {title : String}
    {draws : Nat → Nat} {s₀ : AIMQuestionAnswerScreenViewController}
    (h₀ : (loaded chapter chapterType title).viewDidLoad ui draws = .ok s₀)
    (h : Reaches (step ui) (fun s e => s.Enabled e ∧ InViews QuestionRun.NotPending s e) s₀ s) :
    s.log.countP (fun entry => isRightDrag entry.columns) =
        ∑ view ∈ Finset.range s.created, s.placedIn view ∧
      ∀ view < s.created, (s.recordsOf view).countP isRightDrag = s.placedIn view ∧
        (s.recordsOf view).countP isFinish =
          if s.placedIn view =
              AIMListPieceView.pieceCount (s.contentViews view).view.question.answers ∧
            s.placedIn view ≠ 0 then 1 else 0 := by
  have henabled : Reaches (step ui) Enabled s₀ s := h.mono fun _ _ h => h.1
  have hrecords := recordsCalls_of_run h₀ henabled
  obtain ⟨hentries, -, -⟩ := entryInv_of_run h₀ henabled
  have hruns := viewsRun_of_run h₀ h
  have hviews : ∀ view < s.created, (s.recordsOf view).countP isRightDrag = s.placedIn view ∧
      (s.recordsOf view).countP isFinish =
        if s.placedIn view =
            AIMListPieceView.pieceCount (s.contentViews view).view.question.answers ∧
          s.placedIn view ≠ 0 then 1 else 0 := by
    intro view hview
    obtain ⟨question, -, draws, content, hcontent, hrun⟩ := hruns.ran view hview
    obtain ⟨list, hs⟩ := QuestionRun.scoreInv_of_run
      (QuestionRun.started_of_setData hcontent) hrun
    have hquestion : (s.contentViews view).view.question = question := by
      refine (hrun.inv (fun run => run.view.question = question) (setData_question hcontent)
        fun _ _ _ hq he hstep => ?_)
      exact (QuestionRun.step_question he.1 hstep).1.trans hq
    have hscore := hs.score
    have hfinish := hs.placement.finish
    rw [AIMQuestionContentView.reports, count_filter rfl] at hfinish
    have hplaced : s.placedIn view = (s.contentViews view).view.rightDrags := by
      rw [placedIn, hquestion, AIMListPieceView.countPieceAnswer]
      omega
    refine ⟨?_, ?_⟩
    · rw [hrecords view, hplaced]
      rfl
    · rw [hrecords view, countP_isFinish, hfinish, hplaced, hquestion]
      refine if_congr ?_ rfl rfl
      rw [← length_eq_zero_iff]
      omega
  refine ⟨?_, hviews⟩
  have hsources : ∀ entry ∈ s.log, isRightDrag entry.columns = true →
      ∃ view < s.created, entry.source.map Prod.fst = some view := fun entry hentry hdrag =>
    source_of_drag hruns.unused hrecords hentry (hentries entry hentry).2 hdrag
  rw [Tally.countP_eq_sum hsources]
  refine Finset.sum_congr rfl fun view hview => ?_
  rw [← (hviews view (Finset.mem_range.mp hview)).1, recordsOf, countP_map]
  rfl

/-- The first question is solved, with a wrong drop on the way, and a piece of the second one is
placed. -/
theorem score_in_log_second_question :
    ∃ s₀ s, (loaded (sampleChapter 3) .BasicQuestion kSkip).viewDidLoad .ascii (fun _ => 0) =
        .ok s₀ ∧
      Reaches (step .ascii) (fun s e => s.Enabled e ∧ InViews QuestionRun.NotPending s e) s₀ s ∧
      s.log.countP (fun entry => isRightDrag entry.columns) = 4 ∧
      (s.recordsOf 0).countP isFinish = 1 ∧ (s.recordsOf 1).countP isFinish = 0 := by
  have hrun : (playChapter 3 (fun s e => s.Enabled e ∧ InViews QuestionRun.NotPending s e)
      ((QuestionRun.drag 0 (QuestionRun.inList 0) QuestionRun.offSlots).map (.inView 0) ++
        .inView 0 (.dropCompletion 0) :: dropAll 0 ++ completeAll 0 ++
        (.rightButtonTap fun _ => 0) ::
        (QuestionRun.drag 2 (QuestionRun.inList 2) (QuestionRun.onSlot 2)).map (.inView 1) ++
        [.inView 1 (.dropCompletion 0)])).any (fun s =>
      decide (s.created = 2) && decide (s.placedIn 0 = 3) && decide (s.placedIn 1 = 1) &&
        decide (AIMListPieceView.pieceCount (s.contentViews 0).view.question.answers = 3) &&
        decide (AIMListPieceView.pieceCount (s.contentViews 1).view.question.answers = 3)) =
      true := by decide +kernel
  obtain ⟨s₀, s, h₀, hreach, hend⟩ := exists_run_of_playChapter hrun
  simp only [Bool.and_eq_true, decide_eq_true_eq] at hend
  obtain ⟨⟨⟨⟨hcreated, hfirst⟩, hsecond⟩, hcount₀⟩, hcount₁⟩ := hend
  obtain ⟨htotal, hviews⟩ := score_in_log h₀ hreach
  refine ⟨s₀, s, h₀, hreach, ?_, ?_, ?_⟩
  · rw [htotal, hcreated, Finset.sum_range_succ, Finset.sum_range_one, hfirst, hsecond]
  · rw [(hviews 0 (by omega)).2, hfirst, hcount₀]
    rfl
  · rw [(hviews 1 (by omega)).2, hsecond, hcount₁]
    rfl

end AIMQuestionAnswerScreenViewController

end Imijun
