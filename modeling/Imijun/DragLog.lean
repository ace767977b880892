import Imijun.StartPoint
import Imijun.ScreenFacts

/-!
# The Drag records

A finished drop calls `endDragPiece` with the proxy, which the next touch overwrites.

* `each_drop_reported_once`: in every run the drops that are through are reported one by one.
* `drops_logged_for_their_piece`: when no touch begins while an accepted drop is pending, the Drag
  record of a drop carries the text, the number and the box of the dropped piece.
* `drop_logged_for_other_piece`: a touch that begins before the completion puts its own piece into
  the record.
-/

namespace Imijun

open Transition Fallible List

namespace AIMQuestionAnswerScreenViewController

/-- `endDragPiece` writes one record, with the columns of the call. -/
theorem endDragPiece_ok {s s' : AIMQuestionAnswerScreenViewController} {piece : AIMPieceView}
    {k : Int} {source : Option (Nat × Call)} (h : s.endDragPiece piece k source = .ok s') :
    ∃ entry, s'.log = s.log ++ [entry] ∧ entry.source = source ∧
      entry.record.actionName = Log.ActionName.Drag.rawValue ∧
      DragColumns.mk entry.record.objectName entry.record.objectType entry.record.boxResult
        entry.record.result = dragColumns piece k := by
  obtain ⟨entry, q, rfl, hsource, -, -, haction, hcolumns⟩ := record_ok h
  obtain ⟨h1, h2, h3, h4⟩ := by simpa only [Prod.mk.injEq] using hcolumns
  exact ⟨entry, rfl, hsource, haction, by rw [h1, h2, h3, h4]⟩

end AIMQuestionAnswerScreenViewController

namespace AIMQuestionContentView

/-- The arguments of the `endDragPiece` calls a view has made, in order. -/
def dragCalls (v : AIMQuestionContentView) : List (AIMPieceView × Int) :=
  v.reports.filterMap fun
    | .endDragPiece piece k => some (piece, k)
    | _ => none

end AIMQuestionContentView

namespace QuestionRun

variable {ui : Platform} {s s' : QuestionRun} {e : Event}

theorem dragCalls_rejected {v : AIMQuestionContentView} {failure : List Call} {start : CGPoint}
    (hfailure : ∀ c ∈ failure, c.isReport = false) :
    (v.rejected failure start).dragCalls = v.dragCalls ++ [(v.currentSelectPieceView,
      AIMQuestionContentView.searchSlot v.listPatternPieceView
        v.currentSelectPieceView.frame.center)] := by
  simp [AIMQuestionContentView.dragCalls, reports_rejected hfailure]

theorem dragCalls_acceptedDone {v v' : AIMQuestionContentView} {k p : Nat}
    (done : v.AcceptedDone k p v') :
    v'.dragCalls = v.dragCalls ++
      [(v'.currentSelectPieceView, (v.currentSelectPieceView.patternIndex : Int))] := by
  rw [AIMQuestionContentView.dragCalls, reports_acceptedDone done]
  split_ifs <;> simp [AIMQuestionContentView.dragCalls]

theorem dragCalls_sameDrag {v v' : AIMQuestionContentView} (same : SameDrag v v') :
    v'.dragCalls = v.dragCalls := by
  rw [AIMQuestionContentView.dragCalls, same.reports]
  rfl

/-- A touch begins only when no accepted drop is pending. -/
def AfterCompletions (s : QuestionRun) (e : Event) : Prop :=
  e.AtTouch fun _ => s.acceptedPieces = []

instance (s : QuestionRun) (e : Event) : Decidable (s.AfterCompletions e) := by
  unfold AfterCompletions; infer_instance

/-- The call reports the drop `d`: it shows the data of the dropped piece, and an accepted drop
names the slot of the piece. -/
structure ReportOf (l : AIMListPieceView) (d : FinishedDrop) (call : AIMPieceView × Int) :
    Prop where
  face : call.1.face = (l.pieceView d.piece).face
  slot : d.accepted = true → call.2 = (l.pieceView d.piece).patternIndex

/-- The proxy shows the dragged piece, and every piece whose accepted drop is pending; the calls
made so far report the drops that are through. -/
structure DragInv (s : QuestionRun) : Prop where
  touched : ∀ t, s.touch = some t →
    s.view.currentSelectPieceView.face = (s.view.listPieceView.pieceView t.piece).face
  pending : ∀ p ∈ s.acceptedPieces,
    s.view.currentSelectPieceView.face = (s.view.listPieceView.pieceView p).face
  reported : Forall₂ (ReportOf s.view.listPieceView) s.finished s.view.dragCalls

theorem ReportOf.congr {l l' : AIMListPieceView}
    (hface : ∀ p, (l'.pieceView p).face = (l.pieceView p).face) {d : FinishedDrop}
    {call : AIMPieceView × Int} (h : ReportOf l d call) : ReportOf l' d call where
  face := h.face.trans (hface d.piece).symm
  slot hd := by
    have hslot : (l'.pieceView d.piece).patternIndex = (l.pieceView d.piece).patternIndex :=
      congrArg Prod.fst (hface d.piece)
    rw [hslot]
    exact h.slot hd

theorem ReportOf.congr_all {l l' : AIMListPieceView} {drops : List FinishedDrop}
    {calls : List (AIMPieceView × Int)} (h : Forall₂ (ReportOf l) drops calls)
    (hface : ∀ p, (l'.pieceView p).face = (l.pieceView p).face) :
    Forall₂ (ReportOf l') drops calls :=
  h.imp fun _ _ hcall => hcall.congr hface

/-- A step that keeps the proxy's data and the pieces, and lets no drop through. -/
theorem DragInv.of_keeps (hs : s.DragInv)
    (hface : ∀ p, (s'.view.listPieceView.pieceView p).face =
      (s.view.listPieceView.pieceView p).face)
    (hproxy : s'.view.currentSelectPieceView.face = s.view.currentSelectPieceView.face)
    (htouch : ∀ t, s'.touch = some t → s.touch = some t)
    (hpending : ∀ p ∈ s'.acceptedPieces, p ∈ s.acceptedPieces)
    (hfinished : s'.finished = s.finished) (hcalls : s'.view.dragCalls = s.view.dragCalls) :
    s'.DragInv where
  touched t ht := by rw [hproxy, hface]; exact hs.touched t (htouch t ht)
  pending p hp := by rw [hproxy, hface]; exact hs.pending p (hpending p hp)
  reported := by
    rw [hfinished, hcalls]
    exact ReportOf.congr_all hs.reported hface

theorem DragInv.of_sameDrag (hs : s.DragInv) {v : AIMQuestionContentView}
    (same : SameDrag s.view v) (touch : Option Touch) (animations : List Animation)
    (htouch : ∀ t, touch = some t → s.touch = some t) :
    DragInv { s with view := v, touch := touch, animations := animations } :=
  hs.of_keeps (fun p => by rw [same.pieceView]) same.proxyFace htouch (fun _ h => h) rfl
    (dragCalls_sameDrag same)

theorem dragInv_began (hs : s.DragInv) (hnone : s.acceptedPieces = []) {p : Nat}
    {location offset : CGPoint} {slot : AIMPatternPiece} :
    DragInv { s with
      view := AIMQuestionContentView.chosen
        { s.view with listPieceView := s.view.listPieceView.setScroll false } p location offset slot
      touch := some ⟨p, s.view.centerInSelf p offset⟩ } where
  touched t ht := by
    obtain rfl := Option.some.inj ht
    exact (AIMListPieceView.hidePiece_face _ _ _ _).symm
  pending q hq := by
    have hq : q ∈ s.acceptedPieces := hq
    rw [hnone] at hq
    cases hq
  reported := ReportOf.congr_all hs.reported (AIMListPieceView.hidePiece_face _ p true)

theorem dragInv_accepted (hs : s.DragInv) {t : Touch} (ht : s.touch = some t)
    {slot : AIMPatternPiece} {k : Nat} {list : AIMListPieceView}
    (hlist : s.view.listPieceView.reRender = .ok list) :
    DragInv (s.dropped (s.view.accepted slot k list) t.piece (.accepted k t.piece)) where
  touched u hu := by cases hu
  pending p hp := by
    rw [acceptedPieces_dropped_accepted] at hp
    refine Eq.trans ?_ ((AIMListPieceView.reRender_same hlist).face p).symm
    rcases mem_append.mp hp with hp | hp
    · exact hs.pending p hp
    · exact mem_singleton.mp hp ▸ hs.touched t ht
  reported := by
    have hfinished : (s.dropped (s.view.accepted slot k list) t.piece
        (.accepted k t.piece)).finished = s.finished := append_nil _
    rw [hfinished]
    exact ReportOf.congr_all hs.reported (AIMListPieceView.reRender_same hlist).face

theorem dragInv_wrong (hs : s.DragInv) {t : Touch} (ht : s.touch = some t) {start : CGPoint}
    {failure : List Call} (hfailure : ∀ c ∈ failure, c.isReport = false) :
    DragInv (s.dropped (s.view.rejected failure start) t.piece (.returned t.piece)) where
  touched u hu := by cases hu
  pending p hp := by
    rw [acceptedPieces_dropped_returned] at hp
    exact hs.pending p hp
  reported := by
    have hfinished : (s.dropped (s.view.rejected failure start) t.piece
        (.returned t.piece)).finished = s.finished ++ [⟨t.piece, false⟩] := rfl
    have hcalls : (s.dropped (s.view.rejected failure start) t.piece
        (.returned t.piece)).view.dragCalls = s.view.dragCalls ++ [_] :=
      dragCalls_rejected hfailure
    have hlast : ∀ k, ReportOf s.view.listPieceView ⟨t.piece, false⟩
        (s.view.currentSelectPieceView, k) := fun k => ⟨hs.touched t ht, Bool.noConfusion⟩
    rw [hfinished, hcalls]
    exact ReportOf.congr_all (rel_append hs.reported (.cons (hlast _) .nil)) fun _ => rfl

theorem dragInv_acceptedDone (hs : s.DragInv) {i k p : Nat} {v : AIMQuestionContentView}
    (hi : s.drops[i]? = some (.accepted k p)) (done : s.view.AcceptedDone k p v) :
    DragInv (s.completed i (.accepted k p) v [.blur 4]) := by
  obtain ⟨t, -, hlist⟩ := AIMListPieceView.removePiece_ok.mp done.list
  have hface (q : Nat) : (v.listPieceView.pieceView q).face =
      (s.view.listPieceView.pieceView q).face := by rw [hlist]
  have hproxy : v.currentSelectPieceView.face = s.view.currentSelectPieceView.face := by
    rw [done.proxy]; rfl
  have hperm := acceptedPieces_perm hi v [.blur 4]
  have hp : s.view.currentSelectPieceView.face = (s.view.listPieceView.pieceView p).face :=
    hs.pending p (mem_acceptedPieces.mpr ⟨k, mem_of_getElem? hi⟩)
  have hslot : s.view.currentSelectPieceView.patternIndex =
      (s.view.listPieceView.pieceView p).patternIndex := congrArg Prod.fst hp
  refine ⟨fun t ht => hproxy.trans ((hs.touched t ht).trans (hface t.piece).symm),
    fun q hq => hproxy.trans ((hs.pending q ?_).trans (hface q).symm), ?_⟩
  · exact hperm.mem_iff.mpr (mem_cons_of_mem _ hq)
  · show Forall₂ _ (s.finished ++ [⟨p, true⟩]) v.dragCalls
    rw [dragCalls_acceptedDone done]
    have hold := ReportOf.congr_all hs.reported hface
    refine rel_append hold (.cons ⟨hproxy.trans (hp.trans (hface p).symm), fun _ => ?_⟩ .nil)
    rw [hslot]
    exact congrArg (fun f => (f.1 : Int)) (hface p).symm

theorem dragInv_step (hs : s.DragInv) (he : s.Enabled e) (hafter : s.AfterCompletions e)
    (h : s.step ui e = .ok s') : s'.DragInv := by
  cases step_outcome he h with
  | quiet _ same _ => exact hs.of_sameDrag same s.touch s.animations fun _ h => h
  | began _ => exact dragInv_began hs hafter
  | accepted ht _ _ hlist => exact dragInv_accepted hs ht hlist
  | wrong ht _ _ _ hfailure => exact dragInv_wrong hs ht hfailure
  | cancelled =>
    exact hs.of_keeps (fun _ => rfl) rfl (fun t ht => by cases ht) (fun _ h => h) rfl rfl
  | resignedIdle same _ _ => exact hs.of_sameDrag same none s.animations fun t ht => by cases ht
  | @resigned w p start same _ _ _ _ =>
    refine (hs.of_sameDrag same none s.animations fun t ht => by cases ht).of_keeps ?_ rfl
      (fun _ h => h) (fun _ h => h) rfl rfl
    cases p with
    | none => exact fun _ => rfl
    | some p => exact AIMListPieceView.hidePiece_face _ _ _
  | acceptedDone hi done => exact dragInv_acceptedDone hs hi done
  | @returnedDone i p hi =>
    have hperm := acceptedPieces_perm hi (s.view.returnedCompletion p) []
    exact hs.of_keeps (AIMListPieceView.hidePiece_face _ _ _) rfl (fun _ h => h)
      (fun q hq => hperm.mem_iff.mpr hq) (append_nil _) rfl
  | animation _ =>
    exact hs.of_sameDrag (AIMQuestionContentView.runAnimation_sameDrag ui s.view _) s.touch _
      fun _ h => h

/-! ## Runs -/

theorem dragCalls_started {question : AIMQuestion} {v : AIMQuestionContentView}
    (hstart : Started ui question v) : v.dragCalls = [] := by
  obtain ⟨_, pattern, data, list, slots, -, -, rfl⟩ := hstart
  rfl

/-- In every run the reports are as many as the drops that are through. -/
theorem each_drop_reported_once {question : AIMQuestion} {v : AIMQuestionContentView}
    (hstart : Started ui question v) (h : Reaches (step ui) Enabled (QuestionRun.start v) s) :
    s.view.dragCalls.length = s.finished.length := by
  refine h.inv (fun s => s.view.dragCalls.length = s.finished.length)
    (congrArg length (dragCalls_started hstart)) fun s e s' hs he hstep => ?_
  cases step_outcome he hstep with
  | quiet _ same _ => rw [dragCalls_sameDrag same]; exact hs
  | began _ => exact hs
  | accepted _ _ _ _ =>
    show s.view.dragCalls.length = (s.finished ++ []).length
    rw [append_nil]
    exact hs
  | wrong _ _ _ _ hfailure =>
    simp [dropped, DropCompletion.isAccepted, dragCalls_rejected hfailure, hs]
  | cancelled => exact hs
  | resignedIdle same _ _ => rw [dragCalls_sameDrag same]; exact hs
  | resigned same _ _ _ _ => exact (congrArg length (dragCalls_sameDrag same)).trans hs
  | acceptedDone _ done =>
    simp [completed, DropCompletion.isAccepted, dragCalls_acceptedDone done, hs]
  | returnedDone _ =>
    show s.view.dragCalls.length = (s.finished ++ []).length
    rw [append_nil]
    exact hs
  | animation _ =>
    rw [dragCalls_sameDrag (AIMQuestionContentView.runAnimation_sameDrag ui s.view _)]; exact hs

/-- A Drag record that names the dropped piece and, for an accepted drop, its box. -/
structure RecordFor (l : AIMListPieceView) (d : FinishedDrop) (record : LogRecord) : Prop where
  action : record.actionName = Log.ActionName.Drag.rawValue
  text : record.objectName = (l.pieceView d.piece).contentLabelText
  number : record.objectType =
    Log.ObjectKind.Piece.rawValue ++ toString ((l.pieceView d.piece).index + 1)
  box : d.accepted = true → record.boxResult =
    "BOX" ++ toString ((l.pieceView d.piece).patternIndex + 1)

/-- The screen that handles the call writes one record, and it is one for the drop. -/
def LoggedFor (l : AIMListPieceView) (d : FinishedDrop) (call : AIMPieceView × Int) : Prop :=
  ∀ (screen screen' : AIMQuestionAnswerScreenViewController) (source : Option (Nat × Call)),
    screen.endDragPiece call.1 call.2 source = .ok screen' →
    ∃ entry, screen'.log = screen.log ++ [entry] ∧ entry.source = source ∧
      RecordFor l d entry.record

theorem ReportOf.logged {l : AIMListPieceView} {d : FinishedDrop} {call : AIMPieceView × Int}
    (h : ReportOf l d call) : LoggedFor l d call := by
  intro screen screen' source hscreen
  obtain ⟨entry, hlog, hsource, haction, hcolumns⟩ :=
    AIMQuestionAnswerScreenViewController.endDragPiece_ok hscreen
  obtain ⟨hslot, hindex, -, htext⟩ : call.1.patternIndex = (l.pieceView d.piece).patternIndex ∧
      call.1.index = (l.pieceView d.piece).index ∧ call.1.piece = (l.pieceView d.piece).piece ∧
      call.1.contentLabelText = (l.pieceView d.piece).contentLabelText := by
    simpa [AIMPieceView.face] using h.face
  refine ⟨entry, hlog, hsource, haction, ?_, ?_, fun hd => ?_⟩
  · exact (congrArg DragColumns.objectName hcolumns).trans htext
  · rw [← hindex]
    exact congrArg DragColumns.objectType hcolumns
  · have hk := h.slot hd
    have hne : call.2 ≠ -1 := by omega
    have hpattern : call.2 = (call.1.patternIndex : Int) := by rw [hk, hslot]
    refine (congrArg DragColumns.boxResult hcolumns).trans ?_
    simp only [dragColumns, if_neg hne, if_pos hpattern]
    rw [hslot]

/-- In every run in which a touch begins only when no accepted drop is pending, the drops that are
through are reported one by one in order, each in a record with the text, the number and (accepted)
the box of the piece that was dropped. -/
theorem drops_logged_for_their_piece {question : AIMQuestion} {v : AIMQuestionContentView}
    (hstart : Started ui question v)
    (h : Reaches (step ui) (fun s e => s.Enabled e ∧ s.AfterCompletions e)
      (QuestionRun.start v) s) :
    Forall₂ (LoggedFor s.view.listPieceView) s.finished s.view.dragCalls := by
  have hs : s.DragInv := by
    refine h.inv DragInv ⟨fun t ht => (by cases ht), fun p hp => (by cases hp), ?_⟩
      fun _ _ _ hs he hstep => dragInv_step hs he.1 he.2 hstep
    show Forall₂ _ [] v.dragCalls
    rw [dragCalls_started hstart]
    exact .nil
  exact hs.reported.imp fun _ _ h => h.logged

/-- An accepted drop of piece `1` and a wrong one of piece `0`. -/
theorem drops_logged_for_their_piece_two :
    ∃ v s, AIMQuestionContentView.setData .ascii sampleQuestion (fun _ => 0) = .ok v ∧
      Reaches (step .ascii) (fun s e => s.Enabled e ∧ s.AfterCompletions e)
        (QuestionRun.start v) s ∧
      s.finished = [⟨1, true⟩, ⟨0, false⟩] ∧
      Forall₂ (LoggedFor s.view.listPieceView) s.finished s.view.dragCalls := by
  have hrun : (playQuestion .ascii (fun s e => s.Enabled e ∧ s.AfterCompletions e) sampleQuestion
      (fun _ => 0) (drag 1 (inList 1) (onSlot 1) ++
        .dropCompletion 0 :: replicate 5 (.animationCompletion 0) ++
        drag 0 (inList 0) offSlots)).any
      (fun s => decide (s.finished = [⟨1, true⟩, ⟨0, false⟩])) = true := by decide +kernel
  obtain ⟨v, s, hv, hreach, hfinished⟩ := exists_run_of_playQuestion hrun
  exact ⟨v, s, hv, hreach, of_decide_eq_true hfinished,
    drops_logged_for_their_piece (started_of_setData hv) hreach⟩

/-- The run of `completionDuringTouch`: piece `1` with the text "am" is the only piece that was
dropped, and the only record carries the text of piece `0`. -/
theorem drop_logged_for_other_piece :
    ∃ v s, AIMQuestionContentView.setData .ascii sampleQuestion (fun _ => 0) = .ok v ∧
      Reaches (step .ascii) DragRun (QuestionRun.start v) s ∧
      s.finished = [⟨1, true⟩] ∧ (s.view.listPieceView.pieceView 1).contentLabelText = "am" ∧
      s.view.dragCalls.map (fun call => dragColumns call.1 call.2) =
        [⟨"I", "ピース1", "BOX1", "正解"⟩] := by
  have hrun : (playQuestion .ascii DragRun sampleQuestion (fun _ => 0) completionDuringTouch).any
      (fun s => decide (s.finished = [⟨1, true⟩]) &&
        decide ((s.view.listPieceView.pieceView 1).contentLabelText = "am") &&
        decide (s.view.dragCalls.map (fun call => dragColumns call.1 call.2) =
          [⟨"I", "ピース1", "BOX1", "正解"⟩])) = true := by decide +kernel
  obtain ⟨v, s, hv, hreach, hend⟩ := exists_run_of_playQuestion hrun
  simp only [Bool.and_eq_true, decide_eq_true_eq] at hend
  exact ⟨v, s, hv, hreach, hend.1.1, hend.1.2, hend.2⟩

end QuestionRun

end Imijun
