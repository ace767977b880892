import Imijun.DisplayFacts
import Imijun.DragLog
import Imijun.HintPairing

/-!
# The verdict on a drop

Whether a drop is accepted is decided in the view, on the distance to the piece's own slot. The Drag
record is made later and by the screen, which compares a slot index with the proxy's copy of
`patternIndex`.

* `Undisturbed`: what stays while no touch begins or ends and no drop is completed.
* `searchSlot_spec`: the slot that a wrong drop is reported for.
* `verdict_agrees`: for a drag without another drop pending the record says what the drop did, and
  no handler of the drag traps.
-/

namespace Imijun

open Transition Fallible Pointwise List

/-- The list of pieces is in step with its labels, and every piece has an answer. -/
structure AIMListPieceView.InStep (l : AIMListPieceView) : Prop where
  nodup : l.pieceViewArray.Nodup
  labels : l.hintLabelArray.length = l.pieceViewArray.length
  piece : ∀ p ∈ l.pieceViewArray, (l.pieceView p).piece.isSome = true

/-- The event neither begins nor ends a touch, and it completes no drop. -/
def Event.isBetween : Event → Bool
  | .touchBegan _ _ _ | .touchEnded | .dropCompletion _ => false
  | _ => true

namespace QuestionRun

variable {ui : Platform} {s s' s'' : QuestionRun} {e : Event}

def statuses (s : QuestionRun) : List Bool :=
  s.view.listPatternPieceView.map (·.status)

/-- What the events between the begin of a touch and the completion of its drop leave alone. -/
structure Undisturbed (s s' : QuestionRun) : Prop where
  drops : s'.drops = s.drops
  pieceViewArray : s'.view.listPieceView.pieceViewArray = s.view.listPieceView.pieceViewArray
  hintLabelArray : s'.view.listPieceView.hintLabelArray = s.view.listPieceView.hintLabelArray
  face : ∀ p, (s'.view.listPieceView.pieceView p).face = (s.view.listPieceView.pieceView p).face
  position : s'.view.listPieceView.position = s.view.listPieceView.position
  proxy : s'.view.currentSelectPieceView.face = s.view.currentSelectPieceView.face
  statuses : s'.statuses = s.statuses
  dragCalls : s'.view.dragCalls = s.view.dragCalls

theorem Undisturbed.refl (s : QuestionRun) : s.Undisturbed s :=
  ⟨rfl, rfl, rfl, fun _ => rfl, rfl, rfl, rfl, rfl⟩

theorem Undisturbed.trans (h : s.Undisturbed s') (h' : s'.Undisturbed s'') :
    s.Undisturbed s'' where
  drops := h'.drops.trans h.drops
  pieceViewArray := h'.pieceViewArray.trans h.pieceViewArray
  hintLabelArray := h'.hintLabelArray.trans h.hintLabelArray
  face p := (h'.face p).trans (h.face p)
  position := h'.position.trans h.position
  proxy := h'.proxy.trans h.proxy
  statuses := h'.statuses.trans h.statuses
  dragCalls := h'.dragCalls.trans h.dragCalls

/-- Every piece of the list still has its answer. -/
theorem Undisturbed.inStep (h : s.Undisturbed s') (hs : s.view.listPieceView.InStep) :
    s'.view.listPieceView.InStep where
  nodup := by rw [h.pieceViewArray]; exact hs.nodup
  labels := by rw [h.hintLabelArray, h.pieceViewArray]; exact hs.labels
  piece p hp := by
    rw [h.pieceViewArray] at hp
    have hpiece : (s'.view.listPieceView.pieceView p).piece =
        (s.view.listPieceView.pieceView p).piece := congrArg (fun f => f.2.2.1) (h.face p)
    rw [hpiece]
    exact hs.piece p hp

theorem map_status_of_keeps {slots slots' : List AIMPatternPiece}
    (h : Forall₂ KeepsSlot slots slots') : slots'.map (·.status) = slots.map (·.status) :=
  map_eq_of_forall₂ (h.imp fun _ _ hslot => hslot.status)

theorem undisturbed_of_sameDrag {v : AIMQuestionContentView} (same : SameDrag s.view v)
    (touch : Option Touch) (animations : List Animation) :
    s.Undisturbed { s with view := v, touch := touch, animations := animations } where
  drops := rfl
  pieceViewArray := same.pieceViewArray
  hintLabelArray := same.hintLabelArray
  face p := by rw [same.pieceView]
  position := congrArg (fun f p => (f p).hintIndex) same.pieceView
  proxy := same.proxyFace
  statuses := map_status_of_keeps same.slots
  dragCalls := dragCalls_sameDrag same

/-- An event in between keeps the touch and its start point, or it is the end of the touch. -/
theorem undisturbed_step (he : s.Enabled e) (hbetween : e.isBetween = true)
    (h : s.step ui e = .ok s') :
    s.Undisturbed s' ∧ (s'.touch = none ∨
      s'.touch = s.touch ∧ s'.view.centerfirtPoint = s.view.centerfirtPoint) := by
  cases step_outcome he h with
  | quiet _ same _ =>
    exact ⟨undisturbed_of_sameDrag same s.touch s.animations, .inr ⟨rfl, same.centerfirtPoint⟩⟩
  | began _ => cases hbetween
  | accepted _ _ _ _ => cases hbetween
  | wrong _ _ _ _ _ => cases hbetween
  | cancelled => exact ⟨undisturbed_of_sameDrag (.refl _) none s.animations, .inl rfl⟩
  | resignedIdle same _ _ => exact ⟨undisturbed_of_sameDrag same none s.animations, .inl rfl⟩
  | @resigned w p start same _ _ _ _ =>
    refine ⟨(undisturbed_of_sameDrag same none s.animations).trans ?_, .inl rfl⟩
    cases p with
    | none => exact ⟨rfl, rfl, rfl, fun _ => rfl, rfl, rfl, rfl, rfl⟩
    | some p =>
      exact ⟨rfl, rfl, rfl, AIMListPieceView.hidePiece_face _ _ _, hidePiece_position _ _ _, rfl,
        rfl, rfl⟩
  | acceptedDone _ _ => cases hbetween
  | returnedDone _ => cases hbetween
  | animation _ =>
    have same := AIMQuestionContentView.runAnimation_sameDrag ui s.view
    exact ⟨undisturbed_of_sameDrag (same _) s.touch _, .inr ⟨rfl, (same _).centerfirtPoint⟩⟩

/-- The guard of the runs within a drag. -/
def Between (s : QuestionRun) (e : Event) : Prop := s.Enabled e ∧ e.isBetween = true

instance (s : QuestionRun) (e : Event) : Decidable (s.Between e) := by
  unfold Between; infer_instance

theorem undisturbed_run (h : Reaches (step ui) Between s s') :
    s.Undisturbed s' ∧ (s'.touch = none ∨
      s'.touch = s.touch ∧ s'.view.centerfirtPoint = s.view.centerfirtPoint) := by
  refine h.inv (fun t => s.Undisturbed t ∧ (t.touch = none ∨
    t.touch = s.touch ∧ t.view.centerfirtPoint = s.view.centerfirtPoint))
    ⟨.refl s, .inr ⟨rfl, rfl⟩⟩ ?_
  intro t e u ⟨ht, htouch⟩ ⟨he, hbetween⟩ hstep
  have ⟨hu, hkept⟩ := undisturbed_step he hbetween hstep
  refine ⟨ht.trans hu, ?_⟩
  rcases hkept with hnone | ⟨hsame, hcenter⟩
  · exact .inl hnone
  · rcases htouch with hnone | ⟨htouch, hstart⟩
    · exact .inl (hsame.trans hnone)
    · exact .inr ⟨hsame.trans htouch, hcenter.trans hstart⟩

/-! ## The two ends of a drop -/

/-- The point is within `kMatchRadian` of the centre of the slot. -/
def Near (point : CGPoint) (slot : AIMPatternPiece) : Prop :=
  mathDistance slot.frame.center point ≤ kMatchRadian

theorem matched_iff_near {slot : AIMPatternPiece} {point : CGPoint} :
    slot.matched point = true ↔ Near point slot :=
  withinRadian_iff kMatchRadian_nonneg

theorem matched_eq_false_iff {slot : AIMPatternPiece} {point : CGPoint} :
    slot.matched point = false ↔ ¬ Near point slot := by
  rw [← matched_iff_near, Bool.not_eq_true]

/-- Slot `j` is the first slot near the point. -/
def FirstNear (slots : List AIMPatternPiece) (point : CGPoint) (j : Nat) : Prop :=
  (∃ slot, slots[j]? = some slot ∧ Near point slot) ∧
    ∀ i < j, ∀ slot, slots[i]? = some slot → ¬ Near point slot

theorem searchSlot_spec (slots : List AIMPatternPiece) (point : CGPoint) :
    (∃ j : Nat, AIMQuestionContentView.searchSlot slots point = j ∧ FirstNear slots point j) ∨
      AIMQuestionContentView.searchSlot slots point = -1 ∧ ∀ slot ∈ slots, ¬ Near point slot := by
  unfold AIMQuestionContentView.searchSlot
  split
  · next j hj =>
    obtain ⟨hlt, hnear, hfirst⟩ := List.findIdx?_eq_some_iff_getElem.mp hj
    refine .inl ⟨j, rfl, ⟨_, List.getElem?_eq_getElem hlt, matched_iff_near.mp hnear⟩, ?_⟩
    intro i hi slot hslot
    obtain ⟨_, rfl⟩ := List.getElem?_eq_some_iff.mp hslot
    exact fun h => hfirst i hi (matched_iff_near.mpr h)
  · next hnone =>
    refine .inr ⟨rfl, fun slot hslot => ?_⟩
    exact matched_eq_false_iff.mp (List.findIdx?_eq_none_iff.mp hnone slot hslot)

/-- The screen records this box and this result for the call. -/
structure Records (call : AIMPieceView × Int) (box : String) (result : Log.Resutl) : Prop where
  boxResult : (dragColumns call.1 call.2).boxResult = box
  verdict : (dragColumns call.1 call.2).result = result.rawValue
  record : ∀ (screen screen' : AIMQuestionAnswerScreenViewController)
    (source : Option (Nat × Call)), screen.endDragPiece call.1 call.2 source = .ok screen' →
    ∃ entry, screen'.log = screen.log ++ [entry] ∧ entry.source = source ∧
      entry.record.actionName = Log.ActionName.Drag.rawValue ∧
      entry.record.boxResult = box ∧ entry.record.result = result.rawValue

theorem records_of_columns {call : AIMPieceView × Int} {box : String} {result : Log.Resutl}
    (hbox : (dragColumns call.1 call.2).boxResult = box)
    (hresult : (dragColumns call.1 call.2).result = result.rawValue) :
    Records call box result := by
  refine ⟨hbox, hresult, fun screen screen' source h => ?_⟩
  have ⟨entry, hlog, hsource, haction, hcolumns⟩ :=
    AIMQuestionAnswerScreenViewController.endDragPiece_ok h
  refine ⟨entry, hlog, hsource, haction, ?_, ?_⟩
  · rw [← hbox, ← hcolumns]
  · rw [← hresult, ← hcolumns]

theorem records_right (piece : AIMPieceView) :
    Records (piece, (piece.patternIndex : Int)) ("BOX" ++ toString (piece.patternIndex + 1))
      .Right := by
  have hne : (piece.patternIndex : Int) ≠ -1 := by omega
  refine records_of_columns ?_ ?_
  · simp only [dragColumns, if_neg hne, if_true]
  · simp only [dragColumns, if_neg hne, if_true]

theorem records_wrong {piece : AIMPieceView} {j : Nat} (hj : j ≠ piece.patternIndex) :
    Records (piece, (j : Int)) ("BOX" ++ toString (j + 1)) .Wrong := by
  have hne : (j : Int) ≠ -1 := by omega
  have hother : (j : Int) ≠ piece.patternIndex := by omega
  refine records_of_columns ?_ ?_
  · simp only [dragColumns, if_neg hne, if_neg hother]
    rfl
  · simp only [dragColumns, if_neg hne, if_neg hother]

theorem records_discontinuity (piece : AIMPieceView) :
    Records (piece, (-1 : Int)) "-" .Discontinuity :=
  records_of_columns rfl rfl

/-- The drop of piece `p` on its slot `k` is accepted: `s` is the state before the end of the touch,
`s'` the one after the completion, `call` the report. -/
structure DropAccepted (s s' : QuestionRun) (p k : Nat) (slot : AIMPatternPiece)
    (call : AIMPieceView × Int) : Prop where
  near : Near s.view.currentSelectPieceView.frame.center slot
  placed : s'.statuses = s.statuses.modify k fun _ => true
  leaves : s'.view.listPieceView.pieceViewArray =
    s.view.listPieceView.pieceViewArray.filter (· ≠ p)
  record : Records call ("BOX" ++ toString (k + 1)) .Right

/-- The drop is not accepted, and the piece returns. -/
structure DropReturned (s s' : QuestionRun) (p : Nat) (slot : AIMPatternPiece)
    (call : AIMPieceView × Int) : Prop where
  far : ¬ Near s.view.currentSelectPieceView.frame.center slot
  statuses : s'.statuses = s.statuses
  pieces : s'.view.listPieceView.pieceViewArray = s.view.listPieceView.pieceViewArray
  labels : s'.view.listPieceView.hintLabelArray = s.view.listPieceView.hintLabelArray
  visible : (s'.view.listPieceView.pieceView p).isHidden = false
  record :
    (∃ j, FirstNear s.view.listPatternPieceView s.view.currentSelectPieceView.frame.center j ∧
      Records call ("BOX" ++ toString (j + 1)) .Wrong) ∨
    (∀ slot ∈ s.view.listPatternPieceView,
      ¬ Near s.view.currentSelectPieceView.frame.center slot) ∧ Records call "-" .Discontinuity

/-! ## The handlers do not trap -/

theorem endMovedAIMPieceView_total {v : AIMQuestionContentView} {p : Nat} {slot : AIMPatternPiece}
    (hslot : v.listPatternPieceView[(v.listPieceView.pieceView p).patternIndex]? = some slot)
    (hlist : v.listPieceView.InStep) (hstart : v.centerfirtPoint.isSome = true) :
    ∃ r, v.endMovedAIMPieceView p = .ok r := by
  have ⟨start, hstart⟩ := Option.isSome_iff_exists.mp hstart
  have ⟨list, hrender⟩ := AIMListPieceView.reRender_total hlist.labels.ge
  refine bind_total (bind_total ⟨slot, subscript_eq_ok.mpr hslot⟩ fun slot _ => ?_)
    fun r _ => ⟨_, rfl⟩
  split
  · exact bind_total (bind_total ⟨list, hrender⟩ fun _ _ => ⟨_, rfl⟩) fun _ _ => ⟨_, rfl⟩
  · exact bind_total (bind_total ⟨start, orThrow_eq_ok.mpr hstart⟩ fun _ _ => ⟨_, rfl⟩)
      fun _ _ => ⟨_, rfl⟩

theorem acceptedCompletion_total {v : AIMQuestionContentView} {k p t : Nat}
    (hpiece : (v.listPieceView.pieceView p).piece.isSome = true)
    (hlabel : v.listPieceView.hintLabelArray[(v.listPieceView.pieceView p).hintIndex]? = some t) :
    ∃ r, v.acceptedCompletion k p = .ok r := by
  have ⟨piece, hpiece⟩ := Option.isSome_iff_exists.mp hpiece
  exact ⟨_, bind_eq_ok.mpr ⟨piece, orThrow_eq_ok.mpr hpiece,
    bind_eq_ok.mpr ⟨_, AIMListPieceView.removePiece_ok.mpr ⟨t, hlabel, rfl⟩, rfl⟩⟩⟩

/-! ## The stages of a drag -/

/-- Piece `p` is dragged, and no drop is pending. -/
structure Dragging (s : QuestionRun) (p : Nat) : Prop where
  drops : s.drops = []
  listed : p ∈ s.view.listPieceView.pieceViewArray
  touch : ∃ t, s.touch = some t ∧ t.piece = p
  proxy : s.view.currentSelectPieceView.face = (s.view.listPieceView.pieceView p).face
  slot : (s.view.listPieceView.pieceView p).patternIndex < s.statuses.length
  start : s.view.centerfirtPoint.isSome = true

theorem dragging_began {p : Nat} {location offset : CGPoint} (hdrops : s.drops = [])
    (he : s.Enabled (.touchBegan p location offset))
    (h : s.step ui (.touchBegan p location offset) = .ok s') : s'.Dragging p := by
  cases step_outcome he h with
  | quiet hquiet _ _ => cases hquiet
  | @began _ _ _ slot hslot =>
    have hface := AIMListPieceView.hidePiece_face (s.view.listPieceView.setScroll false) p true p
    have hpattern :
        (((s.view.listPieceView.setScroll false).hidePiece p true).pieceView p).patternIndex =
          (s.view.listPieceView.pieceView p).patternIndex := congrArg Prod.fst hface
    refine ⟨hdrops, he.2.1, ⟨_, rfl, rfl⟩, hface.symm, ?_, rfl⟩
    have ⟨hlt, _⟩ := List.getElem?_eq_some_iff.mp hslot
    show (((s.view.listPieceView.setScroll false).hidePiece p true).pieceView p).patternIndex < _
    rw [hpattern, statuses, length_map]
    exact hlt

/-- The begin of a touch takes nothing out of the list. -/
theorem inStep_began {p : Nat} {location offset : CGPoint} (hs : s.view.listPieceView.InStep)
    (he : s.Enabled (.touchBegan p location offset))
    (h : s.step ui (.touchBegan p location offset) = .ok s') : s'.view.listPieceView.InStep := by
  cases step_outcome he h with
  | quiet hquiet _ _ => cases hquiet
  | began _ =>
    refine ⟨hs.nodup, hs.labels, fun q hq => ?_⟩
    have hpiece : (((s.view.listPieceView.setScroll false).hidePiece p true).pieceView q).piece =
        (s.view.listPieceView.pieceView q).piece :=
      congrArg (fun f => f.2.2.1) (AIMListPieceView.hidePiece_face _ p true q)
    exact hpiece.symm ▸ hs.piece q hq

/-- The drag goes on until the touch ends. -/
theorem Dragging.run {p : Nat} (hs : s.Dragging p) (h : Reaches (step ui) Between s s')
    (htouch : s'.touch.isSome = true) : s'.Dragging p := by
  obtain ⟨hsame, hnone | ⟨hkept, hstart⟩⟩ := undisturbed_run h
  · rw [hnone] at htouch
    cases htouch
  · have hpattern : (s'.view.listPieceView.pieceView p).patternIndex =
        (s.view.listPieceView.pieceView p).patternIndex := congrArg Prod.fst (hsame.face p)
    refine ⟨hsame.drops.trans hs.drops, ?_, ?_, ?_, ?_, ?_⟩
    · rw [hsame.pieceViewArray]
      exact hs.listed
    · rw [hkept]
      exact hs.touch
    · rw [hsame.proxy, hsame.face]
      exact hs.proxy
    · rw [hpattern, hsame.statuses]
      exact hs.slot
    · rw [hstart]
      exact hs.start

/-- The drop of piece `p` on slot `k` at the end of `s` has been accepted, and its completion is
pending. -/
structure Accepting (s : QuestionRun) (k p : Nat) (s' : QuestionRun) : Prop where
  drops : s'.drops = [.accepted k p]
  pieces : s'.view.listPieceView.pieceViewArray = s.view.listPieceView.pieceViewArray
  proxy : s'.view.currentSelectPieceView.patternIndex = k
  statuses : s'.statuses = s.statuses.modify k fun _ => true
  dragCalls : s'.view.dragCalls = s.view.dragCalls

theorem Accepting.undisturbed {k p : Nat} (hs : s.Accepting k p s') (h : s'.Undisturbed s'') :
    s.Accepting k p s'' where
  drops := h.drops.trans hs.drops
  pieces := h.pieceViewArray.trans hs.pieces
  proxy := (congrArg Prod.fst h.proxy).trans hs.proxy
  statuses := h.statuses.trans hs.statuses
  dragCalls := h.dragCalls.trans hs.dragCalls

/-- The drop of piece `p` at the end of `s` was wrong and has been reported by `call`, and the piece
is on its way back. -/
structure Returning (s : QuestionRun) (p : Nat) (call : AIMPieceView × Int) (s' : QuestionRun) :
    Prop where
  drops : s'.drops = [.returned p]
  pieces : s'.view.listPieceView.pieceViewArray = s.view.listPieceView.pieceViewArray
  labels : s'.view.listPieceView.hintLabelArray = s.view.listPieceView.hintLabelArray
  statuses : s'.statuses = s.statuses
  dragCalls : s'.view.dragCalls = s.view.dragCalls ++ [call]

theorem Returning.undisturbed {p : Nat} {call : AIMPieceView × Int}
    (hs : s.Returning p call s') (h : s'.Undisturbed s'') : s.Returning p call s'' where
  drops := h.drops.trans hs.drops
  pieces := h.pieceViewArray.trans hs.pieces
  labels := h.hintLabelArray.trans hs.labels
  statuses := h.statuses.trans hs.statuses
  dragCalls := h.dragCalls.trans hs.dragCalls

/-- The end of a drag: the drop is accepted exactly near the piece's own slot. -/
theorem Dragging.ended {p : Nat} (hs : s.Dragging p) {slot : AIMPatternPiece}
    (hslot : s.view.listPatternPieceView[(s.view.listPieceView.pieceView p).patternIndex]? =
      some slot) (h : s.step ui .touchEnded = .ok s') :
    (Near s.view.currentSelectPieceView.frame.center slot ∧
        s.Accepting (s.view.listPieceView.pieceView p).patternIndex p s') ∨
      (¬ Near s.view.currentSelectPieceView.frame.center slot ∧
        s.Returning p (s.view.currentSelectPieceView, AIMQuestionContentView.searchSlot
          s.view.listPatternPieceView s.view.currentSelectPieceView.frame.center) s') := by
  obtain ⟨t, ht, rfl⟩ := hs.touch
  have he : s.Enabled .touchEnded := Option.isSome_iff_exists.mpr ⟨t, ht⟩
  cases step_outcome he h with
  | quiet hquiet _ _ => cases hquiet
  | @accepted u own list hu hown hmatched hlist =>
    obtain rfl := Option.some.inj (ht.symm.trans hu)
    obtain rfl := Option.some.inj (hslot.symm.trans hown)
    refine .inl ⟨matched_iff_near.mp hmatched, ?_, ?_, ?_, ?_, rfl⟩
    · show s.drops ++ [_] = [_]
      rw [hs.drops, nil_append]
    · exact (AIMListPieceView.reRender_same hlist).pieceViewArray
    · exact congrArg Prod.fst hs.proxy
    · exact map_modify AIMPatternPiece.status (fun _ => true) (fun _ => rfl) _ _
  | @wrong u own start failure hu hown hfar _ hfailure =>
    obtain rfl := Option.some.inj (ht.symm.trans hu)
    obtain rfl := Option.some.inj (hslot.symm.trans hown)
    refine .inr ⟨matched_eq_false_iff.mp hfar, ?_, rfl, rfl, rfl, dragCalls_rejected hfailure⟩
    show s.drops ++ [_] = [_]
    rw [hs.drops, nil_append]

/-! ## The completion -/

/-- The pending completions can run: the list is in step, and the cached position of every piece
that is to be removed is right. -/
structure Completable (s : QuestionRun) : Prop where
  inStep : s.view.listPieceView.InStep
  position : ∀ p ∈ s.acceptedPieces,
    s.view.listPieceView.pieceViewArray[s.view.listPieceView.position p]? = some p

theorem Completable.undisturbed (hs : s.Completable) (h : s.Undisturbed s') : s'.Completable where
  inStep := h.inStep hs.inStep
  position p hp := by
    rw [acceptedPieces, h.drops] at hp
    rw [h.position, h.pieceViewArray]
    exact hs.position p hp

theorem Completable.dropCompletion_total (hs : s.Completable) {i : Nat} (hi : i < s.drops.length) :
    ∃ s', s.step ui (.dropCompletion i) = .ok s' := by
  have ⟨c, hc⟩ : ∃ c, s.drops[i]? = some c := ⟨_, getElem?_eq_getElem hi⟩
  simp only [step, hc]
  refine bind_total ?_ fun _ _ => ⟨_, rfl⟩
  cases c with
  | returned p => exact ⟨_, rfl⟩
  | accepted k p =>
    have hp := hs.position p (mem_acceptedPieces.mpr ⟨k, mem_of_getElem? hc⟩)
    have hlt : s.view.listPieceView.position p < s.view.listPieceView.hintLabelArray.length := by
      rw [hs.inStep.labels]
      exact (List.getElem?_eq_some_iff.mp hp).1
    have htotal := acceptedCompletion_total (k := k) (hs.inStep.piece p (mem_of_getElem? hp))
      (getElem?_eq_getElem hlt)
    exact bind_total htotal fun _ _ => ⟨_, rfl⟩

/-- The end of a drag does not trap, and neither does the completion it leaves. -/
theorem Dragging.ended_total {p : Nat} (hs : s.Dragging p) (hin : s.view.listPieceView.InStep) :
    ∃ s', s.step ui .touchEnded = .ok s' ∧ s'.Completable := by
  obtain ⟨t, ht, rfl⟩ := hs.touch
  have hlt := hs.slot
  rw [statuses, length_map] at hlt
  obtain ⟨r, hr⟩ := endMovedAIMPieceView_total (getElem?_eq_getElem hlt) hin hs.start
  obtain ⟨s', h⟩ : ∃ s', s.step ui .touchEnded = .ok s' := by
    simp only [step, ht]
    exact bind_total ⟨r, hr⟩ fun _ _ => ⟨_, rfl⟩
  refine ⟨s', h, ?_⟩
  have hnone : s.acceptedPieces = [] := by
    rw [acceptedPieces, hs.drops]
    rfl
  have he : s.Enabled .touchEnded := Option.isSome_iff_exists.mpr ⟨t, ht⟩
  cases step_outcome he h with
  | quiet hquiet _ _ => cases hquiet
  | @accepted u slot list hu _ _ hlist =>
    obtain rfl := Option.some.inj (ht.symm.trans hu)
    have hsame := AIMListPieceView.reRender_same hlist
    refine ⟨⟨hsame.pieceViewArray.symm ▸ hin.nodup, ?_, fun q hq => ?_⟩, fun q hq => ?_⟩
    · show list.hintLabelArray.length = list.pieceViewArray.length
      rw [hsame.hintLabelArray, hsame.pieceViewArray]
      exact hin.labels
    · have hpiece : (list.pieceView q).piece = (s.view.listPieceView.pieceView q).piece :=
        congrArg (fun f => f.2.2.1) (hsame.face q)
      exact hpiece.symm ▸ hin.piece q (hsame.pieceViewArray ▸ hq)
    · rw [acceptedPieces_dropped_accepted, hnone] at hq
      obtain rfl := mem_singleton.mp hq
      have hi := getElem?_idxOf hs.listed
      show list.pieceViewArray[(list.pieceView t.piece).hintIndex]? = _
      rw [AIMListPieceView.reRender_hintIndex hin.nodup hlist hi, hsame.pieceViewArray]
      exact hi
  | wrong _ _ _ _ _ =>
    refine ⟨⟨hin.nodup, hin.labels, hin.piece⟩, fun q hq => ?_⟩
    rw [acceptedPieces_dropped_returned, hnone] at hq
    cases hq

theorem Accepting.completed {k p : Nat} (hs : s.Accepting k p s')
    (h : s'.step ui (.dropCompletion 0) = .ok s'') :
    s''.statuses = s.statuses.modify k (fun _ => true) ∧
      s''.view.listPieceView.pieceViewArray =
        s.view.listPieceView.pieceViewArray.filter (· ≠ p) ∧
      ∃ proxy : AIMPieceView, proxy.patternIndex = k ∧
        s''.view.dragCalls = s.view.dragCalls ++ [(proxy, (proxy.patternIndex : Int))] := by
  have h0 : s'.drops[0]? = some (.accepted k p) := by rw [hs.drops]; rfl
  have he : s'.Enabled (.dropCompletion 0) := by
    show 0 < s'.drops.length
    rw [hs.drops]
    exact Nat.one_pos
  cases step_outcome he h with
  | quiet hquiet _ _ => cases hquiet
  | returnedDone hi => cases h0.symm.trans hi
  | @acceptedDone _ k' p' v hi done =>
    obtain ⟨rfl, rfl⟩ := DropCompletion.accepted.inj (Option.some.inj (h0.symm.trans hi))
    refine ⟨?_, ?_, v.currentSelectPieceView, ?_, ?_⟩
    · obtain ⟨a, -, hslots⟩ := done.slots
      refine (map_status_of_keeps hslots).trans ?_
      have hfixed := AIMPatternPiece.fixed_status a.content
      refine (map_modify AIMPatternPiece.status id hfixed _ k).trans ?_
      rw [modify_id]
      exact hs.statuses
    · obtain ⟨t, -, hlist⟩ := AIMListPieceView.removePiece_ok.mp done.list
      show v.listPieceView.pieceViewArray = _
      rw [hlist, ← hs.pieces]
    · rw [done.proxy]
      exact hs.proxy
    · show v.dragCalls = _
      rw [dragCalls_acceptedDone done, hs.dragCalls, done.proxy]

theorem Returning.completed {p : Nat} {call : AIMPieceView × Int} (hs : s.Returning p call s')
    (h : s'.step ui (.dropCompletion 0) = .ok s'') :
    s''.statuses = s.statuses ∧
      s''.view.listPieceView.pieceViewArray = s.view.listPieceView.pieceViewArray ∧
      s''.view.listPieceView.hintLabelArray = s.view.listPieceView.hintLabelArray ∧
      (s''.view.listPieceView.pieceView p).isHidden = false ∧
      s''.view.dragCalls = s.view.dragCalls ++ [call] := by
  have h0 : s'.drops[0]? = some (.returned p) := by rw [hs.drops]; rfl
  have he : s'.Enabled (.dropCompletion 0) := by
    show 0 < s'.drops.length
    rw [hs.drops]
    exact Nat.one_pos
  cases step_outcome he h with
  | quiet hquiet _ _ => cases hquiet
  | acceptedDone hi _ => cases h0.symm.trans hi
  | @returnedDone _ p' hi =>
    obtain rfl := DropCompletion.returned.inj (Option.some.inj (h0.symm.trans hi))
    refine ⟨hs.statuses, hs.pieces, hs.labels, ?_, hs.dragCalls⟩
    show ((s'.view.listPieceView.hidePiece p false).pieceView p).isHidden = false
    rw [AIMListPieceView.hidePiece_pieceView, if_pos rfl]

/-! ## The verdict -/

/-- A wrong drop is not reported for the piece's own slot. -/
theorem firstNear_ne {slots : List AIMPatternPiece} {point : CGPoint} {k j : Nat}
    {slot : AIMPatternPiece} (hslot : slots[k]? = some slot) (hfar : ¬ Near point slot)
    (hj : FirstNear slots point j) : j ≠ k := by
  rintro rfl
  obtain ⟨⟨other, hother, hnear⟩, -⟩ := hj
  obtain rfl := Option.some.inj (hslot.symm.trans hother)
  exact hfar hnear

/-- What the call for a wrong drop records. -/
theorem records_rejected {slots : List AIMPatternPiece} {point : CGPoint} {piece : AIMPieceView}
    {slot : AIMPatternPiece} (hslot : slots[piece.patternIndex]? = some slot)
    (hfar : ¬ Near point slot) :
    (∃ j, FirstNear slots point j ∧
      Records (piece, AIMQuestionContentView.searchSlot slots point) ("BOX" ++ toString (j + 1))
        .Wrong) ∨
    (∀ slot ∈ slots, ¬ Near point slot) ∧
      Records (piece, AIMQuestionContentView.searchSlot slots point) "-" .Discontinuity := by
  rcases searchSlot_spec slots point with ⟨j, hsearch, hj⟩ | ⟨hsearch, hnone⟩
  · refine .inl ⟨j, hj, ?_⟩
    rw [hsearch]
    exact records_wrong (firstNear_ne hslot hfar hj)
  · refine .inr ⟨hnone, ?_⟩
    rw [hsearch]
    exact records_discontinuity piece

/-- The result of the record tells whether the drop was accepted. -/
theorem Records.ne_right {call : AIMPieceView × Int} {box : String} {result : Log.Resutl}
    (h : Records call box result) (hresult : result ≠ .Right) :
    (dragColumns call.1 call.2).result ≠ Log.Resutl.Right.rawValue := by
  rw [h.verdict]
  cases result with
  | Right => exact absurd rfl hresult
  | Success => decide
  | Wrong => decide
  | Discontinuity => decide

/-! ### The list is in step -/

/-- A touch begins only when no drop is pending. -/
def OneDrag (s : QuestionRun) (e : Event) : Prop := s.Enabled e ∧ e.AtTouch fun _ => s.drops = []

instance (s : QuestionRun) (e : Event) : Decidable (s.OneDrag e) := by
  unfold OneDrag; infer_instance

/-- A drop is pending only when no piece is dragged, and it is the only one. -/
structure Alone (s : QuestionRun) : Prop where
  touched : s.touch.isSome = true → s.drops = []
  pending : s.drops.length ≤ 1

theorem alone_step (hs : s.Alone) (he : s.OneDrag e) (h : s.step ui e = .ok s') : s'.Alone := by
  have hquiet {t : QuestionRun} (hdrops : t.drops = s.drops)
      (htouch : t.touch = s.touch ∨ t.touch = none) : t.Alone := by
    refine ⟨fun ht => ?_, hdrops ▸ hs.pending⟩
    rw [hdrops]
    rcases htouch with htouch | htouch
    · exact hs.touched (htouch ▸ ht)
    · rw [htouch] at ht
      cases ht
  have hended {t : Touch} (ht : s.touch = some t) (v : AIMQuestionContentView)
      (c : DropCompletion) : (s.dropped v t.piece c).Alone := by
    refine ⟨fun hnone => (by cases hnone), ?_⟩
    show (s.drops ++ [c]).length ≤ 1
    rw [hs.touched (ht ▸ rfl)]
    exact le_rfl
  have hcompleted {i : Nat} {c : DropCompletion} (hi : s.drops[i]? = some c)
      (v : AIMQuestionContentView) (animations : List Animation) :
      (s.completed i c v animations).Alone := by
    have ⟨hlt, _⟩ := List.getElem?_eq_some_iff.mp hi
    refine ⟨fun ht => ?_, (length_eraseIdx_le _ _).trans hs.pending⟩
    rw [hs.touched ht] at hlt
    cases hlt
  cases step_outcome he.1 h with
  | quiet _ _ _ => exact hquiet rfl (.inl rfl)
  | began _ =>
    have hdrops : s.drops = [] := he.2
    exact ⟨fun _ => hdrops, hs.pending⟩
  | accepted ht _ _ _ => exact hended ht _ _
  | wrong ht _ _ _ _ => exact hended ht _ _
  | cancelled => exact hquiet rfl (.inr rfl)
  | resignedIdle _ _ _ => exact hquiet rfl (.inr rfl)
  | resigned _ _ _ _ _ => exact hquiet rfl (.inr rfl)
  | acceptedDone hi _ => exact hcompleted hi _ _
  | returnedDone hi => exact hcompleted hi _ _
  | animation _ => exact hquiet rfl (.inl rfl)

/-- With one drag at a time the list is in step in every state of a run, for any slots. -/
theorem inStep_of_run {question : AIMQuestion} {draws : Nat → Nat} {list : AIMListPieceView}
    (hlist : AIMQuestionContentView.initAIMListPieceView ui question draws = .ok list)
    {pattern : AIMPattern} {data : PatternUIData} {slots : List AIMPatternPiece}
    (h : Reaches (step ui) OneDrag
      (QuestionRun.start (AIMQuestionContentView.fresh question pattern data list slots)) s) :
    s.view.listPieceView.InStep := by
  have hs : s.Alone ∧ s.Paired question.hints ∧
      s.PieceRefs list (AIMListPieceView.pieceCount question.answers) := by
    refine h.inv (fun t => t.Alone ∧ t.Paired question.hints ∧
      t.PieceRefs list (AIMListPieceView.pieceCount question.answers))
      ⟨⟨fun ht => (by cases ht), Nat.zero_le 1⟩, paired_start hlist pattern data slots,
        pieceRefs_start hlist pattern data slots⟩ ?_
    intro t e u ⟨halone, hpaired, hrefs⟩ he hstep
    have horder : InDropOrder e := by
      cases e with
      | dropCompletion i =>
        have hi : i < t.drops.length := he.1
        have hone := halone.pending
        show i = 0
        omega
      | _ => trivial
    have hbefore : t.BeforePending e := by
      cases e with
      | touchBegan p location offset =>
        have hdrops : t.drops = [] := he.2
        intro q hq
        rw [acceptedPieces, hdrops] at hq
        cases hq
      | _ => trivial
    exact ⟨alone_step halone he hstep, paired_step hpaired he.1 horder hbefore hstep,
      pieceRefs_step hrefs he.1 hstep⟩
  obtain ⟨-, hpaired, hrefs⟩ := hs
  refine ⟨hpaired.nodup, congrArg length hpaired.same, fun p hp => ?_⟩
  obtain ⟨a, -, -, hpiece⟩ := (AIMListPieceView.setData_pieces hlist).answer p (hrefs.listed p hp)
  rw [hrefs.piece, hpiece]
  rfl

/-! ### The end of a drag -/

/-- A drag of piece `p` with slot `k` that no other drag overlaps: the touch begins at `s₀` without
a pending drop, ends after `s₂`, and no other touch begins before the completion. From any slots in
any places, the drop is accepted or returned and the record says which. In a list in step with its
labels neither the end of the touch nor the completion traps. -/
theorem verdict_agrees {s₀ s₁ s₂ : QuestionRun} {p : Nat} {location offset : CGPoint}
    (hdrops : s₀.drops = []) (he : s₀.Enabled (.touchBegan p location offset))
    (hbegan : s₀.step ui (.touchBegan p location offset) = .ok s₁)
    (hdrag : Reaches (step ui) Between s₁ s₂) (htouch : s₂.touch.isSome = true) :
    ∃ k slot, k = (s₂.view.listPieceView.pieceView p).patternIndex ∧
      s₂.view.listPatternPieceView[k]? = some slot ∧
      (∀ s₃ s₄ s₅, s₂.step ui .touchEnded = .ok s₃ → Reaches (step ui) Between s₃ s₄ →
        s₄.step ui (.dropCompletion 0) = .ok s₅ →
        ∃ call, s₅.view.dragCalls = s₂.view.dragCalls ++ [call] ∧
          Xor (DropAccepted s₂ s₅ p k slot call) (DropReturned s₂ s₅ p slot call) ∧
          ((dragColumns call.1 call.2).result = Log.Resutl.Right.rawValue ↔
            DropAccepted s₂ s₅ p k slot call)) ∧
      (s₀.view.listPieceView.InStep → ∃ s₃, s₂.step ui .touchEnded = .ok s₃ ∧
        ∀ s₄, Reaches (step ui) Between s₃ s₄ →
          ∃ s₅, s₄.step ui (.dropCompletion 0) = .ok s₅) := by
  have hs := (dragging_began hdrops he hbegan).run hdrag htouch
  have hlt := hs.slot
  rw [statuses, length_map] at hlt
  obtain ⟨slot, hslot⟩ : ∃ slot, s₂.view.listPatternPieceView[
      (s₂.view.listPieceView.pieceView p).patternIndex]? = some slot :=
    ⟨_, getElem?_eq_getElem hlt⟩
  refine ⟨_, slot, rfl, hslot, ?_, ?_⟩
  · intro s₃ s₄ s₅ hended hwait hdone
    have hkept := (undisturbed_run hwait).1
    rcases hs.ended hslot hended with ⟨hnear, haccept⟩ | ⟨hfar, hreturn⟩
    · obtain ⟨hstatuses, hpieces, proxy, hproxy, hcalls⟩ :=
        (haccept.undisturbed hkept).completed hdone
      have hrecords := records_right proxy
      rw [hproxy] at hrecords hcalls
      have haccepted : DropAccepted s₂ s₅ p _ _ _ := ⟨hnear, hstatuses, hpieces, hrecords⟩
      refine ⟨_, hcalls, .inl ⟨haccepted, fun h => h.far hnear⟩, ?_⟩
      exact ⟨fun _ => haccepted, fun _ => hrecords.verdict⟩
    · -- the proxy may lie within the radius of other slots, but its own one is not among them
      obtain ⟨hstatuses, hpieces, hlabels, hvisible, hcalls⟩ :=
        (hreturn.undisturbed hkept).completed hdone
      have hpattern : s₂.view.currentSelectPieceView.patternIndex =
          (s₂.view.listPieceView.pieceView p).patternIndex := congrArg Prod.fst hs.proxy
      have hown : s₂.view.listPatternPieceView[
          s₂.view.currentSelectPieceView.patternIndex]? = some slot := by
        rw [hpattern]
        exact hslot
      have hrecords := records_rejected hown hfar
      refine ⟨_, hcalls, .inr ⟨⟨hfar, hstatuses, hpieces, hlabels, hvisible, hrecords⟩,
        fun h => hfar h.near⟩, ?_⟩
      refine ⟨fun hright => ?_, fun h => absurd h.near hfar⟩
      rcases hrecords with ⟨j, -, hwrong⟩ | ⟨-, hnone⟩
      · exact absurd hright (hwrong.ne_right (by decide))
      · exact absurd hright (hnone.ne_right (by decide))
  · intro hin
    have hin₂ := (undisturbed_run hdrag).1.inStep (inStep_began hin he hbegan)
    obtain ⟨s₃, hended, hready⟩ := @Dragging.ended_total ui _ _ hs hin₂
    refine ⟨s₃, hended, fun s₄ hwait => ?_⟩
    have hkept := (undisturbed_run hwait).1
    refine (hready.undisturbed hkept).dropCompletion_total ?_
    rw [hkept.drops]
    rcases hs.ended hslot hended with ⟨-, haccept⟩ | ⟨-, hreturn⟩
    · rw [haccept.drops]
      exact Nat.one_pos
    · rw [hreturn.drops]
      exact Nat.one_pos

/-- A point where the circles of the slots `0` and `1` of `sampleQuestion` overlap. -/
def betweenSlots : CGPoint := ⟨356.5, 239.5⟩

/-- Piece `1` is dropped within the radius of the slots `0` and `1`, and recorded as right. -/
theorem verdict_agrees_between_slots :
    ∃ v s₁ s₂ s₃ s₅ call,
      AIMQuestionContentView.setData .ascii sampleQuestion (fun _ => 0) = .ok v ∧
      (start v).step .ascii (.touchBegan 1 (inList 1) ⟨0, 0⟩) = .ok s₁ ∧
      s₁.step .ascii (.touchMoved betweenSlots) = .ok s₂ ∧
      s₂.step .ascii .touchEnded = .ok s₃ ∧ s₃.step .ascii (.dropCompletion 0) = .ok s₅ ∧
      (∃ slot, s₂.view.listPatternPieceView[0]? = some slot ∧
        Near s₂.view.currentSelectPieceView.frame.center slot) ∧
      ∃ slot, DropAccepted s₂ s₅ 1 1 slot call := by
  have hrun : ((AIMQuestionContentView.setData .ascii sampleQuestion fun _ => 0).toOption.any
      fun v => decide ((start v).Enabled (.touchBegan 1 (inList 1) ⟨0, 0⟩)) &&
        ((start v).step .ascii (.touchBegan 1 (inList 1) ⟨0, 0⟩)).toOption.any fun s₁ =>
          decide (s₁.Between (.touchMoved betweenSlots)) &&
          (s₁.step .ascii (.touchMoved betweenSlots)).toOption.any fun s₂ =>
            decide (s₂.touch.isSome = true) &&
              decide ((s₂.view.listPieceView.pieceView 1).patternIndex = 1) &&
              decide (s₂.view.listPatternPieceView.map
                (·.matched s₂.view.currentSelectPieceView.frame.center) =
                  [true, true, false, false, false])) = true := by decide +kernel
  obtain ⟨v, hv, hrun⟩ := exists_ok_of_any hrun
  rw [Bool.and_eq_true, decide_eq_true_eq] at hrun
  obtain ⟨he, hrun⟩ := hrun
  obtain ⟨s₁, hbegan, hrun⟩ := exists_ok_of_any hrun
  rw [Bool.and_eq_true, decide_eq_true_eq] at hrun
  obtain ⟨hbetween, hrun⟩ := hrun
  obtain ⟨s₂, hmoved, hrun⟩ := exists_ok_of_any hrun
  simp only [Bool.and_eq_true, decide_eq_true_eq] at hrun
  obtain ⟨⟨htouch, hpattern⟩, hmatched⟩ := hrun
  have hnear (i : Nat) (hi : i < 2) (slot : AIMPatternPiece)
      (hslot : s₂.view.listPatternPieceView[i]? = some slot) :
      Near s₂.view.currentSelectPieceView.frame.center slot := by
    have hat := congrArg (·[i]?) hmatched
    simp only [getElem?_map, hslot, Option.map_some] at hat
    refine matched_iff_near.mp (Option.some.inj (hat.trans ?_))
    have hcases : i = 0 ∨ i = 1 := by omega
    rcases hcases with rfl | rfl <;> rfl
  obtain ⟨k, slot, hk, hslot, hverdict, htotal⟩ :=
    verdict_agrees rfl he hbegan (.tail .refl hbetween hmoved) htouch
  obtain rfl : k = 1 := hk.trans hpattern
  obtain ⟨_, pattern, data, list, slots, hlist, -, rfl⟩ := started_of_setData hv
  obtain ⟨s₃, hended, hdone⟩ := htotal (inStep_of_run hlist .refl)
  obtain ⟨s₅, hdone⟩ := hdone s₃ .refl
  obtain ⟨call, -, hxor, -⟩ := hverdict s₃ s₃ s₅ hended .refl hdone
  refine ⟨_, s₁, s₂, s₃, s₅, call, hv, hbegan, hmoved, hended, hdone, ?_, slot, ?_⟩
  · have hlen := congrArg length hmatched
    rw [length_map] at hlen
    obtain ⟨first, hfirst⟩ : ∃ first, s₂.view.listPatternPieceView[0]? = some first :=
      ⟨_, getElem?_eq_getElem (by rw [hlen]; decide)⟩
    exact ⟨first, hfirst, hnear 0 (by decide) first hfirst⟩
  · rcases hxor with ⟨haccepted, -⟩ | ⟨hreturned, -⟩
    · exact haccepted
    · exact absurd (hnear 1 (by decide) slot hslot) hreturned.far

end QuestionRun

end Imijun
