import Imijun.RunFacts
import Imijun.Lib.CachedIndex

/-!
# Pieces and their hint labels

`pieceViewArray` and `hintLabelArray` are kept apart, and `removePiece` takes the label at the
cached position `hintIndex`, which `reRender` refreshes when a drop is accepted, 0.3 s before the
removal.

* `Paired`: the two arrays list the same numbers, and the pending removals are `Ready`: their cached
  positions are right, and they run from the back of the list to the front.
* `hint_labels_paired`: this holds over every run in which completions come in drop order and a
  touch begins in front of all pending pieces; so every label stays with its piece, and every
  removal takes the label of the removed piece.
-/

namespace Imijun

open Transition Fallible CachedIndex

namespace AIMListPieceView

/-- The cached positions of the pieces. -/
def position (l : AIMListPieceView) (p : Nat) : Nat := (l.pieceView p).hintIndex

end AIMListPieceView

namespace QuestionRun

variable {ui : Platform} {s s' : QuestionRun} {e : Event} {hints : List AIMPiece}

/-- Completions run in the order of the drops. -/
def InDropOrder (e : Event) : Prop :=
  e.AtDropCompletion (· = 0)

instance (e : Event) : Decidable (InDropOrder e) := by
  unfold InDropOrder; infer_instance

/-- While accepted drops are pending, a touch begins on a piece that stands before all of them. -/
def BeforePending (s : QuestionRun) (e : Event) : Prop :=
  e.AtTouch fun p => ∀ q ∈ s.acceptedPieces, s.StandsBefore p q

instance (s : QuestionRun) (e : Event) : Decidable (s.BeforePending e) := by
  unfold BeforePending; infer_instance

/-! ## Pending accepted drops -/

theorem acceptedPieces_completed_accepted {k p : Nat} (h0 : s.drops[0]? = some (.accepted k p))
    (v : AIMQuestionContentView) (animations : List Animation) :
    s.acceptedPieces = p :: (s.completed 0 (.accepted k p) v animations).acceptedPieces := by
  obtain ⟨c, cs, hdrops⟩ := List.exists_cons_of_ne_nil (l := s.drops) (by rintro h; simp [h] at h0)
  obtain rfl : c = .accepted k p := by simpa [hdrops] using h0
  simp [acceptedPieces, completed, hdrops, DropCompletion.isAccepted, DropCompletion.piece]

theorem acceptedPieces_completed_returned {p : Nat} {v : AIMQuestionContentView}
    {animations : List Animation} (h0 : s.drops[0]? = some (.returned p)) :
    (s.completed 0 (.returned p) v animations).acceptedPieces = s.acceptedPieces := by
  obtain ⟨c, cs, hdrops⟩ := List.exists_cons_of_ne_nil (l := s.drops) (by rintro h; simp [h] at h0)
  obtain rfl : c = .returned p := by simpa [hdrops] using h0
  simp [acceptedPieces, completed, hdrops, DropCompletion.isAccepted]

/-! ## The invariant -/

/-- The label of a piece carries the piece's number, and the pending removals can run. -/
structure Paired (hints : List AIMPiece) (s : QuestionRun) : Prop where
  same : s.view.listPieceView.hintLabelArray = s.view.listPieceView.pieceViewArray
  nodup : s.view.listPieceView.pieceViewArray.Nodup
  label : ∀ p ∈ s.view.listPieceView.pieceViewArray, ∃ h,
    hints[(s.view.listPieceView.pieceView p).patternIndex]? = some h ∧
      (s.view.listPieceView.hintLabel p).text = h.content
  pending : Ready s.view.listPieceView.pieceViewArray s.view.listPieceView.position
    s.acceptedPieces
  /-- the dragged piece stands before every pending one -/
  touched : ∀ t, s.touch = some t → ∃ i,
    s.view.listPieceView.pieceViewArray[i]? = some t.piece ∧
      ∀ q ∈ s.acceptedPieces, i < s.view.listPieceView.position q

/-- A step that keeps the arrays, the cached positions and the labels, and makes no drop. -/
theorem Paired.of_keeps (hs : s.Paired hints)
    (hpieces : s'.view.listPieceView.pieceViewArray = s.view.listPieceView.pieceViewArray)
    (hlabels : s'.view.listPieceView.hintLabelArray = s.view.listPieceView.hintLabelArray)
    (hpattern : ∀ p, (s'.view.listPieceView.pieceView p).patternIndex =
      (s.view.listPieceView.pieceView p).patternIndex)
    (hposition : s'.view.listPieceView.position = s.view.listPieceView.position)
    (htext : ∀ t, (s'.view.listPieceView.hintLabel t).text =
      (s.view.listPieceView.hintLabel t).text)
    (haccepted : s'.acceptedPieces = s.acceptedPieces)
    (htouched : ∀ t, s'.touch = some t → ∃ i,
      s.view.listPieceView.pieceViewArray[i]? = some t.piece ∧
        ∀ q ∈ s.acceptedPieces, i < s.view.listPieceView.position q) : s'.Paired hints where
  same := hlabels.trans (hs.same.trans hpieces.symm)
  nodup := hpieces ▸ hs.nodup
  label p hp := by
    obtain ⟨h, hh, ht⟩ := hs.label p (hpieces ▸ hp)
    exact ⟨h, by rw [hpattern, hh], by rw [htext, ht]⟩
  pending := by rw [hpieces, hposition, haccepted]; exact hs.pending
  touched := by rw [hpieces, hposition, haccepted]; exact htouched

theorem Paired.of_sameDrag (hs : s.Paired hints) {v : AIMQuestionContentView}
    (same : SameDrag s.view v) (animations : List Animation) :
    Paired hints { s with view := v, animations := animations } := by
  refine hs.of_keeps same.pieceViewArray same.hintLabelArray (fun p => ?_) ?_ same.labelText rfl
    hs.touched
  · exact congrArg (fun f => (f p).patternIndex) same.pieceView
  · exact congrArg (fun f p => (f p).hintIndex) same.pieceView

theorem hidePiece_position (l : AIMListPieceView) (p : Nat) (b : Bool) :
    (l.hidePiece p b).position = l.position := by
  funext q
  by_cases hq : q = p <;> simp [AIMListPieceView.position, hq]

theorem hidePiece_patternIndex (l : AIMListPieceView) (p q : Nat) (b : Bool) :
    ((l.hidePiece p b).pieceView q).patternIndex = (l.pieceView q).patternIndex := by
  by_cases hq : q = p <;> simp [hq]

/-- `reRender` refreshes the cached positions when a drop is accepted, so the dropped piece joins
the queue of removals in front of the others. -/
theorem paired_accepted (hs : s.Paired hints) {t : Touch} (ht : s.touch = some t)
    {slot : AIMPatternPiece} {k : Nat} {list : AIMListPieceView}
    (hlist : s.view.listPieceView.reRender = .ok list) :
    Paired hints (s.dropped (s.view.accepted slot k list) t.piece (.accepted k t.piece)) := by
  have hsame := AIMListPieceView.reRender_same hlist
  have hfresh {p i : Nat} (hi : s.view.listPieceView.pieceViewArray[i]? = some p) :
      list.position p = i := AIMListPieceView.reRender_hintIndex hs.nodup hlist hi
  obtain ⟨i, hi, hfront⟩ := hs.touched t ht
  have hkept : ∀ q ∈ s.acceptedPieces, list.position q = s.view.listPieceView.position q :=
    fun q hq => hfresh (hs.pending.cached q hq)
  have hready : Ready list.pieceViewArray list.position (s.acceptedPieces ++ [t.piece]) := by
    rw [hsame.pieceViewArray]
    refine (hs.pending.congr hkept).push (by rw [hfresh hi]; exact hi) fun q hq => ?_
    rw [hfresh hi, hkept q hq]
    exact hfront q hq
  refine ⟨hsame.hintLabelArray.trans (hs.same.trans hsame.pieceViewArray.symm),
    hsame.pieceViewArray.symm ▸ hs.nodup, fun p hp => ?_, ?_, fun u hu => by cases hu⟩
  · obtain ⟨h, hh, htext⟩ := hs.label p (hsame.pieceViewArray ▸ hp)
    have hface : (list.pieceView p).patternIndex =
        (s.view.listPieceView.pieceView p).patternIndex := congrArg Prod.fst (hsame.face p)
    exact ⟨h, hface ▸ hh, (hsame.labelText p).trans htext⟩
  · rw [acceptedPieces_dropped_accepted]
    exact hready

/-- The first pending removal finds its label at the cached position and takes it out. -/
theorem Paired.removePiece (hs : s.Paired hints) {p : Nat} (hp : p ∈ s.acceptedPieces) :
    s.view.listPieceView.hintLabelArray[s.view.listPieceView.position p]? = some p ∧
      s.view.listPieceView.removePiece p = .ok { s.view.listPieceView with
        pieceViewArray := s.view.listPieceView.pieceViewArray.filter (· ≠ p)
        hintLabelArray := s.view.listPieceView.hintLabelArray.filter (· ≠ p) } := by
  have hlabel : s.view.listPieceView.hintLabelArray[s.view.listPieceView.position p]? = some p := by
    rw [hs.same]
    exact hs.pending.cached p hp
  exact ⟨hlabel, AIMListPieceView.removePiece_ok.mpr ⟨p, hlabel, rfl⟩⟩

theorem paired_acceptedDone (hs : s.Paired hints) {k p : Nat} {v : AIMQuestionContentView}
    (h0 : s.drops[0]? = some (.accepted k p)) (done : s.view.AcceptedDone k p v) :
    Paired hints (s.completed 0 (.accepted k p) v [.blur 4]) := by
  have hpending := hs.pending
  rw [acceptedPieces_completed_accepted h0 v [.blur 4]] at hpending
  have hp : p ∈ s.acceptedPieces := by
    rw [acceptedPieces_completed_accepted h0 v [.blur 4]]
    exact List.mem_cons_self
  -- the completion takes out the piece and the label at one position
  obtain ⟨-, hremove⟩ := hs.removePiece hp
  have hlist := Except.ok.inj (done.list.symm.trans hremove)
  have hview : (s.completed 0 (.accepted k p) v [.blur 4]).view.listPieceView = _ := hlist
  constructor
  · rw [hview]
    exact congrArg (List.filter (· ≠ p)) hs.same
  · rw [hview]
    exact hs.nodup.filter _
  · intro q hq
    rw [hview] at hq ⊢
    exact hs.label q (List.mem_of_mem_filter hq)
  · rw [hview]
    exact hpending.remove hs.nodup
  · intro t ht
    obtain ⟨i, hi, hfront⟩ := hs.touched t ht
    rw [hview]
    refine ⟨i, ?_, fun q hq => hfront q ?_⟩
    · exact (getElem?_filter_ne_of_lt hs.nodup (hs.pending.cached p hp) (hfront p hp)).trans hi
    · rw [acceptedPieces_completed_accepted h0 v [.blur 4]]
      exact List.mem_cons_of_mem _ hq

theorem paired_step (hs : s.Paired hints) (he : s.Enabled e) (horder : InDropOrder e)
    (hbefore : s.BeforePending e) (h : s.step ui e = .ok s') : s'.Paired hints := by
  cases step_outcome he h with
  | quiet _ same _ => exact hs.of_sameDrag same s.animations
  | began _ =>
    refine hs.of_keeps rfl rfl (hidePiece_patternIndex _ _ · _) (hidePiece_position _ _ _)
      (fun _ => rfl) rfl fun t ht => ?_
    obtain rfl := Option.some.inj ht
    refine ⟨_, List.getElem?_idxOf he.2.1, fun q hq => ?_⟩
    rw [← idxOf_eq_of_getElem? hs.nodup (hs.pending.cached q hq)]
    exact hbefore q hq
  | accepted ht _ _ hlist => exact paired_accepted hs ht hlist
  | wrong _ _ _ _ _ =>
    exact hs.of_keeps rfl rfl (fun _ => rfl) rfl (fun _ => rfl)
      (acceptedPieces_dropped_returned _ _ _) (fun t ht => by cases ht)
  | cancelled =>
    exact hs.of_keeps rfl rfl (fun _ => rfl) rfl (fun _ => rfl) rfl (fun t ht => by cases ht)
  | resignedIdle same _ _ =>
    have := hs.of_sameDrag same s.animations
    exact this.of_keeps rfl rfl (fun _ => rfl) rfl (fun _ => rfl) rfl (fun t ht => by cases ht)
  | @resigned w p start same _ _ _ _ =>
    have := hs.of_sameDrag same s.animations
    cases p with
    | none =>
      exact this.of_keeps rfl rfl (fun _ => rfl) rfl (fun _ => rfl) rfl (fun t ht => by cases ht)
    | some p =>
      exact this.of_keeps rfl rfl (hidePiece_patternIndex _ _ · _) (hidePiece_position _ _ _)
        (fun _ => rfl) rfl (fun t ht => by cases ht)
  | acceptedDone hi done => cases horder; exact paired_acceptedDone hs hi done
  | returnedDone hi =>
    cases horder
    exact hs.of_keeps rfl rfl (hidePiece_patternIndex _ _ · _) (hidePiece_position _ _ _)
      (fun _ => rfl) (acceptedPieces_completed_returned hi) hs.touched
  | animation hi =>
    exact hs.of_sameDrag (AIMQuestionContentView.runAnimation_sameDrag ui s.view _) _

/-! ## Runs -/

theorem paired_start {question : AIMQuestion} {draws : Nat → Nat} {list : AIMListPieceView}
    (hlist : AIMQuestionContentView.initAIMListPieceView ui question draws = .ok list)
    (pattern : AIMPattern) (data : PatternUIData) (slots : List AIMPatternPiece) :
    Paired question.hints
      (QuestionRun.start (AIMQuestionContentView.fresh question pattern data list slots)) := by
  have hfilled := (AIMListPieceView.setData_pieces hlist).filled
  refine ⟨hfilled.hintLabelArray.trans hfilled.pieceViewArray.symm, ?_, fun p hp => ?_,
    Ready.nil _ _, fun t ht => by cases ht⟩
  · exact hfilled.pieceViewArray.symm ▸ List.nodup_range
  · have hp : p ∈ list.pieceViewArray := hp
    rw [hfilled.pieceViewArray, List.mem_range] at hp
    exact hfilled.label p hp

/-- In every state of such a run the two arrays have the same length and the label at a position
shows the hint of the piece at that position; and when the next completion to run removes a piece,
`hintIndex` is the position of the piece, the label made with the piece stands there, and
`removePiece` takes exactly this position out of both arrays. -/
theorem hint_labels_paired {question : AIMQuestion} {draws : Nat → Nat} {list : AIMListPieceView}
    (hlist : AIMQuestionContentView.initAIMListPieceView ui question draws = .ok list)
    {pattern : AIMPattern} {data : PatternUIData} {slots : List AIMPatternPiece}
    (h : Reaches (step ui) (fun s e => s.Enabled e ∧ InDropOrder e ∧ s.BeforePending e)
      (QuestionRun.start (AIMQuestionContentView.fresh question pattern data list slots)) s) :
    s.view.listPieceView.pieceViewArray.length = s.view.listPieceView.hintLabelArray.length ∧
      (∀ i p t : Nat, s.view.listPieceView.pieceViewArray[i]? = some p →
        s.view.listPieceView.hintLabelArray[i]? = some t →
        ∃ hint, question.hints[(s.view.listPieceView.pieceView p).patternIndex]? = some hint ∧
          (s.view.listPieceView.hintLabel t).text = hint.content) ∧
      ∀ k p, s.drops[0]? = some (.accepted k p) →
        ∃ i l, (s.view.listPieceView.pieceView p).hintIndex = i ∧
          s.view.listPieceView.pieceViewArray[i]? = some p ∧
          s.view.listPieceView.hintLabelArray[i]? = some p ∧
          s.view.listPieceView.removePiece p = .ok l ∧
          l.pieceViewArray = s.view.listPieceView.pieceViewArray.eraseIdx i ∧
          l.hintLabelArray = s.view.listPieceView.hintLabelArray.eraseIdx i := by
  have hs : s.Paired question.hints := h.inv (Paired question.hints)
    (paired_start hlist pattern data slots)
    fun _ _ _ hs he hstep => paired_step hs he.1 he.2.1 he.2.2 hstep
  refine ⟨congrArg List.length hs.same.symm, fun i p t hp ht => ?_, fun k p h0 => ?_⟩
  · rw [hs.same, hp] at ht
    obtain rfl := Option.some.inj ht
    exact hs.label p (List.mem_of_getElem? hp)
  · have hp : p ∈ s.acceptedPieces := by
      rw [acceptedPieces_completed_accepted h0 s.view []]
      exact List.mem_cons_self
    obtain ⟨hlabel, hremove⟩ := hs.removePiece hp
    have hpiece := hs.pending.cached p hp
    exact ⟨_, _, rfl, hpiece, hlabel, hremove, filter_ne_eq_eraseIdx hs.nodup hpiece,
      filter_ne_eq_eraseIdx (hs.same.symm ▸ hs.nodup) hlabel⟩

/-- Two drops pending at once, the later one on a piece in front of the earlier one. -/
def twoPending : List Event :=
  drag 2 (inList 2) (onSlot 2) ++ drag 0 (inList 0) (onSlot 0)

theorem hint_labels_paired_two_pending :
    ∃ v s, AIMQuestionContentView.setData .ascii sampleQuestion (fun _ => 0) = .ok v ∧
      Reaches (step .ascii) (fun s e => s.Enabled e ∧ InDropOrder e ∧ s.BeforePending e)
        (QuestionRun.start v) s ∧
      s.drops = [.accepted 2 2, .accepted 0 0] ∧
      ∃ i, s.view.listPieceView.hintLabelArray[i]? = some 2 ∧
        (s.view.listPieceView.pieceView 2).hintIndex = i := by
  have hrun : (playQuestion .ascii (fun s e => s.Enabled e ∧ InDropOrder e ∧ s.BeforePending e)
      sampleQuestion (fun _ => 0) twoPending).any
      (fun s => decide (s.drops = [.accepted 2 2, .accepted 0 0])) = true := by decide +kernel
  obtain ⟨v, s, hv, hreach, hdrops⟩ := exists_run_of_playQuestion hrun
  have hdrops := of_decide_eq_true hdrops
  obtain ⟨_, pattern, data, list, slots, hlist, -, rfl⟩ := started_of_setData hv
  obtain ⟨-, -, hnext⟩ := hint_labels_paired hlist hreach
  obtain ⟨i, l, hi, -, hlabel, -⟩ := hnext 2 2 (by rw [hdrops]; rfl)
  exact ⟨_, s, hv, hreach, hdrops, i, hlabel, hi⟩

end QuestionRun

end Imijun
