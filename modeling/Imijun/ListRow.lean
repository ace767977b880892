import Imijun.DisplayFacts
import Imijun.HintPairing
import Imijun.Placement
import Imijun.Relayout
import Imijun.TouchFinish

/-!
# The row of the list along a run

The pieces are laid out when an accepted drop calls `reRender`, and at no other time: a removal, a
wrong drop and a piece that comes back find their places as the last layout left them.

* `layout`: what `reRender` sets; `layout_step`: no other event changes it.
* `standing`: the pieces that are listed and whose drop is not pending.
* `row_of_run`: in every state of a run in which touches and completions do not interfere, the
  standing pieces and their labels stand in one row, without a gap and in their first order.
-/

namespace Imijun

open Transition Fallible List

namespace AIMListPieceView

variable {l l' : AIMListPieceView} {shown : List (Nat × Nat)} {wid : Nat → ℚ}

/-- What `reRender` sets: the width of the content, the frames of the pieces and of the labels. -/
def layout (l : AIMListPieceView) : ℚ × (Nat → CGRect) × (Nat → CGRect) :=
  (l.contentWidth, fun q => (l.pieceView q).frame, fun t => (l.hintLabel t).frame)

theorem layout_hidePiece (l : AIMListPieceView) (p : Nat) (b : Bool) :
    (l.hidePiece p b).layout = l.layout := by
  have hframe : (fun q => ((l.hidePiece p b).pieceView q).frame) =
      fun q => (l.pieceView q).frame := by
    funext q
    rw [hidePiece_pieceView]
    split_ifs with hq
    · rw [hq]
    · rfl
  exact congrArg (fun f => (l.contentWidth, f, fun t => (l.hintLabel t).frame)) hframe

theorem layout_showHint (l : AIMListPieceView) (b : Bool) : (l.showHint b).layout = l.layout := by
  unfold showHint
  generalize l.hintLabelArray = labels
  induction labels generalizing l with
  | nil => rfl
  | cons t labels ih =>
    have hframe : (fun u => ((l.modifyLabel t fun v => { v with isHidden := !b }).hintLabel
        u).frame) = fun u => (l.hintLabel u).frame := by
      funext u
      rw [modifyLabel_hintLabel]
      split_ifs with hu
      · rw [hu]
      · rfl
    refine (ih (l.modifyLabel t fun v => { v with isHidden := !b })).trans ?_
    exact congrArg (fun f => (l.contentWidth, fun q => (l.pieceView q).frame, f)) hframe

theorem layout_removePiece {p : Nat} (h : l.removePiece p = .ok l') : l'.layout = l.layout := by
  obtain ⟨t, -, rfl⟩ := removePiece_ok.mp h
  rfl

theorem width_of_layout (h : l'.layout = l.layout) (q : Nat) : l'.width q = l.width q :=
  congrArg (fun m : ℚ × (Nat → CGRect) × (Nat → CGRect) => (m.2.1 q).width) h

theorem InRow.of_layout (hl : l.InRow shown wid) (h : l'.layout = l.layout) :
    l'.InRow shown wid := by
  obtain ⟨hwidth, hframes⟩ := Prod.mk.inj h
  obtain ⟨hpieces, hlabels⟩ := Prod.mk.inj hframes
  refine ⟨hwidth.trans hl.contentWidth, fun j e he => ?_⟩
  obtain ⟨hpiece, hlabel⟩ := hl.frames j e he
  exact ⟨(congrFun hpieces e.1).trans hpiece, (congrFun hlabels e.2).trans hlabel⟩

theorem InRow.congr_width {wid' : Nat → ℚ} (hl : l.InRow shown wid) (h : ∀ q, wid q = wid' q) :
    l.InRow shown wid' := by
  obtain rfl : wid = wid' := funext h
  exact hl

/-- Two lists with the same row have the same frames. -/
theorem InRow.frames_eq (hl : l.InRow shown wid) (hl' : l'.InRow shown wid) {e : Nat × Nat}
    (he : e ∈ shown) : (l'.pieceView e.1).frame = (l.pieceView e.1).frame ∧
      (l'.hintLabel e.2).frame = (l.hintLabel e.2).frame := by
  obtain ⟨j, hj⟩ := mem_iff_getElem?.mp he
  obtain ⟨hpiece, hlabel⟩ := hl.frames j e hj
  obtain ⟨hpiece', hlabel'⟩ := hl'.frames j e hj
  exact ⟨hpiece'.trans hpiece.symm, hlabel'.trans hlabel.symm⟩

theorem reRender_width (h : l.reRender = .ok l') (q : Nat) : l'.width q = l.width q := by
  obtain ⟨r, hloop, hr⟩ := bind_eq_ok.mp h
  obtain rfl := Except.ok.inj hr
  exact reRenderLoop_width hloop

/-- A piece with its own label. -/
def ownPair (p : Nat) : Nat × Nat := (p, p)

/-- When the labels go by the numbers of the pieces, the visible pieces come with their own ones. -/
theorem shownPairs_of_same (h : l.hintLabelArray = l.pieceViewArray) :
    l.shownPairs = (l.pieceViewArray.filter fun p => !(l.pieceView p).isHidden).map ownPair := by
  unfold shownPairs
  have hzip : l.pieceViewArray.zip l.pieceViewArray = l.pieceViewArray.map ownPair := by
    have hboth := @zip_map' Nat Nat Nat id id l.pieceViewArray
    rwa [map_id] at hboth
  rw [h, hzip, filter_map]
  rfl

/-- `setData` leaves its pieces in a row. -/
theorem setData_inRow {ui : Platform} {frame : CGRect} {answers hints : List AIMPiece}
    {draws : Nat → Nat}
    (h : (loadFromNibWithBundle frame).setData ui answers hints draws = .ok l) :
    l.InRow (l.pieceViewArray.map ownPair) l.width := by
  have hfitted := setData_fitted h
  obtain ⟨hfilled, hmade⟩ := setData_made h
  have hshown : ∀ e ∈ l.pieceViewArray.map ownPair, e.1 ∈ l.pieceViewArray := by
    intro e he
    obtain ⟨p, hp, rfl⟩ := mem_map.mp he
    exact hp
  have hdrawn : (Selection.select draws (answerEntries answers).length 0
      (answerEntries answers)).map asMade = (l.pieceViewArray.map ownPair).map fun e =>
        ((l.pieceView e.1).piece, (l.pieceView e.1).patternIndex) := by
    rw [map_map, hfilled.pieceViewArray]
    exact hmade.symm
  obtain ⟨r, hloop, hend, hframes⟩ :=
    hfitted.setDataLoop hshown hdrawn (loadFromNibWithBundle frame)
  obtain ⟨r', hloop', hr⟩ := bind_eq_ok.mp h
  obtain rfl := Except.ok.inj (hloop.symm.trans hloop')
  have hlist := Except.ok.inj hr
  -- the pieces have the numbers of their positions
  have hnumber {j : Nat} {e : Nat × Nat} (he : (l.pieceViewArray.map ownPair)[j]? = some e) :
      e = (j, j) := by
    rw [hfilled.pieceViewArray, getElem?_map] at he
    obtain ⟨p, hp, rfl⟩ := Option.map_eq_some_iff.mp he
    obtain ⟨-, rfl⟩ := List.getElem?_eq_some_iff.mp hp
    rw [getElem_range]
    rfl
  refine ⟨?_, fun j e he => ?_⟩
  · rw [← hend, ← hlist]
  · obtain ⟨hpiece, hlabel⟩ := hframes j e he
    obtain rfl := hnumber he
    rw [← hlist] at hpiece hlabel ⊢
    exact ⟨hpiece, hlabel⟩

end AIMListPieceView

/-! ## What changes the layout -/

namespace AIMQuestionContentView

theorem runAnimation_layout (ui : Platform) (v : AIMQuestionContentView) (a : Animation) :
    (v.runAnimation ui a).1.listPieceView.layout = v.listPieceView.layout := by
  match a with
  | .blur (left + 2) => rfl
  | .blur 0 | .blur 1 =>
    simp only [runAnimation, expandPieceWidth]
    split <;> rfl
  | .expanded =>
    simp only [runAnimation]
    split <;> rfl
  | .answerHidden => rfl

theorem showTextPattern_layout (v : AIMQuestionContentView) :
    v.showTextPattern.listPieceView.layout = v.listPieceView.layout := by
  unfold showTextPattern
  split <;> rfl

theorem resignActive_layout {v v' : AIMQuestionContentView} (h : v.resignActive = .ok v') :
    v'.listPieceView.layout = v.listPieceView.layout := by
  have hshow := (showTextPattern_layout { v with
    listPieceView := v.listPieceView.showHint false }).trans
      (AIMListPieceView.layout_showHint v.listPieceView false)
  rcases cancelTouch_ok h with ⟨-, rfl⟩ | ⟨start, p, -, rfl, -, -⟩
  · exact hshow
  · cases p with
    | none => exact hshow
    | some p => exact (AIMListPieceView.layout_hidePiece _ p false).trans hshow

end AIMQuestionContentView

namespace QuestionRun

open AIMListPieceView (ownPair)

variable {ui : Platform} {s s' : QuestionRun} {e : Event} {hints : List AIMPiece}
  {list : AIMListPieceView} {n : Nat}

/-- Only the end of a touch can lay the list out. -/
theorem layout_step (he : s.Enabled e) (hother : e ≠ .touchEnded) (h : s.step ui e = .ok s') :
    s'.view.listPieceView.layout = s.view.listPieceView.layout := by
  cases e with
  | touchBegan p location offset =>
    obtain ⟨v, hv, h⟩ := bind_eq_ok.mp h
    obtain rfl := Except.ok.inj h
    obtain ⟨slot, -, rfl⟩ := AIMQuestionContentView.tapAIMPieceView_ok.mp hv
    exact AIMListPieceView.layout_hidePiece (s.view.listPieceView.setScroll false) p true
  | touchMoved location =>
    obtain ⟨v, hv, h⟩ := bind_eq_ok.mp h
    obtain rfl := Except.ok.inj h
    obtain ⟨c, rfl⟩ := AIMQuestionContentView.movedChoosePieceView_ok hv
    rfl
  | touchEnded => exact absurd rfl hother
  | touchCancelled =>
    obtain rfl := Except.ok.inj h
    rfl
  | willResignActive =>
    obtain ⟨v, hv, h⟩ := bind_eq_ok.mp h
    obtain rfl := Except.ok.inj h
    exact AIMQuestionContentView.resignActive_layout hv
  | hintCase2 i =>
    obtain ⟨v, hv, h⟩ := bind_eq_ok.mp h
    obtain rfl := Except.ok.inj h
    obtain ⟨tapped, -, ⟨-, panel, -, -, rfl⟩ | ⟨-, -, rfl⟩⟩ :=
      AIMQuestionContentView.hintCase2_ok.mp hv
    · rfl
    · rfl
  | btnShowHint =>
    obtain rfl := Except.ok.inj h
    show s.view.btnShowHint.listPieceView.layout = _
    unfold AIMQuestionContentView.btnShowHint
    split <;> rfl
  | showTextPattern =>
    obtain rfl := Except.ok.inj h
    exact AIMQuestionContentView.showTextPattern_layout s.view
  | touchDragOutside => cases h
  | btnShowEnglishHint =>
    obtain rfl := Except.ok.inj h
    show s.view.btnShowEnglishHint.listPieceView.layout = _
    unfold AIMQuestionContentView.btnShowEnglishHint
    split
    · rfl
    · exact AIMListPieceView.layout_showHint _ true
  | showEnglishTextPattern =>
    obtain rfl := Except.ok.inj h
    show s.view.showEnglishTextPattern.listPieceView.layout = _
    unfold AIMQuestionContentView.showEnglishTextPattern
    split
    · exact AIMListPieceView.layout_showHint _ false
    · rfl
  | dropCompletion i =>
    cases step_outcome he h with
    | quiet hquiet _ _ => cases hquiet
    | acceptedDone _ done => exact AIMListPieceView.layout_removePiece done.list
    | @returnedDone i p _ => exact AIMListPieceView.layout_hidePiece s.view.listPieceView p false
  | animationCompletion i =>
    cases step_outcome he h with
    | quiet hquiet _ _ => cases hquiet
    | @animation i a _ => exact AIMQuestionContentView.runAnimation_layout ui s.view a

/-! ## The pieces that stand in the list -/

/-- The pieces that are listed and whose drop is not pending. -/
def standing (s : QuestionRun) : List Nat :=
  s.view.listPieceView.pieceViewArray.filter (· ∉ s.acceptedPieces)

/-- The application does not resign active between a drop and its completion. -/
def ResignsSettled (s : QuestionRun) (e : Event) : Prop :=
  e = .willResignActive → s.touch = none → s.drops = []

instance (s : QuestionRun) (e : Event) : Decidable (s.ResignsSettled e) := by
  unfold ResignsSettled; infer_instance

/-- Touches and completions do not interfere, and every touch is finished. -/
def Orderly (s : QuestionRun) (e : Event) : Prop :=
  s.Enabled e ∧ InDropOrder e ∧ s.BeforePending e ∧ s.FinishesTouch e ∧ s.ResignsSettled e

instance (s : QuestionRun) (e : Event) : Decidable (s.Orderly e) := by
  unfold Orderly; infer_instance

/-- A removal takes out a piece that has stopped standing before. -/
theorem standing_step (he : s.Enabled e) (horder : InDropOrder e) (hother : e ≠ .touchEnded)
    (h : s.step ui e = .ok s') : s'.standing = s.standing := by
  have hkept (hpieces : s'.view.listPieceView.pieceViewArray =
        s.view.listPieceView.pieceViewArray)
      (haccepted : s'.acceptedPieces = s.acceptedPieces) : s'.standing = s.standing := by
    unfold standing
    rw [hpieces, haccepted]
  cases step_outcome he h with
  | quiet _ same _ => exact hkept same.pieceViewArray rfl
  | began _ => rfl
  | accepted _ _ _ _ => exact absurd rfl hother
  | wrong _ _ _ _ _ => exact absurd rfl hother
  | cancelled => rfl
  | resignedIdle same _ _ => exact hkept same.pieceViewArray rfl
  | @resigned w p start same _ _ _ _ =>
    refine hkept ?_ rfl
    cases p <;> exact same.pieceViewArray
  | @acceptedDone i k p v hi done =>
    cases horder
    obtain ⟨t, -, hlist⟩ := AIMListPieceView.removePiece_ok.mp done.list
    unfold standing
    rw [acceptedPieces_completed_accepted hi v [.blur 4]]
    show filter _ v.listPieceView.pieceViewArray = _
    rw [hlist]
    show filter _ (filter _ _) = _
    rw [filter_filter]
    refine filter_congr fun q _ => ?_
    simp [Bool.and_comm]
  | returnedDone hi =>
    cases horder
    exact hkept rfl (acceptedPieces_completed_returned hi)
  | animation _ =>
    exact hkept (AIMQuestionContentView.runAnimation_sameDrag ui s.view _).pieceViewArray rfl

/-- What is hidden, and what waits for the return of a wrong drop. -/
structure Withheld (s : QuestionRun) : Prop where
  accepted : ∀ p ∈ s.acceptedPieces, (s.view.listPieceView.pieceView p).isHidden = true
  touched : ∀ t, s.touch = some t → (s.view.listPieceView.pieceView t.piece).isHidden = true
  /-- no touch begins until a wrong drop is back, so it is the last one -/
  returned : ∀ (i : Nat) q, s.drops[i]? = some (.returned q) →
    i + 1 = s.drops.length ∧ s.touch = none ∧
      s.view.listPieceView.isUserInteractionEnabled = false

/-- A step that keeps the pieces, the pending drops and the list's flag. -/
theorem Withheld.of_keeps (hs : s.Withheld)
    (hpieces : s'.view.listPieceView.pieceView = s.view.listPieceView.pieceView)
    (hdrops : s'.drops = s.drops) (htouch : s'.touch = s.touch ∨ s'.touch = none)
    (hlist : s'.view.listPieceView.isUserInteractionEnabled =
      s.view.listPieceView.isUserInteractionEnabled) : s'.Withheld where
  accepted p hp := by
    unfold acceptedPieces at hp
    rw [hdrops] at hp
    rw [hpieces]
    exact hs.accepted p hp
  touched t ht := by
    rw [hpieces]
    rcases htouch with htouch | htouch
    · exact hs.touched t (htouch ▸ ht)
    · cases htouch.symm.trans ht
  returned i q hi := by
    obtain ⟨hlast, hnone, hoff⟩ := hs.returned i q (hdrops ▸ hi)
    refine ⟨hdrops ▸ hlast, ?_, hlist.trans hoff⟩
    rcases htouch with htouch | htouch
    · exact htouch.trans hnone
    · exact htouch

/-- While a touch is in progress no wrong drop is on its way back. -/
theorem Withheld.not_returned (hs : s.Withheld) {t : Touch} (ht : s.touch = some t) {q : Nat} :
    .returned q ∉ s.drops := by
  intro hq
  obtain ⟨i, hi⟩ := mem_iff_getElem?.mp hq
  cases (hs.returned i q hi).2.1.symm.trans ht

theorem withheld_dropped (hs : s.Withheld) {t : Touch} (ht : s.touch = some t)
    {v : AIMQuestionContentView} {c : DropCompletion} (hc : c.piece = t.piece)
    (hhidden : ∀ q, (v.listPieceView.pieceView q).isHidden =
      (s.view.listPieceView.pieceView q).isHidden)
    (hlist : c.isAccepted = false → v.listPieceView.isUserInteractionEnabled = false) :
    (s.dropped v t.piece c).Withheld where
  accepted q hq := by
    refine (hhidden q).trans ?_
    cases c with
    | accepted k p =>
      obtain rfl : p = t.piece := hc
      rw [acceptedPieces_dropped_accepted] at hq
      rcases mem_append.mp hq with hq | hq
      · exact hs.accepted q hq
      · rw [mem_singleton.mp hq]
        exact hs.touched t ht
    | returned p =>
      obtain rfl : p = t.piece := hc
      rw [acceptedPieces_dropped_returned] at hq
      exact hs.accepted q hq
  touched u hu := by cases hu
  returned i q hi := by
    have hi : (s.drops ++ [c])[i]? = some (.returned q) := hi
    by_cases hlt : i < s.drops.length
    · rw [getElem?_append_left hlt] at hi
      exact absurd (mem_of_getElem? hi) (hs.not_returned ht)
    · rw [getElem?_append_right (not_lt.mp hlt)] at hi
      obtain ⟨hzero, hlast⟩ := List.getElem?_eq_some_iff.mp hi
      have hzero : i - s.drops.length < 1 := hzero
      obtain rfl : c = .returned q := by
        rw [← hlast, getElem_singleton]
      refine ⟨?_, rfl, hlist rfl⟩
      show i + 1 = (s.drops ++ [_]).length
      rw [length_append, length_singleton]
      omega

theorem withheld_resigned (hs : s.Withheld) (htouch : s.TouchInv) (hplace : s.PlacementInv list n)
    (hsettled : s.touch = none → s.drops = []) {w : AIMQuestionContentView} {p : Option Nat}
    {start : CGPoint} (same : SameDrag s.view w)
    (hpiece : p.isSome = true → p = s.view.currentSelectPieceViewOnScrollview) :
    Withheld { s with view := w.restored p start, touch := none } where
  accepted q hq := by
    have hq : q ∈ s.acceptedPieces := hq
    have hhidden := hs.accepted q hq
    rw [← same.pieceView] at hhidden
    cases p with
    | none => exact hhidden
    | some p =>
      -- the piece that comes back is the dragged one, whose drop is not pending
      have hqp : q ≠ p := by
        rintro rfl
        obtain ⟨k, hk⟩ := mem_acceptedPieces.mp hq
        cases ht : s.touch with
        | none =>
          rw [hsettled ht] at hk
          cases hk
        | some t =>
          have hchosen := (hpiece rfl).trans (htouch.chosen t ht)
          exact (hplace.touched t ht).2 (Option.some.inj hchosen ▸ hq)
      show ((w.listPieceView.hidePiece p false).pieceView q).isHidden = true
      rw [AIMListPieceView.hidePiece_pieceView, if_neg hqp]
      exact hhidden
  touched t ht := by cases ht
  returned i q hi := by
    have hi : s.drops[i]? = some (.returned q) := hi
    rw [hsettled (hs.returned i q hi).2.1] at hi
    cases hi

theorem withheld_step (hs : s.Withheld) (htouch : s.TouchInv) (hplace : s.PlacementInv list n)
    (he : s.Orderly e) (h : s.step ui e = .ok s') : s'.Withheld := by
  obtain ⟨henabled, horder, -, hfinishes, hsettled⟩ := he
  cases step_outcome henabled h with
  | quiet _ same _ => exact hs.of_keeps same.pieceView rfl (.inl rfl) same.listInteraction
  | @began p location offset slot _ =>
    have hhidden (q : Nat) (hq : q = p ∨ (s.view.listPieceView.pieceView q).isHidden = true) :
        (((s.view.listPieceView.setScroll false).hidePiece p true).pieceView q).isHidden =
          true := by
      rw [AIMListPieceView.hidePiece_pieceView]
      split_ifs with hqp
      · rfl
      · exact hq.resolve_left hqp
    refine ⟨fun q hq => hhidden q (.inr (hs.accepted q hq)), fun t ht => ?_, fun i q hi => ?_⟩
    · obtain rfl := Option.some.inj ht
      exact hhidden p (.inl rfl)
    · obtain ⟨-, -, -, -, hon, -⟩ := henabled
      cases hon.symm.trans (hs.returned i q hi).2.2
  | accepted ht _ _ hlist =>
    exact withheld_dropped hs ht rfl (AIMListPieceView.reRender_same hlist).isHidden
      fun h => by cases h
  | wrong ht _ _ _ _ => exact withheld_dropped hs ht rfl (fun _ => rfl) fun _ => rfl
  | cancelled => exact hfinishes.elim
  | resignedIdle same _ _ => exact hs.of_keeps same.pieceView rfl (.inr rfl) same.listInteraction
  | resigned same _ _ _ hpiece =>
    exact withheld_resigned hs htouch hplace (hsettled rfl) same hpiece
  | @acceptedDone i k p v hi done =>
    obtain ⟨t, -, hlist⟩ := AIMListPieceView.removePiece_ok.mp done.list
    have hview : (s.completed i (.accepted k p) v [.blur 4]).view.listPieceView = _ := hlist
    refine ⟨fun q hq => ?_, fun u hu => ?_, fun j q hj => ?_⟩
    · rw [hview]
      exact hs.accepted q ((acceptedPieces_perm hi v [.blur 4]).mem_iff.mpr (mem_cons_of_mem _ hq))
    · rw [hview]
      exact hs.touched u hu
    · cases horder
      have hj : (s.drops.eraseIdx 0)[j]? = some (.returned q) := hj
      have hlt : 0 < s.drops.length := (List.getElem?_eq_some_iff.mp hi).1
      rw [eraseIdx_zero, getElem?_tail] at hj
      obtain ⟨hlast, hnone, hoff⟩ := hs.returned (j + 1) q hj
      rw [hview]
      refine ⟨?_, hnone, hoff⟩
      show j + 1 = (s.drops.eraseIdx 0).length
      rw [length_eraseIdx_of_lt hlt]
      omega
  | @returnedDone i p hi =>
    cases horder
    obtain ⟨hlast, hnone, -⟩ := hs.returned 0 p hi
    -- it was the only drop
    have hdrops : s.drops.eraseIdx 0 = [] := by
      rw [← length_eq_zero_iff, length_eraseIdx_of_lt (by omega)]
      omega
    refine ⟨fun q hq => ?_, fun t ht => ?_, fun j q hj => ?_⟩
    · obtain ⟨k, hk⟩ := mem_acceptedPieces.mp hq
      have hk : .accepted k q ∈ s.drops.eraseIdx 0 := hk
      rw [hdrops] at hk
      cases hk
    · cases hnone.symm.trans ht
    · have hj : (s.drops.eraseIdx 0)[j]? = some (.returned q) := hj
      rw [hdrops] at hj
      cases hj
  | animation _ =>
    have same := AIMQuestionContentView.runAnimation_sameDrag ui s.view
    exact hs.of_keeps (same _).pieceView rfl (.inl rfl) (same _).listInteraction

/-! ## The row -/

/-- The standing pieces and their labels stand in one row, with the widths they were made with. -/
structure RowInv (list : AIMListPieceView) (s : QuestionRun) : Prop where
  width : ∀ q, s.view.listPieceView.width q = list.width q
  row : s.view.listPieceView.InRow (s.standing.map ownPair) list.width

theorem RowInv.of_layout (hs : s.RowInv list) (hstanding : s'.standing = s.standing)
    (hlayout : s'.view.listPieceView.layout = s.view.listPieceView.layout) : s'.RowInv list := by
  refine ⟨fun q => (AIMListPieceView.width_of_layout hlayout q).trans (hs.width q), ?_⟩
  rw [hstanding]
  exact hs.row.of_layout hlayout

/-- The pieces that `reRender` passes over when a drop is accepted are the pending ones. -/
theorem hidden_iff_pending (hs : s.Withheld) (htouch : s.TouchInv) {t : Touch}
    (ht : s.touch = some t) {q : Nat} (hq : q ∈ s.view.listPieceView.pieceViewArray) :
    (s.view.listPieceView.pieceView q).isHidden = true ↔ q ∈ s.acceptedPieces ++ [t.piece] := by
  rw [mem_append, mem_singleton]
  constructor
  · intro hhidden
    rcases htouch.hidden q hq hhidden with ⟨u, hu, rfl⟩ | ⟨c, hc, rfl⟩
    · obtain rfl := Option.some.inj (ht.symm.trans hu)
      exact .inr rfl
    · cases c with
      | accepted k p => exact .inl (mem_acceptedPieces.mpr ⟨k, hc⟩)
      | returned p => exact absurd hc (hs.not_returned ht)
  · rintro (hpending | rfl)
    · exact hs.accepted q hpending
    · exact hs.touched t ht

theorem rowInv_accepted (hs : s.RowInv list) (hpaired : s.Paired hints) (hheld : s.Withheld)
    (htouch : s.TouchInv) {t : Touch} (ht : s.touch = some t) {slot : AIMPatternPiece} {k : Nat}
    {l : AIMListPieceView} (hl : s.view.listPieceView.reRender = .ok l) :
    RowInv list (s.dropped (s.view.accepted slot k l) t.piece (.accepted k t.piece)) := by
  have haligned : s.view.listPieceView.Aligned :=
    ⟨hpaired.nodup, hpaired.same.symm ▸ hpaired.nodup, congrArg length hpaired.same⟩
  have hstanding : (s.dropped (s.view.accepted slot k l) t.piece
      (.accepted k t.piece)).standing =
        s.view.listPieceView.pieceViewArray.filter
          fun q => !(s.view.listPieceView.pieceView q).isHidden := by
    unfold standing
    rw [acceptedPieces_dropped_accepted]
    show filter _ l.pieceViewArray = _
    rw [(AIMListPieceView.reRender_same hl).pieceViewArray]
    refine filter_congr fun q hq => ?_
    rw [Bool.eq_iff_iff, decide_eq_true_iff, ← hidden_iff_pending hheld htouch ht hq,
      Bool.not_eq_true', Bool.not_eq_true]
  have hwidth : ∀ q, l.width q = list.width q := fun q =>
    (AIMListPieceView.reRender_width hl q).trans (hs.width q)
  refine ⟨hwidth, ?_⟩
  have hrow := (AIMListPieceView.reRender_frames haligned hl).congr_width hs.width
  rw [AIMListPieceView.shownPairs_of_same hpaired.same, ← hstanding] at hrow
  exact hrow.of_layout rfl

theorem rowInv_step (hs : s.RowInv list) (hpaired : s.Paired hints) (hheld : s.Withheld)
    (htouch : s.TouchInv) (he : s.Enabled e) (horder : InDropOrder e)
    (h : s.step ui e = .ok s') : s'.RowInv list := by
  by_cases hended : e = .touchEnded
  · subst hended
    cases step_outcome he h with
    | quiet hquiet _ _ => cases hquiet
    | accepted ht _ _ hlist => exact rowInv_accepted hs hpaired hheld htouch ht hlist
    | wrong _ _ _ _ _ =>
      refine hs.of_layout ?_ rfl
      unfold standing
      rw [acceptedPieces_dropped_returned]
      rfl
  · exact hs.of_layout (standing_step he horder hended h) (layout_step he hended h)

/-! ## Runs -/

/-- What an orderly run keeps. -/
structure Arranged (hints : List AIMPiece) (list : AIMListPieceView) (n : Nat) (s : QuestionRun) :
    Prop where
  paired : s.Paired hints
  touch : s.TouchInv
  placement : s.PlacementInv list n
  withheld : s.Withheld
  row : s.RowInv list

theorem arranged_step (hs : s.Arranged hints list n)
    (hslots : ∀ p < n, ∀ q < n,
      (list.pieceView p).patternIndex = (list.pieceView q).patternIndex → p = q)
    (he : s.Orderly e) (h : s.step ui e = .ok s') : s'.Arranged hints list n := by
  obtain ⟨henabled, horder, hbefore, hfinishes, hsettled⟩ := he
  have hnot : s.NotPending e := by
    cases e with
    | touchBegan p location offset => exact fun hp => lt_irrefl _ (hbefore p hp)
    | _ => trivial
  exact ⟨paired_step hs.paired henabled horder hbefore h,
    touchInv_step hs.touch henabled hfinishes h,
    placementInv_step hs.placement hslots henabled hnot h,
    withheld_step hs.withheld hs.touch hs.placement
      ⟨henabled, horder, hbefore, hfinishes, hsettled⟩ h,
    rowInv_step hs.row hs.paired hs.withheld hs.touch henabled horder h⟩

theorem arranged_start {question : AIMQuestion} {draws : Nat → Nat} {pattern : AIMPattern}
    {data : PatternUIData} {slots : List AIMPatternPiece}
    (hlist : AIMQuestionContentView.initAIMListPieceView ui question draws = .ok list)
    (hslots : AIMQuestionContentView.initPatterView question pattern data = .ok slots) :
    Arranged question.hints list (AIMListPieceView.pieceCount question.answers)
      (QuestionRun.start (AIMQuestionContentView.fresh question pattern data list slots)) := by
  refine ⟨paired_start hlist pattern data slots,
    touchInv_start ⟨draws, pattern, data, list, slots, hlist, hslots, rfl⟩,
    placementInv_start hlist hslots, ⟨fun p hp => (by cases hp), fun t ht => (by cases ht),
      fun i q hi => (by cases hi)⟩, fun _ => rfl, ?_⟩
  have hstanding : (QuestionRun.start (AIMQuestionContentView.fresh question pattern data list
      slots)).standing = list.pieceViewArray := filter_eq_self.mpr fun p _ => rfl
  rw [hstanding]
  exact AIMListPieceView.setData_inRow hlist

theorem arranged_of_run {question : AIMQuestion} {draws : Nat → Nat} {pattern : AIMPattern}
    {data : PatternUIData} {slots : List AIMPatternPiece}
    (hlist : AIMQuestionContentView.initAIMListPieceView ui question draws = .ok list)
    (hslots : AIMQuestionContentView.initPatterView question pattern data = .ok slots)
    (h : Reaches (step ui) Orderly
      (QuestionRun.start (AIMQuestionContentView.fresh question pattern data list slots)) s) :
    s.Arranged question.hints list (AIMListPieceView.pieceCount question.answers) :=
  h.inv (Arranged question.hints list (AIMListPieceView.pieceCount question.answers))
    (arranged_start hlist hslots) fun _ _ _ hs he hstep =>
      arranged_step hs (AIMListPieceView.setData_pieces hlist).slot_injective he hstep

/-- In every state of a run in which touches and completions do not interfere and the application
does not resign between a drop and its completion: the pieces whose drop has not been accepted stand
in one row, in the order in which `setData` has shuffled them, as wide as it has made them and with
their labels below them. Each starts one padding after the end of the one before it, the first one
padding from the edge, and the content ends one padding after the last. -/
theorem row_of_run {question : AIMQuestion} {v : AIMQuestionContentView}
    (hstart : Started ui question v)
    (h : Reaches (step ui) Orderly (QuestionRun.start v) s) :
    s.standing <+ v.listPieceView.pieceViewArray ∧
    (∀ (j : Nat) p, s.standing[j]? = some p →
      let x := Row.after kAIMPieceViewHorizontalPadding kAIMPieceViewHorizontalPadding
        ((s.standing.take j).map v.listPieceView.width)
      (s.view.listPieceView.pieceView p).frame =
          ⟨x, pieceRow, v.listPieceView.width p, kAIMPieceViewFrame.height⟩ ∧
        (s.view.listPieceView.hintLabel p).frame =
          ⟨x, hintRow, v.listPieceView.width p, kAIMPieceViewFrame.height⟩) ∧
    s.view.listPieceView.contentWidth = Row.after kAIMPieceViewHorizontalPadding
      kAIMPieceViewHorizontalPadding (s.standing.map v.listPieceView.width) := by
  obtain ⟨draws, pattern, data, list, slots, hlist, hslots, rfl⟩ := hstart
  have hs := arranged_of_run hlist hslots h
  have hpieces : list.pieceViewArray = _ :=
    (AIMListPieceView.setData_pieces hlist).filled.pieceViewArray
  obtain ⟨hwidth, hframes⟩ := hs.row.row
  refine ⟨?_, fun j p hj => ?_, ?_⟩
  · show s.standing <+ list.pieceViewArray
    rw [hpieces]
    exact filter_sublist.trans hs.placement.listed
  · have hpair : (s.standing.map ownPair)[j]? = some (ownPair p) := by
      rw [getElem?_map, hj]
      rfl
    obtain ⟨hpiece, hlabel⟩ := hframes j _ hpair
    rw [← map_take, map_map] at hpiece hlabel
    unfold AIMListPieceView.rowFrame at hpiece hlabel
    rw [zero_add] at hpiece hlabel
    exact ⟨hpiece, hlabel⟩
  · rw [map_map] at hwidth
    exact hwidth

/-- The first piece is placed, and the second one is on its way back from a wrong drop. -/
theorem row_of_run_wrong_drop :
    ∃ v s, AIMQuestionContentView.setData .ascii sampleQuestion (fun _ => 0) = .ok v ∧
      Reaches (step .ascii) Orderly (QuestionRun.start v) s ∧ s.drops = [.returned 1] ∧
      (s.view.listPieceView.pieceView 2).frame = ⟨240, 39, 170, 82⟩ ∧
      s.view.listPieceView.contentWidth = 445 := by
  have hrun : (playQuestion .ascii Orderly sampleQuestion (fun _ => 0)
      (drag 0 (inList 0) (onSlot 0) ++ .dropCompletion 0 :: replicate 5 (.animationCompletion 0) ++
        drag 1 (inList 0) offSlots)).any
      (fun s => decide (s.drops = [.returned 1]) && decide (s.standing = [1, 2])) = true := by
    decide +kernel
  have hmade : (AIMQuestionContentView.setData .ascii sampleQuestion fun _ => 0).toOption.any
      (fun v => decide ([1, 2].map v.listPieceView.width = [170, 170])) = true := by decide +kernel
  obtain ⟨v, s, hv, hreach, hend⟩ := exists_run_of_playQuestion hrun
  rw [Bool.and_eq_true, decide_eq_true_eq, decide_eq_true_eq] at hend
  obtain ⟨hdrops, hstanding⟩ := hend
  rw [hv] at hmade
  have hwidths : [1, 2].map v.listPieceView.width = [170, 170] := of_decide_eq_true hmade
  obtain ⟨-, hframes, hcontent⟩ := row_of_run (started_of_setData hv) hreach
  rw [hstanding] at hframes hcontent
  obtain ⟨hpiece, -⟩ := hframes 1 2 rfl
  obtain ⟨hfirst, hsecond⟩ := cons.inj hwidths
  refine ⟨v, s, hv, hreach, hdrops, ?_, ?_⟩
  · rw [hpiece]
    show CGRect.mk (Row.after _ _ [v.listPieceView.width 1]) _ (v.listPieceView.width 2) _ = _
    rw [hfirst, (cons.inj hsecond).1]
    decide +kernel
  · rw [hcontent, hwidths]
    decide +kernel

/-- The last condition is needed: when the application resigns while an accepted drop is pending,
`cancelTouch` shows the dropped piece again, and the layout of the next drop leaves room for it,
here in front of the last piece. -/
theorem resignation_leaves_gap :
    ∃ v s, AIMQuestionContentView.setData .ascii sampleQuestion (fun _ => 0) = .ok v ∧
      Reaches (step .ascii)
        (fun s e => s.Enabled e ∧ InDropOrder e ∧ s.BeforePending e ∧ s.FinishesTouch e)
        (QuestionRun.start v) s ∧
      s.touch = none ∧ s.drops = [] ∧ s.standing = [2] ∧
      (s.view.listPieceView.pieceView 2).frame.x = 240 := by
  have hrun : (playQuestion .ascii
      (fun s e => s.Enabled e ∧ InDropOrder e ∧ s.BeforePending e ∧ s.FinishesTouch e)
      sampleQuestion (fun _ => 0) (drag 1 (inList 1) (onSlot 1) ++ .willResignActive ::
        drag 0 (inList 0) (onSlot 0) ++ [.dropCompletion 0, .dropCompletion 0])).any
      (fun s => decide (s.touch = none ∧ s.drops = [] ∧ s.standing = [2] ∧
        (s.view.listPieceView.pieceView 2).frame.x = 240)) = true := by decide +kernel
  obtain ⟨v, s, hv, hreach, hend⟩ := exists_run_of_playQuestion hrun
  exact ⟨v, s, hv, hreach, of_decide_eq_true hend⟩

end QuestionRun

end Imijun
