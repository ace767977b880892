import Imijun.ContentView
import Imijun.PieceListFacts
import Imijun.Lib.Pointwise

/-!
# What the handlers of the question view do

* `KeepsSlot`: an update of a slot that neither changes its status nor takes a placed piece away.
* `Widened`: an update of a slot that changes its frame and its mark only (`expandPieceWidth`).
* `SameDrag`: two states of the view that agree on everything a drag reads or writes. The hint
  buttons, the idea buttons and the animations keep it (`hintCase2_sameDrag`,
  `runAnimation_sameDrag`, ...).
* One inversion lemma for each handler of a drag: `tapAIMPieceView_ok`, `movedChoosePieceView_ok`,
  `endMovedAIMPieceView_ok`, `acceptedCompletion_ok`, `cancelTouch_ok`.
-/

namespace Imijun

open Fallible Pointwise List

/-! ## Slots -/

namespace AIMPatternPiece

/-- A piece with content `c` is placed on the slot: its drop was accepted and completed. -/
structure Placed (c : String) (v : AIMPatternPiece) : Prop where
  status : v.status = true
  backgroundImage : v.backgroundImage = .blueImage ∨ v.backgroundImage = .blueImage7 ∨
    v.backgroundImage = .blueImage8
  ideaEnabled : v.ideaEnabled = false
  currentContent : v.currentContent = some c

/-- What the completion of an accepted drop of a piece with content `c` does to the slot. -/
def fixed (c : String) (v : AIMPatternPiece) : AIMPatternPiece :=
  { ({ v with backgroundImage := placedImage v.type : AIMPatternPiece }.setContent c) with
    ideaEnabled := false }

@[simp] theorem fixed_status (c : String) (v : AIMPatternPiece) :
    (v.fixed c).status = v.status := rfl

theorem placed_fixed {v : AIMPatternPiece} (h : v.status = true) (c : String) :
    (v.fixed c).Placed c where
  status := h
  backgroundImage := by
    simp only [fixed, setContent, placedImage]
    split_ifs <;> simp
  ideaEnabled := rfl
  currentContent := rfl

end AIMPatternPiece

/-- The status of the slot stays, and a placed piece stays placed. -/
structure KeepsSlot (v v' : AIMPatternPiece) : Prop where
  status : v'.status = v.status
  placed : ∀ c, v.Placed c → v'.Placed c

namespace KeepsSlot

variable {v v' v'' : AIMPatternPiece}

theorem refl (v : AIMPatternPiece) : KeepsSlot v v := ⟨rfl, fun _ h => h⟩

theorem trans (h : KeepsSlot v v') (h' : KeepsSlot v' v'') : KeepsSlot v v'' :=
  ⟨h'.status.trans h.status, fun c hc => h'.placed c (h.placed c hc)⟩

/-- An update of the other fields of a slot. -/
theorem of_eq (hstatus : v'.status = v.status) (himage : v'.backgroundImage = v.backgroundImage)
    (hidea : v'.ideaEnabled = v.ideaEnabled) (hcontent : v'.currentContent = v.currentContent) :
    KeepsSlot v v' :=
  ⟨hstatus, fun _ h => ⟨hstatus.trans h.status, himage ▸ h.backgroundImage,
    hidea.trans h.ideaEnabled, hcontent.trans h.currentContent⟩⟩

/-- Nothing is placed on a slot whose idea button is enabled, so only its status has to stay. -/
theorem of_ideaEnabled (hidea : v.ideaEnabled = true) (hstatus : v'.status = v.status) :
    KeepsSlot v v' :=
  ⟨hstatus, fun _ h => by rw [h.ideaEnabled] at hidea; cases hidea⟩

theorem deselect (v : AIMPatternPiece) (tapped : Int) : KeepsSlot v (v.deselect tapped) := by
  unfold AIMPatternPiece.deselect
  dsimp only
  split_ifs with h7 h8 h0
  · exact of_eq rfl rfl rfl rfl
  · exact of_eq rfl rfl rfl rfl
  · exact of_eq rfl rfl rfl rfl
  · -- the slot shows no placed image, so it holds no placed piece
    exact ⟨rfl, fun c hc => absurd hc.backgroundImage (by simp [h7, h8, h0])⟩

end KeepsSlot

theorem keepsSlots_refl (slots : List AIMPatternPiece) : Forall₂ KeepsSlot slots slots :=
  forall₂_same.mpr fun v _ => .refl v

theorem keepsSlots_trans {xs ys zs : List AIMPatternPiece} (h : Forall₂ KeepsSlot xs ys)
    (h' : Forall₂ KeepsSlot ys zs) : Forall₂ KeepsSlot xs zs :=
  (forall₂_trans h h').imp fun _ _ ⟨_, hxy, hyz⟩ => hxy.trans hyz

/-! ### `expandPieceWidth` -/

/-- Nothing has changed but the frame and the mark `fixFrame`. -/
def Widened (v v' : AIMPatternPiece) : Prop :=
  v' = { v with frame := v'.frame, fixFrame := v'.fixFrame }

namespace Widened

variable {v v' v'' : AIMPatternPiece}

theorem trans (h : Widened v v') (h' : Widened v' v'') : Widened v v'' := by
  unfold Widened at h h' ⊢
  rw [h'] at *
  rw [h]

theorem keepsSlot (h : Widened v v') : KeepsSlot v v' := by
  unfold Widened at h
  rw [h]
  exact .of_eq rfl rfl rfl rfl

end Widened

theorem widened_trans {xs ys zs : List AIMPatternPiece} (h : Forall₂ Widened xs ys)
    (h' : Forall₂ Widened ys zs) : Forall₂ Widened xs zs :=
  (forall₂_trans h h').imp fun _ _ ⟨_, hxy, hyz⟩ => hxy.trans hyz

namespace ExpandPieceWidth

variable (ui : Platform)

theorem widened_shrink (finished : Bool) (v : AIMPatternPiece) (x : ℚ) :
    Widened v (shrink ui finished v x) := by
  unfold shrink
  dsimp only
  split_ifs <;> rfl

theorem widened_grow (v : AIMPatternPiece) (x w : ℚ) : Widened v (grow ui v x w).1 := by
  unfold grow
  dsimp only
  split_ifs <;> rfl

theorem widened_shrinkAll (finished : Bool) (vs : List AIMPatternPiece) (w : ℚ) :
    Forall₂ Widened vs (shrinkAll ui finished vs w).1 := by
  induction vs generalizing w with
  | nil => exact .nil
  | cons v vs ih => exact .cons (widened_shrink ui finished v _) (ih _)

theorem widened_growAll (vs : List AIMPatternPiece) (x w : ℚ) :
    Forall₂ Widened vs (growAll ui vs x w).1 := by
  induction vs generalizing x w with
  | nil => exact .nil
  | cons v vs ih => exact .cons (widened_grow ui v x w) (ih _ _)

theorem widened_spreadAll (xWidth : ℚ) (vs : List AIMPatternPiece) (x : ℚ) :
    Forall₂ Widened vs (spreadAll xWidth vs x) := by
  induction vs generalizing x with
  | nil => exact .nil
  | cons v vs ih => exact .cons rfl (ih _)

end ExpandPieceWidth

open ExpandPieceWidth in
/-- `expandPieceWidth` moves and widens the slots, and does nothing else to them. -/
theorem widened_expandSlots (ui : Platform) (finished : Bool) (slots : List AIMPatternPiece) :
    Forall₂ Widened slots (expandSlots ui finished slots) := by
  have hshrink := widened_shrinkAll ui finished slots (kPatternLeftMargin + kPatternCoverSpace)
  unfold expandSlots
  dsimp only
  have hgrow := widened_trans hshrink (widened_growAll ui _ kPatternLeftMargin
    (shrinkAll ui finished slots (kPatternLeftMargin + kPatternCoverSpace)).2)
  split_ifs
  · exact widened_trans hgrow (widened_spreadAll _ _ _)
  · exact hgrow

theorem keepsSlots_expandSlots (ui : Platform) (finished : Bool) (slots : List AIMPatternPiece) :
    Forall₂ KeepsSlot slots (expandSlots ui finished slots) :=
  (widened_expandSlots ui finished slots).imp fun _ _ h => h.keepsSlot

/-! ## Handlers outside a drag -/

/-- The calls that report a drop or the end of the question. -/
def Call.isReport : Call → Bool
  | .endDragPiece _ _ | .finishAtCurrentQuestion => true
  | .pressedHintButton | .pressedEnglishHintButton | .playAudio _ => false

/-- The reports among the calls of a view. -/
def AIMQuestionContentView.reports (v : AIMQuestionContentView) : List Call :=
  v.calls.filter (·.isReport)

/-- Nothing that a drag reads or writes has changed, apart from the place of the proxy. -/
structure SameDrag (v v' : AIMQuestionContentView) : Prop where
  question : v'.question = v.question
  slots : Forall₂ KeepsSlot v.listPatternPieceView v'.listPatternPieceView
  proxyFace : v'.currentSelectPieceView.face = v.currentSelectPieceView.face
  proxyHidden : v'.currentSelectPieceView.isHidden = v.currentSelectPieceView.isHidden
  proxyFirstCenter :
    v'.currentSelectPieceView.firstCenterPoint = v.currentSelectPieceView.firstCenterPoint
  onScrollview : v'.currentSelectPieceViewOnScrollview = v.currentSelectPieceViewOnScrollview
  centerfirtPoint : v'.centerfirtPoint = v.centerfirtPoint
  pieceView : v'.listPieceView.pieceView = v.listPieceView.pieceView
  pieceViewArray : v'.listPieceView.pieceViewArray = v.listPieceView.pieceViewArray
  hintLabelArray : v'.listPieceView.hintLabelArray = v.listPieceView.hintLabelArray
  labelText : ∀ t, (v'.listPieceView.hintLabel t).text = (v.listPieceView.hintLabel t).text
  listInteraction :
    v'.listPieceView.isUserInteractionEnabled = v.listPieceView.isUserInteractionEnabled
  scrollInteraction :
    v'.listPieceView.scrollInteractionEnabled = v.listPieceView.scrollInteractionEnabled
  scrollEnabled : v'.listPieceView.scrollEnabled = v.listPieceView.scrollEnabled
  calls : ∃ quiet, v'.calls = v.calls ++ quiet ∧ ∀ c ∈ quiet, c.isReport = false

theorem SameDrag.reports {v v' : AIMQuestionContentView} (h : SameDrag v v') :
    v'.reports = v.reports := by
  obtain ⟨quiet, hcalls, hquiet⟩ := h.calls
  simpa [AIMQuestionContentView.reports, hcalls] using hquiet

theorem SameDrag.refl (v : AIMQuestionContentView) : SameDrag v v := by
  constructor <;> first
    | rfl | exact keepsSlots_refl _ | exact fun _ => rfl | exact ⟨[], by simp⟩

theorem SameDrag.trans {v v' v'' : AIMQuestionContentView} (h : SameDrag v v')
    (h' : SameDrag v' v'') : SameDrag v v'' where
  question := h'.question.trans h.question
  slots := keepsSlots_trans h.slots h'.slots
  proxyFace := h'.proxyFace.trans h.proxyFace
  proxyHidden := h'.proxyHidden.trans h.proxyHidden
  proxyFirstCenter := h'.proxyFirstCenter.trans h.proxyFirstCenter
  onScrollview := h'.onScrollview.trans h.onScrollview
  centerfirtPoint := h'.centerfirtPoint.trans h.centerfirtPoint
  pieceView := h'.pieceView.trans h.pieceView
  pieceViewArray := h'.pieceViewArray.trans h.pieceViewArray
  hintLabelArray := h'.hintLabelArray.trans h.hintLabelArray
  labelText t := (h'.labelText t).trans (h.labelText t)
  listInteraction := h'.listInteraction.trans h.listInteraction
  scrollInteraction := h'.scrollInteraction.trans h.scrollInteraction
  scrollEnabled := h'.scrollEnabled.trans h.scrollEnabled
  calls := by
    obtain ⟨quiet, hcalls, hquiet⟩ := h.calls
    obtain ⟨quiet', hcalls', hquiet'⟩ := h'.calls
    refine ⟨quiet ++ quiet', by rw [hcalls', hcalls, append_assoc], fun c hc => ?_⟩
    exact (mem_append.mp hc).elim (hquiet c) (hquiet' c)

/-- A view with other slots, an other hint button or some calls more, none of them a report. -/
theorem SameDrag.of_slots {v : AIMQuestionContentView} (slots : List AIMPatternPiece)
    (hint content : Bool) (quiet : List Call)
    (hslots : Forall₂ KeepsSlot v.listPatternPieceView slots)
    (hquiet : ∀ c ∈ quiet, c.isReport = false) :
    SameDrag v { v with listPatternPieceView := slots, hintSelected := hint,
                        calls := v.calls ++ quiet, isUserInteractionEnabled := content } := by
  constructor <;> first | rfl | exact hslots | exact fun _ => rfl | exact ⟨quiet, rfl, hquiet⟩

/-- The same without a new call. -/
theorem SameDrag.of_slots' {v : AIMQuestionContentView} (slots : List AIMPatternPiece)
    (hint content : Bool) (hslots : Forall₂ KeepsSlot v.listPatternPieceView slots) :
    SameDrag v { v with listPatternPieceView := slots, hintSelected := hint,
                        isUserInteractionEnabled := content } := by
  constructor <;> first | rfl | exact hslots | exact fun _ => rfl | exact ⟨[], by simp⟩

namespace AIMQuestionContentView

variable {v v' : AIMQuestionContentView} {p i k : Nat}

theorem checkFinish_iff : v.checkFinish = true ↔ v.listPieceView.pieceViewArray = [] := by
  simp [checkFinish, AIMListPieceView.countPieceAnswer]

@[simp] theorem moveProxy_list (v : AIMQuestionContentView) (c : CGPoint) :
    (v.moveProxy c).listPieceView = v.listPieceView := rfl

theorem moveProxy_sameDrag (v : AIMQuestionContentView) (c : CGPoint) :
    SameDrag v (v.moveProxy c) := by
  constructor <;> first
    | rfl | exact keepsSlots_refl _ | exact fun _ => rfl | exact ⟨[], by simp [moveProxy]⟩

theorem initPatterView2_ok (h : v.initPatterView2 = .ok v') :
    SameDrag v v' ∧ v'.listPatternPieceView = v.listPatternPieceView ∧
      v'.isUserInteractionEnabled = v.isUserInteractionEnabled := by
  obtain ⟨slots, -, h⟩ := bind_eq_ok.mp h
  obtain rfl := Except.ok.inj h
  refine ⟨?_, rfl, rfl⟩
  constructor <;> first
    | rfl | exact keepsSlots_refl _ | exact fun _ => rfl | exact ⟨[], by simp⟩

/-- The slots after the loop of `hintCase2` and an update of the tapped slot that keeps its
status. -/
theorem keepsSlots_hintCase2 {slots : List AIMPatternPiece} {tapped : AIMPatternPiece}
    (htapped : slots[i]? = some tapped) (henabled : tapped.ideaEnabled = true)
    {f : AIMPatternPiece → AIMPatternPiece} (hf : (f tapped).status = tapped.status) :
    Forall₂ KeepsSlot slots ((slots.mapIdx fun j slot =>
      if j = i then slot else slot.deselect tapped.type).modify i f) := by
  refine @keepsSlots_trans _ (slots.mapIdx fun j slot =>
    if j = i then slot else slot.deselect tapped.type) _ ?_ ?_
  · refine forall₂_self_mapIdx fun j slot _ => ?_
    split_ifs
    · exact .refl slot
    · exact .deselect slot _
  · refine forall₂_self_modify KeepsSlot.refl fun slot hslot => ?_
    obtain rfl : tapped = slot := by simpa [htapped] using hslot
    exact .of_ideaEnabled henabled hf

/-- Tapping an enabled idea button. -/
theorem hintCase2_sameDrag (h : v.hintCase2 i = .ok v')
    (henabled : ∀ slot, v.listPatternPieceView[i]? = some slot → slot.ideaEnabled = true) :
    SameDrag v v' ∧ v'.isUserInteractionEnabled = v.isUserInteractionEnabled := by
  obtain ⟨tapped, htapped, h⟩ := bind_eq_ok.mp h
  rw [subscript_eq_ok] at htapped
  have hslots {f : AIMPatternPiece → AIMPatternPiece} (hf : (f tapped).status = tapped.status) :=
    keepsSlots_hintCase2 htapped (henabled _ htapped) hf
  dsimp only at h
  split at h
  · obtain ⟨w, hw, h⟩ := bind_eq_ok.mp h
    obtain ⟨bar, -, h⟩ := bind_eq_ok.mp h
    obtain rfl := Except.ok.inj h
    obtain ⟨hsame, hkept, hflag⟩ := initPatterView2_ok hw
    refine ⟨{ hsame with slots := ?_ }, hflag⟩
    show Forall₂ KeepsSlot _ w.listPatternPieceView
    rw [hkept]
    exact hslots rfl
  · obtain ⟨bar, -, h⟩ := bind_eq_ok.mp h
    obtain rfl := Except.ok.inj h
    refine ⟨?_, rfl⟩
    constructor <;> first | rfl | exact fun _ => rfl | exact ⟨[], by simp⟩ | exact hslots rfl

theorem btnShowHint_sameDrag (v : AIMQuestionContentView) :
    SameDrag v v.btnShowHint ∧
      v.btnShowHint.isUserInteractionEnabled = v.isUserInteractionEnabled := by
  unfold btnShowHint
  split_ifs
  · exact ⟨.refl v, rfl⟩
  · exact ⟨.of_slots _ true v.isUserInteractionEnabled _
      (forall₂_self_map fun slot _ => .of_eq rfl rfl rfl rfl) (by simp [Call.isReport]), rfl⟩

theorem showTextPattern_sameDrag (v : AIMQuestionContentView) :
    SameDrag v v.showTextPattern ∧
      v.showTextPattern.isUserInteractionEnabled = v.isUserInteractionEnabled := by
  unfold showTextPattern
  split_ifs
  · exact ⟨.of_slots' _ false v.isUserInteractionEnabled
      (forall₂_self_map fun slot _ => .of_eq rfl rfl rfl rfl), rfl⟩
  · exact ⟨.of_slots' _ false v.isUserInteractionEnabled
      (forall₂_self_map fun slot _ => .of_eq rfl rfl rfl rfl), rfl⟩
  · exact ⟨.refl v, rfl⟩

/-- A view whose list has only other label visibilities and an other English button. -/
theorem showHint_sameDrag (v : AIMQuestionContentView) (selected b : Bool) (calls : List Call)
    (hcalls : ∃ quiet, calls = v.calls ++ quiet ∧ ∀ c ∈ quiet, c.isReport = false) :
    SameDrag v { v with
      listPieceView := { v.listPieceView with englishHintSelected := selected }.showHint b
      calls := calls } := by
  obtain ⟨h1, h2, h3, h4, h5, h6, h7⟩ :=
    AIMListPieceView.showHint_keeps { v.listPieceView with englishHintSelected := selected } b
  exact ⟨rfl, keepsSlots_refl _, rfl, rfl, rfl, rfl, rfl, h1, h2, h3, h4, h5, h6, h7, hcalls⟩

theorem btnShowEnglishHint_sameDrag (v : AIMQuestionContentView) :
    SameDrag v v.btnShowEnglishHint ∧
      v.btnShowEnglishHint.isUserInteractionEnabled = v.isUserInteractionEnabled := by
  unfold btnShowEnglishHint
  split_ifs
  · exact ⟨.refl v, rfl⟩
  · exact ⟨showHint_sameDrag v true true _ ⟨_, rfl, by simp [Call.isReport]⟩, rfl⟩

theorem showEnglishTextPattern_sameDrag (v : AIMQuestionContentView) :
    SameDrag v v.showEnglishTextPattern ∧
      v.showEnglishTextPattern.isUserInteractionEnabled = v.isUserInteractionEnabled := by
  unfold showEnglishTextPattern
  split_ifs
  · exact ⟨showHint_sameDrag v false false _ ⟨[], by simp⟩, rfl⟩
  · exact ⟨.refl v, rfl⟩

/-- The animations after an accepted drop touch no drag state. -/
theorem runAnimation_sameDrag (ui : Platform) (v : AIMQuestionContentView) (a : Animation) :
    SameDrag v (v.runAnimation ui a).1 := by
  match a with
  | .blur (left + 2) => exact .refl v
  | .blur 0 | .blur 1 =>
    simp only [runAnimation, expandPieceWidth]
    split_ifs
    · exact .of_slots' _ v.hintSelected v.isUserInteractionEnabled (keepsSlots_expandSlots ui _ _)
    · constructor <;> first
        | rfl | exact keepsSlots_refl _ | exact fun _ => rfl | exact ⟨[], by simp⟩
  | .expanded =>
    simp only [runAnimation]
    split_ifs
    · have hslots : Forall₂ KeepsSlot v.listPatternPieceView v.clearPanel.listPatternPieceView :=
        forall₂_self_map fun slot _ => .of_eq rfl rfl rfl rfl
      constructor <;> first
        | rfl | exact hslots | exact fun _ => rfl | exact ⟨[], by simp [clearPanel]⟩
    · exact .of_slots' _ v.hintSelected true (keepsSlots_refl _)
  | .answerHidden =>
    exact .of_slots _ v.hintSelected v.isUserInteractionEnabled _ (keepsSlots_refl _)
      (by simp [Call.isReport])

/-! ## The handlers of a drag -/

@[simp] theorem centerInSelf_setScroll (v : AIMQuestionContentView) (p : Nat) (b : Bool)
    (offset : CGPoint) :
    centerInSelf { v with listPieceView := v.listPieceView.setScroll b } p offset =
      v.centerInSelf p offset := rfl

theorem tapAIMPieceView_ok {location offset : CGPoint} :
    v.tapAIMPieceView p location offset = .ok v' ↔
      ∃ slot, v.listPatternPieceView[(v.listPieceView.pieceView p).patternIndex]? = some slot ∧
        v' = chosen { v with listPieceView := v.listPieceView.setScroll false } p location offset
          slot := by
  simp only [tapAIMPieceView, choosePieceView, bind_eq_ok, subscript_eq_ok, pure, Except.pure,
    Except.ok.injEq]
  exact exists_congr fun slot => and_congr_right fun _ => eq_comm

theorem movedChoosePieceView_ok {location : CGPoint}
    (h : v.movedChoosePieceView location = .ok v') : ∃ c, v' = v.moveProxy c := by
  obtain ⟨first, -, h⟩ := bind_eq_ok.mp h
  obtain ⟨start, -, h⟩ := bind_eq_ok.mp h
  exact ⟨_, (Except.ok.inj h).symm⟩

/-- A move traps on the start point exactly when there is none. -/
theorem movedChoosePieceView_missing {location : CGPoint} :
    v.movedChoosePieceView location = .error .missingStartPoint ↔
      v.currentSelectPieceView.firstCenterPoint.isSome = true ∧ v.centerfirtPoint = none := by
  cases hf : v.currentSelectPieceView.firstCenterPoint <;> cases hc : v.centerfirtPoint <;>
    simp [movedChoosePieceView, hf, hc, orThrow, bind, Except.bind, pure, Except.pure]

/-- The view after an accepted drop on slot `k`, when `reRender` has returned `list`. -/
def accepted (v : AIMQuestionContentView) (slot : AIMPatternPiece) (k : Nat)
    (list : AIMListPieceView) : AIMQuestionContentView :=
  moveProxy { v with
    listPatternPieceView := v.listPatternPieceView.modify k fun slot => { slot with status := true }
    listPieceView := ((list.setInteraction false).setInteraction true).setScroll true }
    slot.frame.center

/-- The view after a wrong drop of a piece that started at `start`; `failure` is the sound, if it is
played. -/
def rejected (v : AIMQuestionContentView) (failure : List Call) (start : CGPoint) :
    AIMQuestionContentView :=
  moveProxy { v with
    calls := v.calls ++ failure ++ [.endDragPiece v.currentSelectPieceView
      (searchSlot v.listPatternPieceView v.currentSelectPieceView.frame.center)]
    listPieceView := (v.listPieceView.setInteraction false).setScroll true } start

/-- A drop is accepted exactly when the proxy lies within `kMatchRadian` of the piece's own slot. -/
theorem endMovedAIMPieceView_ok {completion : DropCompletion}
    (h : v.endMovedAIMPieceView p = .ok (v', completion)) :
    ∃ slot, v.listPatternPieceView[(v.listPieceView.pieceView p).patternIndex]? = some slot ∧
      ((slot.matched v.currentSelectPieceView.frame.center = true ∧
          completion = .accepted (v.listPieceView.pieceView p).patternIndex p ∧
          ∃ list, v.listPieceView.reRender = .ok list ∧
            v' = v.accepted slot (v.listPieceView.pieceView p).patternIndex list) ∨
        (slot.matched v.currentSelectPieceView.frame.center = false ∧
          completion = .returned p ∧
          ∃ start failure, v.centerfirtPoint = some start ∧
            (∀ c ∈ failure, c.isReport = false) ∧ v' = v.rejected failure start)) := by
  obtain ⟨⟨w, c⟩, hend, h⟩ := bind_eq_ok.mp h
  obtain ⟨rfl, rfl⟩ := Prod.mk.inj (Except.ok.inj h)
  obtain ⟨slot, hslot, hend⟩ := bind_eq_ok.mp hend
  rw [subscript_eq_ok] at hslot
  refine ⟨slot, hslot, ?_⟩
  split at hend
  · next hmatched =>
    obtain ⟨w', haccept, hend⟩ := bind_eq_ok.mp hend
    obtain ⟨rfl, rfl⟩ := Prod.mk.inj (Except.ok.inj hend)
    obtain ⟨list, hlist, haccept⟩ := bind_eq_ok.mp haccept
    obtain rfl := Except.ok.inj haccept
    exact .inl ⟨hmatched, rfl, list, hlist, rfl⟩
  · next hmatched =>
    obtain ⟨w', hreject, hend⟩ := bind_eq_ok.mp hend
    obtain ⟨rfl, rfl⟩ := Prod.mk.inj (Except.ok.inj hend)
    obtain ⟨start, hstart, hreject⟩ := bind_eq_ok.mp hreject
    rw [orThrow_eq_ok] at hstart
    obtain rfl := Except.ok.inj hreject
    refine .inr ⟨by simpa using hmatched, rfl, start, _, hstart, ?_, rfl⟩
    split_ifs <;> simp [Call.isReport]

/-- What the completion of an accepted drop of piece `p` on slot `k` leaves. -/
structure AcceptedDone (v : AIMQuestionContentView) (k p : Nat) (v' : AIMQuestionContentView) :
    Prop where
  slots : ∃ a, (v.listPieceView.pieceView p).piece = some a ∧
    Forall₂ KeepsSlot (v.listPatternPieceView.modify k (·.fixed a.content)) v'.listPatternPieceView
  list : v.listPieceView.removePiece p = .ok v'.listPieceView
  proxy : v'.currentSelectPieceView = { v.currentSelectPieceView with isHidden := true }
  onScrollview : v'.currentSelectPieceViewOnScrollview = v.currentSelectPieceViewOnScrollview
  centerfirtPoint : v'.centerfirtPoint = none
  question : v'.question = v.question
  isUserInteractionEnabled : v'.isUserInteractionEnabled = false
  calls : v'.calls = v.calls ++
    .endDragPiece v'.currentSelectPieceView v.currentSelectPieceView.patternIndex ::
      .playAudio .kSoundCorrect ::
      if v'.listPieceView.pieceViewArray = [] then [.finishAtCurrentQuestion] else []

theorem acceptedCompletion_ok {a : Animation} (h : v.acceptedCompletion k p = .ok (v', a)) :
    v.AcceptedDone k p v' ∧ a = .blur 4 := by
  obtain ⟨piece, hpiece, h⟩ := bind_eq_ok.mp h
  obtain ⟨list, hlist, h⟩ := bind_eq_ok.mp h
  rw [orThrow_eq_ok] at hpiece
  obtain ⟨hv', rfl⟩ := Prod.mk.inj (Except.ok.inj h)
  refine ⟨?_, rfl⟩
  have hfixed : (v.listPatternPieceView.modify k fun slot =>
        { slot with backgroundImage := AIMPatternPiece.placedImage slot.type }.setContent
          piece.content).modify k (fun slot => { slot with ideaEnabled := false }) =
      v.listPatternPieceView.modify k (·.fixed piece.content) := modify_modify_eq ..
  have hkeeps (slots : List AIMPatternPiece) :
      Forall₂ KeepsSlot slots (slots.map (·.displayCurrentContentWhenFinishDrag)) :=
    forall₂_self_map fun slot _ => .of_eq rfl rfl rfl rfl
  simp only [reportDrop, checkFinish_iff, hideProxy, hfixed] at hv'
  split_ifs at hv' with hfinish <;> subst hv'
  · exact ⟨⟨piece, hpiece, hkeeps _⟩, hlist, rfl, rfl, rfl, rfl, rfl,
      by simp [hfinish]⟩
  · exact ⟨⟨piece, hpiece, keepsSlots_refl _⟩, hlist, rfl, rfl, rfl, rfl, rfl,
      by simp [hfinish]⟩

/-- What `cancelTouch` leaves of a view with a start point: the proxy is hidden, the piece `p` that
was chosen last is visible again (`none`: the list is empty, and nothing is looked for), and the
list takes touches. -/
def restored (w : AIMQuestionContentView) (p : Option Nat) (start : CGPoint) :
    AIMQuestionContentView :=
  { (w.moveProxy start).hideProxy with
    listPieceView :=
      ((p.elim w.listPieceView fun p => w.listPieceView.hidePiece p false).setInteraction
        true).setScroll true
    centerfirtPoint := none }

/-- `cancelTouch` does nothing to a drag without a start point, and restores the view otherwise. -/
theorem cancelTouch_ok (h : v.cancelTouch = .ok v') :
    (v.centerfirtPoint = none ∧ v' = v.showTextPattern) ∨
      ∃ start p, v.centerfirtPoint = some start ∧ v' = v.showTextPattern.restored p start ∧
        (p = none → v.listPieceView.pieceViewArray = []) ∧
        (p.isSome = true → p = v.currentSelectPieceViewOnScrollview) := by
  have hsame := (showTextPattern_sameDrag v).1
  simp only [cancelTouch, hsame.centerfirtPoint] at h
  split at h
  · next hnone => exact .inl ⟨hnone, (Except.ok.inj h).symm⟩
  · next start hstart =>
    split_ifs at h with hfinish
    · obtain ⟨list, hpick, h⟩ := bind_eq_ok.mp h
      obtain rfl := Except.ok.inj hpick
      obtain rfl := Except.ok.inj h
      refine .inr ⟨start, none, hstart, rfl, fun _ => ?_, by simp⟩
      exact hsame.pieceViewArray.symm.trans (checkFinish_iff.mp hfinish)
    · obtain ⟨p, hp, h⟩ := bind_eq_ok.mp h
      rw [orThrow_eq_ok] at hp
      obtain ⟨list, hpick, h⟩ := bind_eq_ok.mp h
      obtain rfl := Except.ok.inj hpick
      obtain rfl := Except.ok.inj h
      exact .inr ⟨start, some p, hstart, rfl, by simp, fun _ => hp.symm.trans hsame.onScrollview⟩

/-- The controller's `cancelTouch`, up to changes outside the drag. -/
theorem resignActive_ok (h : v.resignActive = .ok v') :
    ∃ w, SameDrag v w ∧ w.isUserInteractionEnabled = v.isUserInteractionEnabled ∧
      ((v.centerfirtPoint = none ∧ v' = w) ∨
        ∃ start p, v.centerfirtPoint = some start ∧ v' = w.restored p start ∧
          (p = none → v.listPieceView.pieceViewArray = []) ∧
          (p.isSome = true → p = v.currentSelectPieceViewOnScrollview)) := by
  have hhide := showHint_sameDrag v v.listPieceView.englishHintSelected false v.calls
    ⟨[], by simp⟩
  obtain ⟨hshow, hflag⟩ := showTextPattern_sameDrag
    { v with listPieceView := v.listPieceView.showHint false }
  refine ⟨_, hhide.trans hshow, hflag, ?_⟩
  rcases cancelTouch_ok h with ⟨hnone, rfl⟩ | ⟨start, p, hstart, rfl, hempty, hp⟩
  · exact .inl ⟨hnone, rfl⟩
  · exact .inr ⟨start, p, hstart, rfl,
      fun hn => hhide.pieceViewArray.symm.trans (hempty hn), hp⟩

end AIMQuestionContentView

end Imijun
