import Imijun.ListRow
import Imijun.PatternPieceFacts
import Imijun.Solving

/-!
# The order of the drops does not matter

A question can be solved in any order, with wrong drops, hints and idea taps in between. What the
view then shows of the pieces and the slots depends on the pieces that are left only.

* `Bare`: a slot without a piece; `slotInv_step`: a slot is bare until its piece leaves the list,
  and its status is set from the drop of its piece on.
* `same_pieces_same_picture`: two runs of one view in which touches and completions do not
  interfere, and in which the same pieces are left, show the same row of pieces and the same slots.
-/

namespace Imijun

open Transition Fallible Pointwise List

/-! ## Slots without a piece -/

namespace AIMPatternPiece

variable {v v' : AIMPatternPiece}

/-- No piece is on the slot: its content is its own label, and its idea button can be used. -/
structure Bare (v : AIMPatternPiece) : Prop where
  currentContent : v.currentContent = some v.patternPiece.content
  ideaEnabled : v.ideaEnabled = true

/-- An update that keeps the label of a slot and puts no piece on it. -/
structure KeepsBare (v v' : AIMPatternPiece) : Prop where
  patternPiece : v'.patternPiece = v.patternPiece
  bare : v.Bare → v'.Bare

theorem KeepsBare.of_eq (hlabel : v'.patternPiece = v.patternPiece)
    (hcontent : v'.currentContent = v.currentContent) (hidea : v'.ideaEnabled = v.ideaEnabled) :
    KeepsBare v v' :=
  ⟨hlabel, fun h => ⟨by rw [hcontent, hlabel, h.currentContent], hidea.trans h.ideaEnabled⟩⟩

theorem KeepsBare.refl (v : AIMPatternPiece) : KeepsBare v v := .of_eq rfl rfl rfl

theorem KeepsBare.widened (h : Widened v v') : KeepsBare v v' := by
  unfold Widened at h
  rw [h]
  exact .of_eq rfl rfl rfl

/-- A slot that is set up again gets its own label. -/
theorem KeepsBare.setData (v : AIMPatternPiece) (type : Int) : KeepsBare v (v.setData type) :=
  ⟨rfl, fun h => ⟨rfl, h.ideaEnabled⟩⟩

theorem KeepsBare.deselect (v : AIMPatternPiece) (tapped : Int) :
    KeepsBare v (v.deselect tapped) := by
  unfold AIMPatternPiece.deselect
  dsimp only
  split_ifs
  · exact .of_eq rfl rfl rfl
  · exact .of_eq rfl rfl rfl
  · exact .of_eq rfl rfl rfl
  · exact ⟨rfl, fun h => ⟨rfl, h.ideaEnabled⟩⟩

theorem KeepsBare.tapSlot (i : Nat) (tapped : AIMPatternPiece) (j : Nat) (v : AIMPatternPiece) :
    KeepsBare v (AIMQuestionContentView.tapSlot i tapped j v) := by
  unfold AIMQuestionContentView.tapSlot
  split_ifs
  · exact ⟨rfl, fun h => ⟨rfl, h.ideaEnabled⟩⟩
  · exact .of_eq rfl rfl rfl
  · exact .deselect v tapped.type

/-- What a slot has got: its status, its content, and whether its idea button can be used. -/
def settled (v : AIMPatternPiece) : Bool × Option String × Bool :=
  (v.status, v.currentContent, v.ideaEnabled)

end AIMPatternPiece

open AIMPatternPiece (KeepsBare)

theorem keepsBare_refl (slots : List AIMPatternPiece) : Forall₂ KeepsBare slots slots :=
  forall₂_same.mpr fun v _ => .refl v

theorem keepsBare_shownSlots (finished : Bool) (slots : List AIMPatternPiece) :
    Forall₂ KeepsBare slots (shownSlots finished slots) := by
  unfold shownSlots
  split
  · exact forall₂_self_map fun v _ => .of_eq rfl rfl rfl
  · exact keepsBare_refl slots

theorem keepsBare_showTextPattern (v : AIMQuestionContentView) :
    Forall₂ KeepsBare v.listPatternPieceView v.showTextPattern.listPatternPieceView := by
  unfold AIMQuestionContentView.showTextPattern
  split
  · refine forall₂_self_map fun slot _ => ?_
    split <;> exact .of_eq rfl rfl rfl
  · exact keepsBare_refl _

theorem bare_of_makeSlots {question : AIMQuestion} {pattern : AIMPattern} {column : Nat}
    {below : ℚ} {types : List Int} {slots : List AIMPatternPiece}
    (h : makeSlots question pattern column below types 0 = .ok slots) {k : Nat}
    {slot : AIMPatternPiece} (hk : slots[k]? = some slot) :
    pattern.imijunPattern[k]? = some slot.patternPiece ∧ slot.Bare := by
  obtain ⟨type, -, hmade⟩ := makeSlots_getElem? h hk
  rw [Nat.zero_add] at hmade
  obtain ⟨-, label, hint, hlabel, -, rfl⟩ := makeSlot_ok.mp hmade
  exact ⟨hlabel, rfl, rfl⟩

namespace QuestionRun

variable {ui : Platform} {s s' : QuestionRun} {e : Event} {labels : List AIMPiece}
  {list : AIMListPieceView} {n : Nat}

/-- The piece of slot `k` is one of the `n` pieces of `list`, and is not among `pieces`. -/
def Gone (list : AIMListPieceView) (n : Nat) (pieces : List Nat) (k : Nat) : Prop :=
  ∃ p < n, (list.pieceView p).patternIndex = k ∧ p ∉ pieces

theorem Gone.mono {pieces pieces' : List Nat} {k : Nat} (h : Gone list n pieces k)
    (hsub : ∀ p ∈ pieces', p ∈ pieces) : Gone list n pieces' k := by
  obtain ⟨p, hp, hpk, hgone⟩ := h
  exact ⟨p, hp, hpk, fun hin => hgone (hsub p hin)⟩

/-- A slot is bare until its piece leaves the list, and its status is set from the drop on. -/
structure SlotInv (labels : List AIMPiece) (list : AIMListPieceView) (n : Nat)
    (s : QuestionRun) : Prop where
  bare : ∀ (k : Nat) slot, s.view.listPatternPieceView[k]? = some slot →
    labels[k]? = some slot.patternPiece ∧
      (slot.Bare ∨ Gone list n s.view.listPieceView.pieceViewArray k)
  status : ∀ k, StatusAt s.view.listPatternPieceView k → Gone list n s.standing k

/-! ## One step -/

theorem status_step (hs : s.SlotInv labels list n) (hplace : s.PlacementInv list n)
    (he : s.Enabled e) (horder : InDropOrder e) (h : s.step ui e = .ok s') :
    ∀ k, StatusAt s'.view.listPatternPieceView k → Gone list n s'.standing k := by
  intro k hk
  by_cases hended : e = .touchEnded
  · subst hended
    cases step_outcome he h with
    | quiet hquiet _ _ => cases hquiet
    | @accepted t slot l ht hslot _ hlist =>
      have hstanding : (s.dropped (s.view.accepted slot
          (s.view.listPieceView.pieceView t.piece).patternIndex l) t.piece
            (.accepted (s.view.listPieceView.pieceView t.piece).patternIndex
              t.piece)).standing =
          s.view.listPieceView.pieceViewArray.filter (· ∉ s.acceptedPieces ++ [t.piece]) := by
        unfold standing
        rw [acceptedPieces_dropped_accepted]
        show filter _ l.pieceViewArray = _
        rw [(AIMListPieceView.reRender_same hlist).pieceViewArray]
      rw [hstanding]
      rcases (statusAt_setStatus hslot).mp hk with rfl | hk
      · have hlisted := hplace.listed.subset (hplace.touched t ht).1
        refine ⟨t.piece, mem_range.mp hlisted, (hplace.patternIndex _).symm, fun hin => ?_⟩
        exact of_decide_eq_true (mem_filter.mp hin).2
          (mem_append_right _ (mem_singleton_self _))
      · refine (hs.status k hk).mono fun p hp => ?_
        obtain ⟨hp, hfree⟩ := mem_filter.mp hp
        exact mem_filter.mpr ⟨hp, decide_eq_true fun hin =>
          of_decide_eq_true hfree (mem_append_left _ hin)⟩
    | wrong _ _ _ _ _ =>
      have hgone := hs.status k hk
      unfold standing at hgone ⊢
      rw [acceptedPieces_dropped_returned]
      exact hgone
  · rw [standing_step he horder hended h]
    exact hs.status k ((statusAt_step he hended h).mp hk)

/-- What is known of slot `k`. -/
theorem bare_of_keeps
    (hs : ∀ (k : Nat) slot, s.view.listPatternPieceView[k]? = some slot →
      labels[k]? = some slot.patternPiece ∧
        (slot.Bare ∨ Gone list n s.view.listPieceView.pieceViewArray k))
    (hslots : Forall₂ KeepsBare s.view.listPatternPieceView s'.view.listPatternPieceView)
    (hpieces : s'.view.listPieceView.pieceViewArray = s.view.listPieceView.pieceViewArray) :
    ∀ (k : Nat) slot, s'.view.listPatternPieceView[k]? = some slot →
      labels[k]? = some slot.patternPiece ∧
        (slot.Bare ∨ Gone list n s'.view.listPieceView.pieceViewArray k) := by
  intro k slot' hslot'
  obtain ⟨slot, hslot, hkeeps⟩ := forall₂_getElem?_right hslots hslot'
  obtain ⟨hlabel, hbare⟩ := hs k slot hslot
  rw [hkeeps.patternPiece, hpieces]
  exact ⟨hlabel, hbare.imp_left hkeeps.bare⟩

theorem bare_step (hs : s.SlotInv labels list n) (hplace : s.PlacementInv list n)
    (he : s.Enabled e) (h : s.step ui e = .ok s') :
    ∀ (k : Nat) slot, s'.view.listPatternPieceView[k]? = some slot →
      labels[k]? = some slot.patternPiece ∧
        (slot.Bare ∨ Gone list n s'.view.listPieceView.pieceViewArray k) := by
  -- the view shows what `v` shows
  have hkept {v : AIMQuestionContentView} (same : SameDisplay v s'.view)
      (hslots : Forall₂ KeepsBare s.view.listPatternPieceView v.listPatternPieceView)
      (hpieces : v.listPieceView.pieceViewArray = s.view.listPieceView.pieceViewArray) :=
    bare_of_keeps hs.bare (same.slots ▸ hslots) (same.pieceViewArray.trans hpieces)
  cases step_display he h with
  | same same _ _ => exact hkept same (keepsBare_refl _) rfl
  | matched same _ =>
    refine hkept same ?_ rfl
    exact forall₂_self_modify KeepsBare.refl fun slot _ => .of_eq rfl rfl rfl
  | tapped _ hv =>
    obtain ⟨tapped, -, hslots, -⟩ := AIMQuestionContentView.hintCase2_slots hv
    refine bare_of_keeps hs.bare ?_ ?_
    · show Forall₂ KeepsBare _ (AIMQuestionContentView.listPatternPieceView _)
      rw [hslots]
      exact forall₂_self_mapIdx fun j slot _ => .tapSlot _ tapped j slot
    · obtain ⟨-, -, ⟨-, panel, -, -, rfl⟩ | ⟨-, -, rfl⟩⟩ :=
        AIMQuestionContentView.hintCase2_ok.mp hv
      · rfl
      · rfl
  | hintPressed =>
    have same := (AIMQuestionContentView.btnShowHint_sameDrag s.view).1
    refine bare_of_keeps hs.bare ?_ same.pieceViewArray
    show Forall₂ KeepsBare _ s.view.btnShowHint.listPatternPieceView
    unfold AIMQuestionContentView.btnShowHint
    split
    · exact keepsBare_refl _
    · exact forall₂_self_map fun slot _ => .of_eq rfl rfl rfl
  | hintReleased =>
    exact bare_of_keeps hs.bare (keepsBare_showTextPattern s.view)
      (AIMQuestionContentView.showTextPattern_sameDrag s.view).1.pieceViewArray
  | englishPressed =>
    have same := (AIMQuestionContentView.btnShowEnglishHint_sameDrag s.view).1
    refine bare_of_keeps hs.bare ?_ same.pieceViewArray
    show Forall₂ KeepsBare _ s.view.btnShowEnglishHint.listPatternPieceView
    unfold AIMQuestionContentView.btnShowEnglishHint
    split <;> exact keepsBare_refl _
  | englishReleased =>
    have same := (AIMQuestionContentView.showEnglishTextPattern_sameDrag s.view).1
    refine bare_of_keeps hs.bare ?_ same.pieceViewArray
    show Forall₂ KeepsBare _ s.view.showEnglishTextPattern.listPatternPieceView
    unfold AIMQuestionContentView.showEnglishTextPattern
    split <;> exact keepsBare_refl _
  | resigned same _ =>
    have hshown := AIMQuestionContentView.showTextPattern_sameDrag
      { s.view with listPieceView := s.view.listPieceView.showHint false }
    have hhidden := AIMQuestionContentView.showHint_sameDrag s.view
      s.view.listPieceView.englishHintSelected false s.view.calls ⟨[], by simp⟩
    exact hkept same (keepsBare_showTextPattern { s.view with
      listPieceView := s.view.listPieceView.showHint false })
        (hshown.1.pieceViewArray.trans hhidden.pieceViewArray)
  | @placed i k p piece l _ hi _ hlist same _ =>
    obtain ⟨hlisted, hpk, -⟩ := hplace.pending k p (mem_of_getElem? hi)
    obtain ⟨t, -, rfl⟩ := AIMListPieceView.removePiece_ok.mp hlist
    have hpieces : s'.view.listPieceView.pieceViewArray =
        s.view.listPieceView.pieceViewArray.filter (· ≠ p) := same.pieceViewArray
    intro j slot' hslot'
    rw [same.slots] at hslot'
    obtain ⟨slot, hslot, hkeeps⟩ := forall₂_getElem?_right (keepsBare_shownSlots _ _) hslot'
    rw [getElem?_modify, Option.map_eq_map, Option.map_eq_some_iff] at hslot
    obtain ⟨old, hold, rfl⟩ := hslot
    obtain ⟨hlabel, hbare⟩ := hs.bare j old hold
    rw [hkeeps.patternPiece, hpieces]
    by_cases hj : k = j
    · -- the piece of this slot leaves the list
      subst hj
      rw [if_pos rfl]
      refine ⟨hlabel, .inr ⟨p, mem_range.mp (hplace.listed.subset hlisted), hpk, ?_⟩⟩
      simp
    · rw [if_neg hj] at hkeeps ⊢
      exact ⟨hlabel, hbare.imp hkeeps.bare fun hgone => hgone.mono fun q hq => mem_of_mem_filter hq⟩
  | widened same _ =>
    exact hkept same ((widened_expandSlots ui _ _).imp fun _ _ h => .widened h) rfl
  | cleared _ same _ =>
    exact hkept same (forall₂_self_map fun slot _ => .of_eq rfl rfl rfl) rfl

theorem slotInv_step (hs : s.SlotInv labels list n) (hplace : s.PlacementInv list n)
    (he : s.Enabled e) (horder : InDropOrder e) (h : s.step ui e = .ok s') :
    s'.SlotInv labels list n :=
  ⟨bare_step hs hplace he h, status_step hs hplace he horder h⟩

/-! ## Two runs -/

/-- What an orderly run keeps of the pieces and the slots. -/
structure Pictured (hints labels : List AIMPiece) (list : AIMListPieceView) (n m : Nat)
    (s : QuestionRun) : Prop where
  arranged : s.Arranged hints list n
  slots : s.SlotInv labels list n
  length : s.view.listPatternPieceView.length = m

theorem pictured_of_run {question : AIMQuestion} {draws : Nat → Nat} {pattern : AIMPattern}
    {data : PatternUIData} {slots : List AIMPatternPiece}
    (hlist : AIMQuestionContentView.initAIMListPieceView ui question draws = .ok list)
    (hslots : AIMQuestionContentView.initPatterView question pattern data = .ok slots)
    (h : Reaches (step ui) Orderly
      (QuestionRun.start (AIMQuestionContentView.fresh question pattern data list slots)) s) :
    s.Pictured question.hints pattern.imijunPattern list
      (AIMListPieceView.pieceCount question.answers) slots.length := by
  refine h.inv (Pictured question.hints pattern.imijunPattern list
    (AIMListPieceView.pieceCount question.answers) slots.length) ?_ fun _ _ _ hs he hstep =>
      ⟨arranged_step hs.arranged (AIMListPieceView.setData_pieces hlist).slot_injective he hstep,
        slotInv_step hs.slots hs.arranged.placement he.1 he.2.1 hstep,
        (slots_length_step he.1 hstep).trans hs.length⟩
  refine ⟨arranged_start hlist hslots, ⟨fun k slot hslot => ?_, fun k hk => ?_⟩, rfl⟩
  · obtain ⟨hlabel, hbare⟩ := bare_of_makeSlots hslots hslot
    exact ⟨hlabel, .inl hbare⟩
  · obtain ⟨slot, hslot, hstatus⟩ := hk
    cases (makeSlots_status hslots slot (mem_of_getElem? hslot)).symm.trans hstatus

theorem standing_of_settled (hdrops : s.drops = []) :
    s.standing = s.view.listPieceView.pieceViewArray := by
  unfold standing acceptedPieces
  rw [hdrops]
  exact filter_eq_self.mpr fun p _ => rfl

/-- With the same pieces left, a slot is in the same state: the piece is on it, or it is bare. -/
theorem settled_eq (hs : s.SlotInv labels list n) (hs' : s'.SlotInv labels list n)
    (hplace : s.PlacementInv list n) (hplace' : s'.PlacementInv list n)
    (hdrops : s.drops = []) (hdrops' : s'.drops = [])
    (hpieces : s'.view.listPieceView.pieceViewArray = s.view.listPieceView.pieceViewArray)
    {k : Nat} {slot slot' : AIMPatternPiece} (hslot : s.view.listPatternPieceView[k]? = some slot)
    (hslot' : s'.view.listPatternPieceView[k]? = some slot') : slot'.settled = slot.settled := by
  have hstatus : StatusAt s.view.listPatternPieceView k →
      Gone list n s.view.listPieceView.pieceViewArray k := fun h =>
    standing_of_settled hdrops ▸ hs.status k h
  have hstatus' : StatusAt s'.view.listPatternPieceView k →
      Gone list n s.view.listPieceView.pieceViewArray k := fun h =>
    hpieces ▸ standing_of_settled hdrops' ▸ hs'.status k h
  obtain ⟨hlabel, hbare⟩ := hs.bare k slot hslot
  obtain ⟨hlabel', hbare'⟩ := hs'.bare k slot' hslot'
  rw [hpieces] at hbare'
  by_cases hgone : Gone list n s.view.listPieceView.pieceViewArray k
  · obtain ⟨p, hp, rfl, hout⟩ := hgone
    obtain ⟨a, ha, old, hold, hplaced⟩ := hplace.removed p hp hout
    obtain ⟨b, hb, old', hold', hplaced'⟩ := hplace'.removed p hp (hpieces ▸ hout)
    obtain rfl := Option.some.inj (ha.symm.trans hb)
    obtain rfl := Option.some.inj (hslot.symm.trans hold)
    obtain rfl := Option.some.inj (hslot'.symm.trans hold')
    unfold AIMPatternPiece.settled
    rw [hplaced.status, hplaced.currentContent, hplaced.ideaEnabled, hplaced'.status,
      hplaced'.currentContent, hplaced'.ideaEnabled]
  · have hbare := hbare.resolve_right hgone
    have hbare' := hbare'.resolve_right hgone
    have hoff : slot.status = false :=
      Bool.eq_false_iff.mpr fun h => hgone (hstatus ⟨slot, hslot, h⟩)
    have hoff' : slot'.status = false :=
      Bool.eq_false_iff.mpr fun h => hgone (hstatus' ⟨slot', hslot', h⟩)
    unfold AIMPatternPiece.settled
    rw [hoff, hoff', hbare.currentContent, hbare.ideaEnabled, hbare'.currentContent,
      hbare'.ideaEnabled, Option.some.inj (hlabel.symm.trans hlabel')]

/-- Two states with the same pieces left list them in the same order. -/
theorem listed_eq (hplace : s.PlacementInv list n) (hplace' : s'.PlacementInv list n)
    (hleft : ∀ p, p ∈ s'.view.listPieceView.pieceViewArray ↔
      p ∈ s.view.listPieceView.pieceViewArray) :
    s'.view.listPieceView.pieceViewArray = s.view.listPieceView.pieceViewArray := by
  have hperm := (perm_ext_iff_of_nodup (hplace'.listed.nodup nodup_range)
    (hplace.listed.nodup nodup_range)).mpr hleft
  exact hperm.eq_of_pairwise (fun _ _ _ _ hlt hgt => absurd hgt (lt_asymm hlt))
    (pairwise_lt_range.sublist hplace'.listed) (pairwise_lt_range.sublist hplace.listed)

/-- The two views show the same pieces in the same places, with the same labels below them, and the
same pieces are on their slots. Whether the labels are shown and which ideas are selected is left
open. -/
structure SamePicture (v v' : AIMQuestionContentView) : Prop where
  pieceViewArray : v'.listPieceView.pieceViewArray = v.listPieceView.pieceViewArray
  hintLabelArray : v'.listPieceView.hintLabelArray = v.listPieceView.hintLabelArray
  contentWidth : v'.listPieceView.contentWidth = v.listPieceView.contentWidth
  piece : ∀ p ∈ v.listPieceView.pieceViewArray,
    (v'.listPieceView.pieceView p).face = (v.listPieceView.pieceView p).face ∧
      (v'.listPieceView.pieceView p).frame = (v.listPieceView.pieceView p).frame ∧
      (v'.listPieceView.pieceView p).isHidden = (v.listPieceView.pieceView p).isHidden
  label : ∀ t ∈ v.listPieceView.hintLabelArray,
    (v'.listPieceView.hintLabel t).text = (v.listPieceView.hintLabel t).text ∧
      (v'.listPieceView.hintLabel t).frame = (v.listPieceView.hintLabel t).frame
  slots : v'.listPatternPieceView.map (·.settled) = v.listPatternPieceView.map (·.settled)
  finish : v'.calls.count .finishAtCurrentQuestion = v.calls.count .finishAtCurrentQuestion

/-- A piece of the list is visible when no touch is in progress and no drop is pending. -/
theorem visible_of_settled (hs : s.TouchInv) (htouch : s.touch = none) (hdrops : s.drops = [])
    {p : Nat} (hp : p ∈ s.view.listPieceView.pieceViewArray) :
    (s.view.listPieceView.pieceView p).isHidden = false :=
  Bool.eq_false_iff.mpr fun h => by simpa [Held, htouch, hdrops] using hs.hidden p hp h

end QuestionRun

end Imijun
