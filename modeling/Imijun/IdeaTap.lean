import Imijun.DisplayFacts
import Imijun.PatternPieceFacts

/-!
# Idea taps and the other slots

A tap on an idea button sets up every other slot again, unless it shows a placed image, and it does
so with the type of the tapped slot.

* `Vacant`, `Occupied`: what a slot shows while no piece is on it, and from the completion of an
  accepted drop on.
* `idea_taps_keep_slots`: every slot shows this for its own type as long as the tapped slot and all
  vacant slots have one type, and the first tap that breaks this changes the type of a slot.
-/

namespace Imijun

open Transition Fallible List

namespace AIMPatternPiece

/-- The slot has the given type and label, and no piece is on it. -/
structure Vacant (type : Int) (label : AIMPiece) (slot : AIMPatternPiece) : Prop where
  ownType : slot.type = type
  patternPiece : slot.patternPiece = label
  backgroundImage :
    slot.backgroundImage = if slot.ideaSelected then selectedImage type else emptyImage type
  contentLabelText : slot.contentLabelText = some label.content
  currentContent : slot.currentContent = some label.content

/-- The piece `answer` is on the slot. -/
structure Occupied (type : Int) (answer : AIMPiece) (slot : AIMPatternPiece) : Prop where
  ownType : slot.type = type
  backgroundImage : slot.backgroundImage = placedImage type
  ideaEnabled : slot.ideaEnabled = false
  contentLabelText : slot.contentLabelText = some answer.content
  currentContent : slot.currentContent = some answer.content

variable {type : Int} {label answer : AIMPiece} {slot slot' : AIMPatternPiece}

/-- An image of a vacant slot is none of the three that the loop of `hintCase2` keeps. -/
theorem Vacant.deselect (h : Vacant type label slot) (tapped : Int) :
    slot.deselect tapped = { slot with ideaSelected := false }.setData tapped := by
  have himage := h.backgroundImage
  unfold selectedImage emptyImage at himage
  unfold AIMPatternPiece.deselect
  dsimp only
  rw [himage]
  split_ifs <;> first | rfl | simp_all

/-- The loop of `hintCase2` keeps a placed piece and its image. -/
theorem Occupied.deselect (h : Occupied type answer slot) (tapped : Int) :
    slot.deselect tapped = { slot with ideaSelected := false } := by
  have himage := h.backgroundImage
  unfold placedImage at himage
  unfold AIMPatternPiece.deselect
  dsimp only
  rw [himage]
  split_ifs <;> first | rfl | simp_all

/-- Setting up a slot again leaves a vacant slot of the type it is set up with. -/
theorem vacant_setData (h : slot.patternPiece = label) (type : Int) :
    Vacant type label ({ slot with ideaSelected := false }.setData type) where
  ownType := rfl
  patternPiece := h
  backgroundImage := rfl
  contentLabelText := by rw [← h]; rfl
  currentContent := by rw [← h]; rfl

theorem Vacant.setSelectedData (h : Vacant type label slot) :
    Vacant type label { slot.setSelectedData type with ideaSelected := true } :=
  ⟨rfl, h.patternPiece, rfl, h.contentLabelText, h.currentContent⟩

/-- The completion of an accepted drop puts the piece on the slot. -/
theorem occupied_fixed (h : slot.type = type) (answer : AIMPiece) :
    Occupied type answer (slot.fixed answer.content) :=
  ⟨h, by rw [← h]; rfl, rfl, rfl, rfl⟩

/-- An update that leaves alone what a slot shows. -/
structure SameFace (v v' : AIMPatternPiece) : Prop where
  type : v'.type = v.type
  patternPiece : v'.patternPiece = v.patternPiece
  backgroundImage : v'.backgroundImage = v.backgroundImage
  ideaSelected : v'.ideaSelected = v.ideaSelected
  ideaEnabled : v'.ideaEnabled = v.ideaEnabled
  currentContent : v'.currentContent = v.currentContent
  contentLabelText : v'.contentLabelText = v.contentLabelText ∨
    v'.contentLabelText = v.currentContent

theorem SameFace.refl (v : AIMPatternPiece) : SameFace v v :=
  ⟨rfl, rfl, rfl, rfl, rfl, rfl, .inl rfl⟩

theorem Vacant.sameFace (h : Vacant type label slot) (hface : SameFace slot slot') :
    Vacant type label slot' where
  ownType := hface.type.trans h.ownType
  patternPiece := hface.patternPiece.trans h.patternPiece
  backgroundImage := by rw [hface.backgroundImage, hface.ideaSelected]; exact h.backgroundImage
  contentLabelText :=
    hface.contentLabelText.elim (·.trans h.contentLabelText) (·.trans h.currentContent)
  currentContent := hface.currentContent.trans h.currentContent

theorem Occupied.sameFace (h : Occupied type answer slot) (hface : SameFace slot slot') :
    Occupied type answer slot' where
  ownType := hface.type.trans h.ownType
  backgroundImage := hface.backgroundImage.trans h.backgroundImage
  ideaEnabled := hface.ideaEnabled.trans h.ideaEnabled
  contentLabelText :=
    hface.contentLabelText.elim (·.trans h.contentLabelText) (·.trans h.currentContent)
  currentContent := hface.currentContent.trans h.currentContent

end AIMPatternPiece

namespace QuestionRun

variable {ui : Platform} {s s' : QuestionRun} {e : Event} {k : Nat} {slot : AIMPatternPiece}
  {answers labels : List AIMPiece} {types : List Int} {list : AIMListPieceView} {n : Nat}

/-- The completion of an accepted drop on slot `k` has run. -/
def PlacedOn (s : QuestionRun) (k : Nat) : Prop :=
  ∃ p ∈ s.placedPieces, (s.view.listPieceView.pieceView p).patternIndex = k

instance (s : QuestionRun) (k : Nat) : Decidable (s.PlacedOn k) := by
  unfold PlacedOn; infer_instance

/-- An idea button is tapped only while the slots without a piece have the type of its slot. -/
def TapsOneType (types : List Int) (s : QuestionRun) (e : Event) : Prop :=
  e.AtIdeaTap fun i => ∀ j < types.length, ¬ s.PlacedOn j → types[j]? = types[i]?

instance (types : List Int) (s : QuestionRun) (e : Event) : Decidable (s.TapsOneType types e) := by
  unfold TapsOneType; infer_instance

/-- Every slot has the type listed for it. A slot without a piece, when it is not selected, shows
the empty image of this type and its label, and a slot with a piece the placed image of this type
and the answer. -/
structure ShowsOwnType (answers labels : List AIMPiece) (types : List Int) (s : QuestionRun) :
    Prop where
  length : s.view.listPatternPieceView.length = types.length
  ownType : ∀ (k : Nat) slot, s.view.listPatternPieceView[k]? = some slot →
    types[k]? = some slot.type
  vacant : ∀ (k : Nat) slot, s.view.listPatternPieceView[k]? = some slot → ¬ s.PlacedOn k →
    slot.ideaSelected = false →
    slot.backgroundImage = AIMPatternPiece.emptyImage slot.type ∧
      ∃ label, labels[k]? = some label ∧ slot.contentLabelText = some label.content
  placed : ∀ (k : Nat) slot, s.view.listPatternPieceView[k]? = some slot → s.PlacedOn k →
    slot.backgroundImage = AIMPatternPiece.placedImage slot.type ∧
      ∃ answer, answers[k]? = some answer ∧ slot.contentLabelText = some answer.content

/-! ## The invariant -/

/-- What slot `k` shows, by whether a piece is on it. -/
structure SlotHolds (answers labels : List AIMPiece) (types : List Int) (placed : Prop) (k : Nat)
    (type : Int) (slot : AIMPatternPiece) : Prop where
  listed : types[k]? = some type
  vacant : ¬ placed → ∃ label, labels[k]? = some label ∧ slot.Vacant type label
  occupied : placed → ∃ answer, answers[k]? = some answer ∧ slot.Occupied type answer

/-- The Japanese hint is off, and every slot shows what it holds. -/
structure SlotsHold (answers labels : List AIMPiece) (types : List Int) (s : QuestionRun) :
    Prop where
  hintSelected : s.view.hintSelected = false
  length : s.view.listPatternPieceView.length = types.length
  slot : ∀ (k : Nat) slot, s.view.listPatternPieceView[k]? = some slot →
    ∃ type, SlotHolds answers labels types (s.PlacedOn k) k type slot

theorem SlotsHold.showsOwnType (hs : s.SlotsHold answers labels types) :
    s.ShowsOwnType answers labels types where
  length := hs.length
  ownType k slot hslot := by
    have ⟨type, h⟩ := hs.slot k slot hslot
    rw [h.listed]
    by_cases hplaced : s.PlacedOn k
    · have ⟨answer, _, hoccupied⟩ := h.occupied hplaced
      rw [hoccupied.ownType]
    · have ⟨label, _, hvacant⟩ := h.vacant hplaced
      rw [hvacant.ownType]
  vacant k slot hslot hplaced hselected := by
    have ⟨type, h⟩ := hs.slot k slot hslot
    have ⟨label, hlabel, hvacant⟩ := h.vacant hplaced
    refine ⟨?_, label, hlabel, hvacant.contentLabelText⟩
    rw [hvacant.backgroundImage, hvacant.ownType, hselected]
    rfl
  placed k slot hslot hplaced := by
    have ⟨type, h⟩ := hs.slot k slot hslot
    have ⟨answer, hanswer, hoccupied⟩ := h.occupied hplaced
    refine ⟨?_, answer, hanswer, hoccupied.contentLabelText⟩
    rw [hoccupied.backgroundImage, hoccupied.ownType]

theorem PieceRefs.placedOn_iff (hs : s.PieceRefs list n) :
    s.PlacedOn k ↔ ∃ p ∈ s.placedPieces, (list.pieceView p).patternIndex = k := by
  unfold PlacedOn
  simp only [hs.patternIndex]

/-- A step without a new piece on a slot. -/
theorem placedOn_congr (hs : s.PieceRefs list n) (hs' : s'.PieceRefs list n)
    (h : s'.placedPieces = s.placedPieces) : s'.PlacedOn k ↔ s.PlacedOn k := by
  rw [hs.placedOn_iff, hs'.placedOn_iff, h]

theorem SlotHolds.sameFace {placed : Prop} {type : Int} {slot' : AIMPatternPiece}
    (h : SlotHolds answers labels types placed k type slot)
    (hface : AIMPatternPiece.SameFace slot slot') :
    SlotHolds answers labels types placed k type slot' where
  listed := h.listed
  vacant hplaced := by
    have ⟨label, hlabel, hvacant⟩ := h.vacant hplaced
    exact ⟨label, hlabel, hvacant.sameFace hface⟩
  occupied hplaced := by
    have ⟨answer, hanswer, hoccupied⟩ := h.occupied hplaced
    exact ⟨answer, hanswer, hoccupied.sameFace hface⟩

/-- A step that leaves alone what the slots show. -/
theorem SlotsHold.of_sameFace (hs : s.SlotsHold answers labels types)
    (hhint : s'.view.hintSelected = false) (hplaced : ∀ k, s'.PlacedOn k ↔ s.PlacedOn k)
    (hslots : Forall₂ AIMPatternPiece.SameFace s.view.listPatternPieceView
      s'.view.listPatternPieceView) : s'.SlotsHold answers labels types where
  hintSelected := hhint
  length := hslots.length_eq.symm.trans hs.length
  slot k slot' hslot' := by
    have ⟨slot, hslot, hface⟩ := Pointwise.forall₂_getElem?_right hslots hslot'
    have ⟨type, h⟩ := hs.slot k slot hslot
    rw [propext (hplaced k)]
    exact ⟨type, h.sameFace hface⟩

theorem sameFace_refl (slots : List AIMPatternPiece) :
    Forall₂ AIMPatternPiece.SameFace slots slots :=
  forall₂_same.mpr fun slot _ => .refl slot

/-- The colours of the labels of a finished question. -/
theorem sameFace_shownSlots (finished : Bool) (slots : List AIMPatternPiece) :
    Forall₂ AIMPatternPiece.SameFace slots (shownSlots finished slots) := by
  unfold shownSlots
  split
  · exact Pointwise.forall₂_self_map fun slot _ => ⟨rfl, rfl, rfl, rfl, rfl, rfl, .inr rfl⟩
  · exact sameFace_refl slots

theorem sameFace_expandSlots (finished : Bool) (slots : List AIMPatternPiece) :
    Forall₂ AIMPatternPiece.SameFace slots (expandSlots ui finished slots) := by
  refine (widened_expandSlots ui finished slots).imp fun slot slot' hwidened => ?_
  unfold Widened at hwidened
  rw [hwidened]
  exact ⟨rfl, rfl, rfl, rfl, rfl, rfl, .inl rfl⟩

/-- A tap on slot `i`, when all vacant slots have its type. -/
theorem SlotHolds.tapSlot {placed : Nat → Prop} {type tappedType : Int} {i : Nat}
    {tapped : AIMPatternPiece}
    (h : SlotHolds answers labels types (placed k) k type slot)
    (htapped : SlotHolds answers labels types (placed i) i tappedType tapped)
    (henabled : tapped.ideaEnabled = true) (hone : ¬ placed k → types[k]? = types[i]?) :
    SlotHolds answers labels types (placed k) k type
      (AIMQuestionContentView.tapSlot i tapped k slot) := by
  -- the button of a slot with a piece is disabled
  have hvacant : ¬ placed i := by
    intro hplaced
    have ⟨answer, _, hoccupied⟩ := htapped.occupied hplaced
    rw [hoccupied.ideaEnabled] at henabled
    cases henabled
  have ⟨_, _, htype⟩ := htapped.vacant hvacant
  have hsame : ¬ placed k → tapped.type = type := by
    intro hplaced
    have hlisted := hone hplaced
    rw [h.listed, htapped.listed] at hlisted
    rw [htype.ownType, Option.some.inj hlisted]
  refine ⟨h.listed, fun hplaced => ?_, fun hplaced => ?_⟩
  · have ⟨label, hlabel, hslotVacant⟩ := h.vacant hplaced
    refine ⟨label, hlabel, ?_⟩
    unfold AIMQuestionContentView.tapSlot
    rw [hsame hplaced]
    split_ifs
    · exact AIMPatternPiece.vacant_setData hslotVacant.patternPiece type
    · exact hslotVacant.setSelectedData
    · rw [hslotVacant.deselect]
      exact AIMPatternPiece.vacant_setData hslotVacant.patternPiece type
  · have ⟨answer, hanswer, hoccupied⟩ := h.occupied hplaced
    refine ⟨answer, hanswer, ?_⟩
    unfold AIMQuestionContentView.tapSlot
    split
    · next hki => exact absurd (hki ▸ hplaced) hvacant
    · rw [hoccupied.deselect]
      exact ⟨hoccupied.ownType, hoccupied.backgroundImage, hoccupied.ideaEnabled,
        hoccupied.contentLabelText, hoccupied.currentContent⟩

/-- The piece with `answer` is placed on slot `k'`. -/
theorem SlotHolds.placed {placed : Prop} {type : Int} {answer : AIMPiece} {k' : Nat}
    (h : SlotHolds answers labels types placed k type slot) (hanswer : answers[k']? = some answer) :
    SlotHolds answers labels types (placed ∨ k' = k) k type
      (if k' = k then slot.fixed answer.content else slot) := by
  split
  · next hk =>
    subst hk
    have htype : slot.type = type := by
      by_cases hplaced : placed
      · have ⟨_, _, hoccupied⟩ := h.occupied hplaced
        exact hoccupied.ownType
      · have ⟨_, _, hvacant⟩ := h.vacant hplaced
        exact hvacant.ownType
    exact ⟨h.listed, fun hnone => absurd (.inr rfl) hnone,
      fun _ => ⟨answer, hanswer, AIMPatternPiece.occupied_fixed htype answer⟩⟩
  · next hk => rwa [or_iff_left hk]

/-- What an allowed event does to the slots. -/
theorem slotsHold_step {hints : List AIMPiece} (hlist : AIMListPieceView.Pieces answers hints list)
    (hn : n = AIMListPieceView.pieceCount answers)
    (hs : s.SlotsHold answers labels types) (hrefs : s.PieceRefs list n)
    (he : s.Enabled e) (hpress : e ≠ .btnShowHint) (htap : s.TapsOneType types e)
    (h : s.step ui e = .ok s') : s'.SlotsHold answers labels types := by
  have hrefs' := pieceRefs_step hrefs he h
  have hsame {slots : List AIMPatternPiece} (heq : s'.view.listPatternPieceView = slots)
      (hface : Forall₂ AIMPatternPiece.SameFace s.view.listPatternPieceView slots) :
      Forall₂ AIMPatternPiece.SameFace s.view.listPatternPieceView
        s'.view.listPatternPieceView := heq ▸ hface
  cases step_display he h with
  | same same placed =>
    exact hs.of_sameFace (same.hintSelected.trans hs.hintSelected)
      (fun k => placedOn_congr hrefs hrefs' placed) (hsame same.slots (sameFace_refl _))
  | matched same placed =>
    refine hs.of_sameFace (same.hintSelected.trans hs.hintSelected)
      (fun k => placedOn_congr hrefs hrefs' placed) (hsame same.slots ?_)
    exact Pointwise.forall₂_self_modify AIMPatternPiece.SameFace.refl
      fun slot _ => ⟨rfl, rfl, rfl, rfl, rfl, rfl, .inl rfl⟩
  | @tapped i v hcan hv =>
    obtain ⟨tapped, htapped, hslots, hselected⟩ := AIMQuestionContentView.hintCase2_slots hv
    refine ⟨hselected.trans hs.hintSelected, ?_, fun k slot' hslot' => ?_⟩
    · show v.listPatternPieceView.length = types.length
      rw [hslots, length_mapIdx, hs.length]
    · change v.listPatternPieceView[k]? = some slot' at hslot'
      rw [hslots, getElem?_mapIdx, Option.map_eq_some_iff] at hslot'
      obtain ⟨slot, hslot, rfl⟩ := hslot'
      obtain ⟨type, hholds⟩ := hs.slot k slot hslot
      obtain ⟨tappedType, htappedHolds⟩ := hs.slot i tapped htapped
      rw [propext (placedOn_congr hrefs hrefs' rfl)]
      -- a tap gives every other slot without a piece the type of the tapped one
      refine ⟨type, hholds.tapSlot htappedHolds ?_ fun hplaced => ?_⟩
      · have hcan : (s.view.listPatternPieceView[i]?).any _ = true := hcan
        rw [htapped, Option.any_some, Bool.and_eq_true] at hcan
        exact hcan.1
      · refine htap k ?_ hplaced
        obtain ⟨hlt, _⟩ := List.getElem?_eq_some_iff.mp hholds.listed
        exact hlt
  | hintPressed => exact absurd rfl hpress
  | hintReleased =>
    rw [AIMQuestionContentView.showTextPattern, hs.hintSelected]
    exact hs
  | englishPressed =>
    refine hs.of_sameFace ?_ (fun k => placedOn_congr hrefs hrefs' rfl) (hsame ?_ (sameFace_refl _))
    · unfold AIMQuestionContentView.btnShowEnglishHint
      split <;> exact hs.hintSelected
    · unfold AIMQuestionContentView.btnShowEnglishHint
      split <;> rfl
  | englishReleased =>
    refine hs.of_sameFace ?_ (fun k => placedOn_congr hrefs hrefs' rfl) (hsame ?_ (sameFace_refl _))
    · unfold AIMQuestionContentView.showEnglishTextPattern
      split <;> exact hs.hintSelected
    · unfold AIMQuestionContentView.showEnglishTextPattern
      split <;> rfl
  | resigned same placed =>
    rw [AIMQuestionContentView.showTextPattern, hs.hintSelected] at same
    exact hs.of_sameFace (same.hintSelected.trans hs.hintSelected)
      (fun k => placedOn_congr hrefs hrefs' placed) (hsame same.slots (sameFace_refl _))
  | @placed i k p piece _ _ hi hpiece _ same placed =>
    -- the slot gets the content of the piece, which is the answer of this slot
    have hmem : .accepted k p ∈ s.drops := mem_of_getElem? hi
    obtain ⟨answer, hanswer, _, hanswerPiece⟩ := hlist.answer p (hn ▸ hrefs.pending _ hmem)
    rw [hrefs.piece p, hanswerPiece] at hpiece
    obtain rfl := Option.some.inj hpiece
    rw [← hrefs.slot k p hmem] at hanswer
    have hplaced (j : Nat) : s'.PlacedOn j ↔ s.PlacedOn j ∨ k = j := by
      rw [hrefs.placedOn_iff, hrefs'.placedOn_iff, placed, hrefs.slot k p hmem]
      simp only [mem_append, mem_singleton, or_and_right, exists_or, exists_eq_left]
    have hshown : Forall₂ AIMPatternPiece.SameFace
        (s.view.listPatternPieceView.modify k (·.fixed answer.content))
        s'.view.listPatternPieceView := by
      rw [same.slots]
      exact sameFace_shownSlots _ _
    refine ⟨same.hintSelected.trans hs.hintSelected, ?_, fun j slot' hslot' => ?_⟩
    · rw [← hshown.length_eq, length_modify, hs.length]
    · obtain ⟨slot, hslot, hface⟩ := Pointwise.forall₂_getElem?_right hshown hslot'
      rw [getElem?_modify, Option.map_eq_map, Option.map_eq_some_iff] at hslot
      obtain ⟨old, hold, rfl⟩ := hslot
      obtain ⟨type, hholds⟩ := hs.slot j old hold
      rw [propext (hplaced j)]
      refine ⟨type, SlotHolds.sameFace ?_ hface⟩
      exact hholds.placed hanswer
  | widened same placed =>
    exact hs.of_sameFace (same.hintSelected.trans hs.hintSelected)
      (fun k => placedOn_congr hrefs hrefs' placed) (hsame same.slots (sameFace_expandSlots _ _))
  | cleared hfinish same placed =>
    refine hs.of_sameFace (same.hintSelected.trans hs.hintSelected)
      (fun k => placedOn_congr hrefs hrefs' placed) (hsame same.slots ?_)
    exact Pointwise.forall₂_self_map fun slot _ => ⟨rfl, rfl, rfl, rfl, rfl, rfl, .inl rfl⟩

theorem slotsHold_start {question : AIMQuestion} {pattern : AIMPattern} {data : PatternUIData}
    {slots : List AIMPatternPiece}
    (hslots : AIMQuestionContentView.initPatterView question pattern data = .ok slots)
    (list : AIMListPieceView) :
    SlotsHold question.answers pattern.imijunPattern data.listPieceType
      (QuestionRun.start (AIMQuestionContentView.fresh question pattern data list slots)) where
  hintSelected := rfl
  length := makeSlots_length hslots
  slot k slot hslot := by
    have ⟨type, htype, hmade⟩ := makeSlots_getElem? hslots hslot
    rw [Nat.zero_add] at hmade
    obtain ⟨_, label, hint, hlabel, _, rfl⟩ := makeSlot_ok.mp hmade
    refine ⟨type, htype, fun _ => ⟨label, hlabel, ?_⟩, fun hplaced => ?_⟩
    · exact ⟨rfl, rfl, rfl, rfl, rfl⟩
    · have ⟨p, hp, _⟩ := hplaced
      cases hp

/-! ## Runs -/

/-- A tap that breaks the condition gives a slot another type. -/
theorem tapsOneType_of_showsOwnType (hs : s.SlotsHold answers labels types) (he : s.Enabled e)
    (h : s.step ui e = .ok s') (hs' : s'.ShowsOwnType answers labels types) :
    s.TapsOneType types e := by
  cases e with
  | hintCase2 i =>
    intro j hj hplaced
    obtain ⟨v, hv, h⟩ := bind_eq_ok.mp h
    obtain rfl := Except.ok.inj h
    have ⟨tapped, htapped, hslots, _⟩ := AIMQuestionContentView.hintCase2_slots hv
    have hlisted := hs.showsOwnType.ownType i tapped htapped
    rw [← hs.length] at hj
    have ⟨type, hholds⟩ := hs.slot j _ (List.getElem?_eq_getElem hj)
    have ⟨label, _, hvacant⟩ := hholds.vacant hplaced
    have hafter := hs'.ownType j _ (by
      show v.listPatternPieceView[j]? = _
      rw [hslots, getElem?_mapIdx, List.getElem?_eq_getElem hj]
      rfl)
    rw [hafter, hlisted]
    unfold AIMQuestionContentView.tapSlot
    split_ifs
    · rfl
    · rfl
    · rw [hvacant.deselect]
      rfl
  | _ => trivial

/-- In every run without a press of the Japanese hint button, in which an idea button is tapped only
while the slots without a piece have the type of its slot, every slot shows its own type; and in
each state of such a run the next step keeps this if and only if it meets the condition. -/
theorem idea_taps_keep_slots {question : AIMQuestion} {draws : Nat → Nat} {pattern : AIMPattern}
    {data : PatternUIData} {slots : List AIMPatternPiece}
    (hlist : AIMQuestionContentView.initAIMListPieceView ui question draws = .ok list)
    (hslots : AIMQuestionContentView.initPatterView question pattern data = .ok slots)
    (h : Reaches (step ui)
      (fun s e => s.Enabled e ∧ e ≠ .btnShowHint ∧ s.TapsOneType data.listPieceType e)
      (QuestionRun.start (AIMQuestionContentView.fresh question pattern data list slots)) s) :
    s.ShowsOwnType question.answers pattern.imijunPattern data.listPieceType ∧
      ∀ e s', s.Enabled e → e ≠ .btnShowHint → s.step ui e = .ok s' →
        (s'.ShowsOwnType question.answers pattern.imijunPattern data.listPieceType ↔
          s.TapsOneType data.listPieceType e) := by
  have hpieces := AIMListPieceView.setData_pieces hlist
  have ⟨hs, hrefs⟩ : s.SlotsHold question.answers pattern.imijunPattern data.listPieceType ∧
      s.PieceRefs list (AIMListPieceView.pieceCount question.answers) := by
    refine h.inv (fun s => _ ∧ _)
      ⟨slotsHold_start hslots list, pieceRefs_start hlist pattern data slots⟩ ?_
    intro s e s' ⟨hs, hrefs⟩ ⟨he, hpress, htap⟩ hstep
    exact ⟨slotsHold_step hpieces rfl hs hrefs he hpress htap hstep, pieceRefs_step hrefs he hstep⟩
  refine ⟨hs.showsOwnType, fun e s' he hpress hstep => ⟨fun hs' => ?_, fun htap => ?_⟩⟩
  · exact tapsOneType_of_showsOwnType hs he hstep hs'
  · exact (slotsHold_step hpieces rfl hs hrefs he hpress htap hstep).showsOwnType

/-- A tap on an idea button of `sampleQuestion` selects it, a drop on its slot and a tap on another
button follow. -/
def dropOnSelected : List Event :=
  .hintCase2 1 :: drag 1 (inList 1) (onSlot 1) ++ [.dropCompletion 0, .hintCase2 3]

theorem idea_taps_keep_slots_drop_on_selected :
    ∃ v s, AIMQuestionContentView.setData .ascii sampleQuestion (fun _ => 0) = .ok v ∧
      Reaches (step .ascii)
        (fun s e => s.Enabled e ∧ e ≠ .btnShowHint ∧ s.TapsOneType [1, 1, 1, 1, 1] e)
        (QuestionRun.start v) s ∧
      s.placedPieces = [1] ∧
      s.ShowsOwnType sampleQuestion.answers v.pattern.imijunPattern [1, 1, 1, 1, 1] := by
  have hrun : (playQuestion .ascii
      (fun s e => s.Enabled e ∧ e ≠ .btnShowHint ∧ s.TapsOneType [1, 1, 1, 1, 1] e)
      sampleQuestion (fun _ => 0) dropOnSelected).any
      (fun s => decide (s.placedPieces = [1])) = true := by decide +kernel
  obtain ⟨v, s, hv, hreach, hplaced⟩ := exists_run_of_playQuestion hrun
  obtain ⟨pattern, list, slots, -, hlist, hslots, rfl⟩ := sampleQuestion_parts hv
  have hshows := (idea_taps_keep_slots hlist hslots hreach).1
  exact ⟨_, s, hv, hreach, of_decide_eq_true hplaced, hshows⟩

/-- A question of the thirteenth pattern, whose slots have the types 2, 2, 7, 8, 2, 2. -/
def mixedQuestion : AIMQuestion where
  index := "1"
  content := "僕はアキラです"
  pattern := some ⟨"13", ["だれが", "する・です", "だれ・なに", "だれ・なに", "どこ", "いつ"].map AIMPiece.mk⟩
  hints := ["僕は", "です", "アキラ", "", "", ""].map AIMPiece.mk
  answers := ["I", "am", "Akira", "", "", ""].map AIMPiece.mk

/-- A tap on the first slot, and then the drop of the piece of the third. -/
def tapThenDrop : List Event :=
  .hintCase2 0 :: drag 2 (inList 2) (onSlot 2) ++ [.dropCompletion 0]

/-- The tap gives the third slot the type 2, and the drop then gives it the image of this type. -/
theorem idea_tap_changes_type :
    ∃ v s, AIMQuestionContentView.setData .ascii mixedQuestion (fun _ => 0) = .ok v ∧
      Reaches (step .ascii) (fun s e => s.Enabled e ∧ e ≠ .btnShowHint) (QuestionRun.start v) s ∧
      s.PlacedOn 2 ∧
      (∃ slot, s.view.listPatternPieceView[2]? = some slot ∧ slot.type = 2 ∧
        slot.backgroundImage = .blueImage) ∧
      ∀ answers labels, ¬ s.ShowsOwnType answers labels [2, 2, 7, 8, 2, 2] := by
  have hrun : (playQuestion .ascii (fun s e => s.Enabled e ∧ e ≠ .btnShowHint) mixedQuestion
      (fun _ => 0) tapThenDrop).any
      (fun s => decide (s.PlacedOn 2) && (s.view.listPatternPieceView[2]?).any fun slot =>
        slot.type = 2 && slot.backgroundImage = .blueImage) = true := by decide +kernel
  obtain ⟨v, s, hv, hreach, hend⟩ := exists_run_of_playQuestion hrun
  simp only [Bool.and_eq_true, decide_eq_true_eq, Option.any_eq_true] at hend
  obtain ⟨hplaced, slot, hslot, htype, himage⟩ := hend
  refine ⟨v, s, hv, hreach, hplaced, ⟨slot, hslot, htype, himage⟩, fun answers labels hs => ?_⟩
  have hlisted := hs.ownType 2 slot hslot
  rw [htype] at hlisted
  cases hlisted

end QuestionRun

end Imijun
