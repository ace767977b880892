import Imijun.DisplayFacts
import Imijun.PatternPieceFacts

/-!
# The idea panel

Selecting an idea button adds a batch of panel slots, backgrounds and marker bars, and deselecting
it takes every panel slot out of the view. Selecting another button instead deselects the first one
without taking its batch out.

* `ShowsPanel`, `NoPanel`: one batch is in the view, or none.
* `panel_shown_once`: as long as a button is tapped only while no other one is selected, the panel
  is shown once and cleared; the first tap that is not breaks this.
* `panel_shown_twice`: a tap on slot `1` while slot `0` is selected.
-/

namespace Imijun

open Transition Fallible List

/-- The background is painted and not hidden. -/
def PanelBackground.visible (b : PanelBackground) : Bool := !b.white && !b.isHidden

namespace AIMPatternPiece

theorem deselect_ideaSelected (slot : AIMPatternPiece) (tapped : Int) :
    (slot.deselect tapped).ideaSelected = false := by
  unfold deselect
  dsimp only
  split_ifs <;> rfl

end AIMPatternPiece

namespace AIMQuestionContentView

variable {v v' : AIMQuestionContentView} {i j : Nat} {panel : List AIMPatternPiece}

/-- The idea button of slot `i` is selected. -/
def IdeaSelected (v : AIMQuestionContentView) (i : Nat) : Prop :=
  (v.listPatternPieceView.map (·.ideaSelected))[i]? = some true

instance (v : AIMQuestionContentView) (i : Nat) : Decidable (v.IdeaSelected i) := by
  unfold IdeaSelected; infer_instance

theorem ideaSelected_iff {slot : AIMPatternPiece} (hslot : v.listPatternPieceView[i]? = some slot) :
    v.IdeaSelected i ↔ slot.ideaSelected = true := by
  unfold IdeaSelected
  rw [getElem?_map, hslot, Option.map_some, Option.some.injEq]

theorem IdeaSelected.exists_slot (h : v.IdeaSelected i) :
    ∃ slot, v.listPatternPieceView[i]? = some slot ∧ slot.ideaSelected = true := by
  unfold IdeaSelected at h
  rw [getElem?_map] at h
  exact Option.map_eq_some_iff.mp h

/-- The panel slots that `initPatterView2` makes for the view. -/
def makePanel (v : AIMQuestionContentView) : Except Trap (List AIMPatternPiece) :=
  makeSlots v.question v.pattern v.patternUIData.column 109 v.patternUIData.listPieceType 0

/-- The batch `panel` is in the view, with its backgrounds, and the bar above its slot `i`. -/
structure ShowsPanel (v : AIMQuestionContentView) (i : Nat) (panel : List AIMPatternPiece) :
    Prop where
  made : v.makePanel = .ok panel
  /-- one panel slot for each slot of the pattern -/
  length : panel.length = v.listPatternPieceView.length
  pieces : (v.listPatternPieceView2.filter (·.inView)).map (·.piece) = panel
  backgrounds : (v.backgroundViewHint.filter (·.visible)).map (·.frame) = panel.map fun slot =>
    ⟨slot.frame.x - 6, slot.frame.y - 4, slot.frame.width + 8, slot.frame.height + 10⟩
  bar : ∃ slot, panel[i]? = some slot ∧
    v.backgroundHide[i]? = some ⟨⟨slot.frame.x, slot.frame.y - 10, 150, 6⟩, false⟩
  otherBars : ∀ j ≠ i, ∀ bar, v.backgroundHide[j]? = some bar → bar.isHidden = true

/-- Nothing of a panel is visible. -/
structure NoPanel (v : AIMQuestionContentView) : Prop where
  pieces : ∀ piece ∈ v.listPatternPieceView2, piece.inView = false
  backgrounds : ∀ background ∈ v.backgroundViewHint, background.visible = false
  bars : ∀ bar ∈ v.backgroundHide, bar.isHidden = true

/-- At most one idea button is selected; the panel shows the ideas of its slot, and there is none
when no button is selected. -/
structure PanelMatches (v : AIMQuestionContentView) : Prop where
  one : ∀ i j, v.IdeaSelected i → v.IdeaSelected j → i = j
  shown : ∀ i, v.IdeaSelected i → ∃ panel, v.ShowsPanel i panel
  cleared : (∀ i, ¬ v.IdeaSelected i) → v.NoPanel

/-- What the taps keep besides: a panel can be made, it has a slot for each slot of the view, and
the bars begin with those of the first batch. -/
structure PanelInv (v : AIMQuestionContentView) : Prop where
  panelMatches : v.PanelMatches
  made : ∃ panel, v.makePanel = .ok panel
  length : v.patternUIData.listPieceType.length = v.listPatternPieceView.length
  bars : v.backgroundHide = [] ∨
    ∃ rest, v.backgroundHide.map (·.frame) = (panelBars v.patternUIData).map (·.frame) ++ rest

/-! ## One batch -/

theorem makePanel_frame {slot : AIMPatternPiece} (h : v.makePanel = .ok panel)
    (hslot : panel[i]? = some slot) : ∃ type, v.patternUIData.listPieceType[i]? = some type ∧
      slotFrame v.patternUIData.column i type 109 = slot.frame := by
  rw [← slotFrames_getElem?, ← makeSlots_frames h, getElem?_map, hslot, Option.map_some]

/-- The backgrounds lie behind the panel slots. -/
theorem panelBackgrounds_frames (h : v.makePanel = .ok panel) :
    (panelBackgrounds v.patternUIData).map (·.frame) = panel.map fun slot =>
      ⟨slot.frame.x - 6, slot.frame.y - 4, slot.frame.width + 8, slot.frame.height + 10⟩ := by
  have hpanel : (panel.map fun slot => (⟨slot.frame.x - 6, slot.frame.y - 4,
      slot.frame.width + 8, slot.frame.height + 10⟩ : CGRect)) =
      (panel.map (·.frame)).map fun r => ⟨r.x - 6, r.y - 4, r.width + 8, r.height + 10⟩ := by
    rw [map_map]
    rfl
  rw [hpanel, makeSlots_frames h]
  refine ext_getElem? fun i => ?_
  simp only [slotFrames, panelBackgrounds, getElem?_map, getElem?_mapIdx, Option.map_map]
  refine congrArg (Option.map · _) (funext fun type => ?_)
  simp only [Function.comp_apply, slotFrame, CGRect.mk.injEq, true_and, and_true]
  ring

/-- The bars lie above the panel slots. -/
theorem panelBars_frame {slot : AIMPatternPiece} (h : v.makePanel = .ok panel)
    (hslot : panel[i]? = some slot) :
    (panelBars v.patternUIData)[i]? = some ⟨⟨slot.frame.x, slot.frame.y - 10, 150, 6⟩, true⟩ := by
  obtain ⟨type, htype, hframe⟩ := makePanel_frame h hslot
  rw [panelBars, getElem?_mapIdx, htype, Option.map_some, ← hframe]
  unfold slotFrame
  refine congrArg some ?_
  simp only [MarkerBar.mk.injEq, CGRect.mk.injEq, true_and, and_true]
  ring

/-! ## A tap -/

theorem tapSlot_ideaSelected (i : Nat) (tapped : AIMPatternPiece) (j : Nat)
    (slot : AIMPatternPiece) : (tapSlot i tapped j slot).ideaSelected =
      (decide (j = i) && !tapped.ideaSelected) := by
  unfold tapSlot
  split_ifs with hj hselected
  · rw [hselected, Bool.not_true, Bool.and_false]
    rfl
  · rw [Bool.not_eq_true] at hselected
    rw [hselected, decide_eq_true hj]
    rfl
  · rw [slot.deselect_ideaSelected, decide_eq_false hj, Bool.false_and]

/-- After a tap on slot `i` its button is the only one that can be selected. -/
theorem ideaSelected_tapped {tapped : AIMPatternPiece}
    (htapped : v.listPatternPieceView[i]? = some tapped)
    (hslots : v'.listPatternPieceView = v.listPatternPieceView.mapIdx (tapSlot i tapped)) :
    v'.IdeaSelected j ↔ j = i ∧ tapped.ideaSelected = false := by
  unfold IdeaSelected
  rw [hslots, getElem?_map, getElem?_mapIdx]
  cases hslot : v.listPatternPieceView[j]? with
  | none =>
    constructor
    · intro h
      cases h
    · rintro ⟨rfl, -⟩
      cases htapped.symm.trans hslot
  | some slot =>
    rw [Option.map_some, Option.map_some, Option.some.injEq, tapSlot_ideaSelected,
      Bool.and_eq_true, decide_eq_true_eq, Bool.not_eq_true']

/-- The slots in the view after a new batch has been added. -/
theorem opened_pieces (v : AIMQuestionContentView) (i : Nat) (slots panel : List AIMPatternPiece) :
    ((v.opened i slots panel).listPatternPieceView2.filter (·.inView)).map (·.piece) =
      (v.listPatternPieceView2.filter (·.inView)).map (·.piece) ++ panel := by
  show ((v.listPatternPieceView2 ++ panel.map fun slot => PanelPiece.mk slot true).filter
    (·.inView)).map (·.piece) = _
  have hnew : (panel.map fun slot => PanelPiece.mk slot true).filter (·.inView) =
      panel.map fun slot => ⟨slot, true⟩ := by
    refine filter_eq_self.mpr fun piece hpiece => ?_
    obtain ⟨slot, -, rfl⟩ := mem_map.mp hpiece
    rfl
  rw [filter_append, map_append, hnew, map_map]
  exact congrArg _ (map_id _)

theorem opened_backgrounds (hnone : ∀ background ∈ v.backgroundViewHint, background.visible = false)
    (i : Nat) (slots panel : List AIMPatternPiece) :
    (v.opened i slots panel).backgroundViewHint.filter (·.visible) =
      panelBackgrounds v.patternUIData := by
  show (v.backgroundViewHint ++ panelBackgrounds v.patternUIData).filter (·.visible) = _
  have hold : v.backgroundViewHint.filter (·.visible) = [] :=
    filter_eq_nil_iff.mpr fun b hb => by rw [hnone b hb]; exact Bool.false_ne_true
  rw [filter_append, hold, nil_append]
  refine filter_eq_self.mpr fun b hb => ?_
  obtain ⟨k, hk, rfl⟩ := mem_mapIdx.mp hb
  rfl

/-- The bars begin with those of the first batch, also after a new one. -/
theorem opened_bars (hv : v.PanelInv) (i : Nat) (slots panel : List AIMPatternPiece) :
    ∃ rest, (v.opened i slots panel).backgroundHide.map (·.frame) =
      (panelBars v.patternUIData).map (·.frame) ++ rest := by
  have hframes : (v.opened i slots panel).backgroundHide.map (·.frame) =
      v.backgroundHide.map (·.frame) ++ (panelBars v.patternUIData).map (·.frame) := by
    show ((v.backgroundHide ++ panelBars v.patternUIData).mapIdx fun j bar =>
      ({ bar with isHidden := decide (j ≠ i) } : MarkerBar)).map (·.frame) = _
    rw [← map_append]
    refine ext_getElem? fun j => ?_
    rw [getElem?_map, getElem?_map, getElem?_mapIdx, Option.map_map]
    rfl
  rcases hv.bars with hnone | ⟨rest, hrest⟩
  · exact ⟨[], by rw [hframes, hnone, append_nil]; rfl⟩
  · exact ⟨rest ++ (panelBars v.patternUIData).map (·.frame), by
      rw [hframes, hrest, append_assoc]⟩

/-- The bar above slot `i` is shown, and no other. -/
theorem opened_bar (hv : v.PanelInv) (hpanel : v.makePanel = .ok panel)
    {slot : AIMPatternPiece} (hslot : panel[i]? = some slot) (slots : List AIMPatternPiece) :
    (v.opened i slots panel).backgroundHide[i]? =
      some ⟨⟨slot.frame.x, slot.frame.y - 10, 150, 6⟩, false⟩ := by
  have ⟨rest, hrest⟩ := opened_bars hv i slots panel
  have hframe := congrArg (·[i]?) hrest
  have hfirst := panelBars_frame hpanel hslot
  have hlt : i < ((panelBars v.patternUIData).map (·.frame)).length := by
    rw [length_map]
    exact (List.getElem?_eq_some_iff.mp hfirst).1
  rw [getElem?_append_left hlt, getElem?_map, getElem?_map, hfirst] at hframe
  obtain ⟨bar, hbar, hframe⟩ := Option.map_eq_some_iff.mp hframe
  have hshown : bar.isHidden = false := by
    have hbar : ((v.backgroundHide ++ panelBars v.patternUIData).mapIdx fun j bar =>
      ({ bar with isHidden := decide (j ≠ i) } : MarkerBar))[i]? = some bar := hbar
    rw [getElem?_mapIdx] at hbar
    obtain ⟨old, -, rfl⟩ := Option.map_eq_some_iff.mp hbar
    exact decide_eq_false fun h => h rfl
  exact hbar.trans (congrArg some (congrArg₂ MarkerBar.mk hframe hshown))

theorem panelInv_opened (hv : v.PanelInv) {tapped : AIMPatternPiece}
    (htapped : v.listPatternPieceView[i]? = some tapped) (hunselected : tapped.ideaSelected = false)
    (hnone : ∀ j, ¬ v.IdeaSelected j) (hpanel : v.makePanel = .ok panel) :
    (v.opened i (v.listPatternPieceView.mapIdx (tapSlot i tapped)) panel).PanelInv := by
  have hold := hv.panelMatches.cleared hnone
  have hselected (j : Nat) :
      (v.opened i (v.listPatternPieceView.mapIdx (tapSlot i tapped)) panel).IdeaSelected j ↔
        j = i := by
    rw [ideaSelected_tapped htapped rfl]
    exact and_iff_left hunselected
  have hlength : panel.length = v.listPatternPieceView.length :=
    (makeSlots_length hpanel).trans hv.length
  have ⟨slot, hslot⟩ : ∃ slot, panel[i]? = some slot := by
    refine ⟨_, getElem?_eq_getElem ?_⟩
    rw [hlength]
    exact (List.getElem?_eq_some_iff.mp htapped).1
  refine ⟨⟨fun j k hj hk => ?_, fun j hj => ?_, fun hclosed => ?_⟩, ⟨panel, hpanel⟩, ?_, ?_⟩
  · rw [(hselected j).mp hj, (hselected k).mp hk]
  · obtain rfl := (hselected j).mp hj
    refine ⟨panel, hpanel, ?_, ?_, ?_, ⟨slot, hslot, opened_bar hv hpanel hslot _⟩, ?_⟩
    · rw [hlength]
      exact length_mapIdx.symm
    · rw [opened_pieces, filter_eq_nil_iff.mpr, map_nil, nil_append]
      intro piece hpiece
      rw [hold.pieces piece hpiece]
      exact Bool.false_ne_true
    · rw [opened_backgrounds hold.backgrounds]
      exact panelBackgrounds_frames hpanel
    · intro k hk bar hbar
      have hbar : ((v.backgroundHide ++ panelBars v.patternUIData).mapIdx fun k bar =>
        ({ bar with isHidden := decide (k ≠ j) } : MarkerBar))[k]? = some bar := hbar
      rw [getElem?_mapIdx] at hbar
      obtain ⟨old, -, rfl⟩ := Option.map_eq_some_iff.mp hbar
      exact decide_eq_true hk
  · exact absurd ((hselected i).mpr rfl) (hclosed i)
  · exact hv.length.trans length_mapIdx.symm
  · exact .inr (opened_bars hv i _ panel)

theorem panelInv_closed (hv : v.PanelInv) {tapped : AIMPatternPiece}
    (htapped : v.listPatternPieceView[i]? = some tapped) (hselected : tapped.ideaSelected = true) :
    (v.closed i (v.listPatternPieceView.mapIdx (tapSlot i tapped))).PanelInv := by
  have hnone (j : Nat) :
      ¬ (v.closed i (v.listPatternPieceView.mapIdx (tapSlot i tapped))).IdeaSelected j := by
    rw [ideaSelected_tapped htapped rfl, hselected]
    exact fun h => by cases h.2
  have ⟨panel, hold⟩ := hv.panelMatches.shown i ((ideaSelected_iff htapped).mpr hselected)
  refine ⟨⟨fun j k hj _ => absurd hj (hnone j), fun j hj => absurd hj (hnone j), fun _ => ?_⟩,
    hv.made, hv.length.trans length_mapIdx.symm, ?_⟩
  · refine ⟨fun piece hpiece => ?_, fun background hb => ?_, fun bar hbar => ?_⟩
    · obtain ⟨old, -, rfl⟩ := mem_map.mp hpiece
      rfl
    · obtain ⟨old, -, rfl⟩ := mem_map.mp hb
      rfl
    · have ⟨j, hj⟩ := mem_iff_getElem?.mp hbar
      have hj : (v.backgroundHide.modify i fun bar =>
        ({ bar with isHidden := true } : MarkerBar))[j]? = some bar := hj
      rw [getElem?_modify] at hj
      obtain ⟨old, holdBar, rfl⟩ := Option.map_eq_some_iff.mp hj
      split_ifs with hji
      · rfl
      · exact hold.otherBars j (Ne.symm hji) old holdBar
  · have hframes : (v.backgroundHide.modify i fun bar =>
        ({ bar with isHidden := true } : MarkerBar)).map (·.frame) =
        v.backgroundHide.map (·.frame) :=
      (Pointwise.map_modify MarkerBar.frame id (by intro bar; rfl) _ i).trans (modify_id i _)
    rcases hv.bars with hempty | ⟨rest, hrest⟩
    · refine .inl ?_
      show v.backgroundHide.modify i _ = []
      rw [hempty, modify_nil]
    · exact .inr ⟨rest, hframes.trans hrest⟩

/-- A tap does not trap. -/
theorem hintCase2_total (hv : v.PanelInv) {tapped : AIMPatternPiece}
    (htapped : v.listPatternPieceView[i]? = some tapped) : ∃ v', v.hintCase2 i = .ok v' := by
  cases hselected : tapped.ideaSelected with
  | false =>
    obtain ⟨panel, hpanel⟩ := hv.made
    refine ⟨_, hintCase2_ok.mpr ⟨tapped, htapped, .inl ⟨hselected, panel, hpanel, ?_, rfl⟩⟩⟩
    rw [hv.length]
    exact Nat.lt_add_left _ (List.getElem?_eq_some_iff.mp htapped).1
  | true =>
    obtain ⟨panel, hold⟩ := hv.panelMatches.shown i ((ideaSelected_iff htapped).mpr hselected)
    obtain ⟨slot, -, hbar⟩ := hold.bar
    exact ⟨_, hintCase2_ok.mpr ⟨tapped, htapped, .inr ⟨hselected,
      (List.getElem?_eq_some_iff.mp hbar).1, rfl⟩⟩⟩

/-- A tap while no other button is selected keeps the panel in order. -/
theorem panelInv_tapped (hv : v.PanelInv) (halone : ∀ j, v.IdeaSelected j → j = i)
    (h : v.hintCase2 i = .ok v') : v'.PanelInv := by
  obtain ⟨tapped, htapped, ⟨hunselected, panel, hpanel, -, rfl⟩ | ⟨hselected, -, rfl⟩⟩ :=
    hintCase2_ok.mp h
  · refine panelInv_opened hv htapped hunselected (fun j hj => ?_) hpanel
    obtain rfl := halone j hj
    rw [ideaSelected_iff htapped, hunselected] at hj
    cases hj
  · exact panelInv_closed hv htapped hselected

/-- A tap while another button is selected leaves two batches in the view. -/
theorem not_panelMatches_tapped (hv : v.PanelInv) (hj : v.IdeaSelected j) (hne : j ≠ i)
    (h : v.hintCase2 i = .ok v') : ¬ v'.PanelMatches := by
  obtain ⟨tapped, htapped, hview⟩ := hintCase2_ok.mp h
  have hunselected : tapped.ideaSelected = false := by
    rw [← Bool.not_eq_true, ← ideaSelected_iff htapped]
    exact fun hi => hne (hv.panelMatches.one j i hj hi)
  rcases hview with ⟨-, panel, hpanel, -, rfl⟩ | ⟨hselected, -, -⟩
  · intro hmatches
    have hi : (v.opened i (v.listPatternPieceView.mapIdx (tapSlot i tapped)) panel).IdeaSelected
        i := (ideaSelected_tapped htapped rfl).mpr ⟨rfl, hunselected⟩
    obtain ⟨panel', hnew⟩ := hmatches.shown i hi
    obtain ⟨oldPanel, hold⟩ := hv.panelMatches.shown j hj
    have hsame : panel' = panel := Except.ok.inj (hnew.made.symm.trans hpanel)
    have hpieces := hnew.pieces
    rw [opened_pieces, hold.pieces, hsame] at hpieces
    have hlen := congrArg length hpieces
    rw [length_append, hold.length] at hlen
    have hlt := (List.getElem?_eq_some_iff.mp htapped).1
    omega
  · cases hunselected.symm.trans hselected

/-! ## The other events -/

/-- The panel, and which buttons are selected, are the same. -/
structure SamePanel (v v' : AIMQuestionContentView) : Prop where
  question : v'.question = v.question
  pattern : v'.pattern = v.pattern
  patternUIData : v'.patternUIData = v.patternUIData
  pieces : v'.listPatternPieceView2 = v.listPatternPieceView2
  backgrounds : v'.backgroundViewHint = v.backgroundViewHint
  bars : v'.backgroundHide = v.backgroundHide
  selected : v'.listPatternPieceView.map (·.ideaSelected) =
    v.listPatternPieceView.map (·.ideaSelected)

theorem SamePanel.sameDisplay {w : AIMQuestionContentView} (h : SamePanel v w)
    (same : SameDisplay w v') : SamePanel v v' where
  question := same.question.trans h.question
  pattern := same.pattern.trans h.pattern
  patternUIData := same.patternUIData.trans h.patternUIData
  pieces := same.panel.trans h.pieces
  backgrounds := same.backgrounds.trans h.backgrounds
  bars := same.bars.trans h.bars
  selected := by rw [same.slots]; exact h.selected

/-- An update of the slots that selects none and deselects none. -/
theorem samePanel_slots {slots : List AIMPatternPiece}
    (hslots : Forall₂ (fun slot slot' => slot'.ideaSelected = slot.ideaSelected)
      v.listPatternPieceView slots) : SamePanel v { v with listPatternPieceView := slots } :=
  ⟨rfl, rfl, rfl, rfl, rfl, rfl, Pointwise.map_eq_of_forall₂ hslots⟩

theorem samePanel_of_map {f : AIMPatternPiece → AIMPatternPiece}
    (hf : ∀ slot, (f slot).ideaSelected = slot.ideaSelected) :
    SamePanel v { v with listPatternPieceView := v.listPatternPieceView.map f } :=
  samePanel_slots (Pointwise.forall₂_self_map fun slot _ => hf slot)

theorem samePanel_showTextPattern (v : AIMQuestionContentView) (list : AIMListPieceView) :
    SamePanel v { v with listPieceView := list : AIMQuestionContentView }.showTextPattern := by
  have hslots (slot : AIMPatternPiece) (finished : Bool) :
      (if finished then slot.displayCurrentContentWhenFinishDrag
        else slot.displayCurrentContent).ideaSelected = slot.ideaSelected := by
    split <;> rfl
  unfold showTextPattern
  split
  · exact ⟨rfl, rfl, rfl, rfl, rfl, rfl, (samePanel_of_map fun slot => hslots slot _).selected⟩
  · exact ⟨rfl, rfl, rfl, rfl, rfl, rfl, rfl⟩

theorem SamePanel.panelInv (h : SamePanel v v') (hv : v.PanelInv) : v'.PanelInv := by
  have hselected (i : Nat) : v'.IdeaSelected i ↔ v.IdeaSelected i := by
    unfold IdeaSelected
    rw [h.selected]
  have hlength : v'.listPatternPieceView.length = v.listPatternPieceView.length := by
    have hlen := congrArg length h.selected
    rw [length_map, length_map] at hlen
    exact hlen
  have hmade : v'.makePanel = v.makePanel := by
    unfold makePanel
    rw [h.question, h.pattern, h.patternUIData]
  refine ⟨⟨fun i j hi hj => ?_, fun i hi => ?_, fun hnone => ?_⟩, ?_, ?_, ?_⟩
  · exact hv.panelMatches.one i j ((hselected i).mp hi) ((hselected j).mp hj)
  · obtain ⟨panel, hold⟩ := hv.panelMatches.shown i ((hselected i).mp hi)
    refine ⟨panel, hmade.trans hold.made, hold.length.trans hlength.symm, ?_, ?_, ?_, ?_⟩
    · rw [h.pieces]
      exact hold.pieces
    · rw [h.backgrounds]
      exact hold.backgrounds
    · rw [h.bars]
      exact hold.bar
    · rw [h.bars]
      exact hold.otherBars
  · have hold := hv.panelMatches.cleared fun i hi => hnone i ((hselected i).mpr hi)
    refine ⟨?_, ?_, ?_⟩
    · rw [h.pieces]
      exact hold.pieces
    · rw [h.backgrounds]
      exact hold.backgrounds
    · rw [h.bars]
      exact hold.bars
  · rw [hmade]
    exact hv.made
  · rw [h.patternUIData, hlength]
    exact hv.length
  · rw [h.bars, h.patternUIData]
    exact hv.bars

end AIMQuestionContentView

namespace QuestionRun

variable {ui : Platform} {s s' : QuestionRun} {e : Event}

/-- An idea button is tapped only while no other one is selected. -/
def TapsAlone (s : QuestionRun) (e : Event) : Prop :=
  e.AtIdeaTap fun i => ∀ j < s.view.listPatternPieceView.length, s.view.IdeaSelected j → j = i

instance (s : QuestionRun) (e : Event) : Decidable (s.TapsAlone e) := by
  unfold TapsAlone; infer_instance

theorem TapsAlone.eq {i j : Nat} (h : s.TapsAlone (.hintCase2 i)) (hj : s.view.IdeaSelected j) :
    j = i := by
  have ⟨slot, hslot, _⟩ := hj.exists_slot
  exact h j (List.getElem?_eq_some_iff.mp hslot).1 hj

/-- An event that is no tap leaves the panel alone, or it is the one that clears the panel of a
finished question. -/
theorem samePanel_or_cleared (he : s.Enabled e) (htap : ∀ i, e ≠ .hintCase2 i)
    (h : s.step ui e = .ok s') :
    AIMQuestionContentView.SamePanel s.view s'.view ∨
      s.view.checkFinish = true ∧ SameDisplay s.view.clearPanel s'.view := by
  cases step_display he h with
  | cleared hfinish same _ => exact .inr ⟨hfinish, same⟩
  | same same _ _ =>
    refine .inl ?_
    exact AIMQuestionContentView.SamePanel.sameDisplay ⟨rfl, rfl, rfl, rfl, rfl, rfl, rfl⟩ same
  | matched same _ =>
    refine .inl ?_
    refine (AIMQuestionContentView.samePanel_slots ?_).sameDisplay same
    exact Pointwise.forall₂_self_modify (fun _ => rfl) fun _ _ => rfl
  | @tapped i _ _ _ => exact absurd rfl (htap i)
  | hintPressed =>
    refine .inl ?_
    unfold AIMQuestionContentView.btnShowHint
    dsimp only
    split
    · exact ⟨rfl, rfl, rfl, rfl, rfl, rfl, rfl⟩
    · exact ⟨rfl, rfl, rfl, rfl, rfl, rfl,
        (AIMQuestionContentView.samePanel_of_map (f := AIMPatternPiece.displayHintContent)
          fun _ => rfl).selected⟩
  | hintReleased => exact .inl <| AIMQuestionContentView.samePanel_showTextPattern s.view _
  | englishPressed =>
    refine .inl ?_
    unfold AIMQuestionContentView.btnShowEnglishHint
    dsimp only
    split <;> exact ⟨rfl, rfl, rfl, rfl, rfl, rfl, rfl⟩
  | englishReleased =>
    refine .inl ?_
    unfold AIMQuestionContentView.showEnglishTextPattern
    dsimp only
    split <;> exact ⟨rfl, rfl, rfl, rfl, rfl, rfl, rfl⟩
  | resigned same _ =>
    exact .inl <| (AIMQuestionContentView.samePanel_showTextPattern s.view _).sameDisplay same
  | @placed i k p piece list _ _ _ _ same _ =>
    refine .inl ?_
    refine AIMQuestionContentView.SamePanel.sameDisplay ?_ same
    have hfixed : Forall₂ (fun slot slot' : AIMPatternPiece =>
        slot'.ideaSelected = slot.ideaSelected) s.view.listPatternPieceView
        (s.view.listPatternPieceView.modify k (·.fixed piece.content)) :=
      Pointwise.forall₂_self_modify (fun _ => rfl) fun _ _ => rfl
    refine ⟨rfl, rfl, rfl, rfl, rfl, rfl, ?_⟩
    show (shownSlots _ (s.view.listPatternPieceView.modify k
      (·.fixed piece.content))).map (·.ideaSelected) = _
    rw [shownSlots, ← Pointwise.map_eq_of_forall₂ hfixed]
    split
    · rw [map_map]
      rfl
    · rfl
  | widened same _ =>
    refine .inl ?_
    refine (AIMQuestionContentView.samePanel_slots ?_).sameDisplay same
    refine (widened_expandSlots ui s.view.checkFinish s.view.listPatternPieceView).imp ?_
    intro slot slot' hwidened
    unfold Widened at hwidened
    rw [hwidened]

/-- An event that is no tap leaves the panel of an unfinished question alone. -/
theorem samePanel_step (he : s.Enabled e) (htap : ∀ i, e ≠ .hintCase2 i)
    (h : s.step ui e = .ok s') (hunfinished : s'.view.checkFinish = false) :
    AIMQuestionContentView.SamePanel s.view s'.view := by
  rcases samePanel_or_cleared he htap h with same | ⟨hfinish, -⟩
  · exact same
  · -- only a finished question clears the panel in this way
    have hfinished := (step_question he h).2 hfinish
    rw [hunfinished] at hfinished
    cases hfinished

/-! ## Runs -/

theorem panelInv_step (hs : s.view.checkFinish = false → s.view.PanelInv) (he : s.Enabled e)
    (halone : s.TapsAlone e) (h : s.step ui e = .ok s')
    (hunfinished : s'.view.checkFinish = false) : s'.view.PanelInv := by
  have hbefore : s.view.checkFinish = false := by
    rw [← Bool.not_eq_true] at hunfinished ⊢
    exact fun hfinish => hunfinished ((step_question he h).2 hfinish)
  by_cases htap : ∃ i, e = .hintCase2 i
  · obtain ⟨i, rfl⟩ := htap
    obtain ⟨v, hv, h⟩ := bind_eq_ok.mp h
    obtain rfl := Except.ok.inj h
    exact AIMQuestionContentView.panelInv_tapped (hs hbefore) (fun j hj => halone.eq hj) hv
  · rw [not_exists] at htap
    exact (samePanel_step he htap h hunfinished).panelInv (hs hbefore)

/-- A fresh view has no panel. -/
theorem panelInv_start {question : AIMQuestion} {v : AIMQuestionContentView}
    (hstart : Started ui question v) : v.PanelInv := by
  obtain ⟨draws, pattern, data, list, slots, -, hslots, rfl⟩ := hstart
  have hnone (i : Nat) : ¬ (AIMQuestionContentView.fresh question pattern data list
      slots).IdeaSelected i := by
    intro hi
    obtain ⟨slot, hslot, hselected⟩ := hi.exists_slot
    obtain ⟨type, -, hmade⟩ := makeSlots_getElem? hslots hslot
    obtain ⟨-, label, hint, -, -, rfl⟩ := makeSlot_ok.mp hmade
    cases hselected
  refine ⟨⟨fun i j hi => absurd hi (hnone i), fun i hi => absurd hi (hnone i), fun _ => ?_⟩,
    makeSlots_moved hslots 109, (makeSlots_length hslots).symm, .inl rfl⟩
  exact ⟨fun _ h => (by cases h), fun _ h => (by cases h), fun _ h => (by cases h)⟩

/-- In every run in which a button is tapped only while no other one is selected, the panel of an
unfinished question is shown once and cleared in every state, and no tap traps; and the next event
keeps this exactly if it is no tap while another button is selected. -/
theorem panel_shown_once {question : AIMQuestion} {v : AIMQuestionContentView}
    (hstart : Started ui question v)
    (h : Reaches (step ui) (fun s e => s.Enabled e ∧ s.TapsAlone e) (QuestionRun.start v) s)
    (hunfinished : s.view.checkFinish = false) :
    s.view.PanelMatches ∧
      (∀ i, s.CanTapIdea i → ∃ s', s.step ui (.hintCase2 i) = .ok s') ∧
      ∀ e s', s.Enabled e → s.step ui e = .ok s' → s'.view.checkFinish = false →
        (s'.view.PanelMatches ↔ s.TapsAlone e) := by
  have hs : s.view.PanelInv := h.inv (fun t => t.view.checkFinish = false → t.view.PanelInv)
    (fun _ => panelInv_start hstart)
    (fun _ _ _ hs he hstep => panelInv_step hs he.1 he.2 hstep) hunfinished
  refine ⟨hs.panelMatches, fun i hi => ?_, fun e s' he hstep hnext => ⟨fun hmatches => ?_, ?_⟩⟩
  · have ⟨tapped, htapped⟩ : ∃ tapped, s.view.listPatternPieceView[i]? = some tapped := by
      unfold CanTapIdea at hi
      cases hslot : s.view.listPatternPieceView[i]? with
      | none =>
        rw [hslot] at hi
        cases hi
      | some tapped => exact ⟨tapped, rfl⟩
    exact bind_total (AIMQuestionContentView.hintCase2_total hs htapped) fun _ _ => ⟨_, rfl⟩
  · cases e with
    | hintCase2 i =>
      obtain ⟨w, hw, hstep⟩ := bind_eq_ok.mp hstep
      obtain rfl := Except.ok.inj hstep
      intro j _ hj
      by_contra hne
      exact AIMQuestionContentView.not_panelMatches_tapped hs hj hne hw hmatches
    | _ => trivial
  · intro halone
    exact (panelInv_step (fun _ => hs) he halone hstep hnext).panelMatches

/-- The button of slot `0` is selected and deselected, then that of slot `1` is selected. -/
theorem panel_shown_once_second :
    ∃ v s, AIMQuestionContentView.setData .ascii sampleQuestion (fun _ => 0) = .ok v ∧
      Reaches (step .ascii) (fun s e => s.Enabled e ∧ s.TapsAlone e) (QuestionRun.start v) s ∧
      s.view.IdeaSelected 1 ∧ s.view.PanelMatches := by
  have hrun : (playQuestion .ascii (fun s e => s.Enabled e ∧ s.TapsAlone e) sampleQuestion
      (fun _ => 0) [.hintCase2 0, .hintCase2 0, .hintCase2 1]).any
      (fun s => decide (s.view.IdeaSelected 1 ∧ s.view.checkFinish = false)) = true := by
    decide +kernel
  obtain ⟨v, s, hv, hreach, hend⟩ := exists_run_of_playQuestion hrun
  have ⟨hselected, hunfinished⟩ := of_decide_eq_true hend
  exact ⟨v, s, hv, hreach, hselected,
    (panel_shown_once (started_of_setData hv) hreach hunfinished).1⟩

/-- A tap on slot `1` while slot `0` is selected: of the five slots of the panel, ten are in the
view. -/
theorem panel_shown_twice :
    ∃ v s, AIMQuestionContentView.setData .ascii sampleQuestion (fun _ => 0) = .ok v ∧
      Reaches (step .ascii) Enabled (QuestionRun.start v) s ∧ s.view.checkFinish = false ∧
      s.view.IdeaSelected 1 ∧ s.view.listPatternPieceView.length = 5 ∧
      (s.view.listPatternPieceView2.filter (·.inView)).length = 10 ∧ ¬ s.view.PanelMatches := by
  have hrun : (playQuestion .ascii Enabled sampleQuestion (fun _ => 0)
      [.hintCase2 0, .hintCase2 1]).any
      (fun s => decide (s.view.checkFinish = false ∧ s.view.IdeaSelected 1 ∧
        s.view.listPatternPieceView.length = 5 ∧
        (s.view.listPatternPieceView2.filter (·.inView)).length = 10)) = true := by
    decide +kernel
  obtain ⟨v, s, hv, hreach, hend⟩ := exists_run_of_playQuestion hrun
  have ⟨hunfinished, hselected, hslots, hpieces⟩ := of_decide_eq_true hend
  refine ⟨v, s, hv, hreach, hunfinished, hselected, hslots, hpieces, fun hmatches => ?_⟩
  obtain ⟨panel, hpanel⟩ := hmatches.shown 1 hselected
  have hlength := congrArg length hpanel.pieces
  rw [length_map, hpieces, hpanel.length, hslots] at hlength
  cases hlength

end QuestionRun

end Imijun
