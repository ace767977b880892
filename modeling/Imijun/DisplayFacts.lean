import Imijun.RunFacts

/-!
# What one event shows

`RunFacts` says what an event does to a drag; this is the same for what the view displays: the
slots, the idea panel and the hint labels.

* `SameDisplay`: two states of the view that display the same.
* `DisplayOutcome`, `step_display`: everything an event can do to the display.
* `PieceRefs`: the pieces that a run refers to are the pieces `setData` made.
-/

namespace Imijun

open Transition Fallible List

/-- The two views display the same, and list the same pieces. -/
structure SameDisplay (v v' : AIMQuestionContentView) : Prop where
  question : v'.question = v.question
  pattern : v'.pattern = v.pattern
  patternUIData : v'.patternUIData = v.patternUIData
  slots : v'.listPatternPieceView = v.listPatternPieceView
  panel : v'.listPatternPieceView2 = v.listPatternPieceView2
  backgrounds : v'.backgroundViewHint = v.backgroundViewHint
  bars : v'.backgroundHide = v.backgroundHide
  hintSelected : v'.hintSelected = v.hintSelected
  englishHintSelected :
    v'.listPieceView.englishHintSelected = v.listPieceView.englishHintSelected
  pieceViewArray : v'.listPieceView.pieceViewArray = v.listPieceView.pieceViewArray
  hintLabelArray : v'.listPieceView.hintLabelArray = v.listPieceView.hintLabelArray
  labelHidden : ∀ t,
    (v'.listPieceView.hintLabel t).isHidden = (v.listPieceView.hintLabel t).isHidden

theorem SameDisplay.refl (v : AIMQuestionContentView) : SameDisplay v v := by
  constructor <;> intros <;> rfl

theorem SameDisplay.checkFinish {v v' : AIMQuestionContentView} (h : SameDisplay v v') :
    v'.checkFinish = v.checkFinish := by
  unfold AIMQuestionContentView.checkFinish AIMListPieceView.countPieceAnswer
  rw [h.pieceViewArray]

/-- The events of the hint buttons, and resigning active, which resets them. -/
def Event.isHint : Event → Bool
  | .btnShowHint | .showTextPattern | .touchDragOutside | .btnShowEnglishHint
  | .showEnglishTextPattern | .willResignActive => true
  | _ => false

/-- The slots after a completion: the last one colours all labels. -/
def shownSlots (finished : Bool) (slots : List AIMPatternPiece) : List AIMPatternPiece :=
  if finished then slots.map (·.displayCurrentContentWhenFinishDrag) else slots

namespace AIMQuestionContentView

variable {v v' : AIMQuestionContentView} {p k : Nat}

/-- The view with the slots and the list that the completion of an accepted drop leaves; `c` is the
content of the piece. -/
def withPlaced (v : AIMQuestionContentView) (k : Nat) (c : String) (list : AIMListPieceView) :
    AIMQuestionContentView :=
  { v with
    listPatternPieceView :=
      shownSlots (list.countPieceAnswer = 0) (v.listPatternPieceView.modify k (·.fixed c))
    listPieceView := list }

theorem acceptedCompletion_display {a : Animation}
    (h : v.acceptedCompletion k p = .ok (v', a)) :
    ∃ piece list, (v.listPieceView.pieceView p).piece = some piece ∧
      v.listPieceView.removePiece p = .ok list ∧
      SameDisplay (v.withPlaced k piece.content list) v' := by
  obtain ⟨piece, hpiece, h⟩ := bind_eq_ok.mp h
  obtain ⟨list, hlist, h⟩ := bind_eq_ok.mp h
  rw [orThrow_eq_ok] at hpiece
  obtain ⟨hv', -⟩ := Prod.mk.inj (Except.ok.inj h)
  have hfixed : (v.listPatternPieceView.modify k fun slot =>
        { slot with backgroundImage := AIMPatternPiece.placedImage slot.type }.setContent
          piece.content).modify k (fun slot => { slot with ideaEnabled := false }) =
      v.listPatternPieceView.modify k (·.fixed piece.content) := modify_modify_eq ..
  refine ⟨piece, list, hpiece, hlist, ?_⟩
  unfold withPlaced shownSlots
  simp only [reportDrop, checkFinish, hideProxy, hfixed] at hv'
  split_ifs at hv' ⊢ with hfinish <;> subst hv'
  · constructor <;> intros <;> rfl
  · constructor <;> intros <;> rfl

/-! ### A tap on an idea button -/

/-- Slot `j` after a tap on the button of slot `i`, which was `tapped` before. -/
def tapSlot (i : Nat) (tapped : AIMPatternPiece) (j : Nat) (slot : AIMPatternPiece) :
    AIMPatternPiece :=
  if j = i then
    if tapped.ideaSelected then { slot with ideaSelected := false }.setData tapped.type
    else { slot.setSelectedData tapped.type with ideaSelected := true }
  else slot.deselect tapped.type

/-- The backgrounds of one batch of panel slots, as `initPatterView2` makes them. -/
def panelBackgrounds (data : PatternUIData) : List PanelBackground :=
  data.listPieceType.mapIdx fun i type =>
    let frame := slotFrame data.column i type 105
    ⟨⟨frame.x - 6, frame.y, frame.width + 8, frame.height + 10⟩, false, false⟩

/-- The marker bars of one batch. -/
def panelBars (data : PatternUIData) : List MarkerBar :=
  data.listPieceType.mapIdx fun i type =>
    let frame := slotFrame data.column i type 99
    ⟨⟨frame.x, frame.y, 150, 6⟩, true⟩

/-- The view after selecting slot `i`, with a new batch of panel slots. -/
def opened (v : AIMQuestionContentView) (i : Nat) (slots panel : List AIMPatternPiece) :
    AIMQuestionContentView :=
  { v with
    listPatternPieceView := slots
    listPatternPieceView2 := v.listPatternPieceView2 ++ panel.map fun slot => ⟨slot, true⟩
    backgroundViewHint := v.backgroundViewHint ++ panelBackgrounds v.patternUIData
    backgroundHide := (v.backgroundHide ++ panelBars v.patternUIData).mapIdx fun j bar =>
      { bar with isHidden := decide (j ≠ i) } }

/-- The view after deselecting slot `i`. -/
def closed (v : AIMQuestionContentView) (i : Nat) (slots : List AIMPatternPiece) :
    AIMQuestionContentView :=
  { v with
    listPatternPieceView := slots
    listPatternPieceView2 := v.listPatternPieceView2.map fun view => { view with inView := false }
    backgroundViewHint := v.backgroundViewHint.map fun view => { view with white := true }
    backgroundHide := v.backgroundHide.modify i fun bar => { bar with isHidden := true } }

/-- A tap updates the slots, and opens the panel or closes it. -/
theorem hintCase2_ok {i : Nat} :
    v.hintCase2 i = .ok v' ↔ ∃ tapped, v.listPatternPieceView[i]? = some tapped ∧
      ((tapped.ideaSelected = false ∧ ∃ panel,
          makeSlots v.question v.pattern v.patternUIData.column 109
            v.patternUIData.listPieceType 0 = .ok panel ∧
          i < v.backgroundHide.length + v.patternUIData.listPieceType.length ∧
          v' = v.opened i (v.listPatternPieceView.mapIdx (tapSlot i tapped)) panel) ∨
        (tapped.ideaSelected = true ∧ i < v.backgroundHide.length ∧
          v' = v.closed i (v.listPatternPieceView.mapIdx (tapSlot i tapped)))) := by
  -- the loop leaves the tapped slot alone, and the handler changes it after the loop
  have hmodify (tapped : AIMPatternPiece) (f : AIMPatternPiece → AIMPatternPiece)
      (hf : ∀ slot, f slot = tapSlot i tapped i slot) :
      (v.listPatternPieceView.mapIdx fun j slot =>
        if j = i then slot else slot.deselect tapped.type).modify i f =
      v.listPatternPieceView.mapIdx (tapSlot i tapped) := by
    refine ext_getElem? fun j => ?_
    rw [getElem?_modify, getElem?_mapIdx, getElem?_mapIdx]
    by_cases hj : j = i
    · subst hj
      simp [hf]
    · have hother : tapSlot i tapped j = fun slot => slot.deselect tapped.type := by
        funext slot
        simp [tapSlot, hj]
      simp [hother, hj, Ne.symm hj]
  unfold hintCase2
  simp only [bind_eq_ok, subscript_eq_ok]
  refine exists_congr fun tapped => and_congr_right fun htapped => ?_
  cases hselected : tapped.ideaSelected with
  | false =>
    have hslots := hmodify tapped (fun slot =>
      { slot.setSelectedData tapped.type with ideaSelected := true }) fun slot => by
        simp [tapSlot, hselected]
    simp only [Bool.not_false, if_true, initPatterView2, bind_eq_ok, subscript_eq_ok, hslots]
    constructor
    · rintro ⟨w, ⟨panel, hpanel, hw⟩, bar, hbar, h⟩
      obtain rfl := Except.ok.inj hw
      obtain rfl := Except.ok.inj h
      have hi := (List.getElem?_eq_some_iff.mp hbar).1
      rw [length_append, length_mapIdx] at hi
      exact .inl ⟨trivial, panel, hpanel, hi, rfl⟩
    · rintro (⟨-, panel, hpanel, hi, rfl⟩ | ⟨h, -⟩)
      · have hi : i < (v.backgroundHide ++ panelBars v.patternUIData).length := by
          rw [length_append, panelBars, length_mapIdx]
          exact hi
        exact ⟨_, ⟨panel, hpanel, rfl⟩, _, getElem?_eq_getElem hi, rfl⟩
      · cases h
  | true =>
    have hslots := hmodify tapped (fun slot =>
      { slot with ideaSelected := false }.setData tapped.type) fun slot => by
        simp [tapSlot, hselected]
    simp only [Bool.not_true, Bool.false_eq_true, if_false, hslots, bind_eq_ok, subscript_eq_ok]
    constructor
    · rintro ⟨bar, hbar, h⟩
      obtain rfl := Except.ok.inj h
      exact .inr ⟨trivial, (List.getElem?_eq_some_iff.mp hbar).1, rfl⟩
    · rintro (⟨h, -⟩ | ⟨-, hi, rfl⟩)
      · cases h
      · exact ⟨_, getElem?_eq_getElem hi, rfl⟩

/-- What a tap does to the slots, whether it selects or deselects. -/
theorem hintCase2_slots {i : Nat} (h : v.hintCase2 i = .ok v') :
    ∃ tapped, v.listPatternPieceView[i]? = some tapped ∧
      v'.listPatternPieceView = v.listPatternPieceView.mapIdx (tapSlot i tapped) ∧
      v'.hintSelected = v.hintSelected := by
  have ⟨tapped, htapped, hview⟩ := hintCase2_ok.mp h
  refine ⟨tapped, htapped, ?_⟩
  rcases hview with ⟨_, _, _, _, rfl⟩ | ⟨_, _, rfl⟩ <;> exact ⟨rfl, rfl⟩

end AIMQuestionContentView

namespace QuestionRun

variable {ui : Platform} {s s' : QuestionRun} {e : Event}

/-- The pieces whose accepted drop is through, in order. -/
def placedPieces (s : QuestionRun) : List Nat :=
  (s.finished.filter (·.accepted)).map (·.piece)

/-- What event `e` can do to the display of the run `s`. -/
inductive DisplayOutcome (ui : Platform) (s : QuestionRun) : Event → QuestionRun → Prop
  | same {e : Event} {s' : QuestionRun} (same : SameDisplay s.view s'.view)
      (placed : s'.placedPieces = s.placedPieces) (hquiet : e.isHint = false) :
      DisplayOutcome ui s e s'
  | matched {k : Nat} {s' : QuestionRun}
      (same : SameDisplay { s.view with
        listPatternPieceView :=
          s.view.listPatternPieceView.modify k fun slot => { slot with status := true } } s'.view)
      (placed : s'.placedPieces = s.placedPieces) : DisplayOutcome ui s .touchEnded s'
  | tapped {i : Nat} {v : AIMQuestionContentView} (he : s.CanTapIdea i)
      (hv : s.view.hintCase2 i = .ok v) :
      DisplayOutcome ui s (.hintCase2 i) { s with view := v }
  | hintPressed : DisplayOutcome ui s .btnShowHint { s with view := s.view.btnShowHint }
  | hintReleased :
      DisplayOutcome ui s .showTextPattern { s with view := s.view.showTextPattern }
  | englishPressed :
      DisplayOutcome ui s .btnShowEnglishHint { s with view := s.view.btnShowEnglishHint }
  | englishReleased :
      DisplayOutcome ui s .showEnglishTextPattern { s with view := s.view.showEnglishTextPattern }
  | resigned {s' : QuestionRun}
      (same : SameDisplay (AIMQuestionContentView.showTextPattern
        { s.view with listPieceView := s.view.listPieceView.showHint false }) s'.view)
      (placed : s'.placedPieces = s.placedPieces) : DisplayOutcome ui s .willResignActive s'
  | placed {i k p : Nat} {piece : AIMPiece} {list : AIMListPieceView} {s' : QuestionRun}
      (hi : s.drops[i]? = some (.accepted k p))
      (hpiece : (s.view.listPieceView.pieceView p).piece = some piece)
      (hlist : s.view.listPieceView.removePiece p = .ok list)
      (same : SameDisplay (s.view.withPlaced k piece.content list) s'.view)
      (placed : s'.placedPieces = s.placedPieces ++ [p]) :
      DisplayOutcome ui s (.dropCompletion i) s'
  | widened {i : Nat} {s' : QuestionRun}
      (same : SameDisplay { s.view with
        listPatternPieceView :=
          expandSlots ui s.view.checkFinish s.view.listPatternPieceView } s'.view)
      (placed : s'.placedPieces = s.placedPieces) : DisplayOutcome ui s (.animationCompletion i) s'
  | cleared {i : Nat} {s' : QuestionRun} (hfinish : s.view.checkFinish = true)
      (same : SameDisplay s.view.clearPanel s'.view)
      (placed : s'.placedPieces = s.placedPieces) : DisplayOutcome ui s (.animationCompletion i) s'

theorem placedPieces_completed_accepted (s : QuestionRun) (i k p : Nat)
    (v : AIMQuestionContentView) (animations : List Animation) :
    (s.completed i (.accepted k p) v animations).placedPieces = s.placedPieces ++ [p] := by
  simp [placedPieces, completed, DropCompletion.isAccepted, DropCompletion.piece]

theorem placedPieces_completed_returned (s : QuestionRun) (i p : Nat)
    (v : AIMQuestionContentView) (animations : List Animation) :
    (s.completed i (.returned p) v animations).placedPieces = s.placedPieces := by
  simp [placedPieces, completed, DropCompletion.isAccepted]

theorem placedPieces_dropped (s : QuestionRun) (v : AIMQuestionContentView) (p : Nat)
    (c : DropCompletion) : (s.dropped v p c).placedPieces = s.placedPieces := by
  cases c <;> simp [placedPieces, dropped, DropCompletion.isAccepted]

/-- A cancelled touch changes nothing that is displayed, once the hints are put back. -/
theorem sameDisplay_restored (w : AIMQuestionContentView) (p : Option Nat) (start : CGPoint) :
    SameDisplay w (w.restored p start) := by
  cases p <;> constructor <;> intros <;> rfl

/-- The end of an animation changes the display after the blur and after the last piece only. -/
theorem displayOutcome_animation (s : QuestionRun) (i : Nat) (a : Animation) :
    DisplayOutcome ui s (.animationCompletion i)
      { s with
        view := (s.view.runAnimation ui a).1
        animations := s.animations.eraseIdx i ++ (s.view.runAnimation ui a).2 } := by
  match a with
  | .blur (left + 2) => exact .same (.refl _) rfl rfl
  | .blur 0 | .blur 1 =>
    simp only [AIMQuestionContentView.runAnimation, AIMQuestionContentView.expandPieceWidth]
    split
    · exact .widened (.refl _) rfl
    · refine .same ?_ rfl rfl
      constructor <;> intros <;> rfl
  | .expanded =>
    simp only [AIMQuestionContentView.runAnimation]
    split
    · next hfinish =>
      refine .cleared hfinish ?_ rfl
      constructor <;> intros <;> rfl
    · refine .same ?_ rfl rfl
      constructor <;> intros <;> rfl
  | .answerHidden =>
    refine .same ?_ rfl rfl
    constructor <;> intros <;> rfl

/-- Every enabled event does one of these things to the display. -/
theorem step_display (he : s.Enabled e) (h : s.step ui e = .ok s') : DisplayOutcome ui s e s' := by
  cases e with
  | touchBegan p location offset =>
    obtain ⟨v, hv, h⟩ := bind_eq_ok.mp h
    obtain rfl := Except.ok.inj h
    obtain ⟨slot, hslot, rfl⟩ := AIMQuestionContentView.tapAIMPieceView_ok.mp hv
    refine .same ?_ rfl rfl
    constructor <;> intros <;> rfl
  | touchMoved location =>
    obtain ⟨v, hv, h⟩ := bind_eq_ok.mp h
    obtain rfl := Except.ok.inj h
    obtain ⟨c, rfl⟩ := AIMQuestionContentView.movedChoosePieceView_ok hv
    refine .same ?_ rfl rfl
    constructor <;> intros <;> rfl
  | touchEnded =>
    cases step_outcome he h with
    | quiet hquiet _ _ => cases hquiet
    | @accepted t slot list _ _ _ hlist =>
      have hsame := AIMListPieceView.reRender_same hlist
      refine .matched (k := (s.view.listPieceView.pieceView t.piece).patternIndex) ?_
        (placedPieces_dropped ..)
      exact ⟨rfl, rfl, rfl, rfl, rfl, rfl, rfl, rfl, hsame.englishHintSelected,
        hsame.pieceViewArray, hsame.hintLabelArray, hsame.labelHidden⟩
    | wrong _ _ _ _ _ =>
      refine .same ?_ (placedPieces_dropped ..) rfl
      constructor <;> intros <;> rfl
  | touchCancelled => exact Except.ok.inj h ▸ .same (.refl _) rfl rfl
  | willResignActive =>
    obtain ⟨v, hv, h⟩ := bind_eq_ok.mp h
    obtain rfl := Except.ok.inj h
    rcases AIMQuestionContentView.cancelTouch_ok hv with ⟨-, rfl⟩ | ⟨start, p, -, rfl, -, -⟩
    · exact .resigned (.refl _) rfl
    · exact .resigned (sameDisplay_restored _ p start) rfl
  | hintCase2 i =>
    obtain ⟨v, hv, h⟩ := bind_eq_ok.mp h
    obtain rfl := Except.ok.inj h
    exact .tapped he hv
  | btnShowHint => exact Except.ok.inj h ▸ .hintPressed
  | showTextPattern => exact Except.ok.inj h ▸ .hintReleased
  | touchDragOutside => cases h
  | btnShowEnglishHint => exact Except.ok.inj h ▸ .englishPressed
  | showEnglishTextPattern => exact Except.ok.inj h ▸ .englishReleased
  | dropCompletion i =>
    obtain ⟨completion, hi⟩ : ∃ c, s.drops[i]? = some c := ⟨_, List.getElem?_eq_getElem he⟩
    simp only [step, hi] at h
    obtain ⟨⟨v, animations⟩, hv, h⟩ := bind_eq_ok.mp h
    obtain rfl := Except.ok.inj h
    cases completion with
    | accepted k p =>
      obtain ⟨⟨w, a⟩, hw, hv⟩ := bind_eq_ok.mp hv
      obtain ⟨rfl, rfl⟩ := Prod.mk.inj (Except.ok.inj hv)
      obtain ⟨piece, list, hpiece, hlist, hsame⟩ :=
        AIMQuestionContentView.acceptedCompletion_display hw
      exact .placed hi hpiece hlist hsame (placedPieces_completed_accepted ..)
    | returned p =>
      obtain ⟨rfl, rfl⟩ := Prod.mk.inj (Except.ok.inj hv)
      refine .same ?_ (placedPieces_completed_returned ..) rfl
      constructor <;> intros <;> rfl
  | animationCompletion i =>
    obtain ⟨a, hi⟩ : ∃ a, s.animations[i]? = some a := ⟨_, List.getElem?_eq_getElem he⟩
    simp only [step, hi] at h
    obtain rfl := Except.ok.inj h
    exact displayOutcome_animation s i a

/-! ## The pieces of a run -/

/-- Everything a run refers to is one of the `n` pieces of `list`, and the pieces are as they were
made. -/
structure PieceRefs (list : AIMListPieceView) (n : Nat) (s : QuestionRun) : Prop where
  face : ∀ p, (s.view.listPieceView.pieceView p).face = (list.pieceView p).face
  listed : ∀ p ∈ s.view.listPieceView.pieceViewArray, p < n
  touched : ∀ t, s.touch = some t → t.piece < n
  pending : ∀ c ∈ s.drops, c.piece < n
  slot : ∀ k p, .accepted k p ∈ s.drops → k = (list.pieceView p).patternIndex
  placed : ∀ p ∈ s.placedPieces, p < n

section PieceRefs

variable {list : AIMListPieceView} {n : Nat}

theorem PieceRefs.patternIndex (hs : s.PieceRefs list n) (p : Nat) :
    (s.view.listPieceView.pieceView p).patternIndex = (list.pieceView p).patternIndex :=
  congrArg Prod.fst (hs.face p)

theorem PieceRefs.piece (hs : s.PieceRefs list n) (p : Nat) :
    (s.view.listPieceView.pieceView p).piece = (list.pieceView p).piece :=
  congrArg (fun f => f.2.2.1) (hs.face p)

/-- A step that keeps the pieces and makes no drop. -/
theorem PieceRefs.of_keeps (hs : s.PieceRefs list n)
    (hface : ∀ p, (s'.view.listPieceView.pieceView p).face =
      (s.view.listPieceView.pieceView p).face)
    (hlisted : ∀ p ∈ s'.view.listPieceView.pieceViewArray, p ∈ s.view.listPieceView.pieceViewArray)
    (htouched : ∀ t, s'.touch = some t → t.piece < n)
    (hdrops : ∀ c ∈ s'.drops, c ∈ s.drops)
    (hplaced : ∀ p ∈ s'.placedPieces, p < n) : s'.PieceRefs list n where
  face p := (hface p).trans (hs.face p)
  listed p hp := hs.listed p (hlisted p hp)
  touched := htouched
  pending c hc := hs.pending c (hdrops c hc)
  slot k p h := hs.slot k p (hdrops _ h)
  placed := hplaced

/-- The touch on piece `t.piece` ends in the drop `c`. -/
theorem PieceRefs.dropped (hs : s.PieceRefs list n) {t : Touch} (ht : s.touch = some t)
    {v : AIMQuestionContentView} {c : DropCompletion} (hpiece : c.piece = t.piece)
    (hface : ∀ p, (v.listPieceView.pieceView p).face = (s.view.listPieceView.pieceView p).face)
    (hlisted : v.listPieceView.pieceViewArray = s.view.listPieceView.pieceViewArray)
    (hslot : ∀ k p, c = .accepted k p → k = (list.pieceView p).patternIndex) :
    (s.dropped v t.piece c).PieceRefs list n where
  face p := (hface p).trans (hs.face p)
  listed p hp := hs.listed p (hlisted ▸ hp)
  touched u hu := by cases hu
  pending d hd := by
    rcases mem_append.mp hd with hd | hd
    · exact hs.pending d hd
    · rw [mem_singleton.mp hd, hpiece]
      exact hs.touched t ht
  slot k p h := by
    rcases mem_append.mp h with h | h
    · exact hs.slot k p h
    · exact hslot k p (mem_singleton.mp h).symm
  placed p hp := hs.placed p (placedPieces_dropped s v t.piece c ▸ hp)

theorem pieceRefs_step (hs : s.PieceRefs list n) (he : s.Enabled e) (h : s.step ui e = .ok s') :
    s'.PieceRefs list n := by
  cases step_outcome he h with
  | quiet _ same _ =>
    exact hs.of_keeps (fun p => by rw [same.pieceView]) (fun p hp => same.pieceViewArray ▸ hp)
      hs.touched (fun _ h => h) hs.placed
  | began _ =>
    refine hs.of_keeps (AIMListPieceView.hidePiece_face _ _ _) (fun _ hp => hp) (fun t ht => ?_)
      (fun _ h => h) hs.placed
    obtain rfl := Option.some.inj ht
    exact hs.listed _ he.2.1
  | accepted ht _ _ hlist =>
    have hsame := AIMListPieceView.reRender_same hlist
    refine hs.dropped ht rfl hsame.face hsame.pieceViewArray fun k p hc => ?_
    obtain ⟨rfl, rfl⟩ := DropCompletion.accepted.inj hc
    exact hs.patternIndex _
  | wrong ht _ _ _ _ =>
    exact hs.dropped ht rfl (fun _ => rfl) rfl fun k p hc => by cases hc
  | cancelled =>
    exact hs.of_keeps (fun _ => rfl) (fun _ hp => hp) (fun t ht => by cases ht) (fun _ h => h)
      hs.placed
  | resignedIdle same _ _ =>
    exact hs.of_keeps (fun p => by rw [same.pieceView]) (fun p hp => same.pieceViewArray ▸ hp)
      (fun t ht => by cases ht) (fun _ h => h) hs.placed
  | @resigned w p start same _ _ _ _ =>
    refine hs.of_keeps (fun q => ?_) (fun q hq => ?_) (fun t ht => by cases ht) (fun _ h => h)
      hs.placed
    · rw [← same.pieceView]
      cases p with
      | none => rfl
      | some p => exact AIMListPieceView.hidePiece_face _ _ _ _
    · rw [← same.pieceViewArray]
      cases p <;> exact hq
  | @acceptedDone i k p v hi done =>
    obtain ⟨t, -, hlist⟩ := AIMListPieceView.removePiece_ok.mp done.list
    refine hs.of_keeps (fun q => ?_) (fun q hq => ?_) hs.touched
      (fun _ h => mem_of_mem_eraseIdx h) fun q hq => ?_
    · show (v.listPieceView.pieceView q).face = _
      rw [hlist]
    · have hq : q ∈ v.listPieceView.pieceViewArray := hq
      rw [hlist] at hq
      exact mem_of_mem_filter hq
    · rw [placedPieces_completed_accepted] at hq
      rcases mem_append.mp hq with hq | hq
      · exact hs.placed q hq
      · rw [mem_singleton.mp hq]
        exact hs.pending _ (mem_of_getElem? hi)
  | returnedDone _ =>
    exact hs.of_keeps (AIMListPieceView.hidePiece_face _ _ _) (fun _ hp => hp) hs.touched
      (fun _ h => mem_of_mem_eraseIdx h) fun p hp => hs.placed p
        (placedPieces_completed_returned s _ _ _ _ ▸ hp)
  | animation _ =>
    have same := AIMQuestionContentView.runAnimation_sameDrag ui s.view
    exact hs.of_keeps (fun p => by rw [(same _).pieceView])
      (fun p hp => (same _).pieceViewArray ▸ hp) hs.touched (fun _ h => h) hs.placed

theorem pieceRefs_start {question : AIMQuestion} {draws : Nat → Nat}
    (hlist : AIMQuestionContentView.initAIMListPieceView ui question draws = .ok list)
    (pattern : AIMPattern) (data : PatternUIData) (slots : List AIMPatternPiece) :
    PieceRefs list (AIMListPieceView.pieceCount question.answers)
      (QuestionRun.start (AIMQuestionContentView.fresh question pattern data list slots)) where
  face _ := rfl
  listed p hp := by
    have hp : p ∈ list.pieceViewArray := hp
    rw [(AIMListPieceView.setData_pieces hlist).filled.pieceViewArray] at hp
    exact mem_range.mp hp
  touched t ht := by cases ht
  pending c hc := by cases hc
  slot k p h := by cases h
  placed p hp := by cases hp

end PieceRefs

end QuestionRun

end Imijun
