import Imijun.DisplayFacts
import Imijun.PatternPieceFacts

/-!
# Hint flags and what the hints show

A hint button keeps a flag, and its press returns early while the flag is set. The flag and the
display are set by the same handlers, apart from one: when the application resigns active, the
screen's `cancelTouch` hides the English hint labels and leaves `englishHintButton.btnSelected`
alone.

* `HintRun`: a run together with the presses in progress.
* `hints_match`: as long as the application never resigns active while an English hint is shown, the
  flags match the display and every new press shows its hint; the first time it does breaks this.
* `english_hint_stuck`: after that, the next press of the English button shows nothing.
-/

namespace Imijun

open Transition Fallible List

/-! ## Labels and slots -/

namespace AIMPatternPiece

/-- The label of the slot shows the slot's `currentContent`. -/
def ShowsContent (slot : AIMPatternPiece) : Prop :=
  slot.contentLabelText = slot.currentContent

variable {slot slot' : AIMPatternPiece}

theorem showsContent_setData (slot : AIMPatternPiece) (type : Int) :
    (slot.setData type).ShowsContent := rfl

theorem ShowsContent.deselect (h : slot.ShowsContent) (tapped : Int) :
    (slot.deselect tapped).ShowsContent := by
  unfold AIMPatternPiece.deselect
  dsimp only
  split_ifs
  · exact h
  · exact h
  · exact h
  · exact showsContent_setData _ tapped

/-- `expandPieceWidth` leaves the labels alone. -/
theorem ShowsContent.widened (h : slot.ShowsContent) (hw : Widened slot slot') :
    slot'.ShowsContent := by
  unfold Widened at hw
  rw [hw]
  exact h

end AIMPatternPiece

namespace AIMListPieceView

/-- `showHint` shows or hides the labels of `hintLabelArray`, and no others. -/
theorem showHint_isHidden (l : AIMListPieceView) (b : Bool) (t : Nat) :
    ((l.showHint b).hintLabel t).isHidden =
      if t ∈ l.hintLabelArray then !b else (l.hintLabel t).isHidden := by
  suffices h : ∀ (ts : List Nat) (m : AIMListPieceView),
      ((ts.foldl (fun l t => l.modifyLabel t fun v => { v with isHidden := !b }) m).hintLabel
        t).isHidden = if t ∈ ts then !b else (m.hintLabel t).isHidden from h l.hintLabelArray l
  intro ts
  induction ts with
  | nil => intro m; simp
  | cons u ts ih =>
    intro m
    rw [foldl_cons, ih, modifyLabel_hintLabel]
    by_cases hu : t = u
    · simp [hu]
    · simp [hu]

theorem showHint_hidden_of_mem {l : AIMListPieceView} {t : Nat} (ht : t ∈ l.hintLabelArray)
    (b : Bool) : ((l.showHint b).hintLabel t).isHidden = !b := by
  rw [showHint_isHidden, if_pos ht]

theorem showHint_englishHintSelected (l : AIMListPieceView) (b : Bool) :
    (l.showHint b).englishHintSelected = l.englishHintSelected := by
  suffices h : ∀ (ts : List Nat) (m : AIMListPieceView),
      (ts.foldl (fun l t => l.modifyLabel t fun v => { v with isHidden := !b })
        m).englishHintSelected = m.englishHintSelected from h l.hintLabelArray l
  intro ts
  induction ts with
  | nil => exact fun _ => rfl
  | cons t ts ih => exact fun m => ih _

theorem showHint_hintLabelArray (l : AIMListPieceView) (b : Bool) :
    (l.showHint b).hintLabelArray = l.hintLabelArray :=
  (showHint_keeps l b).2.2.1

/-- The loop of `setData` makes hidden labels. -/
theorem setDataLoop_labels {ui : Platform} {hints : List AIMPiece} {draws : Nat → Nat}
    (entries : List (AIMPiece × Nat)) {count index : Nat} {w : ℚ} {l : AIMListPieceView}
    {r : AIMListPieceView × ℚ} (hl : ∀ t, (l.hintLabel t).isHidden = true)
    (h : setDataLoop ui hints draws count (entries.map Prod.fst) (entries.map Prod.snd) index w l
      = .ok r) :
    (∀ t, (r.1.hintLabel t).isHidden = true) ∧
      r.1.englishHintSelected = l.englishHintSelected := by
  induction count generalizing entries index w l with
  | zero =>
    obtain rfl := Except.ok.inj h
    exact ⟨hl, rfl⟩
  | succ count ih =>
    obtain ⟨e, view, hint, -, -, -, h⟩ := setDataLoop_succ.mp h
    have hadd (t : Nat) : ((l.addPiece index (placedView view w)
        (placedLabel view hint w)).hintLabel t).isHidden = true := by
      by_cases ht : t = index
      · simp [addPiece, placedLabel, ht]
      · simp [addPiece, ht, hl]
    obtain ⟨hhidden, hselected⟩ := ih _ hadd h
    exact ⟨hhidden, hselected⟩

/-- Right after `setData` no hint is shown. -/
theorem setData_labels {ui : Platform} {frame : CGRect} {answers hints : List AIMPiece}
    {draws : Nat → Nat} {l : AIMListPieceView}
    (h : (loadFromNibWithBundle frame).setData ui answers hints draws = .ok l) :
    (∀ t, (l.hintLabel t).isHidden = true) ∧ l.englishHintSelected = false := by
  obtain ⟨r, hloop, hr⟩ := bind_eq_ok.mp h
  obtain rfl := Except.ok.inj hr
  exact setDataLoop_labels _ (fun _ => rfl) hloop

end AIMListPieceView

/-! ## Presses -/

/-- The press of the hint button is in progress after the event. Resigning active ends it. -/
def Event.hintPress (pressed : Bool) : Event → Bool
  | .btnShowHint => true
  | .showTextPattern | .willResignActive => false
  | _ => pressed

/-- The same for the English hint button. -/
def Event.englishPress (pressed : Bool) : Event → Bool
  | .btnShowEnglishHint => true
  | .showEnglishTextPattern | .willResignActive => false
  | _ => pressed

/-- A run and the presses in progress; no handler reads these. -/
structure HintRun where
  run : QuestionRun
  hintPressed : Bool
  englishPressed : Bool

namespace HintRun

def start (v : AIMQuestionContentView) : HintRun := ⟨QuestionRun.start v, false, false⟩

def step (ui : Platform) (s : HintRun) (e : Event) : Except Trap HintRun := do
  let run ← s.run.step ui e
  return ⟨run, e.hintPress s.hintPressed, e.englishPress s.englishPressed⟩

variable {ui : Platform} {s s' : HintRun} {e : Event}

theorem step_ok : s.step ui e = .ok s' ↔ s.run.step ui e = .ok s'.run ∧
    s'.hintPressed = e.hintPress s.hintPressed ∧
    s'.englishPressed = e.englishPress s.englishPressed := by
  unfold step
  constructor
  · intro h
    obtain ⟨run, hrun, h⟩ := bind_eq_ok.mp h
    obtain rfl := Except.ok.inj h
    exact ⟨hrun, rfl, rfl⟩
  · rintro ⟨hrun, hhint, henglish⟩
    refine bind_eq_ok.mpr ⟨s'.run, hrun, ?_⟩
    rw [← hhint, ← henglish]
    rfl

/-- The presses restrict nothing: every run of the question is the run of a `HintRun`. -/
theorem exists_hintRun {v : AIMQuestionContentView} {ok : QuestionRun → Event → Prop}
    {r : QuestionRun} (h : Reaches (QuestionRun.step ui) ok (QuestionRun.start v) r) :
    ∃ s, Reaches (step ui) (fun s e => ok s.run e) (start v) s ∧ s.run = r := by
  refine (h.map (fun r (s : HintRun) => s.run = r) ?_ rfl).imp fun s hs => hs
  rintro r e r' s rfl he hstep
  exact ⟨⟨r', e.hintPress s.hintPressed, e.englishPress s.englishPressed⟩,
    .tail .refl he (step_ok.mpr ⟨hstep, rfl, rfl⟩), rfl⟩

end HintRun

/-! ## The property -/

namespace QuestionRun

/-- The application resigns active only while no English hint is shown. -/
def ResignsUnlit (s : QuestionRun) (e : Event) : Prop :=
  e = .willResignActive → s.view.listPieceView.englishHintSelected = true →
    s.view.listPieceView.hintLabelArray = []

instance (s : QuestionRun) (e : Event) : Decidable (s.ResignsUnlit e) := by
  unfold ResignsUnlit; infer_instance

end QuestionRun

namespace HintRun

variable {ui : Platform} {s s' : HintRun} {e : Event}

/-- The visible labels match the flags. -/
structure DisplayMatches (v : AIMQuestionContentView) : Prop where
  english : ∀ t ∈ v.listPieceView.hintLabelArray,
    (v.listPieceView.hintLabel t).isHidden = !v.listPieceView.englishHintSelected
  content : v.hintSelected = false → ∀ slot ∈ v.listPatternPieceView, slot.ShowsContent

/-- The display matches the flags, and a press shows its hint when none is in progress. -/
structure HintsMatch (s : HintRun) : Prop where
  display : DisplayMatches s.run.view
  hintShown : s.hintPressed = false → ∀ slot ∈ s.run.view.btnShowHint.listPatternPieceView,
    slot.contentLabelText = some slot.hintPiece.content
  englishShown : s.englishPressed = false →
    ∀ t ∈ s.run.view.btnShowEnglishHint.listPieceView.hintLabelArray,
      (s.run.view.btnShowEnglishHint.listPieceView.hintLabel t).isHidden = false

/-- What the handlers keep: the display matches the flags, and a flag is set exactly while its press
is in progress. Without labels the English flag does not matter. -/
structure HintInv (s : HintRun) : Prop where
  display : DisplayMatches s.run.view
  hintFlag : s.run.view.hintSelected = s.hintPressed
  englishFlag : s.run.view.listPieceView.hintLabelArray = [] ∨
    s.run.view.listPieceView.englishHintSelected = s.englishPressed

theorem HintInv.hintsMatch (hs : s.HintInv) : s.HintsMatch where
  display := hs.display
  hintShown hpressed slot hslot := by
    rw [AIMQuestionContentView.btnShowHint, hs.hintFlag, hpressed] at hslot
    obtain ⟨old, -, rfl⟩ := mem_map.mp hslot
    rfl
  englishShown hpressed t ht := by
    rcases hs.englishFlag with hnone | hflag
    · have hlabels := (AIMQuestionContentView.btnShowEnglishHint_sameDrag s.run.view).1
      rw [hlabels.hintLabelArray, hnone] at ht
      cases ht
    · rw [AIMQuestionContentView.btnShowEnglishHint, hflag, hpressed] at ht ⊢
      refine AIMListPieceView.showHint_hidden_of_mem ?_ true
      rw [← AIMListPieceView.showHint_hintLabelArray _ true]
      exact ht

/-! ### Events outside the hints -/

theorem hintPress_of_quiet (he : e.isHint = false) (pressed : Bool) :
    e.hintPress pressed = pressed := by
  cases e <;> first | rfl | cases he

theorem englishPress_of_quiet (he : e.isHint = false) (pressed : Bool) :
    e.englishPress pressed = pressed := by
  cases e <;> first | rfl | cases he

/-- What an event outside the hints leaves of a view: some labels may go, and the slots are updated
in a way that keeps their contents shown. -/
structure KeepsHints (v v' : AIMQuestionContentView) : Prop where
  labels : ∀ t ∈ v'.listPieceView.hintLabelArray, t ∈ v.listPieceView.hintLabelArray
  labelHidden : ∀ t,
    (v'.listPieceView.hintLabel t).isHidden = (v.listPieceView.hintLabel t).isHidden
  englishHintSelected :
    v'.listPieceView.englishHintSelected = v.listPieceView.englishHintSelected
  hintSelected : v'.hintSelected = v.hintSelected
  content : (∀ slot ∈ v.listPatternPieceView, slot.ShowsContent) →
    ∀ slot ∈ v'.listPatternPieceView, slot.ShowsContent

theorem KeepsHints.sameDisplay {v w v' : AIMQuestionContentView} (h : KeepsHints v w)
    (same : SameDisplay w v') : KeepsHints v v' where
  labels t ht := h.labels t (same.hintLabelArray ▸ ht)
  labelHidden t := (same.labelHidden t).trans (h.labelHidden t)
  englishHintSelected := same.englishHintSelected.trans h.englishHintSelected
  hintSelected := same.hintSelected.trans h.hintSelected
  content hv slot hslot := h.content hv slot (same.slots ▸ hslot)

/-- A view with other slots that show their contents. -/
theorem keepsHints_slots {v : AIMQuestionContentView} {slots : List AIMPatternPiece}
    (hslots : (∀ slot ∈ v.listPatternPieceView, slot.ShowsContent) →
      ∀ slot ∈ slots, slot.ShowsContent) :
    KeepsHints v { v with listPatternPieceView := slots } :=
  ⟨fun _ ht => ht, fun _ => rfl, rfl, rfl, hslots⟩

theorem HintInv.keeps (hs : s.HintInv) (he : e.isHint = false) {run : QuestionRun}
    (h : KeepsHints s.run.view run.view) :
    HintInv ⟨run, e.hintPress s.hintPressed, e.englishPress s.englishPressed⟩ where
  display := by
    refine ⟨fun t ht => ?_, fun hsel => h.content (hs.display.content (h.hintSelected ▸ hsel))⟩
    rw [h.labelHidden, h.englishHintSelected]
    exact hs.display.english t (h.labels t ht)
  hintFlag := by
    rw [hintPress_of_quiet he]
    exact h.hintSelected.trans hs.hintFlag
  englishFlag := by
    rw [englishPress_of_quiet he]
    rcases hs.englishFlag with hnone | hflag
    · refine .inl (eq_nil_iff_forall_not_mem.mpr fun t ht => ?_)
      have ht := h.labels t ht
      rw [hnone] at ht
      cases ht
    · exact .inr (h.englishHintSelected.trans hflag)

theorem showsContent_tapSlot {slot tapped : AIMPatternPiece} {i j : Nat}
    (h : slot.ShowsContent) : (AIMQuestionContentView.tapSlot i tapped j slot).ShowsContent := by
  unfold AIMQuestionContentView.tapSlot
  split_ifs
  · exact AIMPatternPiece.showsContent_setData _ tapped.type
  · exact h
  · exact h.deselect tapped.type

theorem keepsHints_tapped {v v' : AIMQuestionContentView} {i : Nat} (h : v.hintCase2 i = .ok v') :
    KeepsHints v v' := by
  have hslots {tapped : AIMPatternPiece} (hv : ∀ slot ∈ v.listPatternPieceView, slot.ShowsContent) :
      ∀ slot ∈ v.listPatternPieceView.mapIdx (AIMQuestionContentView.tapSlot i tapped),
        slot.ShowsContent := by
    intro slot hslot
    obtain ⟨j, hj, rfl⟩ := mem_mapIdx.mp hslot
    exact showsContent_tapSlot (hv _ (getElem_mem hj))
  obtain ⟨tapped, -, ⟨-, panel, -, -, rfl⟩ | ⟨-, -, rfl⟩⟩ :=
    AIMQuestionContentView.hintCase2_ok.mp h
  · exact ⟨fun _ ht => ht, fun _ => rfl, rfl, rfl, hslots⟩
  · exact ⟨fun _ ht => ht, fun _ => rfl, rfl, rfl, hslots⟩

theorem keepsHints_placed {v : AIMQuestionContentView} {list : AIMListPieceView} {p : Nat}
    (hlist : v.listPieceView.removePiece p = .ok list) (k : Nat) (c : String) :
    KeepsHints v (v.withPlaced k c list) := by
  obtain ⟨t, -, rfl⟩ := AIMListPieceView.removePiece_ok.mp hlist
  refine ⟨fun t ht => mem_of_mem_filter ht, fun _ => rfl, rfl, rfl, fun hv => ?_⟩
  have hfixed : ∀ slot ∈ v.listPatternPieceView.modify k (·.fixed c), slot.ShowsContent := by
    intro slot hslot
    obtain ⟨j, hj⟩ := mem_iff_getElem?.mp hslot
    rw [getElem?_modify] at hj
    obtain ⟨old, hold, rfl⟩ := Option.map_eq_some_iff.mp hj
    split_ifs
    · show (old.fixed c).contentLabelText = (old.fixed c).currentContent
      rfl
    · exact hv old (mem_of_getElem? hold)
  intro slot hslot
  unfold AIMQuestionContentView.withPlaced shownSlots at hslot
  dsimp only at hslot
  split_ifs at hslot
  · obtain ⟨old, -, rfl⟩ := mem_map.mp hslot
    rfl
  · exact hfixed slot hslot

/-! ### One event -/

theorem hintInv_hintPressed (hs : s.HintInv) :
    HintInv ⟨{ s.run with view := s.run.view.btnShowHint }, true, s.englishPressed⟩ := by
  rw [AIMQuestionContentView.btnShowHint]
  split
  · next hselected => exact ⟨hs.display, hselected, hs.englishFlag⟩
  · exact ⟨⟨hs.display.english, fun hsel => by cases hsel⟩, rfl, hs.englishFlag⟩

theorem showTextPattern_listPieceView (v : AIMQuestionContentView) :
    v.showTextPattern.listPieceView = v.listPieceView := by
  unfold AIMQuestionContentView.showTextPattern
  split <;> rfl

/-- Releasing the hint button shows the contents again. -/
theorem displayMatches_released {v : AIMQuestionContentView} (hv : DisplayMatches v) :
    DisplayMatches v.showTextPattern ∧ v.showTextPattern.hintSelected = false := by
  rw [AIMQuestionContentView.showTextPattern]
  split
  · refine ⟨⟨hv.english, fun _ slot hslot => ?_⟩, rfl⟩
    obtain ⟨old, -, rfl⟩ := mem_map.mp hslot
    split <;> rfl
  · next hselected => exact ⟨hv, Bool.not_eq_true _ ▸ hselected⟩

theorem hintInv_hintReleased (hs : s.HintInv) :
    HintInv ⟨{ s.run with view := s.run.view.showTextPattern }, false, s.englishPressed⟩ := by
  have ⟨hdisplay, hflag⟩ := displayMatches_released hs.display
  refine ⟨hdisplay, hflag, ?_⟩
  show s.run.view.showTextPattern.listPieceView.hintLabelArray = [] ∨
    s.run.view.showTextPattern.listPieceView.englishHintSelected = s.englishPressed
  rw [showTextPattern_listPieceView]
  exact hs.englishFlag

theorem hintInv_englishPressed (hs : s.HintInv) :
    HintInv ⟨{ s.run with view := s.run.view.btnShowEnglishHint }, s.hintPressed, true⟩ := by
  rw [AIMQuestionContentView.btnShowEnglishHint]
  split
  · next hselected => exact ⟨hs.display, hs.hintFlag, .inr hselected⟩
  · refine ⟨⟨fun t ht => ?_, hs.display.content⟩, hs.hintFlag, .inr ?_⟩
    · rw [AIMListPieceView.showHint_hintLabelArray] at ht
      rw [AIMListPieceView.showHint_englishHintSelected]
      exact AIMListPieceView.showHint_hidden_of_mem ht true
    · exact AIMListPieceView.showHint_englishHintSelected _ true

theorem hintInv_englishReleased (hs : s.HintInv) :
    HintInv ⟨{ s.run with view := s.run.view.showEnglishTextPattern }, s.hintPressed, false⟩ := by
  rw [AIMQuestionContentView.showEnglishTextPattern]
  split
  · refine ⟨⟨fun t ht => ?_, hs.display.content⟩, hs.hintFlag, .inr ?_⟩
    · rw [AIMListPieceView.showHint_hintLabelArray] at ht
      rw [AIMListPieceView.showHint_englishHintSelected]
      exact AIMListPieceView.showHint_hidden_of_mem ht false
    · exact AIMListPieceView.showHint_englishHintSelected _ false
  · next hselected => exact ⟨hs.display, hs.hintFlag, .inr (Bool.not_eq_true _ ▸ hselected)⟩

/-- The screen's `cancelTouch` hides the labels, whatever the English flag says. -/
theorem hintInv_resigned (hs : s.HintInv)
    (hunlit : s.run.view.listPieceView.englishHintSelected = true →
      s.run.view.listPieceView.hintLabelArray = []) {run : QuestionRun}
    (same : SameDisplay (AIMQuestionContentView.showTextPattern
      { s.run.view with listPieceView := s.run.view.listPieceView.showHint false }) run.view) :
    HintInv ⟨run, false, false⟩ := by
  have hselected := AIMListPieceView.showHint_englishHintSelected s.run.view.listPieceView false
  have harray := AIMListPieceView.showHint_hintLabelArray s.run.view.listPieceView false
  have hhidden : DisplayMatches
      { s.run.view with listPieceView := s.run.view.listPieceView.showHint false } := by
    refine ⟨fun t ht => ?_, hs.display.content⟩
    rw [harray] at ht
    rw [hselected, AIMListPieceView.showHint_hidden_of_mem ht]
    -- the labels are hidden, but the flag of the button stays as it was
    cases hlit : s.run.view.listPieceView.englishHintSelected with
    | false => rfl
    | true =>
      rw [hunlit hlit] at ht
      cases ht
  have ⟨hdisplay, hflag⟩ := displayMatches_released hhidden
  refine ⟨⟨fun t ht => ?_, fun hsel slot hslot => ?_⟩, same.hintSelected.trans hflag, ?_⟩
  · rw [same.hintLabelArray] at ht
    rw [same.labelHidden, same.englishHintSelected]
    exact hdisplay.english t ht
  · rw [same.slots] at hslot
    exact hdisplay.content hflag slot hslot
  · rw [same.hintLabelArray, same.englishHintSelected, showTextPattern_listPieceView,
      harray, hselected]
    cases hlit : s.run.view.listPieceView.englishHintSelected with
    | false => exact .inr rfl
    | true => exact .inl (hunlit hlit)

theorem hintInv_step (hs : s.HintInv) (he : s.run.Enabled e) (hunlit : s.run.ResignsUnlit e)
    (h : s.step ui e = .ok s') : s'.HintInv := by
  obtain ⟨run, hint, english⟩ := s'
  obtain ⟨hrun, rfl, rfl⟩ := step_ok.mp h
  cases QuestionRun.step_display he hrun with
  | same same _ hquiet =>
    refine hs.keeps hquiet (KeepsHints.sameDisplay ?_ same)
    exact keepsHints_slots fun hv => hv
  | matched same _ =>
    refine hs.keeps rfl (KeepsHints.sameDisplay (keepsHints_slots fun hv slot hslot => ?_) same)
    obtain ⟨j, hj⟩ := mem_iff_getElem?.mp hslot
    rw [getElem?_modify] at hj
    obtain ⟨old, hold, rfl⟩ := Option.map_eq_some_iff.mp hj
    split_ifs <;> exact hv old (mem_of_getElem? hold)
  | tapped _ hv => exact hs.keeps rfl (keepsHints_tapped hv)
  | hintPressed => exact hintInv_hintPressed hs
  | hintReleased => exact hintInv_hintReleased hs
  | englishPressed => exact hintInv_englishPressed hs
  | englishReleased => exact hintInv_englishReleased hs
  | resigned same _ => exact hintInv_resigned hs (hunlit rfl) same
  | placed _ _ hlist same _ =>
    exact hs.keeps rfl (KeepsHints.sameDisplay (keepsHints_placed hlist _ _) same)
  | widened same _ =>
    refine hs.keeps rfl (KeepsHints.sameDisplay (keepsHints_slots fun hv slot hslot => ?_) same)
    have hwidened := widened_expandSlots ui s.run.view.checkFinish s.run.view.listPatternPieceView
    obtain ⟨j, hj⟩ := mem_iff_getElem?.mp hslot
    obtain ⟨old, hold, hw⟩ := Pointwise.forall₂_getElem?_right hwidened hj
    exact (hv old (mem_of_getElem? hold)).widened hw
  | cleared _ same _ =>
    have hclear : KeepsHints s.run.view s.run.view.clearPanel := by
      refine ⟨fun _ ht => ht, fun _ => rfl, rfl, rfl, fun hv slot hslot => ?_⟩
      obtain ⟨old, hold, rfl⟩ := mem_map.mp hslot
      exact hv old hold
    exact hs.keeps rfl (hclear.sameDisplay same)

/-- Resigning while an English hint is shown leaves the labels hidden under a set flag. -/
theorem not_hintsMatch_of_lit (he : s.run.Enabled e) (hlit : ¬ s.run.ResignsUnlit e)
    (h : s.step ui e = .ok s') : ¬ s'.HintsMatch := by
  obtain ⟨run, hint, english⟩ := s'
  obtain ⟨hrun, rfl, rfl⟩ := step_ok.mp h
  rw [QuestionRun.ResignsUnlit, Classical.not_imp, Classical.not_imp] at hlit
  obtain ⟨rfl, hselected, hlabels⟩ := hlit
  intro hmatch
  cases QuestionRun.step_display he hrun with
  | same _ _ hquiet => cases hquiet
  | resigned same _ =>
    obtain ⟨t, ht⟩ := exists_mem_of_ne_nil _ hlabels
    have hlabel : (run.view.listPieceView.hintLabel t).isHidden = true := by
      rw [same.labelHidden, showTextPattern_listPieceView]
      exact AIMListPieceView.showHint_hidden_of_mem ht false
    have hflag : run.view.listPieceView.englishHintSelected = true := by
      rw [same.englishHintSelected, showTextPattern_listPieceView]
      exact (AIMListPieceView.showHint_englishHintSelected _ false).trans hselected
    have hlisted : t ∈ run.view.listPieceView.hintLabelArray := by
      rw [same.hintLabelArray, showTextPattern_listPieceView]
      exact (AIMListPieceView.showHint_hintLabelArray _ false).symm ▸ ht
    have hshown := hmatch.display.english t hlisted
    rw [hlabel, hflag] at hshown
    cases hshown

/-! ## Runs -/

/-- Right after `setData` no hint is shown. -/
theorem hintInv_start {question : AIMQuestion} {v : AIMQuestionContentView}
    (hstart : QuestionRun.Started ui question v) : HintInv (start v) := by
  obtain ⟨draws, pattern, data, list, slots, hlist, hslots, rfl⟩ := hstart
  have ⟨hhidden, hselected⟩ := AIMListPieceView.setData_labels hlist
  refine ⟨⟨fun t _ => ?_, fun _ slot hslot => ?_⟩, rfl, .inr hselected⟩
  · show (list.hintLabel t).isHidden = !list.englishHintSelected
    rw [hhidden, hselected]
    rfl
  · obtain ⟨k, hk⟩ := mem_iff_getElem?.mp hslot
    obtain ⟨type, -, hmade⟩ := makeSlots_getElem? hslots hk
    obtain ⟨-, label, hint, -, -, rfl⟩ := makeSlot_ok.mp hmade
    exact AIMPatternPiece.showsContent_setData _ type

/-- In every run in which the application resigns active only while no English hint is shown, the
display matches the flags in every state and a new press shows its hint; and the next event keeps
this exactly if it is no resigning under a shown hint. -/
theorem hints_match {question : AIMQuestion} {v : AIMQuestionContentView}
    (hstart : QuestionRun.Started ui question v)
    (h : Reaches (step ui) (fun s e => s.run.Enabled e ∧ s.run.ResignsUnlit e) (start v) s) :
    s.HintsMatch ∧ ∀ e s', s.run.Enabled e → s.step ui e = .ok s' →
      (s'.HintsMatch ↔ s.run.ResignsUnlit e) := by
  have hs : s.HintInv := h.inv HintInv (hintInv_start hstart)
    fun _ _ _ hs he hstep => hintInv_step hs he.1 he.2 hstep
  refine ⟨hs.hintsMatch, fun e s' he hstep => ⟨fun hmatch => ?_, fun hunlit => ?_⟩⟩
  · by_contra hlit
    exact not_hintsMatch_of_lit he hlit hstep hmatch
  · exact (hintInv_step hs he hunlit hstep).hintsMatch

/-- The run of the listed events on the view that `setData` makes for `sampleQuestion`. -/
def playSample (ok : HintRun → Event → Prop) [∀ s e, Decidable (ok s e)] (events : List Event) :
    Option HintRun :=
  match AIMQuestionContentView.setData .ascii QuestionRun.sampleQuestion fun _ => 0 with
  | .ok v => play (step .ascii) ok (start v) events
  | .error _ => none

theorem exists_run_of_playSample {ok : HintRun → Event → Prop} [∀ s e, Decidable (ok s e)]
    {events : List Event} {P : HintRun → Bool} (h : (playSample ok events).any P = true) :
    ∃ v s, AIMQuestionContentView.setData .ascii QuestionRun.sampleQuestion (fun _ => 0) = .ok v ∧
      Reaches (step .ascii) ok (start v) s ∧ P s = true := by
  unfold playSample at h
  split at h
  · next v hv =>
    obtain ⟨s, hs, hP⟩ := exists_reaches_of_play h
    exact ⟨v, s, hv, hs, hP⟩
  · cases h

/-- A press and a release of the English button, then a press of the other one that resigning active
ends. -/
theorem hints_match_resigned :
    ∃ v s, AIMQuestionContentView.setData .ascii QuestionRun.sampleQuestion (fun _ => 0) = .ok v ∧
      Reaches (step .ascii) (fun s e => s.run.Enabled e ∧ s.run.ResignsUnlit e) (start v) s ∧
      s.run.view.calls = [.pressedEnglishHintButton, .pressedHintButton] ∧ s.HintsMatch := by
  have hrun : (playSample (fun s e => s.run.Enabled e ∧ s.run.ResignsUnlit e)
      [.btnShowEnglishHint, .showEnglishTextPattern, .btnShowHint, .willResignActive]).any
      (fun s => decide (s.run.view.calls = [.pressedEnglishHintButton, .pressedHintButton])) =
        true := by decide +kernel
  obtain ⟨v, s, hv, hreach, hcalls⟩ := exists_run_of_playSample hrun
  exact ⟨v, s, hv, hreach, of_decide_eq_true hcalls,
    (hints_match (QuestionRun.started_of_setData hv) hreach).1⟩

/-- The application resigns active during a press of the English button: the flag stays set, the
three labels are hidden, and the next press shows none of them. -/
theorem english_hint_stuck :
    ∃ v s, AIMQuestionContentView.setData .ascii QuestionRun.sampleQuestion (fun _ => 0) = .ok v ∧
      Reaches (step .ascii) (fun s e => s.run.Enabled e) (start v) s ∧
      s.englishPressed = false ∧ s.run.view.listPieceView.englishHintSelected = true ∧
      (s.run.view.btnShowEnglishHint.listPieceView.hintLabelArray.map fun t =>
        (s.run.view.btnShowEnglishHint.listPieceView.hintLabel t).isHidden) = [true, true, true] ∧
      ¬ s.HintsMatch := by
  have hrun : (playSample (fun s e => s.run.Enabled e) [.btnShowEnglishHint, .willResignActive]).any
      (fun s => decide (s.englishPressed = false ∧
        s.run.view.listPieceView.englishHintSelected = true ∧
        (s.run.view.btnShowEnglishHint.listPieceView.hintLabelArray.map fun t =>
          (s.run.view.btnShowEnglishHint.listPieceView.hintLabel t).isHidden) =
            [true, true, true])) = true := by decide +kernel
  obtain ⟨v, s, hv, hreach, hend⟩ := exists_run_of_playSample hrun
  have ⟨hpressed, hselected, hlabels⟩ := of_decide_eq_true hend
  refine ⟨v, s, hv, hreach, hpressed, hselected, hlabels, fun hmatch => ?_⟩
  have hshown := hmatch.englishShown hpressed
  have hnone : ∀ b ∈ s.run.view.btnShowEnglishHint.listPieceView.hintLabelArray.map fun t =>
      (s.run.view.btnShowEnglishHint.listPieceView.hintLabel t).isHidden, b = false := by
    intro b hb
    obtain ⟨t, ht, rfl⟩ := mem_map.mp hb
    exact hshown t ht
  rw [hlabels] at hnone
  cases hnone true mem_cons_self

end HintRun

end Imijun
