import Imijun.IdeaPanel
import Imijun.Verdict

/-!
# When a handler of the question view traps

The handlers subscript the slots, the labels and the bars, and unwrap the start point, the proxy's
first centre, the piece on the scroll view and the answer of a piece.

* `TapReady`: what the taps on the idea buttons need, and every event keeps.
* `Handled`: what the other handlers need, while completions come in drop order and touches begin in
  front of the pending pieces.
* `step_traps_iff`: in these runs the only traps are a touch on a piece without a slot, a move or a
  wrong end of a touch whose start point a completion has taken, and the Japanese hint button when
  the finger is dragged off it.
-/

namespace Imijun

open Transition Fallible List

/-! ## The idea buttons -/

namespace AIMQuestionContentView

variable {v v' : AIMQuestionContentView} {i : Nat} {panel : List AIMPatternPiece}

/-- A panel can be made, it has a slot for each slot of the view, and once a button is selected
there is a bar for each of them. -/
structure TapReady (v : AIMQuestionContentView) : Prop where
  made : ∃ panel, v.makePanel = .ok panel
  length : v.patternUIData.listPieceType.length = v.listPatternPieceView.length
  bars : ∀ i, v.IdeaSelected i → v.listPatternPieceView.length ≤ v.backgroundHide.length

/-- The taps need nothing that these fields do not say. -/
theorem TapReady.congr (hv : v.TapReady) (hquestion : v'.question = v.question)
    (hpattern : v'.pattern = v.pattern) (hdata : v'.patternUIData = v.patternUIData)
    (hbars : v'.backgroundHide.length = v.backgroundHide.length)
    (hselected : v'.listPatternPieceView.map (·.ideaSelected) =
      v.listPatternPieceView.map (·.ideaSelected)) : v'.TapReady := by
  have hlength : v'.listPatternPieceView.length = v.listPatternPieceView.length := by
    have hlen := congrArg List.length hselected
    rwa [length_map, length_map] at hlen
  refine ⟨?_, ?_, fun i hi => ?_⟩
  · unfold makePanel
    rw [hquestion, hpattern, hdata]
    exact hv.made
  · rw [hdata, hlength]
    exact hv.length
  · rw [hlength, hbars]
    refine hv.bars i ?_
    unfold IdeaSelected at hi ⊢
    rwa [hselected] at hi

theorem SamePanel.tapReady (h : SamePanel v v') (hv : v.TapReady) : v'.TapReady :=
  hv.congr h.question h.pattern h.patternUIData (congrArg List.length h.bars) h.selected

/-- Clearing the panel hides the bars, and removes none. -/
theorem TapReady.cleared (hv : v.TapReady) (h : SameDisplay v.clearPanel v') : v'.TapReady := by
  refine hv.congr h.question h.pattern h.patternUIData ?_ ?_
  · rw [h.bars]
    exact length_map _
  · rw [h.slots]
    show (v.listPatternPieceView.map _).map _ = _
    rw [map_map]
    rfl

theorem TapReady.tapped (hv : v.TapReady) (h : v.hintCase2 i = .ok v') : v'.TapReady := by
  obtain ⟨tapped, htapped, ⟨-, panel, -, -, rfl⟩ | ⟨hselected, -, rfl⟩⟩ := hintCase2_ok.mp h
  · refine ⟨hv.made, hv.length.trans length_mapIdx.symm, fun j _ => ?_⟩
    show (v.listPatternPieceView.mapIdx _).length ≤
      ((v.backgroundHide ++ panelBars v.patternUIData).mapIdx _).length
    rw [length_mapIdx, length_mapIdx, length_append, panelBars, length_mapIdx, hv.length]
    exact Nat.le_add_left _ _
  · refine ⟨hv.made, hv.length.trans length_mapIdx.symm, fun j hj => ?_⟩
    rw [ideaSelected_tapped htapped rfl, hselected] at hj
    cases hj.2

/-- A tap on a slot of the view does not trap, whichever buttons are selected. -/
theorem TapReady.hintCase2_total (hv : v.TapReady) (hi : i < v.listPatternPieceView.length) :
    ∃ v', v.hintCase2 i = .ok v' := by
  have htapped := getElem?_eq_getElem hi
  cases hselected : v.listPatternPieceView[i].ideaSelected with
  | false =>
    obtain ⟨panel, hpanel⟩ := hv.made
    refine ⟨_, hintCase2_ok.mpr ⟨_, htapped, .inl ⟨hselected, panel, hpanel, ?_, rfl⟩⟩⟩
    rw [hv.length]
    exact Nat.lt_add_left _ hi
  | true =>
    have hbars := hv.bars i ((ideaSelected_iff htapped).mpr hselected)
    exact ⟨_, hintCase2_ok.mpr ⟨_, htapped, .inr ⟨hselected, hi.trans_le hbars, rfl⟩⟩⟩

/-- `cancelTouch` unwraps the chosen piece only while there is a start point. -/
theorem cancelTouch_total (h : v.centerfirtPoint.isSome = true →
    v.currentSelectPieceViewOnScrollview.isSome = true) : ∃ v', v.cancelTouch = .ok v' := by
  have hsame := (showTextPattern_sameDrag v).1
  simp only [cancelTouch, hsame.centerfirtPoint]
  split
  · exact ⟨_, rfl⟩
  · next start hstart =>
    obtain ⟨p, hp⟩ := Option.isSome_iff_exists.mp (h (hstart ▸ rfl))
    have hpiece := hsame.onScrollview.trans hp
    split_ifs
    · exact ⟨_, rfl⟩
    · exact bind_total ⟨p, orThrow_eq_ok.mpr hpiece⟩ fun _ _ => ⟨_, rfl⟩

theorem PanelInv.tapReady (hv : v.PanelInv) (hnone : ∀ i, ¬ v.IdeaSelected i) : v.TapReady :=
  ⟨hv.made, hv.length, fun i hi => absurd hi (hnone i)⟩

end AIMQuestionContentView

namespace QuestionRun

variable {ui : Platform} {s s' : QuestionRun} {e : Event} {hints : List AIMPiece}
  {list : AIMListPieceView} {n : Nat}

theorem tapReady_step (hs : s.view.TapReady) (he : s.Enabled e) (h : s.step ui e = .ok s') :
    s'.view.TapReady := by
  by_cases htap : ∃ i, e = .hintCase2 i
  · obtain ⟨i, rfl⟩ := htap
    obtain ⟨v, hv, h⟩ := bind_eq_ok.mp h
    obtain rfl := Except.ok.inj h
    exact hs.tapped hv
  · rw [not_exists] at htap
    rcases samePanel_or_cleared he htap h with same | ⟨-, same⟩
    · exact same.tapReady hs
    · exact hs.cleared same

/-! ## The touch -/

/-- What the handlers of a touch unwrap. -/
structure TouchReady (s : QuestionRun) : Prop where
  first : s.touch.isSome = true → s.view.currentSelectPieceView.firstCenterPoint.isSome = true
  chosen : s.view.centerfirtPoint.isSome = true →
    s.view.currentSelectPieceViewOnScrollview.isSome = true
  slot : ∀ t, s.touch = some t →
    (s.view.listPieceView.pieceView t.piece).patternIndex < s.view.listPatternPieceView.length

theorem TouchReady.of_keeps (hs : s.TouchReady)
    (hfirst : s'.view.currentSelectPieceView.firstCenterPoint =
      s.view.currentSelectPieceView.firstCenterPoint)
    (honScrollview : s'.view.currentSelectPieceViewOnScrollview =
      s.view.currentSelectPieceViewOnScrollview)
    (hstart : s'.view.centerfirtPoint = s.view.centerfirtPoint ∨ s'.view.centerfirtPoint = none)
    (htouch : s'.touch = s.touch ∨ s'.touch = none)
    (hface : ∀ p, (s'.view.listPieceView.pieceView p).face =
      (s.view.listPieceView.pieceView p).face)
    (hslots : s'.view.listPatternPieceView.length = s.view.listPatternPieceView.length) :
    s'.TouchReady := by
  refine ⟨fun ht => ?_, fun hc => ?_, fun t ht => ?_⟩
  · rw [hfirst]
    rcases htouch with htouch | htouch
    · exact hs.first (htouch ▸ ht)
    · rw [htouch] at ht
      cases ht
  · rw [honScrollview]
    rcases hstart with hstart | hstart
    · exact hs.chosen (hstart ▸ hc)
    · rw [hstart] at hc
      cases hc
  · have hpattern : (s'.view.listPieceView.pieceView t.piece).patternIndex =
        (s.view.listPieceView.pieceView t.piece).patternIndex := congrArg Prod.fst (hface t.piece)
    rw [hpattern, hslots]
    rcases htouch with htouch | htouch
    · exact hs.slot t (htouch ▸ ht)
    · rw [htouch] at ht
      cases ht

theorem TouchReady.of_sameDrag (hs : s.TouchReady) {v : AIMQuestionContentView}
    (same : SameDrag s.view v) {touch : Option Touch} (htouch : touch = s.touch ∨ touch = none)
    (animations : List Animation) :
    TouchReady { s with view := v, touch := touch, animations := animations } :=
  hs.of_keeps same.proxyFirstCenter same.onScrollview (.inl same.centerfirtPoint) htouch
    (fun p => by rw [same.pieceView]) same.slots.length_eq.symm

theorem touchReady_step (hs : s.TouchReady) (he : s.Enabled e) (h : s.step ui e = .ok s') :
    s'.TouchReady := by
  cases step_outcome he h with
  | quiet _ same _ => exact hs.of_sameDrag same (.inl rfl) s.animations
  | @began p location offset slot hslot =>
    refine ⟨fun _ => rfl, fun _ => rfl, fun t ht => ?_⟩
    obtain rfl := Option.some.inj ht
    have hface := AIMListPieceView.hidePiece_face (s.view.listPieceView.setScroll false) p true p
    have hpattern : (((s.view.listPieceView.setScroll false).hidePiece p
        true).pieceView p).patternIndex = (s.view.listPieceView.pieceView p).patternIndex :=
      congrArg Prod.fst hface
    show (((s.view.listPieceView.setScroll false).hidePiece p true).pieceView p).patternIndex < _
    rw [hpattern]
    exact (List.getElem?_eq_some_iff.mp hslot).1
  | accepted _ _ _ hlist =>
    exact hs.of_keeps rfl rfl (.inl rfl) (.inr rfl) (AIMListPieceView.reRender_same hlist).face
      (length_modify ..)
  | wrong _ _ _ _ _ => exact hs.of_keeps rfl rfl (.inl rfl) (.inr rfl) (fun _ => rfl) rfl
  | cancelled => exact hs.of_sameDrag (.refl _) (.inr rfl) s.animations
  | resignedIdle same _ _ => exact hs.of_sameDrag same (.inr rfl) s.animations
  | @resigned w p start same _ _ _ _ =>
    refine (hs.of_sameDrag same (.inr rfl) s.animations).of_keeps rfl rfl (.inr rfl) (.inr rfl)
      ?_ rfl
    cases p with
    | none => exact fun _ => rfl
    | some p => exact AIMListPieceView.hidePiece_face _ _ _
  | @acceptedDone i k p v hi done =>
    obtain ⟨t, -, hlist⟩ := AIMListPieceView.removePiece_ok.mp done.list
    obtain ⟨a, -, hslots⟩ := done.slots
    refine hs.of_keeps ?_ done.onScrollview (.inr done.centerfirtPoint) (.inl rfl) (fun q => ?_) ?_
    · show v.currentSelectPieceView.firstCenterPoint = _
      rw [done.proxy]
    · show (v.listPieceView.pieceView q).face = _
      rw [hlist]
    · exact hslots.length_eq.symm.trans (length_modify ..)
  | returnedDone _ =>
    exact hs.of_keeps rfl rfl (.inr rfl) (.inl rfl) (AIMListPieceView.hidePiece_face _ _ _) rfl
  | animation _ =>
    exact hs.of_sameDrag (AIMQuestionContentView.runAnimation_sameDrag ui s.view _) (.inl rfl) _

/-! ## The handlers of a touch -/

/-- The event stops the program with this trap: a touch begins on a piece whose slot the pattern
does not have, a move or the end of a wrong drop finds no start point, or the finger is dragged off
the Japanese hint button. -/
def TrapsWith (s : QuestionRun) (e : Event) (t : Trap) : Prop :=
  match e with
  | .touchBegan p _ _ => t = .indexOutOfRange ∧
      s.view.listPatternPieceView.length ≤ (s.view.listPieceView.pieceView p).patternIndex
  | .touchMoved _ => t = .missingStartPoint ∧ s.view.centerfirtPoint = none
  | .touchEnded => t = .missingStartPoint ∧ s.view.centerfirtPoint = none ∧ s.WrongDrop
  | .touchDragOutside => t = .unrecognizedSelector
  | _ => False

theorem touchBegan_error {p : Nat} {location offset : CGPoint} {t : Trap} :
    s.step ui (.touchBegan p location offset) = .error t ↔
      s.TrapsWith (.touchBegan p location offset) t := by
  have hsubscript : subscript s.view.listPatternPieceView
      (s.view.listPieceView.pieceView p).patternIndex = .error t ↔
      s.TrapsWith (.touchBegan p location offset) t := by
    unfold subscript
    rw [orThrow_eq_error, getElem?_eq_none_iff, and_comm, @eq_comm _ _ t]
    exact Iff.rfl
  rw [← hsubscript]
  constructor
  · intro h
    rcases bind_eq_error.mp h with h | ⟨v, -, h⟩
    · rcases bind_eq_error.mp h with h | ⟨slot, -, h⟩
      · exact h
      · cases h
    · cases h
  · exact fun h => bind_eq_error.mpr (.inl (bind_eq_error.mpr (.inl h)))

theorem touchMoved_error {location : CGPoint} {t : Trap}
    (hfirst : s.view.currentSelectPieceView.firstCenterPoint.isSome = true) :
    s.step ui (.touchMoved location) = .error t ↔ s.TrapsWith (.touchMoved location) t := by
  obtain ⟨first, hfirst⟩ := Option.isSome_iff_exists.mp hfirst
  constructor
  · intro h
    rcases bind_eq_error.mp h with h | ⟨v, -, h⟩
    · rcases bind_eq_error.mp h with h | ⟨f, -, h⟩
      · rw [hfirst] at h
        cases h
      · rcases bind_eq_error.mp h with h | ⟨start, -, h⟩
        · obtain ⟨hnone, ht⟩ := orThrow_eq_error.mp h
          exact ⟨ht.symm, hnone⟩
        · cases h
    · cases h
  · rintro ⟨rfl, hnone⟩
    refine bind_eq_error.mpr (.inl ?_)
    exact AIMQuestionContentView.movedChoosePieceView_missing.mpr ⟨hfirst ▸ rfl, hnone⟩

/-- With a label for every piece `reRender` runs through, so only a wrong drop can trap. -/
theorem touchEnded_error {u : Touch} {t : Trap} (hu : s.touch = some u)
    (hslot : (s.view.listPieceView.pieceView u.piece).patternIndex <
      s.view.listPatternPieceView.length)
    (hlabels : s.view.listPieceView.pieceViewArray.length ≤
      s.view.listPieceView.hintLabelArray.length) :
    s.step ui .touchEnded = .error t ↔ s.TrapsWith .touchEnded t := by
  have hown := getElem?_eq_getElem hslot
  obtain ⟨list, hrender⟩ := AIMListPieceView.reRender_total hlabels
  simp only [step, hu]
  constructor
  · intro h
    rcases bind_eq_error.mp h with h | ⟨r, -, h⟩
    · rcases bind_eq_error.mp h with h | ⟨r, -, h⟩
      · rcases bind_eq_error.mp h with h | ⟨slot, hslot, h⟩
        · cases (subscript_eq_ok.mpr hown).symm.trans h
        · rw [subscript_eq_ok] at hslot
          split at h
          · rcases bind_eq_error.mp h with h | ⟨w, -, h⟩
            · rcases bind_eq_error.mp h with h | ⟨l, -, h⟩
              · cases hrender.symm.trans h
              · cases h
            · cases h
          · next hfar =>
            rcases bind_eq_error.mp h with h | ⟨w, -, h⟩
            · rcases bind_eq_error.mp h with h | ⟨start, -, h⟩
              · obtain ⟨hnone, ht⟩ := orThrow_eq_error.mp h
                exact ⟨ht.symm, hnone, u, slot, hu, hslot, by simpa using hfar⟩
              · cases h
            · cases h
      · cases h
    · cases h
  · rintro ⟨rfl, hnone, u', slot, hu', hslot', hfar⟩
    obtain rfl := Option.some.inj (hu.symm.trans hu')
    refine bind_eq_error.mpr (.inl (bind_eq_error.mpr (.inl (bind_eq_error.mpr (.inr ?_)))))
    refine ⟨slot, subscript_eq_ok.mpr hslot', ?_⟩
    rw [if_neg (by rw [hfar]; exact Bool.false_ne_true)]
    exact bind_eq_error.mpr (.inl (bind_eq_error.mpr (.inl (orThrow_eq_error.mpr ⟨hnone, rfl⟩))))

theorem willResignActive_total (hs : s.TouchReady) :
    ∃ s', s.step ui .willResignActive = .ok s' := by
  have hsame := AIMQuestionContentView.showHint_sameDrag s.view
    s.view.listPieceView.englishHintSelected false s.view.calls ⟨[], by simp⟩
  refine bind_total (AIMQuestionContentView.cancelTouch_total fun hstart => ?_) fun _ _ => ⟨_, rfl⟩
  rw [hsame.onScrollview]
  exact hs.chosen (hsame.centerfirtPoint ▸ hstart)

/-! ## Runs -/

/-- What the handlers of a run need: the arrays are in step, the pieces are those of `list`, and
nothing that a tap or a touch unwraps is missing. -/
structure Handled (hints : List AIMPiece) (list : AIMListPieceView) (n : Nat) (s : QuestionRun) :
    Prop where
  paired : s.Paired hints
  refs : s.PieceRefs list n
  taps : s.view.TapReady
  touch : s.TouchReady

theorem handled_start {question : AIMQuestion} {draws : Nat → Nat}
    (hlist : AIMQuestionContentView.initAIMListPieceView ui question draws = .ok list)
    {pattern : AIMPattern} {data : PatternUIData} {slots : List AIMPatternPiece}
    (hslots : AIMQuestionContentView.initPatterView question pattern data = .ok slots) :
    Handled question.hints list (AIMListPieceView.pieceCount question.answers)
      (QuestionRun.start (AIMQuestionContentView.fresh question pattern data list slots)) := by
  refine ⟨paired_start hlist pattern data slots, pieceRefs_start hlist pattern data slots, ?_, ?_⟩
  · refine (panelInv_start ⟨draws, pattern, data, list, slots, hlist, hslots, rfl⟩).tapReady ?_
    intro i hi
    obtain ⟨slot, hslot, hselected⟩ := hi.exists_slot
    obtain ⟨type, -, hmade⟩ := makeSlots_getElem? hslots hslot
    obtain ⟨-, label, hint, -, -, rfl⟩ := makeSlot_ok.mp hmade
    cases hselected
  · exact ⟨fun ht => (by cases ht), fun hc => (by cases hc), fun t ht => (by cases ht)⟩

theorem handled_step (hs : s.Handled hints list n) (he : s.Enabled e) (horder : InDropOrder e)
    (hbefore : s.BeforePending e) (h : s.step ui e = .ok s') : s'.Handled hints list n where
  paired := paired_step hs.paired he horder hbefore h
  refs := pieceRefs_step hs.refs he h
  taps := tapReady_step hs.taps he h
  touch := touchReady_step hs.touch he h

/-- The first pending completion runs through. -/
theorem Handled.dropCompletion_total (hs : s.Handled hints list n)
    (hanswered : ∀ p < n, (list.pieceView p).piece.isSome = true) (h0 : 0 < s.drops.length) :
    ∃ s', s.step ui (.dropCompletion 0) = .ok s' := by
  have hfirst := getElem?_eq_getElem h0
  simp only [step, hfirst]
  refine bind_total ?_ fun _ _ => ⟨_, rfl⟩
  cases hc : s.drops[0] with
  | returned p => exact ⟨_, rfl⟩
  | accepted k p =>
    rw [hc] at hfirst
    have hp : p ∈ s.acceptedPieces := mem_acceptedPieces.mpr ⟨k, mem_of_getElem? hfirst⟩
    have hpiece : (s.view.listPieceView.pieceView p).piece.isSome = true := by
      rw [hs.refs.piece]
      exact hanswered p (hs.refs.pending _ (mem_of_getElem? hfirst))
    have htotal := acceptedCompletion_total (k := k) hpiece
      (hs.paired.removePiece hp).1
    exact bind_total htotal fun _ _ => ⟨_, rfl⟩

/-- An event traps exactly as `TrapsWith` says. -/
theorem Handled.step_error_iff (hs : s.Handled hints list n)
    (hanswered : ∀ p < n, (list.pieceView p).piece.isSome = true) (he : s.Enabled e)
    (horder : InDropOrder e) {t : Trap} : s.step ui e = .error t ↔ s.TrapsWith e t := by
  have hruns (h : ∃ s', s.step ui e = .ok s') (hnot : ¬ s.TrapsWith e t) :
      s.step ui e = .error t ↔ s.TrapsWith e t := by
    obtain ⟨s', h⟩ := h
    rw [h]
    exact iff_of_false (fun h => by cases h) hnot
  cases e with
  | touchBegan p location offset => exact touchBegan_error
  | touchMoved location => exact touchMoved_error (hs.touch.first he)
  | touchEnded =>
    obtain ⟨u, hu⟩ := Option.isSome_iff_exists.mp he
    exact touchEnded_error hu (hs.touch.slot u hu) (congrArg List.length hs.paired.same).ge
  | touchCancelled => exact hruns ⟨_, rfl⟩ id
  | willResignActive => exact hruns (willResignActive_total hs.touch) id
  | hintCase2 i =>
    have hi : i < s.view.listPatternPieceView.length := by
      by_contra hi
      rw [Enabled, CanTapIdea, getElem?_eq_none (not_lt.mp hi)] at he
      cases he
    exact hruns (bind_total (hs.taps.hintCase2_total hi) fun _ _ => ⟨_, rfl⟩) id
  | btnShowHint => exact hruns ⟨_, rfl⟩ id
  | showTextPattern => exact hruns ⟨_, rfl⟩ id
  | touchDragOutside => exact Except.error.injEq .unrecognizedSelector t ▸ eq_comm
  | btnShowEnglishHint => exact hruns ⟨_, rfl⟩ id
  | showEnglishTextPattern => exact hruns ⟨_, rfl⟩ id
  | dropCompletion i =>
    obtain rfl : i = 0 := horder
    exact hruns (hs.dropCompletion_total hanswered he) id
  | animationCompletion i =>
    refine hruns ?_ id
    have hi := getElem?_eq_getElem he
    simp only [step, hi]
    exact ⟨_, rfl⟩

theorem handled_of_run {question : AIMQuestion} {draws : Nat → Nat}
    (hlist : AIMQuestionContentView.initAIMListPieceView ui question draws = .ok list)
    {pattern : AIMPattern} {data : PatternUIData} {slots : List AIMPatternPiece}
    (hslots : AIMQuestionContentView.initPatterView question pattern data = .ok slots)
    (h : Reaches (step ui) (fun s e => s.Enabled e ∧ InDropOrder e ∧ s.BeforePending e)
      (QuestionRun.start (AIMQuestionContentView.fresh question pattern data list slots)) s) :
    s.Handled question.hints list (AIMListPieceView.pieceCount question.answers) :=
  h.inv (Handled question.hints list (AIMListPieceView.pieceCount question.answers))
    (handled_start hlist hslots)
    fun _ _ _ hs he hstep => handled_step hs he.1 he.2.1 he.2.2 hstep

theorem answered_of_setData {question : AIMQuestion} {draws : Nat → Nat}
    (hlist : AIMQuestionContentView.initAIMListPieceView ui question draws = .ok list) :
    ∀ p < AIMListPieceView.pieceCount question.answers,
      (list.pieceView p).piece.isSome = true := by
  intro p hp
  obtain ⟨a, -, -, hpiece⟩ := (AIMListPieceView.setData_pieces hlist).answer p hp
  rw [hpiece]
  rfl

/-- In every run in which completions come in drop order and a touch begins in front of all pending
pieces, an event stops the program exactly when a touch begins on a piece whose slot the pattern
does not have, when a move or the end of a wrong drop finds no start point, or when the finger is
dragged off the pressed Japanese hint button. Nothing else traps: no subscript of the labels, the
bars or the panel, no other forced unwrap, and no other hint. -/
theorem step_traps_iff {question : AIMQuestion} {draws : Nat → Nat}
    (hlist : AIMQuestionContentView.initAIMListPieceView ui question draws = .ok list)
    {pattern : AIMPattern} {data : PatternUIData} {slots : List AIMPatternPiece}
    (hslots : AIMQuestionContentView.initPatterView question pattern data = .ok slots)
    (h : Reaches (step ui) (fun s e => s.Enabled e ∧ InDropOrder e ∧ s.BeforePending e)
      (QuestionRun.start (AIMQuestionContentView.fresh question pattern data list slots)) s)
    (he : s.Enabled e) (horder : InDropOrder e) (t : Trap) :
    s.step ui e = .error t ↔ s.TrapsWith e t :=
  (handled_of_run hlist hslots h).step_error_iff (answered_of_setData hlist) he horder

/-- After the run of `completionDuringTouch`, in which all of this is kept, a move and the end of
the touch trap on the start point, and the application may still resign active. -/
theorem step_traps_iff_completion_during_touch :
    ∃ v s, AIMQuestionContentView.setData .ascii sampleQuestion (fun _ => 0) = .ok v ∧
      Reaches (step .ascii) (fun s e => s.Enabled e ∧ InDropOrder e ∧ s.BeforePending e)
        (QuestionRun.start v) s ∧
      s.step .ascii (.touchMoved offSlots) = .error .missingStartPoint ∧
      ∀ t, s.step .ascii .willResignActive ≠ .error t := by
  have hrun : (playQuestion .ascii (fun s e => s.Enabled e ∧ InDropOrder e ∧ s.BeforePending e)
      sampleQuestion (fun _ => 0) completionDuringTouch).any
      (fun s => s.touch.isSome && s.view.centerfirtPoint.isNone) = true := by decide +kernel
  obtain ⟨v, s, hv, hreach, hend⟩ := exists_run_of_playQuestion hrun
  rw [Bool.and_eq_true, Option.isNone_iff_eq_none] at hend
  obtain ⟨draws, pattern, data, list, slots, hlist, hslots, rfl⟩ := started_of_setData hv
  refine ⟨_, s, hv, hreach, ?_, fun t h => ?_⟩
  · exact (step_traps_iff hlist hslots hreach (e := .touchMoved offSlots) hend.1 trivial _).mpr
      ⟨rfl, hend.2⟩
  · exact (step_traps_iff hlist hslots hreach (e := .willResignActive) trivial trivial t).mp h

end QuestionRun

end Imijun
