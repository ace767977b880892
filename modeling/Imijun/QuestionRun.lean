import Imijun.ContentView
import Imijun.Lib.Transition

/-!
# Runs of one question

The question view together with what UIKit holds for it: the touch in progress and the completions
that have not run yet. `step` is one event of the main queue; `Enabled` says when UIKit (or the
user) can cause it. Each claim about runs adds its own restrictions to `Enabled`.

`history` and `finished` are bookkeeping of the proofs: no handler reads them. `history` lists all
drops at the moment they are made, `finished` lists them when they are through, an accepted one
with its completion and a wrong one at once.
-/

namespace Imijun

open Transition

/-- The touch in progress: the piece it began on, and where the centre of that piece was. -/
structure Touch where
  piece : Nat
  startCenter : CGPoint
  deriving DecidableEq, Repr

/-- A drop: the piece, the centre of the proxy, the centre of the piece's own slot at that moment,
and whether the code accepted it. -/
structure Drop where
  piece : Nat
  point : CGPoint
  slotCenter : CGPoint
  accepted : Bool
  deriving DecidableEq, Repr

structure FinishedDrop where
  piece : Nat
  accepted : Bool
  deriving DecidableEq, Repr

structure QuestionRun where
  view : AIMQuestionContentView
  touch : Option Touch
  drops : List DropCompletion
  animations : List Animation
  history : List Drop
  finished : List FinishedDrop

inductive Event
  | touchBegan (piece : Nat) (location contentOffset : CGPoint)
  | touchMoved (location : CGPoint)
  | touchEnded
  /-- the system cancels the touch: `AIMPieceView` has no `touchesCancelled` -/
  | touchCancelled
  /-- the application resigns active: the controller's `cancelTouch` runs, and the touch is gone -/
  | willResignActive
  | hintCase2 (slot : Nat)
  | btnShowHint
  | showTextPattern
  /-- the finger leaves the Japanese hint button: the nib sends `showTextPattern:`, but the method
  of the view is `showTextPatternWithSender:` -/
  | touchDragOutside
  | btnShowEnglishHint
  | showEnglishTextPattern
  /-- the completion of the `i`-th pending drop, counted from the oldest -/
  | dropCompletion (i : Nat)
  | animationCompletion (i : Nat)
  deriving DecidableEq, Repr

/-- The finger is dragged off the Japanese hint button. -/
def Event.leavesHint : Event → Bool
  | .touchDragOutside => true
  | _ => false

/-- The touches on pieces, and the completions. -/
def Event.isDrag : Event → Bool
  | .touchBegan _ _ _ | .touchMoved _ | .touchEnded | .dropCompletion _ | .animationCompletion _ =>
    true
  | _ => false

/-- A condition on the piece on which a touch begins. -/
def Event.AtTouch (P : Nat → Prop) : Event → Prop
  | .touchBegan p _ _ => P p
  | _ => True

instance (P : Nat → Prop) [DecidablePred P] (e : Event) : Decidable (e.AtTouch P) := by
  cases e <;> dsimp only [Event.AtTouch] <;> infer_instance

/-- A condition on the position of a drop completion that runs. -/
def Event.AtDropCompletion (P : Nat → Prop) : Event → Prop
  | .dropCompletion i => P i
  | _ => True

instance (P : Nat → Prop) [DecidablePred P] (e : Event) : Decidable (e.AtDropCompletion P) := by
  cases e <;> dsimp only [Event.AtDropCompletion] <;> infer_instance

/-- A condition on the slot whose idea button is tapped. -/
def Event.AtIdeaTap (P : Nat → Prop) : Event → Prop
  | .hintCase2 i => P i
  | _ => True

instance (P : Nat → Prop) [DecidablePred P] (e : Event) : Decidable (e.AtIdeaTap P) := by
  cases e <;> dsimp only [Event.AtIdeaTap] <;> infer_instance

namespace DropCompletion

def piece : DropCompletion → Nat
  | .accepted _ p => p
  | .returned p => p

def isAccepted : DropCompletion → Bool
  | .accepted _ _ => true
  | .returned _ => false

end DropCompletion

namespace QuestionRun

def start (view : AIMQuestionContentView) : QuestionRun where
  view := view
  touch := none
  drops := []
  animations := []
  history := []
  finished := []

/-- Where the drop of piece `p` stands when the touch ends. -/
def dropOf (s : QuestionRun) (p : Nat) (accepted : Bool) : Drop where
  piece := p
  point := s.view.currentSelectPieceView.frame.center
  slotCenter :=
    match s.view.listPatternPieceView[(s.view.listPieceView.pieceView p).patternIndex]? with
    | some slot => slot.frame.center
    | none => ⟨0, 0⟩
  accepted := accepted

/-- The state after a touch on piece `p` has ended in a drop with the given completion. -/
def dropped (s : QuestionRun) (view : AIMQuestionContentView) (p : Nat)
    (completion : DropCompletion) : QuestionRun where
  view := view
  touch := none
  drops := s.drops ++ [completion]
  animations := s.animations
  history := s.history ++ [s.dropOf p completion.isAccepted]
  finished := s.finished ++ if completion.isAccepted then [] else [⟨p, false⟩]

/-- The state after the completion `i` has run. -/
def completed (s : QuestionRun) (i : Nat) (completion : DropCompletion)
    (view : AIMQuestionContentView) (animations : List Animation) : QuestionRun where
  view := view
  touch := s.touch
  drops := s.drops.eraseIdx i
  animations := s.animations ++ animations
  history := s.history
  finished := s.finished ++ if completion.isAccepted then [⟨completion.piece, true⟩] else []

/-- One event. An event that UIKit cannot deliver changes nothing. -/
def step (ui : Platform) (s : QuestionRun) : Event → Except Trap QuestionRun
  | .touchBegan p location contentOffset => do
    let v ← s.view.tapAIMPieceView p location contentOffset
    return { s with view := v, touch := some ⟨p, s.view.centerInSelf p contentOffset⟩ }
  | .touchMoved location => do
    let v ← s.view.movedChoosePieceView location
    return { s with view := v }
  | .touchEnded =>
    match s.touch with
    | none => .ok s
    | some touch => do
      let (v, completion) ← s.view.endMovedAIMPieceView touch.piece
      return s.dropped v touch.piece completion
  | .touchCancelled => .ok { s with touch := none }
  | .willResignActive => do
    let v ← s.view.resignActive
    return { s with view := v, touch := none }
  | .hintCase2 i => do
    let v ← s.view.hintCase2 i
    return { s with view := v }
  | .btnShowHint => .ok { s with view := s.view.btnShowHint }
  | .showTextPattern => .ok { s with view := s.view.showTextPattern }
  | .touchDragOutside => .error .unrecognizedSelector
  | .btnShowEnglishHint => .ok { s with view := s.view.btnShowEnglishHint }
  | .showEnglishTextPattern => .ok { s with view := s.view.showEnglishTextPattern }
  | .dropCompletion i =>
    match s.drops[i]? with
    | none => .ok s
    | some completion => do
      let (v, animations) ← s.view.runDropCompletion completion
      return s.completed i completion v animations
  | .animationCompletion i =>
    match s.animations[i]? with
    | none => .ok s
    | some animation =>
      let (v, animations) := s.view.runAnimation ui animation
      .ok { s with view := v, animations := s.animations.eraseIdx i ++ animations }

/-! ## When an event can occur -/

/-- A touch can begin on piece `p`: no other touch is in progress, the piece is visible in the list,
and the content view, the list view and the scroll view take touches. -/
def CanBegin (s : QuestionRun) (p : Nat) : Prop :=
  s.touch = none ∧ p ∈ s.view.listPieceView.pieceViewArray ∧
    (s.view.listPieceView.pieceView p).isHidden = false ∧
    s.view.isUserInteractionEnabled = true ∧
    s.view.listPieceView.isUserInteractionEnabled = true ∧
    s.view.listPieceView.scrollInteractionEnabled = true

instance (s : QuestionRun) (p : Nat) : Decidable (s.CanBegin p) := by
  unfold CanBegin; infer_instance

/-- The idea button of slot `i` can be tapped. -/
def CanTapIdea (s : QuestionRun) (i : Nat) : Prop :=
  (s.view.listPatternPieceView[i]?).any (fun slot => slot.ideaEnabled && !slot.ideaHidden) = true

instance (s : QuestionRun) (i : Nat) : Decidable (s.CanTapIdea i) := by
  unfold CanTapIdea; infer_instance

def Enabled (s : QuestionRun) : Event → Prop
  | .touchBegan p _ _ => s.CanBegin p
  | .touchMoved _ | .touchEnded | .touchCancelled => s.touch.isSome = true
  | .hintCase2 i => s.CanTapIdea i
  | .dropCompletion i => i < s.drops.length
  | .animationCompletion i => i < s.animations.length
  -- `touchDown` has shown the hints
  | .touchDragOutside => s.view.hintSelected = true
  | .willResignActive | .btnShowHint | .showTextPattern | .btnShowEnglishHint
  | .showEnglishTextPattern => True

instance (s : QuestionRun) (e : Event) : Decidable (s.Enabled e) := by
  cases e <;> dsimp only [Enabled] <;> infer_instance

/-- The pieces whose accepted drop is pending, in the order of the drops. -/
def acceptedPieces (s : QuestionRun) : List Nat :=
  (s.drops.filter (·.isAccepted)).map (·.piece)

/-- Piece `p` stands before piece `q` in the list. -/
def StandsBefore (s : QuestionRun) (p q : Nat) : Prop :=
  s.view.listPieceView.pieceViewArray.idxOf p < s.view.listPieceView.pieceViewArray.idxOf q

instance (s : QuestionRun) (p q : Nat) : Decidable (s.StandsBefore p q) := by
  unfold StandsBefore; infer_instance

/-- UIKit withholds the touches of a view whose frame is animated. While an accepted drop is pending
these are the pieces standing after the dropped one, which `reRender` moves. -/
def AtRest (s : QuestionRun) (e : Event) : Prop :=
  e.AtTouch fun p => ∀ q ∈ s.acceptedPieces, ¬ s.StandsBefore q p

instance (s : QuestionRun) (e : Event) : Decidable (s.AtRest e) := by
  unfold AtRest; infer_instance

/-! ## Starting a run -/

/-- The question view right after `setData`, for any entry `data` of the pattern table and any
shuffle. -/
def Started (ui : Platform) (question : AIMQuestion) (v : AIMQuestionContentView) : Prop :=
  ∃ draws pattern data list slots,
    AIMQuestionContentView.initAIMListPieceView ui question draws = .ok list ∧
    AIMQuestionContentView.initPatterView question pattern data = .ok slots ∧
    v = AIMQuestionContentView.fresh question pattern data list slots

/-- The parts that `setData` puts a view together from. -/
theorem setData_ok {ui : Platform} {question : AIMQuestion} {draws : Nat → Nat}
    {v : AIMQuestionContentView}
    (h : AIMQuestionContentView.setData ui question draws = .ok v) :
    ∃ pattern data list slots, question.pattern = some pattern ∧
      AIMQuestionContentView.patternEntry pattern = .ok data ∧
      AIMQuestionContentView.initAIMListPieceView ui question draws = .ok list ∧
      AIMQuestionContentView.initPatterView question pattern data = .ok slots ∧
      v = AIMQuestionContentView.fresh question pattern data list slots := by
  obtain ⟨list, hlist, h⟩ := Fallible.bind_eq_ok.mp h
  obtain ⟨pattern, hpattern, h⟩ := Fallible.bind_eq_ok.mp h
  obtain ⟨data, hdata, h⟩ := Fallible.bind_eq_ok.mp h
  obtain ⟨slots, hslots, h⟩ := Fallible.bind_eq_ok.mp h
  rw [Fallible.orThrow_eq_ok] at hpattern
  exact ⟨pattern, data, list, slots, hpattern, hdata, hlist, hslots, (Except.ok.inj h).symm⟩

/-- What `setData` returns is such a view. -/
theorem started_of_setData {ui : Platform} {question : AIMQuestion} {draws : Nat → Nat}
    {v : AIMQuestionContentView}
    (h : AIMQuestionContentView.setData ui question draws = .ok v) : Started ui question v := by
  obtain ⟨pattern, data, list, slots, -, -, hlist, hslots, hv⟩ := setData_ok h
  exact ⟨draws, pattern, data, list, slots, hlist, hslots, hv⟩

/-- The run of the listed events on the view that `setData` makes for `question`. -/
def playQuestion (ui : Platform) (ok : QuestionRun → Event → Prop) [∀ s e, Decidable (ok s e)]
    (question : AIMQuestion) (draws : Nat → Nat) (events : List Event) : Option QuestionRun :=
  match AIMQuestionContentView.setData ui question draws with
  | .ok v => play (step ui) ok (start v) events
  | .error _ => none

theorem exists_run_of_playQuestion {ui : Platform} {ok : QuestionRun → Event → Prop}
    [∀ s e, Decidable (ok s e)] {question : AIMQuestion} {draws : Nat → Nat} {events : List Event}
    {P : QuestionRun → Bool} (h : (playQuestion ui ok question draws events).any P = true) :
    ∃ v s, AIMQuestionContentView.setData ui question draws = .ok v ∧
      Reaches (step ui) ok (start v) s ∧ P s = true := by
  unfold playQuestion at h
  split at h
  · next v hv =>
    obtain ⟨s, hs, hP⟩ := exists_reaches_of_play h
    exact ⟨v, s, hv, hs, hP⟩
  · cases h

/-- A question of the third pattern with three pieces: "I", "am" and "Akira" on the slots `0`, `1`,
`2`, and no piece for the slots `3` and `4`. -/
def sampleQuestion : AIMQuestion where
  index := "1"
  content := "僕はアキラです"
  pattern := some ⟨"3", ["だれが", "です", "だれ・なに", "どこ", "いつ"].map AIMPiece.mk⟩
  hints := ["僕は", "です", "アキラ", "", ""].map AIMPiece.mk
  answers := ["I", "am", "Akira", "", ""].map AIMPiece.mk

theorem sampleQuestion_parts {ui : Platform} {draws : Nat → Nat} {v : AIMQuestionContentView}
    (h : AIMQuestionContentView.setData ui sampleQuestion draws = .ok v) :
    ∃ pattern list slots, sampleQuestion.pattern = some pattern ∧
      AIMQuestionContentView.initAIMListPieceView ui sampleQuestion draws = .ok list ∧
      AIMQuestionContentView.initPatterView sampleQuestion pattern ⟨5, [1, 1, 1, 1, 1]⟩ =
        .ok slots ∧
      v = AIMQuestionContentView.fresh sampleQuestion pattern ⟨5, [1, 1, 1, 1, 1]⟩ list slots := by
  obtain ⟨pattern, data, list, slots, hpattern, hdata, hlist, hslots, hv⟩ := setData_ok h
  obtain rfl := Option.some.inj hpattern
  have hentry : AIMQuestionContentView.patternEntry
      ⟨"3", ["だれが", "です", "だれ・なに", "どこ", "いつ"].map AIMPiece.mk⟩ =
      .ok ⟨5, [1, 1, 1, 1, 1]⟩ := by decide +kernel
  obtain rfl := Except.ok.inj (hdata.symm.trans hentry)
  exact ⟨_, list, slots, rfl, hlist, hslots, hv⟩

/-- The middle of the `i`-th piece in the list of `sampleQuestion`. -/
def inList (i : Nat) : CGPoint := ⟨120 + 205 * i, 547⟩

/-- The middle of slot `i` of `sampleQuestion`. -/
def onSlot (i : Nat) : CGPoint := ⟨280.5 + 152 * i, 239.5⟩

/-- A point far from every slot. -/
def offSlots : CGPoint := ⟨300, 500⟩

/-- Piece `p`, whose middle is at `start`, is taken there and let go at `point`. -/
def drag (p : Nat) (start point : CGPoint) : List Event :=
  [.touchBegan p start ⟨0, 0⟩, .touchMoved point, .touchEnded]

end QuestionRun

end Imijun
