import Imijun.QuestionRun

/-!
# The question screen

`AIMQuestionAnswerScreenViewController` and its callbacks. Content views are objects:
`contentViews` gives the run of the view that was made under a number, `subviews` the numbers of
those in the view hierarchy. A question switch makes the next view and starts a 0.5 s transition;
its completion, which has captured the new view, is kept in `transitions`, oldest first.

The calls that a handler of a content view makes to its delegate are delivered to the screen in
order, after the handler: no handler reads what the screen does with them.

`removed`, `installed` and `LogEntry.source` are bookkeeping of the proofs.
-/

namespace Imijun

open Transition Fallible

/-- The traps of the screen's handlers. -/
inductive ScreenTrap
  /-- `currentChapter.questions` is subscripted outside its bounds -/
  | questionOutOfRange
  /-- `Int(currentChapter.index)!` while the index is no number -/
  | unexpectedNil
  /-- a trap inside a content view -/
  | content (trap : Trap)
  deriving DecidableEq, Repr

/-- A handler of a content view, called by the screen. -/
def inContent {α : Type} (x : Except Trap α) : Except ScreenTrap α :=
  match x with
  | .ok a => .ok a
  | .error trap => .error (.content trap)

@[simp] theorem inContent_eq_ok {α : Type} {x : Except Trap α} {a : α} :
    inContent x = .ok a ↔ x = .ok a := by
  cases x <;> simp [inContent]

/-- A call of `AIMLogManager.record`; `source` is the content view and the delegate call it comes
from, `none` for the screen's own records. -/
structure LogEntry where
  record : LogRecord
  source : Option (Nat × Call)
  deriving DecidableEq, Repr

/-- What the screen asks of its navigation controller. -/
inductive Pop
  | popToQuestionChoice
  | popViewController
  deriving DecidableEq, Repr

structure AIMQuestionAnswerScreenViewController where
  currentChapter : AIMChapter
  currentPositionQuestion : Int
  chapterType : Log.ChapterType
  /-- the title of `navi.rightButton` -/
  rightButtonTitle : String
  lbTitle : String
  lbSubTitle : String
  currentQuestionContentView : Nat
  contentViews : Nat → QuestionRun
  /-- the number of the next content view -/
  created : Nat
  subviews : List Nat
  transitions : List Nat
  pops : List Pop
  log : List LogEntry
  removed : List Nat
  installed : List Nat

/-- What a tap or a callback of the screen can be. -/
inductive ScreenEvent
  /-- a tap on the right button; `draws` shuffles the pieces of the next view -/
  | rightButtonTap (draws : Nat → Nat)
  | leftButtonTap (draws : Nat → Nat)
  /-- the completion of the oldest transition -/
  | transitionCompletion
  /-- an event of a content view -/
  | inView (view : Nat) (event : Event)
  /-- a `finishAtCurrentQuestion` callback from anywhere -/
  | finishAtCurrentQuestion

/-- The columns of a Drag record that say what was dropped, and where. -/
structure DragColumns where
  objectName : String
  objectType : String
  boxResult : String
  result : String
  deriving DecidableEq, Repr

/-- The body of `endDragPiece` up to the record. -/
def dragColumns (piece : AIMPieceView) (patternPieceIndex : Int) : DragColumns where
  objectName := piece.contentLabelText
  objectType := Log.ObjectKind.Piece.rawValue ++ toString (piece.index + 1)
  boxResult :=
    if patternPieceIndex = -1 then "-"
    else if patternPieceIndex = piece.patternIndex then "BOX" ++ toString (piece.patternIndex + 1)
    else "BOX" ++ toString (patternPieceIndex + 1)
  result :=
    if patternPieceIndex = -1 then Log.Resutl.Discontinuity.rawValue
    else if patternPieceIndex = piece.patternIndex then Log.Resutl.Right.rawValue
    else Log.Resutl.Wrong.rawValue

namespace AIMQuestionAnswerScreenViewController

/-- `currentChapter.questions[i]`. -/
def question (s : AIMQuestionAnswerScreenViewController) (i : Int) :
    Except ScreenTrap AIMQuestion :=
  if i < 0 then .error .questionOutOfRange
  else orThrow s.currentChapter.questions[i.toNat]? .questionOutOfRange

/-- `Int(index)! % 8 + Int(index)! / 8`. -/
def chapterNumber (s : AIMQuestionAnswerScreenViewController) : Except ScreenTrap Int := do
  let index ← orThrow (swiftInt s.currentChapter.index) .unexpectedNil
  return index.tmod 8 + index.tdiv 8

/-- `currentPositionQuestion >= questions.count - 1`. -/
def atLastQuestion (s : AIMQuestionAnswerScreenViewController) : Bool :=
  decide (s.currentPositionQuestion ≥ (s.currentChapter.questions.length : Int) - 1)

/-! ## Records -/

/-- A call of `record` with the columns every handler of the screen fills in the same way. -/
def record (s : AIMQuestionAnswerScreenViewController) (actionName : Log.ActionName)
    (objectName objectType boxResult result : String) (source : Option (Nat × Call)) :
    Except ScreenTrap AIMQuestionAnswerScreenViewController := do
  let chapterNumber ← s.chapterNumber
  let question ← s.question s.currentPositionQuestion
  let record : LogRecord := {
    screenName := Log.ScreenName.AnswerAndQuestion.rawValue
    actionName := actionName.rawValue
    objectName, objectType, boxResult, result
    questionType := s.chapterType.rawValue
    chapterNumber := toString chapterNumber
    questionNumber := question.index }
  return { s with log := s.log ++ [⟨record, source⟩] }

/-- The record of a tap on a button. -/
def recordTap (s : AIMQuestionAnswerScreenViewController) (button : Log.ObjectName)
    (source : Option (Nat × Call)) : Except ScreenTrap AIMQuestionAnswerScreenViewController :=
  s.record .Tap button.rawValue Log.ObjectKind.Button.rawValue "-" Log.Resutl.Success.rawValue
    source

/-- The record of a question that appears. -/
def recordDisplay (s : AIMQuestionAnswerScreenViewController) :
    Except ScreenTrap AIMQuestionAnswerScreenViewController := do
  let question ← s.question s.currentPositionQuestion
  s.record .Display question.content Log.ObjectKind.Screen.rawValue "-"
    Log.Resutl.Success.rawValue none

/-! ## Switching questions -/

/-- A new content view joins the hierarchy. -/
def addContentView (s : AIMQuestionAnswerScreenViewController) (view : AIMQuestionContentView) :
    AIMQuestionAnswerScreenViewController :=
  { s with
    contentViews := Function.update s.contentViews s.created (QuestionRun.start view)
    created := s.created + 1
    subviews := s.subviews ++ [s.created] }

/-- The common part of the two switch animations: the new view, and the transition to it. -/
def switchTo (ui : Platform) (s : AIMQuestionAnswerScreenViewController) (question : AIMQuestion)
    (draws : Nat → Nat) (title : String) :
    Except ScreenTrap AIMQuestionAnswerScreenViewController := do
  let view ← inContent (AIMQuestionContentView.setData ui question draws)
  return { s.addContentView view with
    rightButtonTitle := title
    transitions := s.transitions ++ [s.created] }

def switchQuestionAnimation (ui : Platform) (s : AIMQuestionAnswerScreenViewController)
    (question : AIMQuestion) (draws : Nat → Nat) :
    Except ScreenTrap AIMQuestionAnswerScreenViewController :=
  s.switchTo ui question draws (if s.atLastQuestion then kClose else kSkip)

def switchPreviousQuestionAnimation (ui : Platform) (s : AIMQuestionAnswerScreenViewController)
    (question : AIMQuestion) (draws : Nat → Nat) :
    Except ScreenTrap AIMQuestionAnswerScreenViewController :=
  s.switchTo ui question draws kSkip

/-- `navi.lbSubTitle.text = "Question " + ...`. -/
def setSubTitle (s : AIMQuestionAnswerScreenViewController) (indexQuestion : Int) :
    Except ScreenTrap AIMQuestionAnswerScreenViewController := do
  let chapterNumber ← s.chapterNumber
  let question ← s.question indexQuestion
  return { s with lbSubTitle := "Question " ++ toString chapterNumber ++ "-" ++ question.index }

def setDataOnGuiWhenSwitchQuestion (ui : Platform) (s : AIMQuestionAnswerScreenViewController)
    (indexQuestion : Int) (draws : Nat → Nat) :
    Except ScreenTrap AIMQuestionAnswerScreenViewController := do
  let s ← s.setSubTitle indexQuestion
  if indexQuestion > 0 then
    let question ← s.question indexQuestion
    s.switchQuestionAnimation ui question draws
  else return s

/-- The screen as its storyboard makes it, before `viewDidLoad`; `title` is the title that the nib
of the navigation bar gives the right button. -/
def loaded (chapter : AIMChapter) (chapterType : Log.ChapterType) (title : String) :
    AIMQuestionAnswerScreenViewController where
  currentChapter := chapter
  currentPositionQuestion := 0
  chapterType := chapterType
  rightButtonTitle := title
  lbTitle := ""
  lbSubTitle := ""
  currentQuestionContentView := 0
  contentViews := fun _ => QuestionRun.start
    (.fresh ⟨"", "", none, [], []⟩ ⟨"", []⟩ ⟨0, []⟩ (.loadFromNibWithBundle kAnswerViewFrame) [])
  created := 0
  subviews := []
  transitions := []
  pops := []
  log := []
  removed := []
  installed := []

def viewDidLoad (ui : Platform) (s : AIMQuestionAnswerScreenViewController) (draws : Nat → Nat) :
    Except ScreenTrap AIMQuestionAnswerScreenViewController := do
  let s := { s with lbTitle := titleString s.currentChapter.title }
  let s ← s.setDataOnGuiWhenSwitchQuestion ui s.currentPositionQuestion draws
  let question ← s.question s.currentPositionQuestion
  let view ← inContent (AIMQuestionContentView.setData ui question draws)
  let s := { s.addContentView view with currentQuestionContentView := s.created }
  s.recordDisplay

/-! ## Taps -/

def rightButtonTap (ui : Platform) (s : AIMQuestionAnswerScreenViewController)
    (draws : Nat → Nat) : Except ScreenTrap AIMQuestionAnswerScreenViewController :=
  if s.rightButtonTitle = kNext ∨ s.rightButtonTitle = kSkip then do
    let s ← s.recordTap (if s.rightButtonTitle = kNext then .NextButton else .SkipButton) none
    let s := { s with currentPositionQuestion := s.currentPositionQuestion + 1 }
    let s ← s.setDataOnGuiWhenSwitchQuestion ui s.currentPositionQuestion draws
    s.recordDisplay
  else do
    let s ← s.recordTap .CloseButton none
    return { s with pops := s.pops ++ [.popToQuestionChoice] }

def leftButtonTap (ui : Platform) (s : AIMQuestionAnswerScreenViewController)
    (draws : Nat → Nat) : Except ScreenTrap AIMQuestionAnswerScreenViewController := do
  let s ← s.recordTap .BackButton none
  if s.currentPositionQuestion = 0 then
    return { s with pops := s.pops ++ [.popViewController] }
  else
    let s := { s with currentPositionQuestion := s.currentPositionQuestion - 1 }
    let s ← s.setSubTitle s.currentPositionQuestion
    let question ← s.question s.currentPositionQuestion
    let s ← s.switchPreviousQuestionAnimation ui question draws
    s.recordDisplay

/-- The completion of a transition to the view `view`. -/
def transitionCompletion (s : AIMQuestionAnswerScreenViewController) (view : Nat) :
    AIMQuestionAnswerScreenViewController :=
  { s with
    subviews := s.subviews.filter (· ≠ s.currentQuestionContentView)
    removed := s.removed ++ [s.currentQuestionContentView]
    currentQuestionContentView := view
    installed := s.installed ++ [view] }

/-! ## Callbacks of the content views -/

def finishAtCurrentQuestion (s : AIMQuestionAnswerScreenViewController)
    (source : Option (Nat × Call)) : Except ScreenTrap AIMQuestionAnswerScreenViewController := do
  let s ← s.record .Display Log.ObjectName.ImijunBox.rawValue Log.ObjectKind.ImijunBox.rawValue
    "-" Log.Resutl.Right.rawValue source
  return { s with rightButtonTitle := if s.atLastQuestion then kClose else kNext }

def endDragPiece (s : AIMQuestionAnswerScreenViewController) (piece : AIMPieceView)
    (patternPieceIndex : Int) (source : Option (Nat × Call)) :
    Except ScreenTrap AIMQuestionAnswerScreenViewController :=
  let columns := dragColumns piece patternPieceIndex
  s.record .Drag columns.objectName columns.objectType columns.boxResult columns.result source

/-- The delegate method for a call of content view `view`. -/
def delegate (view : Nat) (s : AIMQuestionAnswerScreenViewController) (call : Call) :
    Except ScreenTrap AIMQuestionAnswerScreenViewController :=
  match call with
  | .endDragPiece piece patternPieceIndex =>
    s.endDragPiece piece patternPieceIndex (some (view, call))
  | .finishAtCurrentQuestion => s.finishAtCurrentQuestion (some (view, call))
  | .pressedHintButton => s.recordTap .JapaneseHintButton (some (view, call))
  | .pressedEnglishHintButton => s.recordTap .EnglishHintButton (some (view, call))
  | .playAudio _ => .ok s

/-- An event of content view `view`, and the delivery of the calls it makes. -/
def inView (ui : Platform) (s : AIMQuestionAnswerScreenViewController) (view : Nat)
    (event : Event) : Except ScreenTrap AIMQuestionAnswerScreenViewController := do
  let run ← inContent ((s.contentViews view).step ui event)
  let calls := run.view.calls.drop (s.contentViews view).view.calls.length
  calls.foldlM (delegate view)
    { s with contentViews := Function.update s.contentViews view run }

/-! ## Runs of the screen -/

def step (ui : Platform) (s : AIMQuestionAnswerScreenViewController) :
    ScreenEvent → Except ScreenTrap AIMQuestionAnswerScreenViewController
  | .rightButtonTap draws => s.rightButtonTap ui draws
  | .leftButtonTap draws => s.leftButtonTap ui draws
  | .transitionCompletion =>
    match s.transitions with
    | [] => .ok s
    | view :: transitions => .ok { s.transitionCompletion view with transitions := transitions }
  | .inView view event => s.inView ui view event
  | .finishAtCurrentQuestion => s.finishAtCurrentQuestion none

/-- When an event can occur: a touch needs its view in the hierarchy, a completion does not. The
screen passes a resignation on to the current view. -/
def Enabled (s : AIMQuestionAnswerScreenViewController) : ScreenEvent → Prop
  | .rightButtonTap _ | .leftButtonTap _ | .finishAtCurrentQuestion => True
  | .transitionCompletion => s.transitions ≠ []
  | .inView view event => view < s.created ∧ (s.contentViews view).Enabled event ∧
    match event with
    | .dropCompletion _ | .animationCompletion _ => True
    | .willResignActive => view = s.currentQuestionContentView
    | _ => view ∈ s.subviews

instance (s : AIMQuestionAnswerScreenViewController) (e : ScreenEvent) : Decidable (s.Enabled e) :=
  match e with
  | .rightButtonTap _ | .leftButtonTap _ | .finishAtCurrentQuestion => instDecidableTrue
  | .transitionCompletion => inferInstanceAs (Decidable (s.transitions ≠ []))
  | .inView view event =>
    match event with
    | .dropCompletion _ | .animationCompletion _ => inferInstanceAs (Decidable (_ ∧ _ ∧ True))
    | .willResignActive =>
      inferInstanceAs (Decidable (_ ∧ _ ∧ view = s.currentQuestionContentView))
    | .touchBegan _ _ _ | .touchMoved _ | .touchEnded | .touchCancelled | .hintCase2 _
    | .btnShowHint | .showTextPattern | .touchDragOutside | .btnShowEnglishHint
    | .showEnglishTextPattern => inferInstanceAs (Decidable (_ ∧ _ ∧ view ∈ s.subviews))

end AIMQuestionAnswerScreenViewController

end Imijun
