import Imijun.PatternPiece

/-!
# The view of one question

`AIMQuestionContentView` and its handlers, with the handlers of `AIMListPieceView` that forward a
touch to it. A handler that starts an animation runs the animation block at once and returns what
the completion block has captured (`DropCompletion`, `Animation`); the completions are run later,
by the event loop. The calls a handler makes to its delegate and to the sound manager are appended
to `calls`. A slot is named by its index in `listPatternPieceView`, which never changes after
`setData`.
-/

namespace Imijun

open Fallible

inductive Sound
  | kSoundCorrect
  | kSoundFailure
  | kSoundComplete
  deriving DecidableEq, Repr

/-- A call to the delegate or to the sound manager. An `endDragPiece` call hands over the piece view
as it is at the call. -/
inductive Call
  | endDragPiece (piece : AIMPieceView) (patternPieceIndex : Int)
  | finishAtCurrentQuestion
  | pressedHintButton
  | pressedEnglishHintButton
  | playAudio (sound : Sound)
  deriving DecidableEq, Repr

/-- The completion of a drop: of the 0.3 s animation of an accepted one, with the slot and the piece
it captured, or of the 0.5 s return of a wrong one. -/
inductive DropCompletion
  | accepted (slot piece : Nat)
  | returned (piece : Nat)
  deriving DecidableEq, Repr

/-- The animations that follow an accepted drop: `left` more runs of the blur, the widening of the
row, and the sliding away of the list after the last drop. -/
inductive Animation
  | blur (left : Nat)
  | expanded
  | answerHidden
  deriving DecidableEq, Repr

/-- A slot of the idea panel, and whether it is still in the view hierarchy. -/
structure PanelPiece where
  piece : AIMPatternPiece
  inView : Bool
  deriving DecidableEq, Repr

/-- The background of a panel slot; `white` once deselecting has painted it over. -/
structure PanelBackground where
  frame : CGRect
  white : Bool
  isHidden : Bool
  deriving DecidableEq, Repr

/-- The marker bar above a panel slot. -/
structure MarkerBar where
  frame : CGRect
  isHidden : Bool
  deriving DecidableEq, Repr

structure AIMQuestionContentView where
  question : AIMQuestion
  pattern : AIMPattern
  /-- the entry of `kPatternUIData` for `pattern.type` -/
  patternUIData : PatternUIData
  listPieceView : AIMListPieceView
  listPatternPieceView : List AIMPatternPiece
  listPatternPieceView2 : List PanelPiece
  backgroundViewHint : List PanelBackground
  backgroundHide : List MarkerBar
  /-- the drag proxy -/
  currentSelectPieceView : AIMPieceView
  currentSelectPieceViewOnScrollview : Option Nat
  centerfirtPoint : Option CGPoint
  deflowered : Bool
  /-- `outletButtonShowHint.btnSelected` -/
  hintSelected : Bool
  isUserInteractionEnabled : Bool
  calls : List Call

/-- `kAnswerViewFrame`. -/
def kAnswerViewFrame : CGRect := ⟨0, 422, 1024, 245⟩

namespace AIMQuestionContentView

/-! ## Setting up -/

/-- `kPatternUIData.object(at: Int(pattern.type)! - 1)`. -/
def patternEntry (pattern : AIMPattern) : Except Trap PatternUIData := do
  let type ← orThrow (swiftInt pattern.type) .unexpectedNil
  if type < 1 then throw .indexOutOfRange
  subscript kPatternUIData (type - 1).toNat

/-- The view right after `setData`: the list and the slots are filled, the proxy is hidden. -/
def fresh (question : AIMQuestion) (pattern : AIMPattern) (data : PatternUIData)
    (list : AIMListPieceView) (slots : List AIMPatternPiece) : AIMQuestionContentView where
  question := question
  pattern := pattern
  patternUIData := data
  listPieceView := list
  listPatternPieceView := slots
  listPatternPieceView2 := []
  backgroundViewHint := []
  backgroundHide := []
  currentSelectPieceView :=
    { AIMPieceView.loadFromNibWithIndex 0 0 0 with isHidden := true }
  currentSelectPieceViewOnScrollview := none
  centerfirtPoint := none
  deflowered := false
  hintSelected := false
  isUserInteractionEnabled := true
  calls := []

def initAIMListPieceView (ui : Platform) (question : AIMQuestion) (draws : Nat → Nat) :
    Except Trap AIMListPieceView :=
  (AIMListPieceView.loadFromNibWithBundle kAnswerViewFrame).setData ui question.answers
    question.hints draws

def initPatterView (question : AIMQuestion) (pattern : AIMPattern) (data : PatternUIData) :
    Except Trap (List AIMPatternPiece) :=
  makeSlots question pattern data.column 0 data.listPieceType 0

/-- `AIMQuestionContentView.setData`. -/
def setData (ui : Platform) (question : AIMQuestion) (draws : Nat → Nat) :
    Except Trap AIMQuestionContentView := do
  let list ← initAIMListPieceView ui question draws
  let pattern ← orThrow question.pattern .unexpectedNil
  let data ← patternEntry pattern
  let slots ← initPatterView question pattern data
  return fresh question pattern data list slots

/-! ## The idea panel -/

/-- `initPatterView2`: one more batch of panel slots, backgrounds and marker bars. -/
def initPatterView2 (v : AIMQuestionContentView) : Except Trap AIMQuestionContentView := do
  let column := v.patternUIData.column
  let types := v.patternUIData.listPieceType
  let slots ← makeSlots v.question v.pattern column 109 types 0
  return { v with
    listPatternPieceView2 := v.listPatternPieceView2 ++ slots.map fun slot => ⟨slot, true⟩
    backgroundViewHint := v.backgroundViewHint ++ types.mapIdx fun i type =>
      let frame := slotFrame column i type 105
      ⟨⟨frame.x - 6, frame.y, frame.width + 8, frame.height + 10⟩, false, false⟩
    backgroundHide := v.backgroundHide ++ types.mapIdx fun i type =>
      let frame := slotFrame column i type 99
      ⟨⟨frame.x, frame.y, 150, 6⟩, true⟩ }

/-- `hintCase2` for the idea button of slot `i` (its `tag`). -/
def hintCase2 (v : AIMQuestionContentView) (i : Nat) : Except Trap AIMQuestionContentView := do
  let tapped ← subscript v.listPatternPieceView i
  let selected := !tapped.ideaSelected
  let slots := v.listPatternPieceView.mapIdx fun j slot =>
    if j = i then slot else slot.deselect tapped.type
  if selected then
    let v ← initPatterView2 { v with
      listPatternPieceView := slots.modify i fun slot =>
        { slot.setSelectedData tapped.type with ideaSelected := true } }
    let _ ← subscript v.backgroundHide i
    return { v with
      backgroundHide := v.backgroundHide.mapIdx fun j bar =>
        { bar with isHidden := decide (j ≠ i) } }
  else
    let _ ← subscript v.backgroundHide i
    return { v with
      listPatternPieceView := slots.modify i fun slot =>
        { slot with ideaSelected := false }.setData tapped.type
      listPatternPieceView2 := v.listPatternPieceView2.map fun view => { view with inView := false }
      backgroundViewHint := v.backgroundViewHint.map fun view => { view with white := true }
      backgroundHide := v.backgroundHide.modify i fun bar => { bar with isHidden := true } }

/-! ## Hints -/

def checkFinish (v : AIMQuestionContentView) : Bool := v.listPieceView.countPieceAnswer = 0

def btnShowHint (v : AIMQuestionContentView) : AIMQuestionContentView :=
  if v.hintSelected then v
  else { v with
    hintSelected := true
    listPatternPieceView := v.listPatternPieceView.map (·.displayHintContent)
    calls := v.calls ++ [.pressedHintButton] }

def showTextPattern (v : AIMQuestionContentView) : AIMQuestionContentView :=
  if v.hintSelected then { v with
    hintSelected := false
    listPatternPieceView := v.listPatternPieceView.map fun slot =>
      if v.checkFinish then slot.displayCurrentContentWhenFinishDrag
      else slot.displayCurrentContent }
  else v

/-- `AIMListPieceView.btnShowEnglishHint`, with the call it forwards. -/
def btnShowEnglishHint (v : AIMQuestionContentView) : AIMQuestionContentView :=
  if v.listPieceView.englishHintSelected then v
  else { v with
    listPieceView :=
      { v.listPieceView with englishHintSelected := true : AIMListPieceView }.showHint true
    calls := v.calls ++ [.pressedEnglishHintButton] }

/-- `AIMListPieceView.showEnglishTextPattern`. -/
def showEnglishTextPattern (v : AIMQuestionContentView) : AIMQuestionContentView :=
  if v.listPieceView.englishHintSelected then { v with
    listPieceView :=
      { v.listPieceView with englishHintSelected := false : AIMListPieceView }.showHint false }
  else v

/-! ## Dragging a piece -/

/-- `pieceView.superview?.convert(pieceView.center, to: self)` while the list is scrolled by
`contentOffset`. -/
def centerInSelf (v : AIMQuestionContentView) (p : Nat) (contentOffset : CGPoint) : CGPoint :=
  let center := (v.listPieceView.pieceView p).frame.center
  ⟨center.x - contentOffset.x + scrollViewFrame.x + v.listPieceView.frame.x,
    center.y - contentOffset.y + scrollViewFrame.y + v.listPieceView.frame.y⟩

/-- What `choosePieceView` does once it has found the slot of the piece: the proxy takes the data of
the piece, jumps to the touch and takes the size of the slot, and stands in for the piece. -/
def chosen (v : AIMQuestionContentView) (p : Nat) (location contentOffset : CGPoint)
    (slot : AIMPatternPiece) : AIMQuestionContentView :=
  let piece := v.listPieceView.pieceView p
  let proxy := v.currentSelectPieceView
  { v with
    currentSelectPieceView :=
      { proxy with
        patternIndex := piece.patternIndex
        index := piece.index
        hintIndex := piece.hintIndex
        piece := piece.piece
        contentLabelText := piece.contentLabelText
        firstCenterPoint := some location
        frame := { proxy.frame.withCenter location with
          width := slot.frame.width, height := slot.frame.height }
        isHidden := false }
    centerfirtPoint := some (v.centerInSelf p contentOffset)
    listPieceView := v.listPieceView.hidePiece p true
    currentSelectPieceViewOnScrollview := some p }

def choosePieceView (v : AIMQuestionContentView) (p : Nat) (location contentOffset : CGPoint) :
    Except Trap AIMQuestionContentView := do
  let slot ← subscript v.listPatternPieceView (v.listPieceView.pieceView p).patternIndex
  return v.chosen p location contentOffset slot

/-- `AIMListPieceView.tapAIMPieceView`. -/
def tapAIMPieceView (v : AIMQuestionContentView) (p : Nat) (location contentOffset : CGPoint) :
    Except Trap AIMQuestionContentView :=
  { v with listPieceView := v.listPieceView.setScroll false }.choosePieceView p location
    contentOffset

/-- The proxy with its centre at `center`. -/
def moveProxy (v : AIMQuestionContentView) (center : CGPoint) : AIMQuestionContentView :=
  { v with currentSelectPieceView :=
    { v.currentSelectPieceView with frame := v.currentSelectPieceView.frame.withCenter center } }

def hideProxy (v : AIMQuestionContentView) : AIMQuestionContentView :=
  { v with currentSelectPieceView := { v.currentSelectPieceView with isHidden := true } }

/-- `movedChoosePieceView`, which `AIMListPieceView.movedAIMPieceView` forwards to. -/
def movedChoosePieceView (v : AIMQuestionContentView) (location : CGPoint) :
    Except Trap AIMQuestionContentView := do
  let firstCenterPoint ← orThrow v.currentSelectPieceView.firstCenterPoint .unexpectedNil
  let start ← orThrow v.centerfirtPoint .missingStartPoint
  return v.moveProxy
    ⟨start.x + (location.x - firstCenterPoint.x), start.y + (location.y - firstCenterPoint.y)⟩

/-- The index of the first slot the point lies within `kMatchRadian` of, `-1` when there is none. -/
def searchSlot (slots : List AIMPatternPiece) (point : CGPoint) : Int :=
  match slots.findIdx? (·.matched point) with
  | some index => index
  | none => -1

/-- The accepted branch of `endMovedChoosePieceView`, up to the completion. -/
def acceptDrop (v : AIMQuestionContentView) (slot : AIMPatternPiece) (k : Nat) :
    Except Trap AIMQuestionContentView := do
  let list ← v.listPieceView.reRender
  return { v with
    listPatternPieceView := v.listPatternPieceView.modify k fun slot => { slot with status := true }
    listPieceView := (list.setInteraction false).setInteraction true }.moveProxy slot.frame.center

/-- The wrong branch of `endMovedChoosePieceView`, up to the completion. -/
def rejectDrop (v : AIMQuestionContentView) (slot : AIMPatternPiece) :
    Except Trap AIMQuestionContentView := do
  let proxy := v.currentSelectPieceView
  let failure : List Call :=
    if |slot.frame.center.y - proxy.frame.center.y| ≤ proxy.frame.height
    then [.playAudio .kSoundFailure] else []
  let index := searchSlot v.listPatternPieceView proxy.frame.center
  let start ← orThrow v.centerfirtPoint .missingStartPoint
  let v : AIMQuestionContentView := { v with
    calls := v.calls ++ failure ++ [.endDragPiece proxy index]
    listPieceView := v.listPieceView.setInteraction false }
  return v.moveProxy start

def endMovedChoosePieceView (v : AIMQuestionContentView) (p : Nat) :
    Except Trap (AIMQuestionContentView × DropCompletion) := do
  let k := (v.listPieceView.pieceView p).patternIndex
  let slot ← subscript v.listPatternPieceView k
  if slot.matched v.currentSelectPieceView.frame.center then
    return (← v.acceptDrop slot k, .accepted k p)
  else
    return (← v.rejectDrop slot, .returned p)

/-- `AIMListPieceView.endMovedAIMPieceView`. -/
def endMovedAIMPieceView (v : AIMQuestionContentView) (p : Nat) :
    Except Trap (AIMQuestionContentView × DropCompletion) := do
  let (v, completion) ← v.endMovedChoosePieceView p
  return ({ v with listPieceView := v.listPieceView.setScroll true }, completion)

/-! ## Completions -/

/-- `animationPieceFixed`: the touches of the view are off until the row has been widened. -/
def animationPieceFixed (v : AIMQuestionContentView) : AIMQuestionContentView × Animation :=
  ({ v with isUserInteractionEnabled := false }, .blur 4)

/-- The part of the accepted completion after `removePiece`. -/
def reportDrop (v : AIMQuestionContentView) (k : Nat) : AIMQuestionContentView :=
  let proxy := v.currentSelectPieceView
  let v : AIMQuestionContentView := { v with
    calls := v.calls ++ [.endDragPiece proxy proxy.patternIndex, .playAudio .kSoundCorrect]
    listPatternPieceView := v.listPatternPieceView.modify k fun slot =>
      { slot with ideaEnabled := false } }
  if v.checkFinish then { v with
    listPatternPieceView := v.listPatternPieceView.map (·.displayCurrentContentWhenFinishDrag)
    calls := v.calls ++ [.finishAtCurrentQuestion] }
  else v

/-- The completion of an accepted drop of piece `p` on slot `k`. -/
def acceptedCompletion (v : AIMQuestionContentView) (k p : Nat) :
    Except Trap (AIMQuestionContentView × Animation) := do
  let piece ← orThrow (v.listPieceView.pieceView p).piece .unexpectedNil
  let v := { v with
    listPatternPieceView := v.listPatternPieceView.modify k fun slot =>
      { slot with backgroundImage := AIMPatternPiece.placedImage slot.type }.setContent
        piece.content }.hideProxy
  let list ← v.listPieceView.removePiece p
  let v := { v with listPieceView := list }.reportDrop k
  return { v with centerfirtPoint := none }.animationPieceFixed

/-- The completion of the return of a wrongly dropped piece. -/
def returnedCompletion (v : AIMQuestionContentView) (p : Nat) : AIMQuestionContentView :=
  { v.hideProxy with
    centerfirtPoint := none
    listPieceView := (v.listPieceView.hidePiece p false).setInteraction true }

def runDropCompletion (v : AIMQuestionContentView) :
    DropCompletion → Except Trap (AIMQuestionContentView × List Animation)
  | .accepted k p => do
    let (v, animation) ← v.acceptedCompletion k p
    return (v, [animation])
  | .returned p => .ok (v.returnedCompletion p, [])

/-- `expandPieceWidth`: the first call only sets the flag. -/
def expandPieceWidth (ui : Platform) (v : AIMQuestionContentView) : AIMQuestionContentView :=
  if v.deflowered then
    { v with listPatternPieceView := expandSlots ui v.checkFinish v.listPatternPieceView }
  else { v with deflowered := true }

/-- What the completions of `animationPieceFixed` do to a finished question. -/
def clearPanel (v : AIMQuestionContentView) : AIMQuestionContentView :=
  { v with
    listPatternPieceView2 := v.listPatternPieceView2.map fun view => { view with inView := false }
    listPatternPieceView := v.listPatternPieceView.map fun slot => { slot with ideaHidden := true }
    backgroundHide := v.backgroundHide.map fun bar => { bar with isHidden := true }
    backgroundViewHint := v.backgroundViewHint.map fun view => { view with isHidden := true }
    listPieceView := v.listPieceView.hideAnwserView }

/-- The completion of one of the animations that `animationPieceFixed` chains. -/
def runAnimation (ui : Platform) (v : AIMQuestionContentView) :
    Animation → AIMQuestionContentView × List Animation
  | .blur (left + 2) => (v, [.blur (left + 1)])
  | .blur _ => (v.expandPieceWidth ui, [.expanded])
  | .expanded =>
    if v.checkFinish then
      ({ v.clearPanel with isUserInteractionEnabled := true }, [.answerHidden])
    else ({ v with isUserInteractionEnabled := true }, [])
  | .answerHidden =>
    ({ v with calls := v.calls ++ [.playAudio .kSoundComplete, .playAudio .kSoundCorrect] }, [])

/-! ## Resigning active -/

/-- `cancelTouch`, called when the application resigns active. -/
def cancelTouch (v : AIMQuestionContentView) : Except Trap AIMQuestionContentView :=
  let v := v.showTextPattern
  match v.centerfirtPoint with
  | none => .ok v
  | some start => do
    let v := (v.moveProxy start).hideProxy
    let list ←
      if v.checkFinish then pure v.listPieceView
      else do
        let p ← orThrow v.currentSelectPieceViewOnScrollview .unexpectedNil
        pure (v.listPieceView.hidePiece p false)
    return { v with
      listPieceView := (list.setInteraction true).setScroll true
      centerfirtPoint := none }

/-- `AIMQuestionAnswerScreenViewController.cancelTouch`, for the content view it shows. -/
def resignActive (v : AIMQuestionContentView) : Except Trap AIMQuestionContentView :=
  { v with listPieceView := v.listPieceView.showHint false }.cancelTouch

end AIMQuestionContentView

end Imijun
