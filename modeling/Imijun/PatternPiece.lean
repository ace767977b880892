import Imijun.PieceList

/-!
# The slots of a pattern

`AIMPatternPiece`, the slot a piece is dropped on, its place in the pattern (`initPatterView`), and
`expandPieceWidth`, which moves the slots of a row after a drop.
-/

namespace Imijun

/-- The background images of a slot: the empty ones and the selected ones of `AIMPatternPiece`, and
the ones of `AIMQuestionContentView` for a placed piece. -/
inductive SlotImage
  | image
  | image7
  | image8
  | imageGold
  | image7Gold
  | image8Gold
  | blueImage
  | blueImage7
  | blueImage8
  deriving DecidableEq, Repr

inductive LabelColor
  | kBlackColor
  | kHintTextGrayColor
  deriving DecidableEq, Repr

structure AIMPatternPiece where
  status : Bool
  currentContent : Option String
  patternPiece : AIMPiece
  hintPiece : AIMPiece
  type : Int
  fixFrame : Int
  backgroundImage : SlotImage
  contentLabelText : Option String
  numberOfLines : Nat
  textColor : LabelColor
  frame : CGRect
  /-- `buttonIdea.isSelected` -/
  ideaSelected : Bool
  /-- `buttonIdea.isEnabled` -/
  ideaEnabled : Bool
  /-- `buttonIdea.isHidden` -/
  ideaHidden : Bool
  deriving DecidableEq, Repr

namespace AIMPatternPiece

def loadFromNib (frame : CGRect) (patternPiece hintPiece : AIMPiece) : AIMPatternPiece where
  status := false
  currentContent := none
  patternPiece := patternPiece
  hintPiece := hintPiece
  type := -1
  fixFrame := 0
  backgroundImage := .image
  contentLabelText := some "Label"
  numberOfLines := 1
  textColor := .kBlackColor
  frame := frame
  ideaSelected := false
  ideaEnabled := true
  ideaHidden := false

def setContent (v : AIMPatternPiece) (content : String) : AIMPatternPiece :=
  { v with
    numberOfLines := if v.status then 1 else 2
    contentLabelText := some content
    currentContent := some content }

def setSelectedData (v : AIMPatternPiece) (type : Int) : AIMPatternPiece :=
  { v with
    type := type
    backgroundImage :=
      if type = 7 then .image7Gold else if type = 8 then .image8Gold else .imageGold }

def setData (v : AIMPatternPiece) (type : Int) : AIMPatternPiece :=
  { v with
    type := type
    backgroundImage := if type = 7 then .image7 else if type = 8 then .image8 else .image
    : AIMPatternPiece }.setContent v.patternPiece.content

def displayHintContent (v : AIMPatternPiece) : AIMPatternPiece :=
  { v with
    numberOfLines := 3
    contentLabelText := some v.hintPiece.content
    textColor := .kHintTextGrayColor }

def displayCurrentContent (v : AIMPatternPiece) : AIMPatternPiece :=
  { v with
    numberOfLines := if v.status then 1 else 2
    contentLabelText := v.currentContent
    textColor := .kBlackColor }

def displayCurrentContentWhenFinishDrag (v : AIMPatternPiece) : AIMPatternPiece :=
  { v with
    contentLabelText := v.currentContent
    textColor := if v.status then .kBlackColor else .kHintTextGrayColor }

/-- The image an accepted piece gives its slot. -/
def placedImage (type : Int) : SlotImage :=
  if type = 7 then .blueImage7 else if type = 8 then .blueImage8 else .blueImage

/-- The body of the loop of `hintCase2` for a slot whose button was not tapped; `tapped` is the type
of the slot whose button was. A slot that shows a placed image keeps it, every other slot is set up
again with the type of the tapped one. -/
def deselect (v : AIMPatternPiece) (tapped : Int) : AIMPatternPiece :=
  let v := { v with ideaSelected := false }
  if v.backgroundImage = .blueImage7 then v
  else if v.backgroundImage = .blueImage8 then v
  else if v.backgroundImage = .blueImage then v
  else v.setData tapped

/-- The test of the handlers against `kMatchRadian`. -/
def matched (v : AIMPatternPiece) (point : CGPoint) : Bool :=
  withinRadian kMatchRadian v.frame.center point

end AIMPatternPiece

/-! ## The place of a slot -/

/-- The `switch` on `pieceType` of `initPatterView`. -/
def pieceViewWidth (pieceType : Int) : ℚ :=
  if pieceType = 1 ∨ pieceType = 3 ∨ pieceType = 4 then kPiece1Width
  else if pieceType = 2 ∨ pieceType = 7 ∨ pieceType = 8 then kPiece2Width
  else if pieceType = 5 then kPiece3Width
  else kPiece1Width

/-- The left edge of slot `i` of a pattern with `column` columns. -/
def slotX (column i : Nat) (pieceType : Int) : ℚ :=
  if i % column = 0 then kPatternLeftMargin + i * pieceViewWidth pieceType + 150
  else 150 + kPatternLeftMargin + i * (pieceViewWidth pieceType - kPatternCoverSpace)

/-- The frame of slot `i`, moved down by `below`. -/
def slotFrame (column i : Nat) (pieceType : Int) (below : ℚ) : CGRect :=
  ⟨slotX column i pieceType, (i / column : Nat) * kPieceHeigh + kPatternTopSpace + below,
    pieceViewWidth pieceType, kPieceHeigh⟩

/-- The view of slot `i`, as the loops of `initPatterView` and `initPatterView2` make it. -/
def makeSlot (question : AIMQuestion) (pattern : AIMPattern) (column i : Nat) (pieceType : Int)
    (below : ℚ) : Except Trap AIMPatternPiece := do
  if column = 0 then throw .divisionByZero
  let patternPiece ← subscript pattern.imijunPattern i
  let hintPiece ← subscript question.hints i
  return (AIMPatternPiece.loadFromNib (slotFrame column i pieceType below)
    patternPiece hintPiece).setData pieceType

/-- The loop over `listPieceType` from index `i` on. -/
def makeSlots (question : AIMQuestion) (pattern : AIMPattern) (column : Nat) (below : ℚ) :
    List Int → Nat → Except Trap (List AIMPatternPiece)
  | [], _ => .ok []
  | pieceType :: types, i => do
    let pieceView ← makeSlot question pattern column i pieceType below
    let rest ← makeSlots question pattern column below types (i + 1)
    return pieceView :: rest

/-! ## `expandPieceWidth` -/

namespace ExpandPieceWidth

variable (ui : Platform)

/-- `contentLabel.requireWidth() + 2 * kPatternTextLeftMargin`. -/
def neededWidth (v : AIMPatternPiece) : ℚ :=
  ui.slotTextWidth (v.contentLabelText.getD "") + 2 * kPatternTextLeftMargin

/-- A slot moved to `x`, of width `width`. -/
def moved (v : AIMPatternPiece) (x width : ℚ) : AIMPatternPiece :=
  { v with frame := { v.frame with x := x, width := width } }

/-- The first pass on a slot: a slot wider than its text shrinks to it. A slot narrower than its
text is marked with `long`, which is `0` when the question is finished and `-1` otherwise; an
unplaced slot of an unfinished question only moves. -/
def shrink (finished : Bool) (v : AIMPatternPiece) (x : ℚ) : AIMPatternPiece :=
  if finished || v.status then
    let width := neededWidth ui v
    let long : Int := if finished then 0 else -1
    if v.frame.width < width then { moved v x v.frame.width with fixFrame := long }
    else if width < v.frame.width then { moved v x width with fixFrame := 0 }
    else { moved v x v.frame.width with fixFrame := 0 }
  else moved v x v.frame.width

/-- The first pass over the slots, from `patternViewsWidth` on. -/
def shrinkAll (finished : Bool) : List AIMPatternPiece → ℚ → List AIMPatternPiece × ℚ
  | [], patternViewsWidth => ([], patternViewsWidth)
  | v :: vs, patternViewsWidth =>
    let v := shrink ui finished v (patternViewsWidth - kPatternCoverSpace)
    let (vs, patternViewsWidth) := shrinkAll finished vs
      (patternViewsWidth + v.frame.width - kPatternCoverSpace)
    (v :: vs, patternViewsWidth)

/-- The second pass on a slot: a slot marked `-1` grows to its text while the row has room for it,
and takes what is left otherwise. Returns the slot and the new `patternViewsWidth`. -/
def grow (v : AIMPatternPiece) (sumWidth patternViewsWidth : ℚ) : AIMPatternPiece × ℚ :=
  if v.fixFrame = -1 then
    let width := neededWidth ui v
    if patternViewsWidth + (width - v.frame.width) ≤ kPatternListViewWidth then
      ({ moved v sumWidth width with fixFrame := 0 },
        patternViewsWidth + (width - v.frame.width))
    else
      (moved v sumWidth (kPatternListViewWidth - patternViewsWidth + v.frame.width),
        patternViewsWidth)
  else (moved v sumWidth v.frame.width, patternViewsWidth)

/-- The second pass over the slots; returns them with the final `sumWidth`. -/
def growAll : List AIMPatternPiece → ℚ → ℚ → List AIMPatternPiece × ℚ
  | [], sumWidth, _ => ([], sumWidth)
  | v :: vs, sumWidth, patternViewsWidth =>
    let (v, patternViewsWidth) := grow ui v sumWidth patternViewsWidth
    let (vs, sumWidth) := growAll vs (sumWidth + v.frame.width - kPatternCoverSpace)
      patternViewsWidth
    (v :: vs, sumWidth)

/-- The third pass: the slack `xWidth` goes to every placed slot. -/
def spreadAll (xWidth : ℚ) : List AIMPatternPiece → ℚ → List AIMPatternPiece
  | [], _ => []
  | v :: vs, x =>
    let v := moved v x (if v.status then v.frame.width + xWidth else v.frame.width)
    v :: spreadAll xWidth vs (x + v.frame.width - kPatternCoverSpace)

end ExpandPieceWidth

open ExpandPieceWidth in
/-- The body of `expandPieceWidth` for a view that is `deflowered`. -/
def expandSlots (ui : Platform) (finished : Bool) (slots : List AIMPatternPiece) :
    List AIMPatternPiece :=
  let numberPatternPieceCorrented := slots.countP (·.status)
  let (slots, patternViewsWidth) :=
    shrinkAll ui finished slots (kPatternLeftMargin + kPatternCoverSpace)
  let (slots, sumWidth) := growAll ui slots kPatternLeftMargin patternViewsWidth
  let sumWidth := sumWidth + kPatternCoverSpace - kPatternLeftMargin
  if sumWidth < kPatternListViewWidth then
    spreadAll ((kPatternListViewWidth - sumWidth) / numberPatternPieceCorrented) slots
      (kPatternLeftMargin + 150)
  else slots

end Imijun
