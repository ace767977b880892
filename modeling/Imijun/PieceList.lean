import Imijun.AppConstant
import Imijun.Lib.Fallible

/-!
# The list of pieces

`AIMPieceView` and `AIMListPieceView`. A view is an object with an identity: `pieceViewArray` and
`hintLabelArray` hold references, and `pieceView`, `hintLabel` give the object behind a reference
(the number `setData` made it under). A piece that has left the array is still held by the
completion that removed it.
-/

namespace Imijun

open Fallible

/-- A subscript of a list or an array. -/
def subscript {α : Type} (xs : List α) (i : Nat) : Except Trap α :=
  orThrow xs[i]? .indexOutOfRange

@[simp] theorem subscript_eq_ok {α : Type} {xs : List α} {i : Nat} {a : α} :
    subscript xs i = .ok a ↔ xs[i]? = some a := orThrow_eq_ok

/-! ## The objects -/

structure AIMPieceView where
  patternIndex : Nat
  index : Nat
  hintIndex : Nat
  piece : Option AIMPiece
  contentLabelText : String
  frame : CGRect
  isHidden : Bool
  firstCenterPoint : Option CGPoint
  deriving DecidableEq, Repr

/-- A hint label of the list. -/
structure UITextView where
  text : String
  frame : CGRect
  isHidden : Bool
  deriving DecidableEq, Repr

/-- `AIMPieceView.loadFromNibWithIndex`. -/
def AIMPieceView.loadFromNibWithIndex (patternIndex index hintIdex : Nat) : AIMPieceView where
  patternIndex := patternIndex
  index := index
  hintIndex := hintIdex
  piece := none
  contentLabelText := "Label"
  frame := ⟨0, 0, 71, 83⟩
  isHidden := false
  firstCenterPoint := none

/-- `AIMPieceView.setData`. -/
def AIMPieceView.setData (ui : Platform) (v : AIMPieceView) (piece : AIMPiece) :
    Except Trap AIMPieceView := do
  let text ← ui.lowercaseFirstCharater piece.content
  let width := ui.pieceTextWidth text
  let width := if width < 100 then 100 else width
  return { v with
    contentLabelText := text, piece := some piece,
    frame := ⟨0, 0, width + 70, v.frame.height⟩ }

structure AIMListPieceView where
  pieceView : Nat → AIMPieceView
  hintLabel : Nat → UITextView
  pieceViewArray : List Nat
  hintLabelArray : List Nat
  frame : CGRect
  isUserInteractionEnabled : Bool
  /-- `scrollView.isUserInteractionEnabled` -/
  scrollInteractionEnabled : Bool
  /-- `scrollView.isScrollEnabled` -/
  scrollEnabled : Bool
  /-- `scrollView.contentSize.width` -/
  contentWidth : ℚ
  /-- `englishHintButton.btnSelected` -/
  englishHintSelected : Bool
  /-- `englishHintButton.isUserInteractionEnabled` -/
  englishHintInteractionEnabled : Bool

/-- The frame of the scroll view inside the list view, fixed in the nib. -/
def scrollViewFrame : CGRect := ⟨0, 45, 1024, 200⟩

/-- The row of the pieces and the row of their hints. -/
def pieceRow : ℚ := scrollViewFrame.height / 2 - kAIMPieceViewFrame.height / 2 - 20
def hintRow : ℚ := scrollViewFrame.height / 2 + 20

namespace AIMListPieceView

/-! ## Access to the objects -/

def modifyPiece (l : AIMListPieceView) (p : Nat) (f : AIMPieceView → AIMPieceView) :
    AIMListPieceView :=
  { l with pieceView := Function.update l.pieceView p (f (l.pieceView p)) }

def modifyLabel (l : AIMListPieceView) (t : Nat) (f : UITextView → UITextView) :
    AIMListPieceView :=
  { l with hintLabel := Function.update l.hintLabel t (f (l.hintLabel t)) }

/-- `listPieceView.isUserInteractionEnabled = b`. -/
def setInteraction (l : AIMListPieceView) (b : Bool) : AIMListPieceView :=
  { l with isUserInteractionEnabled := b }

/-- `scrollView.isUserInteractionEnabled = b` and `scrollView.isScrollEnabled = b`. -/
def setScroll (l : AIMListPieceView) (b : Bool) : AIMListPieceView :=
  { l with scrollInteractionEnabled := b, scrollEnabled := b }

def hidePiece (l : AIMListPieceView) (p : Nat) (b : Bool) : AIMListPieceView :=
  l.modifyPiece p fun v => { v with isHidden := b }

/-- `answerView.hintIndex = index`. -/
def cachePosition (l : AIMListPieceView) (p index : Nat) : AIMListPieceView :=
  l.modifyPiece p fun v => { v with hintIndex := index }

def placePiece (l : AIMListPieceView) (p : Nat) (frame : CGRect) : AIMListPieceView :=
  l.modifyPiece p fun v => { v with frame := frame }

def placeLabel (l : AIMListPieceView) (t : Nat) (frame : CGRect) : AIMListPieceView :=
  l.modifyLabel t fun v => { v with frame := frame }

/-! ## `setData` -/

/-- `loadFromNibWithBundle`: the list as the nib makes it, without pieces. -/
def loadFromNibWithBundle (frame : CGRect) : AIMListPieceView where
  pieceView := fun _ => AIMPieceView.loadFromNibWithIndex 0 0 0
  hintLabel := fun _ => ⟨"", ⟨0, 0, 0, 0⟩, true⟩
  pieceViewArray := []
  hintLabelArray := []
  frame := frame
  isUserInteractionEnabled := true
  scrollInteractionEnabled := true
  scrollEnabled := true
  contentWidth := 0
  englishHintSelected := false
  englishHintInteractionEnabled := true

/-- The answers that get a piece, with their positions in `answers`: `answerArray` and
`indexArray` before the loop. -/
def answerEntries (answers : List AIMPiece) : List (AIMPiece × Nat) :=
  answers.zipIdx.filter fun e => !isBlank e.1.content

/-- The views of one turn of the loop are added under the number `index`. -/
def addPiece (l : AIMListPieceView) (index : Nat) (answerView : AIMPieceView)
    (textView : UITextView) : AIMListPieceView :=
  { l with
    pieceView := Function.update l.pieceView index answerView
    hintLabel := Function.update l.hintLabel index textView
    pieceViewArray := l.pieceViewArray ++ [index]
    hintLabelArray := l.hintLabelArray ++ [index] }

/-- The `while` loop of `setData`; the first argument is `answerArray.count`, which every turn
lowers by one. The `k`-th call of `arc4random_uniform(count)` returns `draws k % count`, so the
stream `draws` ranges over everything the generator may return. -/
def setDataLoop (ui : Platform) (hints : List AIMPiece) (draws : Nat → Nat) :
    Nat → List AIMPiece → List Nat → Nat → ℚ → AIMListPieceView →
      Except Trap (AIMListPieceView × ℚ)
  | 0, _, _, _, contentWidth, l => .ok (l, contentWidth)
  | count + 1, answerArray, indexArray, index, contentWidth, l => do
    let indexRandom := draws index % (count + 1)
    let answer ← subscript answerArray indexRandom
    let patternIndex ← subscript indexArray indexRandom
    let view ← (AIMPieceView.loadFromNibWithIndex patternIndex index index).setData ui answer
    let contentWidth := contentWidth + kAIMPieceViewHorizontalPadding
    let width := view.frame.width
    let answerView := { view with
      frame := ⟨contentWidth, pieceRow, width, kAIMPieceViewFrame.height⟩, isHidden := false }
    let hint ← subscript hints patternIndex
    let textView : UITextView :=
      ⟨hint.content, ⟨contentWidth, hintRow, width, kAIMPieceViewFrame.height⟩, true⟩
    setDataLoop ui hints draws count (answerArray.eraseIdx indexRandom)
      (indexArray.eraseIdx indexRandom) (index + 1) (contentWidth + width)
      (l.addPiece index answerView textView)

/-- `AIMListPieceView.setData`. -/
def setData (ui : Platform) (l : AIMListPieceView) (answers hints : List AIMPiece)
    (draws : Nat → Nat) : Except Trap AIMListPieceView := do
  let entries := answerEntries answers
  let (l, contentWidth) ← setDataLoop ui hints draws entries.length (entries.map Prod.fst)
    (entries.map Prod.snd) 0 0 l
  return { l with contentWidth := contentWidth + kAIMPieceViewHorizontalPadding }

/-! ## `reRender` and `removePiece` -/

/-- The loop of `reRender` over the rest of `pieceViewArray`. The animation block runs before
`UIView.animate` returns. -/
def reRenderLoop : List Nat → Nat → ℚ → AIMListPieceView → Except Trap (AIMListPieceView × ℚ)
  | [], _, contentWidth, l => .ok (l, contentWidth)
  | p :: ps, index, contentWidth, l => do
    let l := l.cachePosition p index
    if (l.pieceView p).isHidden then
      reRenderLoop ps (index + 1) contentWidth l
    else
      let contentWidth := contentWidth + kAIMPieceViewHorizontalPadding
      let width := (l.pieceView p).frame.width
      let frame (row : ℚ) : CGRect := ⟨contentWidth, row, width, kAIMPieceViewFrame.height⟩
      let l := l.placePiece p (frame pieceRow)
      let textView ← subscript l.hintLabelArray index
      reRenderLoop ps (index + 1) (contentWidth + width) (l.placeLabel textView (frame hintRow))

def reRender (l : AIMListPieceView) : Except Trap AIMListPieceView := do
  let (l, contentWidth) ← reRenderLoop l.pieceViewArray 0 0 l
  return { l with contentWidth := contentWidth + kAIMPieceViewHorizontalPadding }

/-- `removePiece`: `NSMutableArray.remove` takes out every occurrence of the object. -/
def removePiece (l : AIMListPieceView) (p : Nat) : Except Trap AIMListPieceView := do
  let l := { l with pieceViewArray := l.pieceViewArray.filter (· ≠ p) }
  let textView ← subscript l.hintLabelArray (l.pieceView p).hintIndex
  return { l with hintLabelArray := l.hintLabelArray.filter (· ≠ textView) }

def countPieceAnswer (l : AIMListPieceView) : Nat := l.pieceViewArray.length

/-! ## Hints and the end of the question -/

/-- `hideAnwserView`. -/
def hideAnwserView (l : AIMListPieceView) : AIMListPieceView :=
  { l with
    frame := { l.frame with y := l.frame.y + scrollViewFrame.height - 10 }
    englishHintInteractionEnabled := false }

/-- `showHint(show:)`. -/
def showHint (l : AIMListPieceView) (b : Bool) : AIMListPieceView :=
  l.hintLabelArray.foldl (fun l t => l.modifyLabel t fun v => { v with isHidden := !b }) l

end AIMListPieceView

end Imijun
