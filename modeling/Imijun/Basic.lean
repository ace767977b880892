import Mathlib.Analysis.Real.Sqrt
import Mathlib.Data.Rat.Cast.Order
import Mathlib.Tactic.Common

/-!
# The data the quiz works on

* `Trap`: the ways a handler can stop the program (a subscript out of range, a forced unwrap of
  `nil`, ...). A handler returns `Except Trap`.
* Geometry: points and frames with exact rational coordinates, and `mathDistance`. The code only
  compares a distance with a bound, which `withinRadian` decides without the square root
  (`withinRadian_iff`).
* The Realm objects `AIMPiece`, `AIMPattern`, `AIMQuestion`, `AIMChapter`.
* `Platform`: what the system supplies and the sources do not define.
-/

namespace Imijun

/-- The runtime traps of the modelled handlers. -/
inductive Trap
  /-- a subscript of an array outside its bounds -/
  | indexOutOfRange
  /-- `centerfirtPoint!` while it is `nil` -/
  | missingStartPoint
  /-- any other forced unwrap of `nil`, or a forced cast that fails -/
  | unexpectedNil
  /-- the first character of an empty string -/
  | emptyString
  | divisionByZero
  /-- an action whose selector the target has no method for -/
  | unrecognizedSelector
  deriving DecidableEq, Repr

/-! ## Geometry -/

structure CGPoint where
  x : ℚ
  y : ℚ
  deriving DecidableEq, Repr

structure CGRect where
  x : ℚ
  y : ℚ
  width : ℚ
  height : ℚ
  deriving DecidableEq, Repr

/-- `UIView.center` of a view with frame `r` (identity transform). -/
def CGRect.center (r : CGRect) : CGPoint := ⟨r.x + r.width / 2, r.y + r.height / 2⟩

/-- Setting `UIView.center` moves the frame and keeps its size. -/
def CGRect.withCenter (r : CGRect) (p : CGPoint) : CGRect :=
  { r with x := p.x - r.width / 2, y := p.y - r.height / 2 }

@[simp] theorem CGRect.center_withCenter (r : CGRect) (p : CGPoint) :
    (r.withCenter p).center = p := by
  simp [center, withCenter]

/-- `AIMUtilities.mathDistance`. -/
noncomputable def mathDistance (point1 point2 : CGPoint) : ℝ :=
  √(((point1.x - point2.x) * (point1.x - point2.x) +
    (point1.y - point2.y) * (point1.y - point2.y) : ℚ) : ℝ)

/-- The test `mathDistance(point1, point2) <= radian` of the handlers, on squares. -/
def withinRadian (radian : ℚ) (point1 point2 : CGPoint) : Bool :=
  decide ((point1.x - point2.x) * (point1.x - point2.x) +
    (point1.y - point2.y) * (point1.y - point2.y) ≤ radian * radian)

theorem withinRadian_iff {radian : ℚ} (hr : 0 ≤ radian) {p q : CGPoint} :
    withinRadian radian p q = true ↔ mathDistance p q ≤ radian := by
  have hr' : (0 : ℝ) ≤ radian := by exact_mod_cast hr
  rw [withinRadian, decide_eq_true_iff, mathDistance, Real.sqrt_le_left hr', sq]
  exact_mod_cast Iff.rfl

/-! ## Realm objects -/

structure AIMPiece where
  content : String
  deriving DecidableEq, Repr

structure AIMPattern where
  type : String
  imijunPattern : List AIMPiece
  deriving DecidableEq, Repr

structure AIMQuestion where
  index : String
  content : String
  pattern : Option AIMPattern
  hints : List AIMPiece
  answers : List AIMPiece
  deriving DecidableEq, Repr

structure AIMChapter where
  index : String
  title : String
  questions : List AIMQuestion
  deriving DecidableEq, Repr

/-! ## Text -/

/-- The members of `CharacterSet.whitespaces`: the tabulation and general category `Zs`. -/
def isWhitespace (c : Char) : Bool :=
  c = '\t' || c = ' ' || c = '\u00a0' || c = '\u1680' ||
    ('\u2000' ≤ c && c ≤ '\u200a') || c = '\u202f' || c = '\u205f' || c = '\u3000'

/-- `trimmingCharacters(in: .whitespaces)`. -/
def trimmingWhitespaces (s : String) : List Char :=
  ((s.toList.dropWhile isWhitespace).reverse.dropWhile isWhitespace).reverse

/-- The answer is left out of the piece list: nothing remains of it after trimming. -/
def isBlank (s : String) : Bool := (trimmingWhitespaces s).isEmpty

/-- A line break of a title is a newline with a wide space. -/
def dropLineBreaks : List Char → List Char
  | '\n' :: '　' :: rest => dropLineBreaks rest
  | c :: rest => c :: dropLineBreaks rest
  | [] => []

/-- `title.replacingOccurrences(of: "\n　", with: "", options: .literal)`. -/
def titleString (title : String) : String := String.ofList (dropLineBreaks title.toList)

/-- Swift's `Int(_: String)`: an optional sign, then decimal digits only, in 64 bits. -/
def swiftInt (s : String) : Option Int :=
  match s.toList with
  | '-' :: ds => (digits ds).bind fun n => if n ≤ 2 ^ 63 then some (-(n : Int)) else none
  | '+' :: ds => (digits ds).bind fun n => if n < 2 ^ 63 then some (n : Int) else none
  | ds => (digits ds).bind fun n => if n < 2 ^ 63 then some (n : Int) else none
where
  /-- The value of a non-empty list of ASCII digits. -/
  digits : List Char → Option Nat
    | [] => none
    | cs =>
      if cs.all Char.isDigit then some (cs.foldl (fun n c => 10 * n + (c.toNat - '0'.toNat)) 0)
      else none

/-- What UIKit and Foundation supply: how a string splits after its first character (an extended
grapheme cluster), Unicode lower casing, and the width a text needs in the font of a list piece
(`AIMPieceView.contentLabel`) or of a slot (`AIMPatternPiece.contentLabel`). -/
structure Platform where
  splitFirst : String → Option (String × String)
  /-- Only the empty string has no first character. -/
  splitFirst_eq_none : ∀ s, splitFirst s = none ↔ s = ""
  lowercased : String → String
  pieceTextWidth : String → ℚ
  slotTextWidth : String → ℚ

/-- A platform for ASCII text: one character is one scalar, twelve points wide. -/
def Platform.ascii : Platform where
  splitFirst s :=
    match s.toList with
    | [] => none
    | c :: cs => some (String.singleton c, String.ofList cs)
  splitFirst_eq_none s := by
    rw [← String.toList_eq_nil_iff]
    cases s.toList <;> simp
  lowercased s := String.ofList (s.toList.map Char.toLower)
  pieceTextWidth s := 12 * s.length
  slotTextWidth s := 12 * s.length

/-- `AIMUtilities.lowercaseFirstCharater`. -/
def Platform.lowercaseFirstCharater (ui : Platform) (string : String) : Except Trap String :=
  match ui.splitFirst string with
  | none => .error .emptyString
  | some (first, other) =>
    if first ≠ "I" then .ok (ui.lowercased first ++ other) else .ok string

end Imijun
