import Imijun.Basic

/-!
# Constants of the application

`Log` (the texts of a log record) and the part of `AIMAppConstant` that the quiz reads: the
pattern table, the measures of the pieces, the match radian and the button titles. An enumeration
with raw values is an inductive type with a `rawValue`.
-/

namespace Imijun

/-! ## Texts of a log record -/

namespace Log

/-- `Log.columnTitle`: the eleven column names, separated by tabs. -/
def columnTitle : String :=
  "操作日\t操作時間\t操作画面\t操作名\t操作対象\t操作対象種別\t操作結果対称\t操作結果\t基本・応用\t章\t問題No"

inductive ScreenName
  | AnswerAndQuestion
  deriving DecidableEq, Repr

def ScreenName.rawValue : ScreenName → String
  | .AnswerAndQuestion => "問題・回答"

inductive ActionName
  | Display
  | Tap
  | Drag
  deriving DecidableEq, Repr

def ActionName.rawValue : ActionName → String
  | .Display => "表示"
  | .Tap => "タップ"
  | .Drag => "移動"

inductive ObjectName
  | JapaneseHintButton
  | EnglishHintButton
  | SkipButton
  | BackButton
  | NextButton
  | CloseButton
  | ImijunBox
  deriving DecidableEq, Repr

def ObjectName.rawValue : ObjectName → String
  | .JapaneseHintButton => "日本語ヒント"
  | .EnglishHintButton => "英単語ヒント"
  | .SkipButton => "スキップ"
  | .BackButton => "戻る"
  | .NextButton => "次へ"
  | .CloseButton => "終了"
  | .ImijunBox => "意味順BOX"

inductive ObjectKind
  | Screen
  | Button
  | Piece
  | ImijunBox
  deriving DecidableEq, Repr

def ObjectKind.rawValue : ObjectKind → String
  | .Screen => "画面"
  | .Button => "ボタン"
  | .Piece => "ピース"
  | .ImijunBox => "意味順BOX"

inductive Resutl
  | Success
  | Discontinuity
  | Right
  | Wrong
  deriving DecidableEq, Repr

def Resutl.rawValue : Resutl → String
  | .Success => "成功"
  | .Discontinuity => "中断"
  | .Right => "正解"
  | .Wrong => "不正解"

inductive ChapterType
  | BasicQuestion
  | AplicationQuestion
  deriving DecidableEq, Repr

def ChapterType.rawValue : ChapterType → String
  | .BasicQuestion => "基本"
  | .AplicationQuestion => "応用"

end Log

/-- The nine arguments of `AIMLogManager.record`. -/
structure LogRecord where
  screenName : String
  actionName : String
  objectName : String
  objectType : String
  boxResult : String
  result : String
  questionType : String
  chapterNumber : String
  questionNumber : String
  deriving DecidableEq, Repr

/-! ## Patterns -/

/-- The entries of one `kPatternUIData` dictionary that are read. -/
structure PatternUIData where
  column : Nat
  listPieceType : List Int
  deriving DecidableEq, Repr

/-- `AIMAppConstant.kPatternUIData`. -/
def kPatternUIData : List PatternUIData :=
  [⟨5, [1, 1, 1, 1, 1, 1, 1, 1, 1, 1]⟩,
   ⟨5, [1, 3, 1, 1, 1, 1, 4, 1, 1, 1]⟩,
   ⟨5, [1, 1, 1, 1, 1]⟩,
   ⟨6, [2, 2, 2, 2, 2, 2]⟩,
   ⟨6, [2, 2, 2, 2, 2, 2, 2, 2, 2, 2, 2, 2]⟩,
   ⟨5, [1, 1, 1, 1, 1, 5]⟩,
   ⟨6, [2, 2, 7, 8, 2, 2, 2, 2, 9, 2, 2]⟩,
   ⟨6, [2, 2, 9, 2, 2, 2, 2, 7, 8, 2, 2]⟩,
   ⟨6, [2, 2, 7, 8, 2, 2, 2, 2, 7, 8, 2, 2]⟩,
   ⟨6, [2, 3, 7, 8, 2, 2, 2, 4, 9, 2, 2]⟩,
   ⟨6, [2, 3, 9, 2, 2, 2, 4, 7, 8, 2, 2]⟩,
   ⟨6, [2, 3, 7, 8, 2, 2, 2, 4, 7, 8, 2, 2]⟩,
   ⟨6, [2, 2, 7, 8, 2, 2]⟩,
   ⟨7, [6, 6, 6, 6, 6, 6, 6]⟩,
   ⟨7, [6, 6, 6, 7, 8, 6, 6, 6, 6, 6, 9, 6, 6]⟩,
   ⟨7, [6, 6, 6, 9, 6, 6, 6, 6, 6, 7, 8, 6, 6]⟩,
   ⟨7, [6, 6, 6, 7, 8, 6, 6, 6, 6, 6, 7, 8, 6, 6]⟩,
   ⟨6, [2, 2, 2, 2, 2, 2, 5]⟩]

/-! ## Measures -/

/-- `kAIMPieceViewFrame`. -/
def kAIMPieceViewFrame : CGRect := ⟨0, 0, 176, 82⟩
def kAIMPieceViewHorizontalPadding : ℚ := 35

def kPiece1Width : ℚ := 191
def kPiece2Width : ℚ := 191
def kPiece3Width : ℚ := 405
def kPieceHeigh : ℚ := 99

def kPatternLeftMargin : ℚ := 35
def kPatternTextLeftMargin : ℚ := 50
def kPatternListViewWidth : ℚ := 804
def kPatternCoverSpace : ℚ := 39
def kPatternTopSpace : ℚ := 190

def kMatchRadian : ℚ := 90

theorem kMatchRadian_nonneg : 0 ≤ kMatchRadian := by
  norm_num [kMatchRadian]

/-! ## Titles of the right navigation button -/

def kSkip : String := "スキップ"
def kNext : String := "次へ"
def kClose : String := "終了"

@[simp] theorem kSkip_ne_kClose : kSkip ≠ kClose := by decide +kernel
@[simp] theorem kNext_ne_kClose : kNext ≠ kClose := by decide +kernel
@[simp] theorem kSkip_ne_kNext : kSkip ≠ kNext := by decide +kernel

end Imijun
