import Imijun.Basic
import Imijun.Lib.Growing

/-!
# The store of the lessons

The contents of a Realm file: a table for each class. An object refers to another by the number of
its row, and rows are in the order in which they were added.

* `chapterList`: what a reader of the store gets.
* `s ≤ s'`: `s'` has more pieces, patterns and questions. What can be read from `s` reads the same
  from `s'` (`patternAt_mono`, `questionAt_mono`).
-/

namespace Imijun

open List

/-! ## Rows -/

structure PatternRow where
  type : String
  imijunPattern : List Nat
  deriving DecidableEq, Repr

structure QuestionRow where
  index : String
  content : String
  pattern : Option Nat
  hints : List Nat
  answers : List Nat
  deriving DecidableEq, Repr

structure ChapterRow where
  index : String
  title : String
  chapterDescription : String
  questions : List Nat
  deriving DecidableEq, Repr

structure RealmStore where
  pieces : List AIMPiece
  patterns : List PatternRow
  questions : List QuestionRow
  chapters : List ChapterRow
  deriving DecidableEq, Repr

/-- A chapter with the description, which no screen shows. -/
structure DescribedChapter extends AIMChapter where
  chapterDescription : String
  deriving DecidableEq, Repr

namespace RealmStore

def empty : RealmStore := ⟨[], [], [], []⟩

/-! ## Reading -/

def pieceAt (s : RealmStore) (r : Nat) : Option AIMPiece := s.pieces[r]?

def patternAt (s : RealmStore) (r : Nat) : Option AIMPattern := do
  let row ← s.patterns[r]?
  let imijunPattern ← row.imijunPattern.mapM s.pieceAt
  return ⟨row.type, imijunPattern⟩

/-- The object behind an optional link. -/
def link (s : RealmStore) : Option Nat → Option (Option AIMPattern)
  | none => some none
  | some r => (s.patternAt r).map some

def questionAt (s : RealmStore) (r : Nat) : Option AIMQuestion := do
  let row ← s.questions[r]?
  let pattern ← s.link row.pattern
  let hints ← row.hints.mapM s.pieceAt
  let answers ← row.answers.mapM s.pieceAt
  return ⟨row.index, row.content, pattern, hints, answers⟩

def chapter (s : RealmStore) (row : ChapterRow) : Option DescribedChapter := do
  let questions ← row.questions.mapM s.questionAt
  return ⟨⟨row.index, row.title, questions⟩, row.chapterDescription⟩

/-- `realm.objects(AIMChapter.self)`. -/
def chapterList (s : RealmStore) : Option (List DescribedChapter) := s.chapters.mapM s.chapter

/-! ## Adding -/

/-- `realm.add` of an object of each class; the number of the new row is its reference. -/
def addPiece (s : RealmStore) (piece : AIMPiece) : RealmStore × Nat :=
  ({ s with pieces := s.pieces ++ [piece] }, s.pieces.length)

def addPattern (s : RealmStore) (pattern : PatternRow) : RealmStore × Nat :=
  ({ s with patterns := s.patterns ++ [pattern] }, s.patterns.length)

def addQuestion (s : RealmStore) (question : QuestionRow) : RealmStore × Nat :=
  ({ s with questions := s.questions ++ [question] }, s.questions.length)

def addChapter (s : RealmStore) (chapter : ChapterRow) : RealmStore × Nat :=
  ({ s with chapters := s.chapters ++ [chapter] }, s.chapters.length)

/-- `s'` is `s` after some pieces, patterns and questions were added. -/
structure Extends (s s' : RealmStore) : Prop where
  pieces : s.pieces <+: s'.pieces
  patterns : s.patterns <+: s'.patterns
  questions : s.questions <+: s'.questions
  chapters : s'.chapters = s.chapters

instance : Preorder RealmStore where
  le := Extends
  le_refl s := ⟨prefix_rfl, prefix_rfl, prefix_rfl, rfl⟩
  le_trans _ _ _ h h' :=
    ⟨h.pieces.trans h'.pieces, h.patterns.trans h'.patterns, h.questions.trans h'.questions,
      h'.chapters.trans h.chapters⟩

theorem le_addPiece (s : RealmStore) (piece : AIMPiece) : s ≤ (s.addPiece piece).1 :=
  ⟨prefix_append _ _, prefix_rfl, prefix_rfl, rfl⟩

theorem le_addPattern (s : RealmStore) (pattern : PatternRow) : s ≤ (s.addPattern pattern).1 :=
  ⟨prefix_rfl, prefix_append _ _, prefix_rfl, rfl⟩

theorem le_addQuestion (s : RealmStore) (question : QuestionRow) :
    s ≤ (s.addQuestion question).1 :=
  ⟨prefix_rfl, prefix_rfl, prefix_append _ _, rfl⟩

/-! ## References stay good -/

variable {s s' : RealmStore} {r : Nat}

theorem pieceAt_mono (h : s ≤ s') {piece : AIMPiece} (hr : s.pieceAt r = some piece) :
    s'.pieceAt r = some piece :=
  Growing.getElem?_of_isPrefix h.pieces hr

theorem pieces_mono (h : s ≤ s') {refs : List Nat} {pieces : List AIMPiece}
    (hr : refs.mapM s.pieceAt = some pieces) : refs.mapM s'.pieceAt = some pieces :=
  Growing.mapM_mono (fun _ _ => pieceAt_mono h) hr

theorem patternAt_eq_some {pattern : AIMPattern} :
    s.patternAt r = some pattern ↔ ∃ row, s.patterns[r]? = some row ∧ row.type = pattern.type ∧
      row.imijunPattern.mapM s.pieceAt = some pattern.imijunPattern := by
  constructor
  · intro h
    obtain ⟨row, hrow, h⟩ := Option.bind_eq_some_iff.mp h
    obtain ⟨items, hitems, h⟩ := Option.bind_eq_some_iff.mp h
    obtain rfl := Option.some.inj h
    exact ⟨row, hrow, rfl, hitems⟩
  · rintro ⟨row, hrow, htype, hitems⟩
    rw [patternAt, hrow]
    show row.imijunPattern.mapM s.pieceAt >>= _ = _
    rw [hitems]
    show some (AIMPattern.mk row.type pattern.imijunPattern) = some pattern
    rw [htype]

theorem patternAt_mono (h : s ≤ s') {pattern : AIMPattern} (hr : s.patternAt r = some pattern) :
    s'.patternAt r = some pattern := by
  have ⟨row, hrow, htype, hitems⟩ := patternAt_eq_some.mp hr
  exact patternAt_eq_some.mpr
    ⟨row, Growing.getElem?_of_isPrefix h.patterns hrow, htype, pieces_mono h hitems⟩

theorem pieceAt_addPiece (s : RealmStore) (piece : AIMPiece) :
    (s.addPiece piece).1.pieceAt (s.addPiece piece).2 = some piece :=
  getElem?_concat_length

theorem patternAt_addPattern {row : PatternRow} {pattern : AIMPattern}
    (htype : row.type = pattern.type)
    (hitems : row.imijunPattern.mapM s.pieceAt = some pattern.imijunPattern) :
    (s.addPattern row).1.patternAt (s.addPattern row).2 = some pattern :=
  patternAt_eq_some.mpr ⟨row, getElem?_concat_length, htype, hitems⟩

theorem link_mono (h : s ≤ s') {r : Option Nat} {pattern : Option AIMPattern}
    (hr : s.link r = some pattern) : s'.link r = some pattern := by
  cases r with
  | none => exact hr
  | some r =>
    obtain ⟨p, hp, rfl⟩ := Option.map_eq_some_iff.mp hr
    exact Option.map_eq_some_iff.mpr ⟨p, patternAt_mono h hp, rfl⟩

/-- The row is one of the question. -/
structure IsRow (s : RealmStore) (row : QuestionRow) (question : AIMQuestion) : Prop where
  index : row.index = question.index
  content : row.content = question.content
  pattern : s.link row.pattern = some question.pattern
  hints : row.hints.mapM s.pieceAt = some question.hints
  answers : row.answers.mapM s.pieceAt = some question.answers

theorem questionAt_eq_some {question : AIMQuestion} :
    s.questionAt r = some question ↔ ∃ row, s.questions[r]? = some row ∧ s.IsRow row question := by
  constructor
  · intro h
    obtain ⟨row, hrow, h⟩ := Option.bind_eq_some_iff.mp h
    obtain ⟨pattern, hpattern, h⟩ := Option.bind_eq_some_iff.mp h
    obtain ⟨hints, hhints, h⟩ := Option.bind_eq_some_iff.mp h
    obtain ⟨answers, hanswers, h⟩ := Option.bind_eq_some_iff.mp h
    obtain rfl := Option.some.inj h
    exact ⟨row, hrow, rfl, rfl, hpattern, hhints, hanswers⟩
  · rintro ⟨row, hrow, hindex, hcontent, hpattern, hhints, hanswers⟩
    simp only [questionAt, hrow, hpattern, hhints, hanswers, Option.bind_eq_bind,
      Option.bind_some, hindex, hcontent]
    rfl

theorem questionAt_addQuestion {row : QuestionRow} {question : AIMQuestion}
    (h : s.IsRow row question) :
    (s.addQuestion row).1.questionAt (s.addQuestion row).2 = some question := by
  refine questionAt_eq_some.mpr ⟨row, getElem?_concat_length, h.index, h.content, ?_, h.hints,
    h.answers⟩
  exact link_mono (le_addQuestion s row) h.pattern

theorem questionAt_mono (h : s ≤ s') {question : AIMQuestion}
    (hr : s.questionAt r = some question) : s'.questionAt r = some question := by
  have ⟨row, hrow, hindex, hcontent, hpattern, hhints, hanswers⟩ := questionAt_eq_some.mp hr
  have hrow' := Growing.getElem?_of_isPrefix h.questions hrow
  exact questionAt_eq_some.mpr ⟨row, hrow', hindex, hcontent,
    link_mono h hpattern, pieces_mono h hhints, pieces_mono h hanswers⟩

theorem chapter_eq_some {row : ChapterRow} {c : DescribedChapter} :
    s.chapter row = some c ↔ row.index = c.index ∧ row.title = c.title ∧
      row.chapterDescription = c.chapterDescription ∧
      row.questions.mapM s.questionAt = some c.questions := by
  constructor
  · intro h
    obtain ⟨questions, hquestions, h⟩ := Option.bind_eq_some_iff.mp h
    obtain rfl := Option.some.inj h
    exact ⟨rfl, rfl, rfl, hquestions⟩
  · rintro ⟨hindex, htitle, hdescription, hquestions⟩
    simp only [chapter, hquestions, Option.bind_eq_bind, Option.bind_some, hindex, htitle,
      hdescription]
    rfl

theorem chapter_mono (h : s ≤ s') {row : ChapterRow} {c : DescribedChapter}
    (hc : s.chapter row = some c) : s'.chapter row = some c := by
  have ⟨hindex, htitle, hdescription, hquestions⟩ := chapter_eq_some.mp hc
  exact chapter_eq_some.mpr
    ⟨hindex, htitle, hdescription, Growing.mapM_mono (fun _ _ => questionAt_mono h) hquestions⟩

end RealmStore

end Imijun
