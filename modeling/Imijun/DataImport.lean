import Imijun.RealmStore

/-!
# The import of the lessons

`AIMUtilities.inportData` reads `data.json` and adds its patterns and chapters to `data.realm`.

* `JSONObject`: what `JSONSerialization` makes of a text, with the casts the import applies to it. A
  forced cast that fails, or a missing key, stops the program.
* `App`: the Realm files, which stay, and the default configuration of the process, which a relaunch
  forgets. A write transaction works on a copy; the commit puts the copy in the place of the file,
  or fails and leaves the file as it was.
-/

namespace Imijun

open Fallible

/-! ## JSON -/

inductive JSONObject
  | null
  | bool (value : Bool)
  | number (value : ℚ)
  | string (value : String)
  | array (values : List JSONObject)
  | dictionary (entries : List (String × JSONObject))

namespace JSONObject

def asString : JSONObject → Except Trap String
  | .string value => .ok value
  | _ => .error .unexpectedNil

def asArray : JSONObject → Except Trap (List JSONObject)
  | .array values => .ok values
  | _ => .error .unexpectedNil

def asDictionary : JSONObject → Except Trap (List (String × JSONObject))
  | .dictionary entries => .ok entries
  | _ => .error .unexpectedNil

/-- `as! Int`: the number is one of 64 bits. A boolean is a number as well. -/
def asInt : JSONObject → Except Trap Int
  | .bool value => .ok (if value then 1 else 0)
  | .number value =>
    if value.den = 1 ∧ -2 ^ 63 ≤ value.num ∧ value.num < 2 ^ 63 then .ok value.num
    else .error .unexpectedNil
  | _ => .error .unexpectedNil

end JSONObject

/-- `object(forKey:)`, when a value is needed. -/
def objectForKey (dictionary : List (String × JSONObject)) (key : String) :
    Except Trap JSONObject :=
  orThrow (dictionary.lookup key) .unexpectedNil

/-! ## The document

`interpolated` is the text of a value in a string interpolation. -/

section Document

variable (interpolated : JSONObject → String)

/-- A turn of the loops over `item`, `hints` and `answers`. -/
def addPiece (pieceStr : JSONObject) (realm : RealmStore) : Except Trap (RealmStore × Nat) := do
  let content ← pieceStr.asString
  return realm.addPiece ⟨content⟩

/-- The loops over `item`, `hints` and `answers`. -/
def addPieces (pieceArray : List JSONObject) (realm : RealmStore) :
    Except Trap (RealmStore × List Nat) :=
  Growing.addAll addPiece pieceArray realm []

/-- A turn of the loop over `pattern`. -/
def addPattern (patternDict : JSONObject) (realm : RealmStore) :
    Except Trap (RealmStore × Nat) := do
  let patternDict ← patternDict.asDictionary
  let type ← objectForKey patternDict "type"
  let item ← objectForKey patternDict "item"
  let pieceArray ← item.asArray
  let (realm, imijunPattern) ← addPieces pieceArray realm
  return realm.addPattern ⟨interpolated type, imijunPattern⟩

/-- `patternArray.object(at:)`. -/
def patternAt (patternArray : List Nat) (i : Int) : Except Trap Nat :=
  if 0 ≤ i then orThrow patternArray[i.toNat]? .indexOutOfRange else .error .indexOutOfRange

/-- A turn of the loop over `question`. -/
def addQuestion (patternArray : List Nat) (questionDic : JSONObject) (realm : RealmStore) :
    Except Trap (RealmStore × Nat) := do
  let questionDictionary ← questionDic.asDictionary
  let content ← objectForKey questionDictionary "content"
  let content ← content.asString
  let index ← objectForKey questionDictionary "index"
  let type ← objectForKey questionDictionary "type"
  let patternType ← type.asInt
  let pattern ← patternAt patternArray (patternType - 1)
  let hints ← objectForKey questionDictionary "hints"
  let hintArr ← hints.asArray
  let (realm, hints) ← addPieces hintArr realm
  let answers ← objectForKey questionDictionary "answers"
  let answerArr ← answers.asArray
  let (realm, answers) ← addPieces answerArr realm
  return realm.addQuestion ⟨interpolated index, content, some pattern, hints, answers⟩

/-- A turn of the loop over `chapter`. -/
def addChapter (patternArray : List Nat) (chapterDic : JSONObject) (realm : RealmStore) :
    Except Trap (RealmStore × Nat) := do
  let chapterDictionary ← chapterDic.asDictionary
  let index ← objectForKey chapterDictionary "index"
  let title ← objectForKey chapterDictionary "title"
  let title ← title.asString
  let description ← objectForKey chapterDictionary "description"
  let description ← description.asString
  let question ← objectForKey chapterDictionary "question"
  let questionList ← question.asArray
  let (realm, questions) ←
    Growing.addAll (addQuestion interpolated patternArray) questionList realm []
  return realm.addChapter ⟨interpolated index, title, description, questions⟩

/-- What `inportData` does between `beginWrite` and `commitWrite`. -/
def addDocument (personDicts : JSONObject) (realm : RealmStore) : Except Trap RealmStore := do
  let personDicts ← personDicts.asDictionary
  let pattern ← objectForKey personDicts "pattern"
  let patternArr ← pattern.asArray
  let (realm, patternArray) ← Growing.addAll (addPattern interpolated) patternArr realm []
  let chapter ← objectForKey personDicts "chapter"
  let chapterArray ← chapter.asArray
  let (realm, _) ← Growing.addAll (addChapter interpolated patternArray) chapterArray realm []
  return realm

end Document

/-! ## The application -/

/-- `Realm.Configuration`, with the name of the file; the directory is always the same. -/
structure RealmConfiguration where
  lastPathComponent : String
  deriving DecidableEq, Repr

/-- `Realm.Configuration()`. This is not the default configuration of the process. -/
def RealmConfiguration.new : RealmConfiguration := ⟨"default.realm"⟩

structure App where
  files : String → RealmStore
  /-- `Realm.Configuration.defaultConfiguration` -/
  defaultConfiguration : RealmConfiguration

namespace App

/-- `Realm()`: the file of the default configuration. -/
def realm (s : App) : RealmStore := s.files s.defaultConfiguration.lastPathComponent

def commit (s : App) (realm : RealmStore) : App :=
  { s with files := Function.update s.files s.defaultConfiguration.lastPathComponent realm }

def relaunch (s : App) : App := { s with defaultConfiguration := .new }

end App

/-- The file of the lessons. -/
def dataRealm : String := "data.realm"

/-- `AIMUtilities.inportData`. The text of `data.json` has been read as `data`, or the reading has
thrown; `committed` says whether the commit succeeds. -/
def inportData (interpolated : JSONObject → String) (data : Option JSONObject) (committed : Bool)
    (s : App) : Except Trap (Int × App) :=
  match data with
  | none => .ok (1, s)
  | some personDicts =>
    let config : RealmConfiguration := .new
    -- the guard against a second import
    if config.lastPathComponent = dataRealm then .ok (1, s)
    else do
      -- this stays, whatever becomes of the transaction
      let s := { s with defaultConfiguration := { config with lastPathComponent := dataRealm } }
      let realm ← addDocument interpolated personDicts s.realm
      if committed then return (0, s.commit realm) else return (1, s)

/-! ## Calls, failures and relaunches -/

inductive ImportEvent
  | inportData (committed : Bool)
  | relaunch
  deriving DecidableEq, Repr

/-- The application with what the calls have returned so far. -/
structure ImportRun where
  app : App
  returned : List Int

def ImportRun.step (interpolated : JSONObject → String) (data : Option JSONObject)
    (s : ImportRun) : ImportEvent → Except Trap ImportRun
  | .inportData committed => do
    let (result, app) ← inportData interpolated data committed s.app
    return ⟨app, s.returned ++ [result]⟩
  | .relaunch => .ok { s with app := s.app.relaunch }

end Imijun
