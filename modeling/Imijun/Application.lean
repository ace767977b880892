import Imijun.QuestionScreen
import Imijun.RealmStore

/-!
# The application

The screens in front of the question screen, and the navigation controller that holds them.

* `AIMQuestionChoiceScreenViewController`, `AIMDescriptionScreeenViewController`: the choice of a
  chapter, and its description.
* `Application`: the stack of the navigation controller with what the screens wait for, stepping on
  `AppEvent`s. A run of `step` ends where a handler traps; in one of `stepOrRestart` the application
  is started again then.

A push or a pop makes the new top controller appear: its `viewWillAppear` and `viewDidAppear` come
later, and until then no tap reaches a screen. The block in which a chosen cell performs its segue
comes 0.15 s after the tap. A popped question screen lives on while a completion holds it.

A Realm file is given by the chapters that it reads as.
-/

namespace Imijun

open Transition Fallible

/-! ## Texts of the log -/

namespace Log

/-- The cases of `ScreenName` for the screens in front of the question screen. -/
inductive OuterScreenName
  | FirstScreen
  | ChooseChapter
  | ChapterDescription
  deriving DecidableEq, Repr

def OuterScreenName.rawValue : OuterScreenName → String
  | .FirstScreen => "タイトル"
  | .ChooseChapter => "問題選択"
  | .ChapterDescription => "場面説明"

/-- The cases of `ObjectName` that only these screens use. -/
inductive OuterObjectName
  | Top
  | FirstScreenStartLearning
  | DescriptionScreenStartLearning
  | ChooseQuestion
  deriving DecidableEq, Repr

def OuterObjectName.rawValue : OuterObjectName → String
  | .Top => "トップ"
  | .FirstScreenStartLearning => "学習をはじめる"
  | .DescriptionScreenStartLearning => "学習開始"
  | .ChooseQuestion => "問題選択"

end Log

/-- The columns that every record of these screens fills in the same way. -/
def outerRecord (screenName : Log.OuterScreenName) (actionName : Log.ActionName)
    (objectName : String) (objectType : Log.ObjectKind) (questionType chapterNumber : String) :
    LogRecord where
  screenName := screenName.rawValue
  actionName := actionName.rawValue
  objectName := objectName
  objectType := objectType.rawValue
  boxResult := "-"
  result := Log.Resutl.Success.rawValue
  questionType := questionType
  chapterNumber := chapterNumber
  questionNumber := "-"

/-- The traps of the application. -/
inductive AppTrap
  /-- `chapterList` is subscripted outside its bounds -/
  | chapterOutOfRange
  | screen (trap : ScreenTrap)
  deriving DecidableEq, Repr

/-- A handler of a screen, called by the application. -/
def inScreen {α : Type} (x : Except ScreenTrap α) : Except AppTrap α :=
  match x with
  | .ok a => .ok a
  | .error trap => .error (.screen trap)

@[simp] theorem inScreen_eq_ok {α : Type} {x : Except ScreenTrap α} {a : α} :
    inScreen x = .ok a ↔ x = .ok a := by
  cases x <;> simp [inScreen]

/-! ## The choice of a chapter -/

def kTablechapterImijunBook : Nat := 7
def kTablechapterExternalFile : Nat := 7

/-- The tags of the two tables. -/
inductive TagTable
  | TableImijun
  | TableExternalData
  deriving DecidableEq, Repr

/-- `tableView(_:numberOfRowsInSection:)`. -/
def TagTable.numberOfRows : TagTable → Nat
  | .TableImijun => kTablechapterImijunBook
  | .TableExternalData => kTablechapterExternalFile

/-- `questionType` in `tableView(_:didSelectRowAt:)`. -/
def TagTable.questionType : TagTable → Log.ChapterType
  | .TableImijun => .BasicQuestion
  | .TableExternalData => .AplicationQuestion

structure AIMChapterCell where
  lbTitleChapter : String
  lbIndexChapter : String
  myChapter : DescribedChapter
  deriving DecidableEq, Repr

/-- `AIMChapterCell.setData`. -/
def AIMChapterCell.setData (chapter : DescribedChapter) (index : Nat) : AIMChapterCell where
  lbTitleChapter := chapter.title
  lbIndexChapter := "第" ++ toString index ++ "章"
  myChapter := chapter

structure AIMQuestionChoiceScreenViewController where
  chapterList : List DescribedChapter
  /-- `view.isUserInteractionEnabled` -/
  isUserInteractionEnabled : Bool
  deriving DecidableEq, Repr

namespace AIMQuestionChoiceScreenViewController

/-- The position in `chapterList` that a row of a table shows. -/
def position : TagTable → Nat → Nat
  | .TableImijun, row => row
  | .TableExternalData, row => row + kTablechapterImijunBook

/-- `tableView(_:cellForRowAt:)`. -/
def cellForRowAt (s : AIMQuestionChoiceScreenViewController) (table : TagTable) (row : Nat) :
    Except AppTrap AIMChapterCell := do
  let chapter ← orThrow s.chapterList[position table row]? .chapterOutOfRange
  return .setData chapter (row + 1)

/-- The cells that a table asks for: all its rows are visible. -/
def reloadData (s : AIMQuestionChoiceScreenViewController) (table : TagTable) :
    Except AppTrap (List AIMChapterCell) :=
  (List.range table.numberOfRows).mapM (s.cellForRowAt table)

def viewDidLoad (chapterList : List DescribedChapter) :
    Except AppTrap AIMQuestionChoiceScreenViewController := do
  let s := ⟨chapterList, true⟩
  let _ ← reloadData s .TableImijun
  let _ ← reloadData s .TableExternalData
  return s

end AIMQuestionChoiceScreenViewController

/-! ## The description of a chapter -/

structure AIMDescriptionScreeenViewController where
  currentChapter : DescribedChapter
  /-- `navi.lbTitle.text` -/
  lbTitle : String
  deriving DecidableEq, Repr

namespace AIMDescriptionScreeenViewController

def viewDidLoad (currentChapter : DescribedChapter) : AIMDescriptionScreeenViewController :=
  ⟨currentChapter, titleString currentChapter.title⟩

/-- A call of `record` with the columns that this screen fills in the same way. -/
def record (s : AIMDescriptionScreeenViewController) (actionName : Log.ActionName)
    (objectName : String) (objectType : Log.ObjectKind) : Except ScreenTrap LogRecord := do
  let index ← orThrow (swiftInt s.currentChapter.index) .unexpectedNil
  return outerRecord .ChapterDescription actionName objectName objectType
    Log.ChapterType.AplicationQuestion.rawValue (toString (index.tmod 8 + index.tdiv 8))

end AIMDescriptionScreeenViewController

/-! ## The navigation controller -/

inductive ViewController
  | main
  | choice (screen : AIMQuestionChoiceScreenViewController)
  | description (screen : AIMDescriptionScreeenViewController)
  | answer (screen : AIMQuestionAnswerScreenViewController)
  | tutorial
  | about

namespace ViewController

def isChoice : ViewController → Bool
  | choice _ => true
  | _ => false

def questionScreen : ViewController → Option AIMQuestionAnswerScreenViewController
  | answer screen => some screen
  | _ => none

/-- A left button, or the back button of the about screen, that can be tapped. -/
def hasLeftButton : ViewController → Bool
  | choice screen => screen.isUserInteractionEnabled
  | description _ | tutorial | about => true
  | main | answer _ => false

/-- A table whose rows can be tapped. -/
def hasTables : ViewController → Bool
  | choice screen => screen.isUserInteractionEnabled
  | _ => false

def isMain : ViewController → Bool
  | main => true
  | _ => false

def isDescription : ViewController → Bool
  | description _ => true
  | _ => false

end ViewController

/-- The callbacks of a controller that appears. -/
inductive Appearance
  | viewWillAppear
  | viewDidAppear
  deriving DecidableEq, Repr

structure Application where
  /-- the `data.realm` of the bundle -/
  bundle : List DescribedChapter
  /-- the `data.realm` of the library directory, when there is one -/
  library : Option (List DescribedChapter)
  /-- the stack, its root first -/
  viewControllers : List ViewController
  /-- what the top controller has still to be told -/
  callbacks : List Appearance
  /-- the blocks of `chooseChapter`: the table of the cell, and its chapter -/
  chosen : List (TagTable × DescribedChapter)
  /-- the question screens that have been popped and still live -/
  dismissed : List AIMQuestionAnswerScreenViewController
  /-- the calls of `AIMLogManager.record` -/
  records : List LogRecord

inductive AppEvent
  /-- the application ends and is started again -/
  | launch
  /-- the next callback of the top controller -/
  | appearance
  /-- `copySucceeds`: the copy of `data.realm` that `getChapterList` may make -/
  | btnStartLearning (copySucceeds : Bool)
  | btnLearningAndUse
  | btnAbout
  | didSelectRow (table : TagTable) (row : Nat)
  /-- the oldest block of `chooseChapter` -/
  | chooseChapter (draws : Nat → Nat)
  /-- `btnStartLearning` of the description -/
  | btnStartDescribed (draws : Nat → Nat)
  /-- `leftButtonTap`, or `backButtonPressed` of the about screen -/
  | leftButtonTap
  /-- an event of the question screen on top -/
  | answer (event : ScreenEvent)
  /-- an event of a popped question screen -/
  | dismissed (i : Nat) (event : ScreenEvent)
  | deallocated (i : Nat)

/-- A tap on a button of the question screen. -/
def ScreenEvent.isTap : ScreenEvent → Bool
  | .rightButtonTap _ | .leftButtonTap _ => true
  | .transitionCompletion | .inView _ _ | .finishAtCurrentQuestion => false

/-- The end of a question is reported by content views only. -/
def ScreenEvent.occurs : ScreenEvent → Bool
  | .finishAtCurrentQuestion => false
  | .rightButtonTap _ | .leftButtonTap _ | .transitionCompletion | .inView _ _ => true

/-- The records of a step of a question screen. -/
def newRecords (screen screen' : AIMQuestionAnswerScreenViewController) : List LogRecord :=
  (screen'.log.drop screen.log.length).map (·.record)

/-- `AIMDataController.getChapterList`. A copy that fails is passed over; opening the Realm makes
the file when there is none. -/
def getChapterList (bundle : List DescribedChapter) (library : Option (List DescribedChapter))
    (copySucceeds : Bool) : List DescribedChapter :=
  match library with
  | some chapterList => chapterList
  | none => if copySucceeds then bundle else []

namespace Application

def start (bundle : List DescribedChapter) : Application where
  bundle := bundle
  library := none
  viewControllers := [.main]
  callbacks := [.viewWillAppear, .viewDidAppear]
  chosen := []
  dismissed := []
  records := []

def top (s : Application) : Option ViewController := s.viewControllers.getLast?

def setTop (s : Application) (controller : ViewController) : Application :=
  { s with viewControllers := s.viewControllers.dropLast ++ [controller] }

def record (s : Application) (r : LogRecord) : Application :=
  { s with records := s.records ++ [r] }

def pushViewController (s : Application) (controller : ViewController) : Application :=
  { s with
    viewControllers := s.viewControllers ++ [controller]
    callbacks := [.viewWillAppear, .viewDidAppear] }

/-- The controllers behind the first `n` are popped. -/
def popTo (s : Application) (n : Nat) : Application :=
  if s.viewControllers.length ≤ n then s
  else { s with
    viewControllers := s.viewControllers.take n
    callbacks := [.viewWillAppear, .viewDidAppear]
    dismissed := s.dismissed ++ (s.viewControllers.drop n).filterMap (·.questionScreen) }

/-- The root is never popped. -/
def popViewController (s : Application) : Application :=
  s.popTo (max 1 (s.viewControllers.length - 1))

/-- `popToViewController` with the first question choice of the stack, when there is one. -/
def popToQuestionChoice (s : Application) : Application :=
  match s.viewControllers.findIdx? (·.isChoice) with
  | some i => s.popTo (i + 1)
  | none => s

def navigate (s : Application) : Pop → Application
  | .popToQuestionChoice => s.popToQuestionChoice
  | .popViewController => s.popViewController

/-! ## Handlers -/

/-- The segues to the question screen. -/
def showQuestions (ui : Platform) (s : Application) (chapter : DescribedChapter)
    (chapterType : Log.ChapterType) (draws : Nat → Nat) : Except AppTrap Application := do
  let screen ← inScreen ((AIMQuestionAnswerScreenViewController.loaded chapter.toAIMChapter
    chapterType kSkip).viewDidLoad ui draws)
  return { s.pushViewController (.answer screen) with
    records := s.records ++ screen.log.map (·.record) }

/-- The callback of the top controller. -/
def appear (s : Application) (callback : Appearance) : Except AppTrap Application :=
  match s.top, callback with
  | some .main, .viewWillAppear =>
    .ok (s.record (outerRecord .FirstScreen .Display Log.OuterObjectName.Top.rawValue .Screen
      "-" "-"))
  | some (.choice screen), .viewWillAppear =>
    .ok (s.setTop (.choice { screen with isUserInteractionEnabled := true }))
  | some (.choice _), .viewDidAppear =>
    .ok (s.record (outerRecord .ChooseChapter .Display Log.OuterObjectName.ChooseQuestion.rawValue
      .Screen "-" "-"))
  | some (.description screen), .viewDidAppear => do
    let r ← inScreen (screen.record .Display screen.lbTitle .Screen)
    return s.record r
  | _, _ => .ok s

def btnStartLearning (s : Application) (copySucceeds : Bool) : Except AppTrap Application := do
  let s := s.record (outerRecord .FirstScreen .Tap
    Log.OuterObjectName.FirstScreenStartLearning.rawValue .Button "-" "-")
  let chapterList := getChapterList s.bundle s.library copySucceeds
  let screen ← AIMQuestionChoiceScreenViewController.viewDidLoad chapterList
  return { s.pushViewController (.choice screen) with library := some chapterList }

def didSelectRow (s : Application) (table : TagTable) (row : Nat) :
    Except AppTrap Application :=
  match s.top with
  | some (.choice screen) => do
    let cell ← screen.cellForRowAt table row
    let s := s.setTop (.choice { screen with isUserInteractionEnabled := false })
    let s := s.record (outerRecord .ChooseChapter .Tap
      (cell.lbIndexChapter ++ " " ++ titleString cell.lbTitleChapter ++ " [開始]") .Button
      table.questionType.rawValue "-")
    return { s with chosen := s.chosen ++ [(table, cell.myChapter)] }
  | _ => .ok s

/-- The block of `chooseChapter`, with the closure `gotoDescriptionPage` of the cell. -/
def chooseChapter (ui : Platform) (s : Application) (draws : Nat → Nat) :
    Except AppTrap Application :=
  match s.chosen with
  | [] => .ok s
  | (table, chapter) :: chosen =>
    let s := { s with chosen := chosen }
    match table with
    | .TableImijun => s.showQuestions ui chapter .BasicQuestion draws
    | .TableExternalData => .ok (s.pushViewController (.description (.viewDidLoad chapter)))

def btnStartDescribed (ui : Platform) (s : Application) (draws : Nat → Nat) :
    Except AppTrap Application :=
  match s.top with
  | some (.description screen) => do
    let r ← inScreen (screen.record .Tap
      Log.OuterObjectName.DescriptionScreenStartLearning.rawValue .Button)
    (s.record r).showQuestions ui screen.currentChapter .AplicationQuestion draws
  | _ => .ok s

def leftButtonTap (s : Application) : Except AppTrap Application :=
  match s.top with
  | some (.choice _) =>
    .ok (s.popViewController.record (outerRecord .ChooseChapter .Tap
      Log.ObjectName.BackButton.rawValue .Button "-" "-"))
  | some (.description screen) => do
    let s := s.popViewController
    let r ← inScreen (screen.record .Tap Log.ObjectName.BackButton.rawValue .Button)
    return s.record r
  | _ => .ok s.popViewController

def answer (ui : Platform) (s : Application) (event : ScreenEvent) : Except AppTrap Application :=
  match s.top with
  | some (.answer screen) => do
    let screen' ← inScreen (screen.step ui event)
    let s := { s.setTop (.answer screen') with
      records := s.records ++ newRecords screen screen' }
    return (screen'.pops.drop screen.pops.length).foldl navigate s
  | _ => .ok s

/-- A popped screen gets no taps, so it asks the navigation controller for nothing. -/
def dismissedEvent (ui : Platform) (s : Application) (i : Nat) (event : ScreenEvent) :
    Except AppTrap Application :=
  match s.dismissed[i]? with
  | some screen => do
    let screen' ← inScreen (screen.step ui event)
    return { s with
      dismissed := s.dismissed.set i screen'
      records := s.records ++ newRecords screen screen' }
  | none => .ok s

def step (ui : Platform) (s : Application) : AppEvent → Except AppTrap Application
  | .launch => .ok { start s.bundle with library := s.library, records := s.records }
  | .appearance =>
    match s.callbacks with
    | [] => .ok s
    | callback :: callbacks => { s with callbacks := callbacks }.appear callback
  | .btnStartLearning copySucceeds => s.btnStartLearning copySucceeds
  | .btnLearningAndUse => .ok (s.pushViewController .tutorial)
  | .btnAbout => .ok (s.pushViewController .about)
  | .didSelectRow table row => s.didSelectRow table row
  | .chooseChapter draws => s.chooseChapter ui draws
  | .btnStartDescribed draws => s.btnStartDescribed ui draws
  | .leftButtonTap => s.leftButtonTap
  | .answer event => s.answer ui event
  | .dismissed i event => s.dismissedEvent ui i event
  | .deallocated i => .ok { s with dismissed := s.dismissed.eraseIdx i }

/-- The `data.realm` of the library directory after an event, whether its handler traps or not: the
Realm is opened, which makes the file, before the first row is asked for. -/
def libraryAfter (s : Application) : AppEvent → Option (List DescribedChapter)
  | .btnStartLearning copySucceeds => some (getChapterList s.bundle s.library copySucceeds)
  | _ => s.library

/-- An event of an application that is started again after each trap. The file stays; what the
handler that trapped has recorded is left out. -/
def stepOrRestart (ui : Platform) (s : Application) (e : AppEvent) : Except AppTrap Application :=
  match s.step ui e with
  | .ok s' => .ok s'
  | .error _ => .ok { start s.bundle with library := s.libraryAfter e, records := s.records }

/-- When an event can occur. -/
def Enabled (s : Application) : AppEvent → Prop
  | .launch => True
  | .appearance => s.callbacks ≠ []
  | .btnStartLearning _ | .btnLearningAndUse | .btnAbout => s.callbacks = [] ∧ s.top.any (·.isMain)
  | .didSelectRow table row =>
    s.callbacks = [] ∧ s.top.any (·.hasTables) ∧ row < table.numberOfRows
  | .chooseChapter _ => s.chosen ≠ []
  | .btnStartDescribed _ => s.callbacks = [] ∧ s.top.any (·.isDescription)
  | .leftButtonTap => s.callbacks = [] ∧ s.top.any (·.hasLeftButton)
  | .answer event =>
    (event.isTap → s.callbacks = []) ∧ event.occurs ∧
      ∃ screen ∈ s.top.bind (·.questionScreen), screen.Enabled event
  | .dismissed i event =>
    event.isTap = false ∧ event.occurs ∧ ∃ screen ∈ s.dismissed[i]?, screen.Enabled event
  | .deallocated i => i < s.dismissed.length

instance (s : Application) (e : AppEvent) : Decidable (s.Enabled e) := by
  cases e <;> unfold Enabled <;> infer_instance

end Application

end Imijun
