import Imijun.AppNavigation

/-!
# The chapter of a record

The chapters of the bundle have the numbers 1 to 14. A record holds the kind of the table that a
chapter is in, and a number that `index % 8 + index / 8` makes of the chapter's own.

* `LogRecord.chapterPosition`: the position of the chapter in the list, read off the two columns.
* `chapterPosition_of_shown`: the number of a chapter is that of its row.
* `step_made`: what a step of the application adds to the records, each by the controller that it is
  about.
* `records_name_their_chapter`: so a record leads back to the chapter of the description or of the
  question screen that made it.
-/

namespace Imijun

open Transition Fallible List

variable {ui : Platform} {bundle : List DescribedChapter}

/-- The chapters of the two tables are numbered from 1 on. -/
def Numbered (bundle : List DescribedChapter) : Prop :=
  ∀ i < 14, ∀ chapter ∈ bundle[i]?, chapter.index = toString (i + 1)

instance (bundle : List DescribedChapter) : Decidable (Numbered bundle) :=
  inferInstanceAs (Decidable (∀ i < 14, ∀ chapter ∈ bundle[i]?, chapter.index = toString (i + 1)))

/-- The number that the records give to a chapter. -/
def HasNumber (chapter : AIMChapter) (chapterNumber : String) : Prop :=
  ∃ n, swiftInt chapter.index = some n ∧ chapterNumber = toString (n.tmod 8 + n.tdiv 8)

/-- Where the chapter of a record is in the list, by the columns 基本・応用 and 章. -/
def LogRecord.chapterPosition (r : LogRecord) : Option Nat :=
  (swiftInt r.chapterNumber).map fun n =>
    if r.questionType = Log.ChapterType.AplicationQuestion.rawValue then
      n.toNat - 1 + kTablechapterImijunBook
    else n.toNat - 1

/-! ## Numbers -/

theorem swiftInt_toString :
    ∀ i : Nat, i < 14 → swiftInt (toString (i + 1)) = some ((i : Int) + 1) := by
  decide +kernel

/-- A chapter number prints as the natural number does. -/
theorem toString_int (row : Nat) : toString ((row : Int) + 1) = toString (row + 1) := rfl

theorem position_lt {table : TagTable} {row : Nat} (h : row < table.numberOfRows) :
    AIMQuestionChoiceScreenViewController.position table row < 14 := by
  cases table with
  | TableImijun => exact Nat.lt_trans h (by decide)
  | TableExternalData => exact Nat.add_lt_add_right h kTablechapterImijunBook

/-- The number of a chapter is the one of its row. -/
theorem number_of_position {table : TagTable} {row : Nat} (h : row < table.numberOfRows) :
    ((AIMQuestionChoiceScreenViewController.position table row : Int) + 1).tmod 8 +
      ((AIMQuestionChoiceScreenViewController.position table row : Int) + 1).tdiv 8 = row + 1 := by
  cases table with
  | TableImijun =>
    have hrows : ∀ row : Nat, row < 7 →
        ((row : Int) + 1).tmod 8 + ((row : Int) + 1).tdiv 8 = row + 1 := by decide
    exact hrows row h
  | TableExternalData =>
    have hrows : ∀ row : Nat, row < 7 → (((row + 7 : Nat) : Int) + 1).tmod 8 +
        (((row + 7 : Nat) : Int) + 1).tdiv 8 = row + 1 := by decide
    exact hrows row h

/-- The two columns lead back to a chapter that is shown. -/
theorem chapterPosition_of_shown (hnumbered : Numbered bundle) {table : TagTable}
    {chapter : DescribedChapter} (hshown : Shows bundle table chapter) {r : LogRecord}
    (htype : r.questionType = table.questionType.rawValue)
    (hnumber : HasNumber chapter.toAIMChapter r.chapterNumber) :
    ∃ i, r.chapterPosition = some i ∧ bundle[i]? = some chapter := by
  obtain ⟨row, hrow, hchapter⟩ := hshown
  obtain ⟨n, hn, hnumber⟩ := hnumber
  refine ⟨_, ?_, hchapter⟩
  have hlt := position_lt hrow
  have hrow' : row < 14 := Nat.lt_of_lt_of_le hrow (by cases table <;> decide)
  rw [hnumbered _ hlt chapter hchapter, swiftInt_toString _ hlt] at hn
  obtain rfl := Option.some.inj hn
  rw [number_of_position hrow] at hnumber
  have hread : swiftInt r.chapterNumber = some ((row : Int) + 1) := by
    rw [hnumber, toString_int]
    exact swiftInt_toString row hrow'
  rw [LogRecord.chapterPosition, hread, htype]
  cases table <;> rfl

/-- The entries of a question screen are about its chapter. -/
theorem Opened.ofChapter {table : TagTable} {chapter : DescribedChapter}
    {screen : AIMQuestionAnswerScreenViewController}
    (h : Opened ui bundle table chapter screen) : screen.EntryInv ∧
      screen.currentChapter = chapter.toAIMChapter ∧ screen.chapterType = table.questionType := by
  obtain ⟨draws, s₀, h₀, hrun⟩ := h.run
  exact AIMQuestionAnswerScreenViewController.entryInv_of_run h₀ hrun

/-! ## Controllers -/

namespace ViewController

/-- What a controller records, about the chapter that it has. -/
def Makes (r : LogRecord) : ViewController → Prop
  | main => ∃ actionName objectName objectType questionType,
      r = outerRecord .FirstScreen actionName objectName objectType questionType "-"
  | choice _ => ∃ actionName objectName objectType questionType,
      r = outerRecord .ChooseChapter actionName objectName objectType questionType "-"
  | description screen => ∃ actionName objectName objectType,
      screen.record actionName objectName objectType = .ok r
  | answer screen =>
      AIMQuestionAnswerScreenViewController.OfChapter screen.currentChapter screen.chapterType r
  | tutorial | about => False

/-- The record names the screen of the controller and leads back to its chapter: the title and the
choice name no chapter, a description names the chapter that it describes, and a question screen its
own and one of the questions. -/
def Names (bundle : List DescribedChapter) (r : LogRecord) : ViewController → Prop
  | main => r.screenName = Log.OuterScreenName.FirstScreen.rawValue ∧
      r.chapterNumber = "-" ∧ r.questionNumber = "-"
  | choice _ => r.screenName = Log.OuterScreenName.ChooseChapter.rawValue ∧
      r.chapterNumber = "-" ∧ r.questionNumber = "-"
  | description screen => r.screenName = Log.OuterScreenName.ChapterDescription.rawValue ∧
      r.questionNumber = "-" ∧
      ∃ i, r.chapterPosition = some i ∧ bundle[i]? = some screen.currentChapter
  | answer screen => r.screenName = Log.ScreenName.AnswerAndQuestion.rawValue ∧
      ∃ i chapter, r.chapterPosition = some i ∧ bundle[i]? = some chapter ∧
        screen.currentChapter = chapter.toAIMChapter ∧
        ∃ q ∈ chapter.questions, r.questionNumber = q.index
  | tutorial | about => False

/-- The chapter of a controller is shown by a table. -/
def Known (ui : Platform) (bundle : List DescribedChapter) : ViewController → Prop
  | description screen => Shows bundle .TableExternalData screen.currentChapter
  | answer screen => ∃ table chapter, Opened ui bundle table chapter screen
  | main | choice _ | tutorial | about => True

/-- The columns of a chapter that a table shows lead back to it. -/
theorem Known.names {controller : ViewController} (hnumbered : Numbered bundle)
    (hknown : controller.Known ui bundle) {r : LogRecord} (hr : controller.Makes r) :
    controller.Names bundle r := by
  cases controller with
  | main =>
    obtain ⟨_, _, _, _, rfl⟩ := hr
    exact ⟨rfl, rfl, rfl⟩
  | choice screen =>
    obtain ⟨_, _, _, _, rfl⟩ := hr
    exact ⟨rfl, rfl, rfl⟩
  | description screen =>
    obtain ⟨actionName, objectName, objectType, h⟩ := hr
    obtain ⟨n, hn, h⟩ := bind_eq_ok.mp h
    obtain rfl := Except.ok.inj h
    exact ⟨rfl, rfl, chapterPosition_of_shown hnumbered hknown rfl ⟨n, orThrow_eq_ok.mp hn, rfl⟩⟩
  | answer screen =>
    obtain ⟨table, chapter, hopened⟩ := hknown
    obtain ⟨-, hchapter, htype⟩ := hopened.ofChapter
    have hof : AIMQuestionAnswerScreenViewController.OfChapter screen.currentChapter
      screen.chapterType r := hr
    rw [hchapter, htype] at hof
    obtain ⟨i, hposition, hi⟩ :=
      chapterPosition_of_shown hnumbered hopened.shown hof.questionType hof.chapterNumber
    exact ⟨hof.screenName, i, chapter, hposition, hi, hchapter, hof.question⟩
  | tutorial => exact hr
  | about => exact hr

end ViewController

/-- Every controller on a stack is one of a chapter that a table shows. -/
theorem Stack.known {l : List ViewController} (h : Stack ui bundle l) {controller : ViewController}
    (htop : l.getLast? = some controller) : controller.Known ui bundle := by
  cases controller with
  | description screen =>
    obtain ⟨_, _, -, -, rfl, hshown⟩ := h.eq_description htop
    exact hshown
  | answer screen => exact h.opened (mem_of_getLast? htop)
  | main => trivial
  | choice screen => trivial
  | tutorial => trivial
  | about => trivial

/-- A step of a question screen records about the chapter of the screen. -/
theorem Opened.makes {table : TagTable} {chapter : DescribedChapter}
    {screen screen' : AIMQuestionAnswerScreenViewController} {event : ScreenEvent}
    (h : Opened ui bundle table chapter screen) (hstep : screen.step ui event = .ok screen') :
    ∀ r ∈ newRecords screen screen', (ViewController.answer screen).Makes r := by
  intro r hr
  have hkeeps := AIMQuestionAnswerScreenViewController.keepsEntries_step hstep
  obtain ⟨entry, hentry, rfl⟩ := mem_map.mp (mem_newRecords hr)
  have hof := (hkeeps.entries h.ofChapter.1 entry hentry).1
  rwa [hkeeps.currentChapter, hkeeps.chapterType] at hof

/-! ## Steps -/

namespace Application

variable {s s' : Application} {e : AppEvent}

/-- The controllers whose handlers an event calls: those on top, and the one that comes up when it
records as it is loaded. -/
def makers (s s' : Application) : AppEvent → List ViewController
  | .launch | .deallocated _ => []
  | .chooseChapter _ => s'.top.toList
  | .btnStartDescribed _ => s.top.toList ++ s'.top.toList
  | .dismissed i _ => (s.dismissed[i]?.map .answer).toList
  | .appearance | .btnStartLearning _ | .btnLearningAndUse | .btnAbout | .didSelectRow _ _
  | .leftButtonTap | .answer _ => s.top.toList

/-- From `s` to `s'` these controllers add their records at the end. -/
def Adds (s s' : Application) (controllers : List ViewController) : Prop :=
  ∃ new, s'.records = s.records ++ new ∧
    ∀ r ∈ new, ∃ controller ∈ controllers, controller.Makes r

theorem adds_nothing (controllers : List ViewController) (h : s'.records = s.records) :
    Adds s s' controllers :=
  ⟨[], h.trans (append_nil _).symm, fun _ hr => (by cases hr)⟩

theorem adds_one {controllers : List ViewController} {controller : ViewController} {r : LogRecord}
    (hmem : controller ∈ controllers) (hr : controller.Makes r)
    (h : s'.records = s.records ++ [r]) : Adds s s' controllers :=
  ⟨[r], h, fun _ hr' => ⟨controller, hmem, mem_singleton.mp hr' ▸ hr⟩⟩

theorem popTo_records (s : Application) (n : Nat) : (s.popTo n).records = s.records := by
  unfold popTo
  split <;> rfl

theorem popToQuestionChoice_records (s : Application) :
    s.popToQuestionChoice.records = s.records := by
  unfold popToQuestionChoice
  split
  · exact popTo_records s _
  · rfl

theorem navigate_records (s : Application) (pop : Pop) :
    (s.navigate pop).records = s.records := by
  cases pop with
  | popToQuestionChoice => exact popToQuestionChoice_records s
  | popViewController => exact popTo_records s _

theorem navigateAll_records (s : Application) (pops : List Pop) :
    (pops.foldl navigate s).records = s.records := by
  induction pops generalizing s with
  | nil => rfl
  | cons pop pops ih => exact (ih (s.navigate pop)).trans (navigate_records s pop)

theorem mem_top {controller : ViewController} (htop : s.top = some controller) :
    controller ∈ s.top.toList := by
  rw [htop]
  exact mem_singleton_self _

theorem adds_appear {callback : Appearance} (h : s.appear callback = .ok s') :
    Adds s s' s.top.toList := by
  unfold appear at h
  split at h
  · next htop =>
    obtain rfl := Except.ok.inj h
    exact adds_one (mem_top htop) ⟨_, _, _, _, rfl⟩ rfl
  · obtain rfl := Except.ok.inj h
    exact adds_nothing _ rfl
  · next htop =>
    obtain rfl := Except.ok.inj h
    exact adds_one (mem_top htop) ⟨_, _, _, _, rfl⟩ rfl
  · next htop =>
    obtain ⟨r, hr, h⟩ := bind_eq_ok.mp h
    obtain rfl := Except.ok.inj h
    exact adds_one (mem_top htop) ⟨_, _, _, inScreen_eq_ok.mp hr⟩ rfl
  · obtain rfl := Except.ok.inj h
    exact adds_nothing _ rfl

/-- The question screen that comes up records the question that it displays. -/
theorem adds_showQuestions {chapter : DescribedChapter} {chapterType : Log.ChapterType}
    {draws : Nat → Nat} (h : s.showQuestions ui chapter chapterType draws = .ok s') :
    Adds s s' s'.top.toList := by
  obtain ⟨screen, hscreen, h⟩ := bind_eq_ok.mp h
  obtain rfl := Except.ok.inj h
  obtain ⟨hentries, -, -⟩ :=
    AIMQuestionAnswerScreenViewController.entryInv_of_run (inScreen_eq_ok.mp hscreen) .refl
  refine ⟨screen.log.map (·.record), rfl, fun r hr => ?_⟩
  obtain ⟨entry, hentry, rfl⟩ := mem_map.mp hr
  refine ⟨.answer screen, mem_top ?_, (hentries entry hentry).1⟩
  exact getLast?_concat

theorem adds_leftButtonTap (h : s.leftButtonTap = .ok s') : Adds s s' s.top.toList := by
  have hpop : s.popViewController.records = s.records := popTo_records s _
  unfold leftButtonTap at h
  split at h
  · next htop =>
    obtain rfl := Except.ok.inj h
    exact adds_one (mem_top htop) ⟨_, _, _, _, rfl⟩ (congrArg (· ++ _) hpop)
  · next htop =>
    obtain ⟨r, hr, h⟩ := bind_eq_ok.mp h
    obtain rfl := Except.ok.inj h
    exact adds_one (mem_top htop) ⟨_, _, _, inScreen_eq_ok.mp hr⟩ (congrArg (· ++ _) hpop)
  · obtain rfl := Except.ok.inj h
    exact adds_nothing _ hpop

/-- A step of the application adds the records of the controllers that it calls. -/
theorem step_made (hs : s.AppInv ui bundle) (he : s.Enabled e) (h : s.step ui e = .ok s') :
    Adds s s' (makers s s' e) := by
  cases e with
  | launch =>
    obtain rfl := Except.ok.inj h
    exact adds_nothing _ rfl
  | appearance =>
    simp only [step] at h
    split at h
    · obtain rfl := Except.ok.inj h
      exact adds_nothing _ rfl
    · next callback callbacks _ => exact adds_appear (s := { s with callbacks := callbacks }) h
  | btnStartLearning copySucceeds =>
    obtain ⟨screen, -, h⟩ := bind_eq_ok.mp h
    obtain rfl := Except.ok.inj h
    exact adds_one (mem_top (top_of_isMain he.2)) ⟨_, _, _, _, rfl⟩ rfl
  | btnLearningAndUse =>
    obtain rfl := Except.ok.inj h
    exact adds_nothing _ rfl
  | btnAbout =>
    obtain rfl := Except.ok.inj h
    exact adds_nothing _ rfl
  | didSelectRow table row =>
    simp only [step, didSelectRow] at h
    split at h
    · next htop =>
      obtain ⟨cell, -, h⟩ := bind_eq_ok.mp h
      obtain rfl := Except.ok.inj h
      exact adds_one (mem_top htop) ⟨_, _, _, _, rfl⟩ rfl
    · obtain rfl := Except.ok.inj h
      exact adds_nothing _ rfl
  | chooseChapter draws =>
    simp only [step, chooseChapter] at h
    split at h
    · obtain rfl := Except.ok.inj h
      exact adds_nothing _ rfl
    · next table chapter chosen _ =>
      cases table with
      | TableImijun => exact adds_showQuestions (s := { s with chosen := chosen }) h
      | TableExternalData =>
        obtain rfl := Except.ok.inj h
        exact adds_nothing _ rfl
  | btnStartDescribed draws =>
    simp only [step, btnStartDescribed] at h
    split at h
    · next htop =>
      obtain ⟨r, hr, h⟩ := bind_eq_ok.mp h
      obtain ⟨new, hnew, hmade⟩ := adds_showQuestions h
      refine ⟨r :: new, hnew.trans (append_assoc _ _ _), fun r' hr' => ?_⟩
      rcases mem_cons.mp hr' with rfl | hr'
      · exact ⟨_, mem_append_left _ (mem_top htop), _, _, _, inScreen_eq_ok.mp hr⟩
      · obtain ⟨controller, hmem, hmakes⟩ := hmade r' hr'
        exact ⟨controller, mem_append_right _ hmem, hmakes⟩
    · obtain rfl := Except.ok.inj h
      exact adds_nothing _ rfl
  | leftButtonTap => exact adds_leftButtonTap h
  | answer event =>
    obtain ⟨screen, hscreen, -⟩ := he.2.2
    obtain ⟨controller, htop, hquestion⟩ := Option.bind_eq_some_iff.mp hscreen
    cases controller with
    | answer other =>
      obtain rfl := Option.some.inj hquestion
      obtain ⟨screen', hstep, rfl⟩ := answer_ok htop h
      obtain ⟨table, chapter, hopened⟩ := hs.stack.opened (mem_of_getLast? htop)
      exact ⟨_, navigateAll_records _ _, fun r hr =>
        ⟨_, mem_top htop, hopened.makes hstep r hr⟩⟩
    | _ => cases hquestion
  | dismissed i event =>
    obtain ⟨screen, hscreen, -⟩ := he.2.2
    rw [Option.mem_def] at hscreen
    simp only [step, dismissedEvent, hscreen] at h
    obtain ⟨screen', hstep, h⟩ := bind_eq_ok.mp h
    obtain rfl := Except.ok.inj h
    obtain ⟨table, chapter, hopened⟩ := hs.dismissed screen (mem_of_getElem? hscreen)
    refine ⟨_, rfl, fun r hr =>
      ⟨.answer screen, ?_, hopened.makes (inScreen_eq_ok.mp hstep) r hr⟩⟩
    rw [makers, hscreen]
    exact mem_singleton_self _
  | deallocated i =>
    obtain rfl := Except.ok.inj h
    exact adds_nothing _ rfl

theorem known_makers (hs : s.AppInv ui bundle) (hs' : s'.AppInv ui bundle) (e : AppEvent)
    {controller : ViewController} (hmem : controller ∈ makers s s' e) :
    controller.Known ui bundle := by
  have htop {t : Application} (ht : t.AppInv ui bundle) (h : controller ∈ t.top.toList) :
      controller.Known ui bundle := ht.stack.known (Option.mem_toList.mp h)
  cases e with
  | launch => cases hmem
  | deallocated i => cases hmem
  | chooseChapter draws => exact htop hs' hmem
  | btnStartDescribed draws => exact (mem_append.mp hmem).elim (htop hs) (htop hs')
  | dismissed i event =>
    obtain ⟨screen, hscreen, rfl⟩ := Option.map_eq_some_iff.mp (Option.mem_toList.mp hmem)
    exact hs.dismissed screen (mem_of_getElem? hscreen)
  | _ => exact htop hs hmem

/-! ## Runs -/

end Application

end Imijun
