import Imijun.Application
import Imijun.ScreenLog

/-!
# Navigation between the screens

* `Opened`: a question screen in a run of its own, for a chapter that its table shows.
* `Stack`: the seven stacks of the navigation controller.
* `appInv_step`: every event keeps the stack, whatever the popped screens still do.
* `navigation_sound`: so the close button (`closed_eq`) always leads to the choice of a chapter, and
  nothing can be tapped between the choice of a chapter and its segue.
-/

namespace Imijun

open Transition Fallible List

variable {ui : Platform} {bundle : List DescribedChapter}

/-- A tap of the user on the screen that is on top. -/
def AppEvent.isTap : AppEvent → Bool
  | .btnStartLearning _ | .btnLearningAndUse | .btnAbout | .didSelectRow _ _ | .btnStartDescribed _
  | .leftButtonTap => true
  | .answer event => event.isTap
  | .launch | .appearance | .chooseChapter _ | .dismissed _ _ | .deallocated _ => false

/-- A row of the table shows the chapter. -/
def Shows (bundle : List DescribedChapter) (table : TagTable) (chapter : DescribedChapter) : Prop :=
  ∃ row < table.numberOfRows,
    bundle[AIMQuestionChoiceScreenViewController.position table row]? = some chapter

/-- A question screen of a chapter of the table, at some point of its run. -/
structure Opened (ui : Platform) (bundle : List DescribedChapter) (table : TagTable)
    (chapter : DescribedChapter) (screen : AIMQuestionAnswerScreenViewController) : Prop where
  shown : Shows bundle table chapter
  run : ∃ draws s₀, (AIMQuestionAnswerScreenViewController.loaded chapter.toAIMChapter
      table.questionType kSkip).viewDidLoad ui draws = .ok s₀ ∧
    Reaches (AIMQuestionAnswerScreenViewController.step ui)
      AIMQuestionAnswerScreenViewController.Enabled s₀ screen

theorem Opened.step {table : TagTable} {chapter : DescribedChapter}
    {screen screen' : AIMQuestionAnswerScreenViewController} {event : ScreenEvent}
    (hs : Opened ui bundle table chapter screen) (he : screen.Enabled event)
    (h : screen.step ui event = .ok screen') : Opened ui bundle table chapter screen' := by
  obtain ⟨draws, s₀, h₀, hrun⟩ := hs.run
  exact ⟨hs.shown, draws, s₀, h₀, hrun.tail he h⟩

/-- The stacks of the navigation controller, the root first. -/
inductive Stack (ui : Platform) (bundle : List DescribedChapter) : List ViewController → Prop
  | main : Stack ui bundle [.main]
  | tutorial : Stack ui bundle [.main, .tutorial]
  | about : Stack ui bundle [.main, .about]
  | choice {c : AIMQuestionChoiceScreenViewController} (hc : c.chapterList = bundle) :
      Stack ui bundle [.main, .choice c]
  | description {c : AIMQuestionChoiceScreenViewController} {chapter : DescribedChapter}
      (hc : c.chapterList = bundle) (hshown : Shows bundle .TableExternalData chapter) :
      Stack ui bundle [.main, .choice c, .description (.viewDidLoad chapter)]
  | basic {c : AIMQuestionChoiceScreenViewController} {chapter : DescribedChapter}
      {screen : AIMQuestionAnswerScreenViewController} (hc : c.chapterList = bundle)
      (hscreen : Opened ui bundle .TableImijun chapter screen) :
      Stack ui bundle [.main, .choice c, .answer screen]
  | aplication {c : AIMQuestionChoiceScreenViewController} {chapter : DescribedChapter}
      {screen : AIMQuestionAnswerScreenViewController} (hc : c.chapterList = bundle)
      (hscreen : Opened ui bundle .TableExternalData chapter screen) :
      Stack ui bundle [.main, .choice c, .description (.viewDidLoad chapter), .answer screen]

namespace Stack

variable {l : List ViewController} {screen : AIMQuestionAnswerScreenViewController}

/-- What is left of a stack after a pop that spares the root is a stack. -/
theorem take (h : Stack ui bundle l) {n : Nat} (hn : 1 ≤ n) : Stack ui bundle (l.take n) := by
  obtain ⟨n, rfl⟩ := Nat.exists_eq_add_of_le' hn
  cases h with
  | main => simpa using Stack.main
  | tutorial =>
    rcases n with _ | n
    · exact .main
    · simpa using Stack.tutorial
  | about =>
    rcases n with _ | n
    · exact .main
    · simpa using Stack.about
  | choice hc =>
    rcases n with _ | n
    · exact .main
    · simpa using Stack.choice hc
  | description hc hshown =>
    rcases n with _ | _ | n
    · exact .main
    · exact .choice hc
    · simpa using Stack.description hc hshown
  | basic hc hscreen =>
    rcases n with _ | _ | n
    · exact .main
    · exact .choice hc
    · simpa using Stack.basic hc hscreen
  | aplication hc hscreen =>
    rcases n with _ | _ | _ | n
    · exact .main
    · exact .choice hc
    · exact .description hc hscreen.shown
    · simpa using Stack.aplication hc hscreen

/-- Every question screen on a stack is one of a chapter. -/
theorem opened (h : Stack ui bundle l) (hmem : .answer screen ∈ l) :
    ∃ table chapter, Opened ui bundle table chapter screen := by
  cases h with
  | main => simp at hmem
  | tutorial => simp at hmem
  | about => simp at hmem
  | choice hc => simp at hmem
  | description hc hshown => simp at hmem
  | basic hc hscreen =>
    obtain rfl : screen = _ := by simpa using hmem
    exact ⟨_, _, hscreen⟩
  | aplication hc hscreen =>
    obtain rfl : screen = _ := by simpa using hmem
    exact ⟨_, _, hscreen⟩

/-- The screen on top of a stack takes a step. -/
theorem step {screen' : AIMQuestionAnswerScreenViewController} {event : ScreenEvent}
    (h : Stack ui bundle l) (htop : l.getLast? = some (.answer screen))
    (he : screen.Enabled event) (hstep : screen.step ui event = .ok screen') :
    Stack ui bundle (l.dropLast ++ [.answer screen']) := by
  cases h with
  | main => simp at htop
  | tutorial => simp at htop
  | about => simp at htop
  | choice hc => simp at htop
  | description hc hshown => simp at htop
  | basic hc hscreen =>
    obtain rfl : _ = screen := by simpa using htop
    exact .basic hc (hscreen.step he hstep)
  | aplication hc hscreen =>
    obtain rfl : _ = screen := by simpa using htop
    exact .aplication hc (hscreen.step he hstep)

/-! ### The top of a stack -/

theorem eq_main (h : Stack ui bundle l) (htop : l.getLast? = some .main) : l = [.main] := by
  cases h with
  | main => rfl
  | _ => simp at htop

theorem eq_choice {c : AIMQuestionChoiceScreenViewController} (h : Stack ui bundle l)
    (htop : l.getLast? = some (.choice c)) : l = [.main, .choice c] ∧ c.chapterList = bundle := by
  cases h with
  | choice hc =>
    obtain rfl : _ = c := by simpa using htop
    exact ⟨rfl, hc⟩
  | _ => simp at htop

theorem eq_description {d : AIMDescriptionScreeenViewController} (h : Stack ui bundle l)
    (htop : l.getLast? = some (.description d)) :
    ∃ c chapter, l = [.main, .choice c, .description d] ∧ c.chapterList = bundle ∧
      d = .viewDidLoad chapter ∧ Shows bundle .TableExternalData chapter := by
  cases h with
  | description hc hshown =>
    obtain rfl : _ = d := by simpa using htop
    exact ⟨_, _, rfl, hc, rfl, hshown⟩
  | _ => simp at htop

/-- A question screen is reached over the choice of a chapter. -/
theorem of_answer (h : Stack ui bundle l) (htop : l.getLast? = some (.answer screen)) :
    ∃ c l', l = .main :: .choice c :: l' := by
  cases h with
  | basic hc hscreen => exact ⟨_, _, rfl⟩
  | aplication hc hscreen => exact ⟨_, _, rfl⟩
  | _ => simp at htop

end Stack

/-! ## Records -/

/-- What the screens in front of the question screen name in their records: a screen, a button, the
title of a chapter, or the row of a chapter in its table. -/
inductive OuterObject (bundle : List DescribedChapter) : String → Prop
  | fixed (objectName : Log.OuterObjectName) : OuterObject bundle objectName.rawValue
  | backButton : OuterObject bundle Log.ObjectName.BackButton.rawValue
  | title {chapter : DescribedChapter} (hchapter : chapter ∈ bundle) :
      OuterObject bundle (titleString chapter.title)
  | row {chapter : DescribedChapter} (hchapter : chapter ∈ bundle) (index : Nat) :
      OuterObject bundle ((AIMChapterCell.setData chapter index).lbIndexChapter ++ " " ++
        titleString chapter.title ++ " [開始]")

/-- A record of a screen in front of the tables, of a description, or of a question screen. -/
inductive AppRecord (ui : Platform) (bundle : List DescribedChapter) : LogRecord → Prop
  | outer {screenName : Log.OuterScreenName} (hscreen : screenName ≠ .ChapterDescription)
      (actionName : Log.ActionName) {objectName : String} (hobject : OuterObject bundle objectName)
      (objectType : Log.ObjectKind) {questionType : String}
      (htype : questionType = "-" ∨
        ∃ table : TagTable, questionType = table.questionType.rawValue) :
      AppRecord ui bundle
        (outerRecord screenName actionName objectName objectType questionType "-")
  | description {chapter : DescribedChapter} (hshown : Shows bundle .TableExternalData chapter)
      {actionName : Log.ActionName} {objectName : String} (hobject : OuterObject bundle objectName)
      {objectType : Log.ObjectKind} {r : LogRecord}
      (h : AIMDescriptionScreeenViewController.record (.viewDidLoad chapter) actionName objectName
        objectType = .ok r) : AppRecord ui bundle r
  | question {table : TagTable} {chapter : DescribedChapter}
      {screen : AIMQuestionAnswerScreenViewController}
      (hopened : Opened ui bundle table chapter screen) {entry : LogEntry}
      (hentry : entry ∈ screen.log) : AppRecord ui bundle entry.record

theorem Shows.mem {table : TagTable} {chapter : DescribedChapter}
    (h : Shows bundle table chapter) : chapter ∈ bundle := by
  obtain ⟨row, -, hrow⟩ := h
  exact mem_of_getElem? hrow

theorem Opened.appRecord {table : TagTable} {chapter : DescribedChapter}
    {screen : AIMQuestionAnswerScreenViewController}
    (h : Opened ui bundle table chapter screen) {r : LogRecord}
    (hr : r ∈ screen.log.map (·.record)) : AppRecord ui bundle r := by
  obtain ⟨entry, hentry, rfl⟩ := mem_map.mp hr
  exact .question h hentry

theorem mem_newRecords {screen screen' : AIMQuestionAnswerScreenViewController} {r : LogRecord}
    (h : r ∈ newRecords screen screen') : r ∈ screen'.log.map (·.record) := by
  obtain ⟨entry, hentry, rfl⟩ := mem_map.mp h
  exact mem_map_of_mem (drop_subset _ _ hentry)

/-! ## The choice of a chapter -/

/-- A row of a table that could be loaded. -/
theorem exists_shown {chapters : List DescribedChapter} {table : TagTable}
    (h : ∃ cells, AIMQuestionChoiceScreenViewController.reloadData ⟨chapters, true⟩ table =
      .ok cells) {row : Nat} (hrow : row < table.numberOfRows) :
    AIMQuestionChoiceScreenViewController.position table row < chapters.length := by
  obtain ⟨cell, hcell⟩ := mapM_total_iff.mp h row (mem_range.mpr hrow)
  obtain ⟨chapter, hchapter, -⟩ := bind_eq_ok.mp hcell
  exact (List.getElem?_eq_some_iff.mp (orThrow_eq_ok.mp hchapter)).1

/-- The tables can be loaded when there is a chapter for every row. -/
theorem viewDidLoad_choice_ok {chapters : List DescribedChapter}
    {c : AIMQuestionChoiceScreenViewController} :
    AIMQuestionChoiceScreenViewController.viewDidLoad chapters = .ok c ↔
      14 ≤ chapters.length ∧ c = ⟨chapters, true⟩ := by
  constructor
  · intro h
    obtain ⟨_, -, h⟩ := bind_eq_ok.mp h
    obtain ⟨cells, hcells, h⟩ := bind_eq_ok.mp h
    have hlast : 6 < TagTable.TableExternalData.numberOfRows := by decide
    exact ⟨exists_shown ⟨cells, hcells⟩ hlast, (Except.ok.inj h).symm⟩
  · rintro ⟨hlength, rfl⟩
    have hloads (table : TagTable) : ∃ cells,
        AIMQuestionChoiceScreenViewController.reloadData ⟨chapters, true⟩ table = .ok cells := by
      refine mapM_total_iff.mpr fun row hrow => ?_
      have hrow : row < 7 := by cases table <;> exact mem_range.mp hrow
      have hposition :
          AIMQuestionChoiceScreenViewController.position table row < chapters.length := by
        cases table <;>
          simp only [AIMQuestionChoiceScreenViewController.position, kTablechapterImijunBook] <;>
          omega
      exact ⟨_, bind_eq_ok.mpr ⟨_, orThrow_eq_ok.mpr (getElem?_eq_getElem hposition), rfl⟩⟩
    obtain ⟨cells, hcells⟩ := hloads .TableImijun
    obtain ⟨cells', hcells'⟩ := hloads .TableExternalData
    exact bind_eq_ok.mpr ⟨cells, hcells, bind_eq_ok.mpr ⟨cells', hcells', rfl⟩⟩

/-- The list is the one of the bundle: after a copy that fails the tables cannot be loaded. -/
theorem getChapterList_eq {library : Option (List DescribedChapter)} {copySucceeds : Bool}
    (hlibrary : ∀ chapters ∈ library, chapters = bundle)
    (h : 14 ≤ (getChapterList bundle library copySucceeds).length) :
    getChapterList bundle library copySucceeds = bundle := by
  cases library with
  | some chapters => exact hlibrary chapters rfl
  | none =>
    cases copySucceeds with
    | true => rfl
    | false => exact absurd h (Nat.not_succ_le_zero 13)

namespace Application

variable {s s' : Application} {e : AppEvent}
  {screen screen' : AIMQuestionAnswerScreenViewController}

/-- A chosen chapter waits for its segue; until then the choice of a chapter is on top, and it
cannot be touched. -/
structure Waiting (bundle : List DescribedChapter) (s : Application) : Prop where
  stack : ∃ c, s.viewControllers = [.main, .choice c] ∧ c.chapterList = bundle ∧
    c.isUserInteractionEnabled = false
  callbacks : s.callbacks = []
  chosen : ∃ table chapter, s.chosen = [(table, chapter)] ∧ Shows bundle table chapter

/-- What navigation keeps. -/
structure AppInv (ui : Platform) (bundle : List DescribedChapter) (s : Application) : Prop where
  bundled : s.bundle = bundle
  library : ∀ chapters ∈ s.library, chapters = bundle
  stack : Stack ui bundle s.viewControllers
  chosen : s.chosen = [] ∨ s.Waiting bundle
  dismissed : ∀ screen ∈ s.dismissed, ∃ table chapter, Opened ui bundle table chapter screen
  records : ∀ r ∈ s.records, AppRecord ui bundle r

theorem appInv_start (ui : Platform) (bundle : List DescribedChapter) :
    (start bundle).AppInv ui bundle where
  bundled := rfl
  library _ h := by cases h
  stack := .main
  chosen := .inl rfl
  dismissed _ h := by cases h
  records _ h := by cases h

/-- A part that records. -/
theorem AppInv.append (hs : s.AppInv ui bundle) {records : List LogRecord}
    (hrecords : ∀ r ∈ records, AppRecord ui bundle r) :
    AppInv ui bundle { s with records := s.records ++ records } where
  bundled := hs.bundled
  library := hs.library
  stack := hs.stack
  chosen := hs.chosen.imp id fun h => ⟨h.stack, h.callbacks, h.chosen⟩
  dismissed := hs.dismissed
  records r hr := (mem_append.mp hr).elim (hs.records r) (hrecords r)

theorem AppInv.record (hs : s.AppInv ui bundle) {r : LogRecord} (hr : AppRecord ui bundle r) :
    (s.record r).AppInv ui bundle :=
  hs.append fun _ h => mem_singleton.mp h ▸ hr

/-- A popped screen that changes or goes. -/
theorem AppInv.replace (hs : s.AppInv ui bundle)
    {dismissed : List AIMQuestionAnswerScreenViewController}
    (hdismissed : ∀ screen ∈ dismissed, ∃ table chapter, Opened ui bundle table chapter screen) :
    AppInv ui bundle { s with dismissed := dismissed } where
  bundled := hs.bundled
  library := hs.library
  stack := hs.stack
  chosen := hs.chosen.imp id fun h => ⟨h.stack, h.callbacks, h.chosen⟩
  dismissed := hdismissed
  records := hs.records

/-! ## Pops -/

theorem popTo_chosen (s : Application) (n : Nat) : (s.popTo n).chosen = s.chosen := by
  unfold popTo
  split <;> rfl

/-- What is popped lives on. -/
theorem AppInv.popTo (hs : s.AppInv ui bundle) (hidle : s.chosen = []) {n : Nat} (hn : 1 ≤ n) :
    (s.popTo n).AppInv ui bundle := by
  unfold Application.popTo
  split
  · exact hs
  · refine ⟨hs.bundled, hs.library, hs.stack.take hn, .inl hidle, fun screen hscreen => ?_,
      hs.records⟩
    rcases mem_append.mp hscreen with hscreen | hscreen
    · exact hs.dismissed screen hscreen
    · obtain ⟨controller, hmem, hquestion⟩ := mem_filterMap.mp hscreen
      cases controller with
      | answer other =>
        obtain rfl := Option.some.inj hquestion
        exact hs.stack.opened (drop_subset _ _ hmem)
      | _ => cases hquestion

/-- A question choice behind the root is popped to. -/
theorem popToQuestionChoice_eq {c : AIMQuestionChoiceScreenViewController}
    {l : List ViewController} (hstack : s.viewControllers = .main :: .choice c :: l)
    (hne : l ≠ []) : s.popToQuestionChoice = { s with
      viewControllers := [.main, .choice c]
      callbacks := [.viewWillAppear, .viewDidAppear]
      dismissed := s.dismissed ++ l.filterMap (·.questionScreen) } := by
  have hfound : s.viewControllers.findIdx? (·.isChoice) = some 1 := by rw [hstack]; rfl
  have hlong : ¬ s.viewControllers.length ≤ 1 + 1 := by
    rw [hstack]
    simpa using hne
  rw [popToQuestionChoice, hfound]
  show s.popTo (1 + 1) = _
  rw [popTo, if_neg hlong, hstack]
  rfl

theorem popViewController_chosen (s : Application) : s.popViewController.chosen = s.chosen :=
  popTo_chosen s _

theorem AppInv.popViewController (hs : s.AppInv ui bundle) (hidle : s.chosen = []) :
    s.popViewController.AppInv ui bundle :=
  hs.popTo hidle (le_max_left _ _)

theorem AppInv.navigate (hs : s.AppInv ui bundle) (hidle : s.chosen = []) (pop : Pop) :
    (s.navigate pop).AppInv ui bundle ∧ (s.navigate pop).chosen = [] := by
  cases pop with
  | popViewController =>
    exact ⟨hs.popViewController hidle, (popViewController_chosen s).trans hidle⟩
  | popToQuestionChoice =>
    show (s.popToQuestionChoice).AppInv ui bundle ∧ s.popToQuestionChoice.chosen = []
    unfold popToQuestionChoice
    split
    · exact ⟨hs.popTo hidle (Nat.le_add_left 1 _), (popTo_chosen s _).trans hidle⟩
    · exact ⟨hs, hidle⟩

theorem AppInv.navigateAll (hs : s.AppInv ui bundle) (hidle : s.chosen = []) (pops : List Pop) :
    (pops.foldl Application.navigate s).AppInv ui bundle := by
  induction pops generalizing s with
  | nil => exact hs
  | cons pop pops ih =>
    obtain ⟨hs', hidle'⟩ := hs.navigate hidle pop
    exact ih hs' hidle'

/-! ## One step -/

/-- Only the choice of a chapter is on top while a segue is waited for. -/
theorem AppInv.idle (hs : s.AppInv ui bundle)
    (h : s.callbacks ≠ [] ∨ ∀ c, s.top = some (.choice c) → c.isUserInteractionEnabled = true) :
    s.chosen = [] := by
  rcases hs.chosen with hidle | hwait
  · exact hidle
  · obtain ⟨c, hstack, -, hdisabled⟩ := hwait.stack
    rcases h with h | h
    · exact absurd hwait.callbacks h
    · have htop : s.top = some (.choice c) := by rw [top, hstack]; rfl
      exact absurd (h c htop) (by rw [hdisabled]; decide)

/-- A controller that appears: the choice of a chapter can be touched again. -/
theorem appInv_appear (hs : s.AppInv ui bundle) (hidle : s.chosen = []) {callback : Appearance}
    (h : s.appear callback = .ok s') : s'.AppInv ui bundle := by
  unfold appear at h
  split at h
  · exact Except.ok.inj h ▸ hs.record (.outer (by decide) _ (.fixed .Top) _ (.inl rfl))
  · next c hc =>
    obtain rfl := Except.ok.inj h
    obtain ⟨hstack, hlist⟩ := hs.stack.eq_choice hc
    refine ⟨hs.bundled, hs.library, ?_, .inl hidle, hs.dismissed, hs.records⟩
    show Stack ui bundle (s.viewControllers.dropLast ++ [_])
    rw [hstack]
    exact .choice hlist
  · exact Except.ok.inj h ▸ hs.record (.outer (by decide) _ (.fixed .ChooseQuestion) _ (.inl rfl))
  · next d hd =>
    obtain ⟨r, hr, hrecorded⟩ := bind_eq_ok.mp h
    obtain ⟨c, chapter, -, -, rfl, hshown⟩ := hs.stack.eq_description hd
    exact Except.ok.inj hrecorded ▸ hs.record
      (.description hshown (.title hshown.mem) (inScreen_eq_ok.mp hr))
  · exact Except.ok.inj h ▸ hs

/-- A controller is pushed when nothing waits. -/
theorem AppInv.push (hs : s.AppInv ui bundle) (hidle : s.chosen = []) {controller : ViewController}
    (hstack : Stack ui bundle (s.viewControllers ++ [controller])) :
    (s.pushViewController controller).AppInv ui bundle :=
  ⟨hs.bundled, hs.library, hstack, .inl hidle, hs.dismissed, hs.records⟩

theorem top_of_isMain (h : s.top.any (·.isMain) = true) : s.top = some .main := by
  obtain ⟨controller, hcontroller, hmain⟩ := (Option.any_eq_true _ _).mp h
  cases controller with
  | main => exact hcontroller
  | _ => cases hmain

theorem AppInv.idle_of_main (hs : s.AppInv ui bundle) (htop : s.top = some .main) :
    s.chosen = [] :=
  hs.idle (.inr fun c hc => by rw [htop] at hc; cases hc)

theorem appInv_btnStartLearning (hs : s.AppInv ui bundle) (htop : s.top = some .main)
    {copySucceeds : Bool} (h : s.btnStartLearning copySucceeds = .ok s') :
    s'.AppInv ui bundle := by
  obtain ⟨c, hc, h⟩ := bind_eq_ok.mp h
  obtain rfl := Except.ok.inj h
  obtain ⟨hlength, rfl⟩ := viewDidLoad_choice_ok.mp hc
  have hlist : getChapterList s.bundle s.library copySucceeds = bundle := by
    have hbundled := hs.bundled
    subst hbundled
    exact getChapterList_eq hs.library hlength
  have hrecorded := hs.record (r := outerRecord .FirstScreen .Tap
    Log.OuterObjectName.FirstScreenStartLearning.rawValue .Button "-" "-")
    (.outer (by decide) _ (.fixed .FirstScreenStartLearning) _ (.inl rfl))
  refine ⟨hs.bundled, fun chapters hchapters => ?_, ?_, .inl (hs.idle_of_main htop), hs.dismissed,
    hrecorded.records⟩
  · exact (Option.some.inj hchapters).symm.trans hlist
  · show Stack ui bundle (s.viewControllers ++ [_])
    rw [hs.stack.eq_main htop]
    exact .choice hlist

theorem appInv_didSelectRow (hs : s.AppInv ui bundle) (hcallbacks : s.callbacks = [])
    {table : TagTable} {row : Nat} (htop : s.top.any (·.hasTables) = true)
    (hrow : row < table.numberOfRows) (h : s.didSelectRow table row = .ok s') :
    s'.AppInv ui bundle := by
  obtain ⟨controller, hcontroller, htables⟩ := (Option.any_eq_true _ _).mp htop
  cases controller with
  | choice c =>
    have hidle := hs.idle (.inr fun other hother => by
      obtain rfl : c = other := by simpa [hcontroller] using hother
      exact htables)
    obtain ⟨hstack, hlist⟩ := hs.stack.eq_choice hcontroller
    unfold didSelectRow at h
    rw [hcontroller] at h
    obtain ⟨cell, hcell, h⟩ := bind_eq_ok.mp h
    obtain ⟨chapter, hchapter, hcell⟩ := bind_eq_ok.mp hcell
    obtain rfl := Except.ok.inj hcell
    obtain rfl := Except.ok.inj h
    rw [orThrow_eq_ok, hlist] at hchapter
    have hviews : s.viewControllers.dropLast ++
        [.choice { c with isUserInteractionEnabled := false }] =
        [.main, .choice { c with isUserInteractionEnabled := false }] := by rw [hstack]; rfl
    refine ⟨hs.bundled, hs.library, ?_, .inr ⟨⟨_, hviews, hlist, rfl⟩, hcallbacks, table, chapter,
      ?_, row, hrow, hchapter⟩, hs.dismissed, (hs.record (.outer (by decide) _
      (.row (mem_of_getElem? hchapter) (row + 1)) _ (.inr ⟨table, rfl⟩))).records⟩
    · show Stack ui bundle (s.viewControllers.dropLast ++ [_])
      rw [hviews]
      exact .choice hlist
    · show s.chosen ++ _ = _
      rw [hidle]
      rfl
  | _ => cases htables

/-- A question screen of a chapter of the table is pushed. -/
theorem appInv_showQuestions (hs : s.AppInv ui bundle) (hidle : s.chosen = []) {table : TagTable}
    {chapter : DescribedChapter} (hshown : Shows bundle table chapter) {draws : Nat → Nat}
    (hstack : ∀ screen, Opened ui bundle table chapter screen →
      Stack ui bundle (s.viewControllers ++ [.answer screen]))
    (h : s.showQuestions ui chapter table.questionType draws = .ok s') : s'.AppInv ui bundle := by
  obtain ⟨screen, hscreen, h⟩ := bind_eq_ok.mp h
  obtain rfl := Except.ok.inj h
  have hopened : Opened ui bundle table chapter screen :=
    ⟨hshown, draws, screen, inScreen_eq_ok.mp hscreen, .refl⟩
  exact (hs.push hidle (hstack screen hopened)).append fun r hr => hopened.appRecord hr

theorem appInv_chooseChapter (hs : s.AppInv ui bundle) (hchosen : s.chosen ≠ [])
    {draws : Nat → Nat} (h : s.chooseChapter ui draws = .ok s') : s'.AppInv ui bundle := by
  have hwait := hs.chosen.resolve_left hchosen
  obtain ⟨c, hstack, hlist, -⟩ := hwait.stack
  obtain ⟨table, chapter, hwaiting, hshown⟩ := hwait.chosen
  unfold chooseChapter at h
  rw [hwaiting] at h
  have hidle : AppInv ui bundle { s with chosen := [] } :=
    ⟨hs.bundled, hs.library, hs.stack, .inl rfl, hs.dismissed, hs.records⟩
  cases table with
  | TableImijun =>
    refine appInv_showQuestions hidle rfl hshown (fun screen hopened => ?_) h
    show Stack ui bundle (s.viewControllers ++ _)
    rw [hstack]
    exact .basic hlist hopened
  | TableExternalData =>
    obtain rfl := Except.ok.inj h
    refine hidle.push rfl ?_
    show Stack ui bundle (s.viewControllers ++ _)
    rw [hstack]
    exact .description hlist hshown

theorem appInv_btnStartDescribed (hs : s.AppInv ui bundle) {draws : Nat → Nat}
    (h : s.btnStartDescribed ui draws = .ok s') : s'.AppInv ui bundle := by
  unfold btnStartDescribed at h
  split at h
  · next d hd =>
    obtain ⟨r, hr, hshow⟩ := bind_eq_ok.mp h
    have hidle := hs.idle (.inr fun c hc => by rw [hd] at hc; cases hc)
    obtain ⟨c, chapter, hstack, hlist, rfl, hshown⟩ := hs.stack.eq_description hd
    have hrecorded := hs.record (.description hshown (.fixed .DescriptionScreenStartLearning)
      (inScreen_eq_ok.mp hr))
    have hshow : (s.record r).showQuestions ui chapter TagTable.TableExternalData.questionType
        draws = .ok s' := hshow
    refine appInv_showQuestions hrecorded hidle hshown (fun screen hopened => ?_) hshow
    show Stack ui bundle (s.viewControllers ++ _)
    rw [hstack]
    exact .aplication hlist hopened
  · exact Except.ok.inj h ▸ hs

theorem appInv_leftButtonTap (hs : s.AppInv ui bundle) (hidle : s.chosen = [])
    (h : s.leftButtonTap = .ok s') : s'.AppInv ui bundle := by
  have hpopped := hs.popViewController hidle
  unfold leftButtonTap at h
  split at h
  · exact Except.ok.inj h ▸ hpopped.record (.outer (by decide) _ .backButton _ (.inl rfl))
  · next d hd =>
    obtain ⟨r, hr, hrecorded⟩ := bind_eq_ok.mp h
    obtain ⟨c, chapter, -, -, rfl, hshown⟩ := hs.stack.eq_description hd
    exact Except.ok.inj hrecorded ▸ hpopped.record
      (.description hshown .backButton (inScreen_eq_ok.mp hr))
  · exact Except.ok.inj h ▸ hpopped

/-- The question screen on top takes a step, and may pop controllers. -/
theorem appInv_answer (hs : s.AppInv ui bundle) {event : ScreenEvent}
    (he : ∃ screen ∈ s.top.bind (·.questionScreen), screen.Enabled event)
    (h : s.answer ui event = .ok s') : s'.AppInv ui bundle := by
  unfold answer at h
  split at h
  · next screen htop =>
    obtain ⟨screen', hstep, h⟩ := bind_eq_ok.mp h
    obtain rfl := Except.ok.inj h
    rw [inScreen_eq_ok] at hstep
    have henabled : screen.Enabled event := by
      obtain ⟨other, hother, he⟩ := he
      rw [htop] at hother
      obtain rfl := Option.some.inj hother
      exact he
    have hidle := hs.idle (.inr fun c hc => by rw [htop] at hc; cases hc)
    obtain ⟨table, chapter, hopened⟩ := hs.stack.opened (mem_of_getLast? htop)
    have hopened' := hopened.step henabled hstep
    have hmoved : (s.setTop (.answer screen')).AppInv ui bundle :=
      ⟨hs.bundled, hs.library, hs.stack.step htop henabled hstep, .inl hidle, hs.dismissed,
        hs.records⟩
    exact (hmoved.append fun r hr => hopened'.appRecord (mem_newRecords hr)).navigateAll hidle _
  · exact Except.ok.inj h ▸ hs

/-- A popped screen takes a step. -/
theorem appInv_dismissedEvent (hs : s.AppInv ui bundle) {i : Nat} {event : ScreenEvent}
    (he : ∃ screen ∈ s.dismissed[i]?, screen.Enabled event)
    (h : s.dismissedEvent ui i event = .ok s') : s'.AppInv ui bundle := by
  unfold dismissedEvent at h
  obtain ⟨screen, hscreen, he⟩ := he
  rw [Option.mem_def.mp hscreen] at h
  obtain ⟨screen', hstep, h⟩ := bind_eq_ok.mp h
  obtain rfl := Except.ok.inj h
  obtain ⟨table, chapter, hopened⟩ := hs.dismissed screen (mem_of_getElem? hscreen)
  have hopened' := hopened.step he (inScreen_eq_ok.mp hstep)
  have hreplaced : AppInv ui bundle { s with dismissed := s.dismissed.set i screen' } := by
    refine hs.replace fun other hother => ?_
    rcases mem_or_eq_of_mem_set hother with hother | rfl
    · exact hs.dismissed other hother
    · exact ⟨table, chapter, hopened'⟩
  exact hreplaced.append fun r hr => hopened'.appRecord (mem_newRecords hr)

theorem appInv_step (hs : s.AppInv ui bundle) (he : s.Enabled e) (h : s.step ui e = .ok s') :
    s'.AppInv ui bundle := by
  cases e with
  | launch =>
    obtain rfl := Except.ok.inj h
    exact ⟨hs.bundled, hs.library, .main, .inl rfl, fun _ h => (by cases h), hs.records⟩
  | appearance =>
    have hidle := hs.idle (.inl he)
    unfold step at h
    obtain ⟨callback, callbacks, hcallbacks⟩ := exists_cons_of_ne_nil he
    rw [hcallbacks] at h
    refine appInv_appear (s := { s with callbacks := callbacks }) ?_ hidle h
    exact ⟨hs.bundled, hs.library, hs.stack, .inl hidle, hs.dismissed, hs.records⟩
  | btnStartLearning copySucceeds => exact appInv_btnStartLearning hs (top_of_isMain he.2) h
  | btnLearningAndUse =>
    obtain rfl := Except.ok.inj h
    have htop := top_of_isMain he.2
    refine hs.push (hs.idle_of_main htop) ?_
    rw [hs.stack.eq_main htop]
    exact .tutorial
  | btnAbout =>
    obtain rfl := Except.ok.inj h
    have htop := top_of_isMain he.2
    refine hs.push (hs.idle_of_main htop) ?_
    rw [hs.stack.eq_main htop]
    exact .about
  | didSelectRow table row => exact appInv_didSelectRow hs he.1 he.2.1 he.2.2 h
  | chooseChapter draws => exact appInv_chooseChapter hs he h
  | btnStartDescribed draws => exact appInv_btnStartDescribed hs h
  | leftButtonTap =>
    refine appInv_leftButtonTap hs (hs.idle (.inr fun c hc => ?_)) h
    obtain ⟨controller, hcontroller, hleft⟩ := (Option.any_eq_true _ _).mp he.2
    rw [hcontroller] at hc
    obtain rfl := Option.some.inj hc
    exact hleft
  | answer event => exact appInv_answer hs he.2.2 h
  | dismissed i event => exact appInv_dismissedEvent hs he.2.2 h
  | deallocated i =>
    obtain rfl := Except.ok.inj h
    exact hs.replace fun screen hscreen => hs.dismissed screen (mem_of_mem_eraseIdx hscreen)

/-! ## Runs -/

theorem appInv_of_run (h : Reaches (step ui) Enabled (start bundle) s) : s.AppInv ui bundle :=
  h.inv (AppInv ui bundle) (appInv_start ui bundle) fun _ _ _ hs he hstep => appInv_step hs he hstep

/-- The choice of a chapter that waits for a segue cannot be tapped. -/
theorem Waiting.not_tap (hs : s.Waiting bundle) (he : s.Enabled e) : e.isTap = false := by
  obtain ⟨c, hstack, -, hdisabled⟩ := hs.stack
  have htop : s.top = some (.choice c) := by rw [top, hstack]; rfl
  cases e with
  | btnStartLearning copySucceeds => exact absurd (htop.symm.trans (top_of_isMain he.2)) (by simp)
  | btnLearningAndUse => exact absurd (htop.symm.trans (top_of_isMain he.2)) (by simp)
  | btnAbout => exact absurd (htop.symm.trans (top_of_isMain he.2)) (by simp)
  | didSelectRow table row =>
    have htables : (ViewController.choice c).hasTables = true := by simpa [htop] using he.2.1
    exact absurd (hdisabled.symm.trans htables) Bool.false_ne_true
  | btnStartDescribed draws =>
    have hdescription : (ViewController.choice c).isDescription = true := by
      simpa [htop] using he.2
    cases hdescription
  | leftButtonTap =>
    have hleft : (ViewController.choice c).hasLeftButton = true := by simpa [htop] using he.2
    exact absurd (hdisabled.symm.trans hleft) Bool.false_ne_true
  | answer event =>
    obtain ⟨screen, hscreen, -⟩ := he.2.2
    rw [htop] at hscreen
    cases hscreen
  | _ => rfl

/-- A step of the screen; what it asks the navigation controller for comes after it. -/
theorem answer_ok {event : ScreenEvent} (htop : s.top = some (.answer screen))
    (h : s.step ui (.answer event) = .ok s') :
    ∃ screen', screen.step ui event = .ok screen' ∧
      s' = (screen'.pops.drop screen.pops.length).foldl navigate
        { s.setTop (.answer screen') with records := s.records ++ newRecords screen screen' } := by
  simp only [step, answer, htop] at h
  obtain ⟨screen', hscreen', h⟩ := bind_eq_ok.mp h
  exact ⟨screen', inScreen_eq_ok.mp hscreen', (Except.ok.inj h).symm⟩

/-- A screen that asks for the choice of a chapter. -/
theorem navigate_close (hpops : screen'.pops = screen.pops ++ [.popToQuestionChoice])
    (s : Application) : (screen'.pops.drop screen.pops.length).foldl navigate s =
      s.popToQuestionChoice := by
  rw [hpops, drop_left]
  rfl

/-- Nothing but the choice of a chapter is left over the title. -/
theorem closed_eq (hs : Stack ui bundle s.viewControllers) (htop : s.top = some (.answer screen))
    (screen' : AIMQuestionAnswerScreenViewController) (records : List LogRecord) :
    ∃ c popped, c.chapterList = bundle ∧
      popToQuestionChoice { s.setTop (.answer screen') with records := records } = { s with
        viewControllers := [.main, .choice c]
        callbacks := [.viewWillAppear, .viewDidAppear]
        dismissed := s.dismissed ++ popped ++ [screen']
        records := records } := by
  obtain ⟨c, l, hstack⟩ := hs.of_answer htop
  have hne : l ≠ [] := by
    rintro rfl
    rw [top, hstack] at htop
    cases htop
  have htaken := hs.take (Nat.le_add_left 1 1)
  rw [hstack] at htaken
  have hviews : s.viewControllers.dropLast ++ [.answer screen'] =
      .main :: .choice c :: (l.dropLast ++ [.answer screen']) := by
    rw [hstack, dropLast_cons_of_ne_nil (cons_ne_nil _ _), dropLast_cons_of_ne_nil hne]
    rfl
  refine ⟨c, l.dropLast.filterMap (·.questionScreen), (htaken.eq_choice rfl).2, ?_⟩
  refine (popToQuestionChoice_eq hviews (by simp)).trans ?_
  rw [filterMap_append, ← append_assoc]
  rfl

/-- In every run of the application, whatever the popped question screens still do, the stack is one
of seven, and every question screen, shown or popped, is at some point of a run of its own, for a
chapter that its table shows. At most one chosen chapter waits for its segue, and until then nothing
can be tapped. A tap on the right button of a question screen that is no longer the skip or the next
button leads to the choice of a chapter. -/
theorem navigation_sound (h : Reaches (step ui) Enabled (start bundle) s) :
    Stack ui bundle s.viewControllers ∧
      (∀ screen ∈ s.dismissed, ∃ table chapter, Opened ui bundle table chapter screen) ∧
      s.chosen.length ≤ 1 ∧
      (s.chosen ≠ [] → ∀ e, s.Enabled e → e.isTap = false) ∧
      ∀ screen draws s', s.top = some (.answer screen) →
        ¬ (screen.rightButtonTitle = kNext ∨ screen.rightButtonTitle = kSkip) →
        s.step ui (.answer (.rightButtonTap draws)) = .ok s' →
        ∃ c, s'.viewControllers = [.main, .choice c] ∧ c.chapterList = bundle := by
  have hs := appInv_of_run h
  refine ⟨hs.stack, hs.dismissed, ?_, fun hchosen e he => ?_,
    fun screen draws s' htop htitle hstep => ?_⟩
  · rcases hs.chosen with hidle | hwait
    · rw [hidle]
      exact Nat.zero_le 1
    · obtain ⟨table, chapter, hchosen, -⟩ := hwait.chosen
      rw [hchosen]
      exact le_refl 1
  · exact (hs.chosen.resolve_left hchosen).not_tap he
  · obtain ⟨screen', hscreen, rfl⟩ := answer_ok htop hstep
    obtain ⟨entry, rfl⟩ := AIMQuestionAnswerScreenViewController.closeTap_ok htitle hscreen
    obtain ⟨c, popped, hlist, hclosed⟩ := closed_eq hs.stack htop _ _
    rw [navigate_close rfl, hclosed]
    exact ⟨c, rfl, hlist⟩

/-- Fourteen chapters with the numbers of their rows. -/
def sampleBundle : List DescribedChapter :=
  (List.range 14).map fun i =>
    { AIMQuestionAnswerScreenViewController.sampleChapter 3 with
      index := toString (i + 1), chapterDescription := "" }

/-- From the start to the questions of the last chapter. -/
def openLast : List AppEvent :=
  [.appearance, .appearance, .btnStartLearning true, .appearance, .appearance,
    .didSelectRow .TableExternalData 6, .chooseChapter fun _ => 0, .appearance, .appearance,
    .btnStartDescribed fun _ => 0, .appearance, .appearance]

/-- The back button is tapped while an accepted drop is pending; its completion comes when the
description is on top again. -/
theorem navigation_sound_popped : ∃ s, Reaches (step .ascii) Enabled (start sampleBundle) s ∧
    s.viewControllers.length = 3 ∧ s.dismissed.length = 1 ∧ s.records.length = 9 ∧
    Stack .ascii sampleBundle s.viewControllers := by
  have hrun : (play (step .ascii) Enabled (start sampleBundle) (openLast ++
      (QuestionRun.drag 1 (QuestionRun.inList 1) (QuestionRun.onSlot 1)).map
        (fun e => .answer (.inView 0 e)) ++
      [.answer (.leftButtonTap fun _ => 0), .appearance,
        .dismissed 0 (.inView 0 (.dropCompletion 0))])).any (fun s =>
      decide (s.viewControllers.length = 3) && decide (s.dismissed.length = 1) &&
        decide (s.records.length = 9)) = true := by decide +kernel
  obtain ⟨s, hreach, hend⟩ := exists_reaches_of_play hrun
  simp only [Bool.and_eq_true, decide_eq_true_eq] at hend
  exact ⟨s, hreach, hend.1.1, hend.1.2, hend.2, (navigation_sound hreach).1⟩

end Application

end Imijun
