import Imijun.AppRecords
import Imijun.Navigation

/-!
# When the application traps

The screens subscript the list of chapters and the questions of a chapter, and make a number of its
index.

* `step_ne_unexpectedNil`: a question screen never unwraps the number of a chapter that has one.
* `Fit`: a chapter for each row, each with a number and two questions.
* `Emptied`: the file that is left when the chapters could not be copied.
* `step_traps_iff_chapters_lost`: the screens of such chapters trap inside their content views only;
  besides, the choice traps whenever it is opened without chapters, then and after any later start.
-/

namespace Imijun

open Transition Fallible List

/-! ## The question screen -/

namespace AIMQuestionAnswerScreenViewController

variable {ui : Platform} {s s' : AIMQuestionAnswerScreenViewController}

theorem inContent_ne_unexpectedNil {α : Type} {x : Except Trap α} :
    inContent x ≠ .error .unexpectedNil := by
  cases x <;> simp [inContent]

theorem question_ne_unexpectedNil {i : Int} : s.question i ≠ .error .unexpectedNil := by
  unfold question
  split_ifs <;> simp

theorem switchTo_ne_unexpectedNil {q : AIMQuestion} {draws : Nat → Nat} {title : String} :
    s.switchTo ui q draws title ≠ .error .unexpectedNil :=
  bind_ne_error inContent_ne_unexpectedNil fun _ _ => by simp [pure, Except.pure]

/-- The index of the chapter is a number. -/
def HasIndex (s : AIMQuestionAnswerScreenViewController) : Prop :=
  (swiftInt s.currentChapter.index).isSome = true

theorem HasIndex.chapterNumber_ne (hs : s.HasIndex) : s.chapterNumber ≠ .error .unexpectedNil := by
  obtain ⟨n, hn⟩ := Option.isSome_iff_exists.mp hs
  refine bind_ne_error ?_ fun _ _ => by simp [pure, Except.pure]
  rw [hn]
  simp

theorem HasIndex.record_ne (hs : s.HasIndex) {actionName : Log.ActionName}
    {objectName objectType boxResult result : String} {source : Option (Nat × Call)} :
    s.record actionName objectName objectType boxResult result source ≠ .error .unexpectedNil :=
  bind_ne_error hs.chapterNumber_ne fun _ _ =>
    bind_ne_error question_ne_unexpectedNil fun _ _ => by simp [pure, Except.pure]

theorem HasIndex.recordDisplay_ne (hs : s.HasIndex) : s.recordDisplay ≠ .error .unexpectedNil :=
  bind_ne_error question_ne_unexpectedNil fun _ _ => hs.record_ne

theorem HasIndex.setSubTitle_ne (hs : s.HasIndex) {i : Int} :
    s.setSubTitle i ≠ .error .unexpectedNil :=
  bind_ne_error hs.chapterNumber_ne fun _ _ =>
    bind_ne_error question_ne_unexpectedNil fun _ _ => by simp [pure, Except.pure]

theorem HasIndex.of_keeps (hs : s.HasIndex) (h : KeepsEntries s s') : s'.HasIndex := by
  unfold HasIndex
  rw [h.currentChapter]
  exact hs

theorem HasIndex.delegate_ne (hs : s.HasIndex) {view : Nat} {call : Call} :
    delegate view s call ≠ .error .unexpectedNil := by
  cases call with
  | endDragPiece piece k => exact hs.record_ne
  | pressedHintButton => exact hs.record_ne
  | pressedEnglishHintButton => exact hs.record_ne
  | playAudio sound => simp [delegate]
  | finishAtCurrentQuestion =>
    exact bind_ne_error hs.record_ne fun _ _ => by simp [pure, Except.pure]

theorem HasIndex.setDataOnGui_ne (hs : s.HasIndex) {i : Int} {draws : Nat → Nat} :
    s.setDataOnGuiWhenSwitchQuestion ui i draws ≠ .error .unexpectedNil := by
  refine bind_ne_error hs.setSubTitle_ne fun t _ => ?_
  split_ifs
  · exact bind_ne_error question_ne_unexpectedNil fun _ _ => switchTo_ne_unexpectedNil
  · simp [pure, Except.pure]

theorem keepsEntries_setDataOnGui {i : Int} {draws : Nat → Nat}
    (h : s.setDataOnGuiWhenSwitchQuestion ui i draws = .ok s') : KeepsEntries s s' := by
  obtain ⟨t, ht, h⟩ := bind_eq_ok.mp h
  refine (keepsEntries_setSubTitle ht).trans ?_
  split_ifs at h
  · obtain ⟨q, -, h⟩ := bind_eq_ok.mp h
    exact keepsEntries_switchTo h
  · obtain rfl := Except.ok.inj h
    exact keepsEntries_of_log rfl rfl rfl

theorem HasIndex.rightButtonTap_ne (hs : s.HasIndex) {draws : Nat → Nat} :
    s.rightButtonTap ui draws ≠ .error .unexpectedNil := by
  unfold rightButtonTap
  by_cases htitle : s.rightButtonTitle = kNext ∨ s.rightButtonTitle = kSkip
  · rw [if_pos htitle]
    refine bind_ne_error hs.record_ne fun t ht => ?_
    have htapped : t.HasIndex := hs.of_keeps (keepsEntries_recordTap ht)
    have hmoved : HasIndex { t with currentPositionQuestion := t.currentPositionQuestion + 1 } :=
      htapped
    refine bind_ne_error hmoved.setDataOnGui_ne fun u hu => ?_
    exact (hmoved.of_keeps (keepsEntries_setDataOnGui hu)).recordDisplay_ne
  · rw [if_neg htitle]
    exact bind_ne_error hs.record_ne fun _ _ => by simp [pure, Except.pure]

theorem HasIndex.leftButtonTap_ne (hs : s.HasIndex) {draws : Nat → Nat} :
    s.leftButtonTap ui draws ≠ .error .unexpectedNil := by
  refine bind_ne_error hs.record_ne fun t ht => ?_
  split_ifs
  · simp [pure, Except.pure]
  · have htapped : t.HasIndex := hs.of_keeps (keepsEntries_recordTap ht)
    have hmoved : HasIndex { t with currentPositionQuestion := t.currentPositionQuestion - 1 } :=
      htapped
    refine bind_ne_error hmoved.setSubTitle_ne fun u hu => ?_
    have hu := hmoved.of_keeps (keepsEntries_setSubTitle hu)
    refine bind_ne_error question_ne_unexpectedNil fun q _ => ?_
    refine bind_ne_error switchTo_ne_unexpectedNil fun w hw => ?_
    exact (hu.of_keeps (keepsEntries_switchTo hw)).recordDisplay_ne

/-- No handler unwraps the number of a chapter that has one. -/
theorem step_ne_unexpectedNil (hs : s.HasIndex) (e : ScreenEvent) :
    s.step ui e ≠ .error .unexpectedNil := by
  cases e with
  | rightButtonTap draws => exact hs.rightButtonTap_ne
  | leftButtonTap draws => exact hs.leftButtonTap_ne
  | transitionCompletion => cases ht : s.transitions <;> simp [step, ht]
  | inView view event =>
    refine bind_ne_error inContent_ne_unexpectedNil fun run _ => ?_
    exact foldlM_ne_error HasIndex hs (fun t call ht => ht.delegate_ne) fun t call t' ht h =>
      ht.of_keeps (keepsEntries_delegate h)
  | finishAtCurrentQuestion =>
    exact bind_ne_error hs.record_ne fun _ _ => by simp [pure, Except.pure]

/-- A trap of the screen is one of a content view. -/
theorem step_error (hrange : s.InRange) (hs : s.HasIndex) {e : ScreenEvent} {t : ScreenTrap}
    (h : s.step ui e = .error t) : ∃ trap, t = .content trap := by
  cases t with
  | questionOutOfRange => exact absurd h (step_ne_questionOutOfRange hrange e)
  | unexpectedNil => exact absurd h (step_ne_unexpectedNil hs e)
  | content trap => exact ⟨trap, rfl⟩

/-- So it is when the screen is opened. -/
theorem viewDidLoad_error {chapter : AIMChapter} {chapterType : Log.ChapterType}
    {draws : Nat → Nat} (htwo : 2 ≤ chapter.questions.length)
    (hindex : (swiftInt chapter.index).isSome = true) {t : ScreenTrap}
    (h : (loaded chapter chapterType kSkip).viewDidLoad ui draws = .error t) :
    ∃ trap, t = .content trap := by
  have hfirst : (0 : Int) < chapter.questions.length := by omega
  have hloaded : HasIndex { loaded chapter chapterType kSkip with
      lbTitle := titleString chapter.title } := hindex
  cases t with
  | content trap => exact ⟨trap, rfl⟩
  | unexpectedNil =>
    refine absurd h (bind_ne_error hloaded.setDataOnGui_ne fun u hu => ?_)
    refine bind_ne_error question_ne_unexpectedNil fun q _ => ?_
    refine bind_ne_error inContent_ne_unexpectedNil fun content _ => ?_
    have hshown : u.HasIndex := hloaded.of_keeps (keepsEntries_setDataOnGui hu)
    have hadded : HasIndex { u.addContentView content with
        currentQuestionContentView := u.created } := hshown
    exact hadded.recordDisplay_ne
  | questionOutOfRange =>
    refine absurd h (bind_ne_error ?_ fun u hu => ?_)
    · refine bind_ne_error (setSubTitle_ne le_rfl hfirst) fun w hw => ?_
      split_ifs with hpos
      · exact absurd hpos (lt_irrefl (0 : Int))
      · simp [pure, Except.pure]
    · obtain ⟨w, hw, hu⟩ := bind_eq_ok.mp hu
      obtain ⟨lbSubTitle, rfl⟩ := setSubTitle_ok hw
      obtain rfl := Except.ok.inj hu
      refine bind_ne_error (question_ne le_rfl hfirst) fun q _ => ?_
      refine bind_ne_error inContent_ne fun content _ => ?_
      exact recordDisplay_ne le_rfl hfirst

end AIMQuestionAnswerScreenViewController

/-! ## The application -/

variable {ui : Platform} {bundle : List DescribedChapter}

/-- There is a chapter for every row of the tables, and each has a number and two questions. -/
structure Fit (bundle : List DescribedChapter) : Prop where
  rows : 14 ≤ bundle.length
  index : ∀ chapter ∈ bundle, (swiftInt chapter.index).isSome = true
  questions : ∀ chapter ∈ bundle, 2 ≤ chapter.questions.length

/-- There is a chapter for every row of the tables, and those that they show have a number. -/
structure Filled (bundle : List DescribedChapter) : Prop where
  rows : 14 ≤ bundle.length
  index : ∀ table chapter, Shows bundle table chapter → (swiftInt chapter.index).isSome = true

theorem Fit.filled (hfit : Fit bundle) : Filled bundle where
  rows := hfit.rows
  index _ chapter hshown := hfit.index chapter hshown.mem

theorem inScreen_error {α : Type} {x : Except ScreenTrap α} {t : AppTrap}
    (h : inScreen x = .error t) : ∃ trap, t = .screen trap ∧ x = .error trap := by
  cases x with
  | ok a => cases h
  | error trap =>
    obtain rfl := Except.error.inj h
    exact ⟨trap, rfl, rfl⟩

/-- The trap of a content view. -/
def AppTrap.InContent (t : AppTrap) : Prop :=
  ∃ trap, t = .screen (.content trap)

/-- A question screen of a fit chapter traps inside its content views only. -/
theorem Opened.step_error (hfit : Fit bundle) {table : TagTable} {chapter : DescribedChapter}
    {screen : AIMQuestionAnswerScreenViewController}
    (h : Opened ui bundle table chapter screen) {event : ScreenEvent} {t : ScreenTrap}
    (ht : screen.step ui event = .error t) : ∃ trap, t = .content trap := by
  obtain ⟨draws, s₀, h₀, hrun⟩ := h.run
  have hmem := h.shown.mem
  have hquestions := hfit.questions chapter hmem
  obtain ⟨-, hchapter, -⟩ := AIMQuestionAnswerScreenViewController.entryInv_of_run h₀ hrun
  have hindex : screen.HasIndex := by
    unfold AIMQuestionAnswerScreenViewController.HasIndex
    rw [hchapter]
    exact hfit.index chapter hmem
  have hrange : screen.InRange := by
    refine hrun.inv AIMQuestionAnswerScreenViewController.InRange ?_ fun _ _ _ hs he hstep =>
      AIMQuestionAnswerScreenViewController.inRange_step hs he hstep
    obtain ⟨q, content, lbTitle, lbSubTitle, entry, -, -, -, rfl⟩ :=
      AIMQuestionAnswerScreenViewController.viewDidLoad_ok h₀
    have hupper : (0 : Int) < chapter.questions.length := by omega
    have hnotLast : ¬ (0 : Int) = (chapter.questions.length : Int) - 1 := by omega
    exact ⟨le_refl _, hupper, iff_of_false kSkip_ne_kClose hnotLast⟩
  exact AIMQuestionAnswerScreenViewController.step_error hrange hindex ht

/-- The description of a chapter with a number never traps. -/
theorem description_record_total (hfilled : Filled bundle) {chapter : DescribedChapter}
    (hshown : Shows bundle .TableExternalData chapter) (actionName : Log.ActionName)
    (objectName : String) (objectType : Log.ObjectKind) :
    ∃ r, AIMDescriptionScreeenViewController.record (.viewDidLoad chapter) actionName objectName
      objectType = .ok r := by
  obtain ⟨n, hn⟩ := Option.isSome_iff_exists.mp (hfilled.index _ _ hshown)
  exact ⟨_, bind_eq_ok.mpr ⟨n, orThrow_eq_ok.mpr hn, rfl⟩⟩

namespace Application

variable {s : Application} {e : AppEvent} {t : AppTrap}

theorem showQuestions_error (hfit : Fit bundle) {table : TagTable} {chapter : DescribedChapter}
    (hshown : Shows bundle table chapter) {chapterType : Log.ChapterType} {draws : Nat → Nat}
    (h : s.showQuestions ui chapter chapterType draws = .error t) : t.InContent := by
  rcases bind_eq_error.mp h with h | ⟨screen, -, h⟩
  · obtain ⟨screenTrap, rfl, hload⟩ := inScreen_error h
    obtain ⟨trap, rfl⟩ := AIMQuestionAnswerScreenViewController.viewDidLoad_error
      (hfit.questions chapter hshown.mem) (hfit.index chapter hshown.mem) hload
    exact ⟨trap, rfl⟩
  · cases h

theorem chooseChapter_error (hfit : Fit bundle) (hs : s.AppInv ui bundle) (hchosen : s.chosen ≠ [])
    {draws : Nat → Nat} (h : s.chooseChapter ui draws = .error t) : t.InContent := by
  obtain ⟨table, chapter, hwaiting, hshown⟩ := (hs.chosen.resolve_left hchosen).chosen
  unfold chooseChapter at h
  rw [hwaiting] at h
  cases table with
  | TableImijun => exact showQuestions_error hfit hshown h
  | TableExternalData => cases h

theorem btnStartDescribed_error (hfit : Fit bundle) (hs : s.AppInv ui bundle) {draws : Nat → Nat}
    (h : s.btnStartDescribed ui draws = .error t) : t.InContent := by
  unfold btnStartDescribed at h
  split at h
  · next d hd =>
    obtain ⟨c, chapter, -, -, rfl, hshown⟩ := hs.stack.eq_description hd
    obtain ⟨r, hr⟩ := description_record_total hfit.filled hshown .Tap
      Log.OuterObjectName.DescriptionScreenStartLearning.rawValue .Button
    rw [inScreen_eq_ok.mpr hr] at h
    exact showQuestions_error hfit hshown h
  · cases h

theorem answer_error (hfit : Fit bundle) (hs : s.AppInv ui bundle) {event : ScreenEvent}
    (h : s.answer ui event = .error t) : t.InContent := by
  unfold answer at h
  split at h
  · next screen htop =>
    rcases bind_eq_error.mp h with h | ⟨screen', -, h⟩
    · obtain ⟨screenTrap, rfl, hstep⟩ := inScreen_error h
      obtain ⟨table, chapter, hopened⟩ := hs.stack.opened (mem_of_getLast? htop)
      obtain ⟨trap, rfl⟩ := hopened.step_error hfit hstep
      exact ⟨trap, rfl⟩
    · cases h
  · cases h

theorem dismissedEvent_error (hfit : Fit bundle) (hs : s.AppInv ui bundle) {i : Nat}
    {event : ScreenEvent} (h : s.dismissedEvent ui i event = .error t) : t.InContent := by
  unfold dismissedEvent at h
  split at h
  · next screen hscreen =>
    rcases bind_eq_error.mp h with h | ⟨screen', -, h⟩
    · obtain ⟨screenTrap, rfl, hstep⟩ := inScreen_error h
      obtain ⟨table, chapter, hopened⟩ := hs.dismissed screen (mem_of_getElem? hscreen)
      obtain ⟨trap, rfl⟩ := hopened.step_error hfit hstep
      exact ⟨trap, rfl⟩
    · cases h
  · cases h

/-- The choice of a chapter cannot be opened when the chapters are not there. -/
theorem btnStartLearning_error_iff (hfilled : Filled bundle) (hs : s.AppInv ui bundle)
    {copySucceeds : Bool} : s.btnStartLearning copySucceeds = .error t ↔
      t = .chapterOutOfRange ∧ copySucceeds = false ∧ s.library = none := by
  have hlist (hcopied : ¬ (copySucceeds = false ∧ s.library = none)) :
      getChapterList s.bundle s.library copySucceeds = bundle := by
    unfold getChapterList
    cases hlibrary : s.library with
    | some chapters => exact hs.library chapters hlibrary
    | none =>
      cases copySucceeds with
      | true => exact hs.bundled
      | false => exact absurd ⟨rfl, hlibrary⟩ hcopied
  by_cases hcopied : copySucceeds = false ∧ s.library = none
  · have hempty : getChapterList s.bundle s.library copySucceeds = [] := by
      rw [hcopied.1, hcopied.2]
      rfl
    have htrap : s.btnStartLearning copySucceeds = .error .chapterOutOfRange := by
      refine bind_eq_error.mpr (.inl ?_)
      show AIMQuestionChoiceScreenViewController.viewDidLoad
        (getChapterList s.bundle s.library copySucceeds) = _
      rw [hempty]
      rfl
    rw [htrap, Except.error.injEq]
    exact ⟨fun h => ⟨h.symm, hcopied⟩, fun h => h.1.symm⟩
  · refine iff_of_false (fun h => ?_) fun h => hcopied h.2
    rcases bind_eq_error.mp h with h | ⟨c, -, h⟩
    · have hok := viewDidLoad_choice_ok.mpr ⟨hfilled.rows, rfl⟩
      rw [← hlist hcopied] at hok
      exact absurd (h.symm.trans hok) (by simp)
    · cases h

theorem appear_ne_error (hfilled : Filled bundle) (hs : s.AppInv ui bundle)
    {callback : Appearance} : s.appear callback ≠ .error t := by
  intro h
  unfold appear at h
  split at h
  · cases h
  · cases h
  · cases h
  · next d hd =>
    obtain ⟨c, chapter, -, -, rfl, hshown⟩ := hs.stack.eq_description hd
    obtain ⟨r, hr⟩ := description_record_total hfilled hshown .Display
      (AIMDescriptionScreeenViewController.viewDidLoad chapter).lbTitle .Screen
    rw [inScreen_eq_ok.mpr hr] at h
    cases h
  · cases h

theorem didSelectRow_ne_error (hfilled : Filled bundle) (hs : s.AppInv ui bundle)
    {table : TagTable} {row : Nat} (hrow : row < table.numberOfRows) :
    s.didSelectRow table row ≠ .error t := by
  intro h
  unfold didSelectRow at h
  split at h
  · next c hc =>
    obtain ⟨-, hlist⟩ := hs.stack.eq_choice hc
    have hlt : AIMQuestionChoiceScreenViewController.position table row < c.chapterList.length := by
      rw [hlist]
      exact Nat.lt_of_lt_of_le (position_lt hrow) hfilled.rows
    have hcell : ∃ cell, c.cellForRowAt table row = .ok cell :=
      ⟨_, bind_eq_ok.mpr ⟨_, orThrow_eq_ok.mpr (getElem?_eq_getElem hlt), rfl⟩⟩
    obtain ⟨cell, hcell⟩ := hcell
    rw [hcell] at h
    cases h
  · cases h

theorem leftButtonTap_ne_error (hfilled : Filled bundle) (hs : s.AppInv ui bundle) :
    s.leftButtonTap ≠ .error t := by
  intro h
  unfold leftButtonTap at h
  split at h
  · cases h
  · next d hd =>
    obtain ⟨c, chapter, -, -, rfl, hshown⟩ := hs.stack.eq_description hd
    obtain ⟨r, hr⟩ :=
      description_record_total hfilled hshown .Tap Log.ObjectName.BackButton.rawValue .Button
    rw [inScreen_eq_ok.mpr hr] at h
    cases h
  · cases h

/-- Outside the content views only the first opening of the choice traps, when the chapters cannot
be copied. -/
theorem AppInv.step_error_iff (hfit : Fit bundle) (hs : s.AppInv ui bundle) (he : s.Enabled e)
    (hout : ¬ t.InContent) : s.step ui e = .error t ↔
      t = .chapterOutOfRange ∧ e = .btnStartLearning false ∧ s.library = none := by
  have hnever (hne : s.step ui e ≠ .error t)
      (hother : ∀ copySucceeds, e ≠ .btnStartLearning copySucceeds) :
      s.step ui e = .error t ↔
        t = .chapterOutOfRange ∧ e = .btnStartLearning false ∧ s.library = none :=
    iff_of_false hne fun h => hother false h.2.1
  cases e with
  | btnStartLearning copySucceeds =>
    refine (btnStartLearning_error_iff hfit.filled hs).trans ?_
    simp
  | launch => exact hnever (by simp [step]) (by simp)
  | btnLearningAndUse => exact hnever (by simp [step]) (by simp)
  | btnAbout => exact hnever (by simp [step]) (by simp)
  | deallocated i => exact hnever (by simp [step]) (by simp)
  | didSelectRow table row => exact hnever (didSelectRow_ne_error hfit.filled hs he.2.2) (by simp)
  | leftButtonTap => exact hnever (leftButtonTap_ne_error hfit.filled hs) (by simp)
  | appearance =>
    refine hnever (fun h => ?_) (by simp)
    unfold step at h
    obtain ⟨callback, callbacks, hcallbacks⟩ := exists_cons_of_ne_nil he
    rw [hcallbacks] at h
    have hmoved : AppInv ui bundle { s with callbacks := callbacks } :=
      ⟨hs.bundled, hs.library, hs.stack, .inl (hs.idle (.inl he)), hs.dismissed, hs.records⟩
    exact appear_ne_error hfit.filled hmoved h
  | chooseChapter draws => exact hnever (fun h => hout (chooseChapter_error hfit hs he h)) (by simp)
  | btnStartDescribed draws =>
    exact hnever (fun h => hout (btnStartDescribed_error hfit hs h)) (by simp)
  | answer event => exact hnever (fun h => hout (answer_error hfit hs h)) (by simp)
  | dismissed i event => exact hnever (fun h => hout (dismissedEvent_error hfit hs h)) (by simp)

theorem AppInv.library_ne_nil (hfit : Fit bundle) (hs : s.AppInv ui bundle) :
    s.library ≠ some [] := by
  intro h
  have hrows := hfit.rows
  rw [← hs.library [] h] at hrows
  exact absurd hrows (by decide)

/-! ## After the chapters are lost -/

/-- The file is there and has no chapters: the choice cannot be opened, so the title is on top, or a
screen that needs none. -/
structure Emptied (s : Application) : Prop where
  library : s.library = some []
  stack : s.viewControllers = [.main] ∨ s.viewControllers = [.main, .tutorial] ∨
    s.viewControllers = [.main, .about]
  chosen : s.chosen = []
  dismissed : s.dismissed = []

theorem emptied_start (bundle : List DescribedChapter) (records : List LogRecord) :
    Emptied { start bundle with library := some [], records := records } :=
  ⟨rfl, .inl rfl, rfl, rfl⟩

/-- What is on top when there are no chapters. -/
theorem Emptied.top (hs : s.Emptied) :
    s.top = some .main ∨ s.top = some .tutorial ∨ s.top = some .about := by
  unfold Application.top
  rcases hs.stack with h | h | h <;> rw [h]
  · exact .inl rfl
  · exact .inr (.inl rfl)
  · exact .inr (.inr rfl)

theorem Emptied.push (hs : s.Emptied) (htop : s.top = some .main) {controller : ViewController}
    (hcontroller : controller = .tutorial ∨ controller = .about) :
    (s.pushViewController controller).Emptied := by
  refine ⟨hs.library, .inr ?_, hs.chosen, hs.dismissed⟩
  have hstack : s.viewControllers = [.main] := by
    rcases hs.stack with h | h | h
    · exact h
    · simp [Application.top, h] at htop
    · simp [Application.top, h] at htop
  show s.viewControllers ++ [controller] = _ ∨ s.viewControllers ++ [controller] = _
  rw [hstack]
  rcases hcontroller with rfl | rfl
  · exact .inl rfl
  · exact .inr rfl

theorem Emptied.popViewController (hs : s.Emptied) : s.popViewController.Emptied := by
  unfold Application.popViewController popTo
  rcases hs.stack with h | h | h
  · simpa [h] using hs
  · simp only [h]
    exact ⟨hs.library, .inl rfl, hs.chosen, (append_nil _).trans hs.dismissed⟩
  · simp only [h]
    exact ⟨hs.library, .inl rfl, hs.chosen, (append_nil _).trans hs.dismissed⟩

theorem Emptied.of_top (hs : s.Emptied) {P : ViewController → Bool} (hP : s.top.any P = true) :
    P .main ∨ P .tutorial ∨ P .about := by
  rcases hs.top with htop | htop | htop
  · exact .inl (by simpa [htop] using hP)
  · exact .inr (.inl (by simpa [htop] using hP))
  · exact .inr (.inr (by simpa [htop] using hP))

/-- A record, or another list of callbacks. -/
theorem Emptied.keep {s' : Application} (hs : s.Emptied) (hlibrary : s'.library = s.library)
    (hstack : s'.viewControllers = s.viewControllers) (hchosen : s'.chosen = s.chosen)
    (hdismissed : s'.dismissed = s.dismissed) : s'.Emptied where
  library := hlibrary.trans hs.library
  stack := hstack ▸ hs.stack
  chosen := hchosen.trans hs.chosen
  dismissed := hdismissed.trans hs.dismissed

theorem Emptied.appear (hs : s.Emptied) (callback : Appearance) :
    ∃ s', s.appear callback = .ok s' ∧ s'.Emptied := by
  unfold Application.appear
  rcases hs.top with htop | htop | htop <;> rw [htop]
  · cases callback with
    | viewWillAppear => exact ⟨_, rfl, hs.keep rfl rfl rfl rfl⟩
    | viewDidAppear => exact ⟨s, rfl, hs⟩
  · exact ⟨s, rfl, hs⟩
  · exact ⟨s, rfl, hs⟩

theorem Emptied.btnStartLearning (hs : s.Emptied) (copySucceeds : Bool) :
    s.btnStartLearning copySucceeds = .error .chapterOutOfRange := by
  refine bind_eq_error.mpr (.inl ?_)
  show AIMQuestionChoiceScreenViewController.viewDidLoad
    (getChapterList s.bundle s.library copySucceeds) = _
  rw [hs.library]
  rfl

/-- Every opening of the choice traps, and nothing else does. -/
theorem Emptied.step_cases (hs : s.Emptied) (ui : Platform) (he : s.Enabled e) :
    (∃ copySucceeds, e = .btnStartLearning copySucceeds ∧
      s.step ui e = .error .chapterOutOfRange) ∨
    (∀ copySucceeds, e ≠ .btnStartLearning copySucceeds) ∧
      ∃ s', s.step ui e = .ok s' ∧ s'.Emptied := by
  cases e with
  | btnStartLearning copySucceeds =>
    exact .inl ⟨copySucceeds, rfl, hs.btnStartLearning copySucceeds⟩
  | launch =>
    refine .inr ⟨by simp, _, rfl, ?_⟩
    rw [hs.library]
    exact emptied_start s.bundle s.records
  | appearance =>
    refine .inr ⟨by simp, ?_⟩
    unfold step
    obtain ⟨callback, callbacks, hcallbacks⟩ := exists_cons_of_ne_nil he
    rw [hcallbacks]
    have hmoved : Emptied { s with callbacks := callbacks } := hs.keep rfl rfl rfl rfl
    exact hmoved.appear callback
  | btnLearningAndUse =>
    exact .inr ⟨by simp, _, rfl, hs.push (top_of_isMain he.2) (.inl rfl)⟩
  | btnAbout => exact .inr ⟨by simp, _, rfl, hs.push (top_of_isMain he.2) (.inr rfl)⟩
  | leftButtonTap =>
    refine .inr ⟨by simp, s.popViewController, ?_, hs.popViewController⟩
    show s.leftButtonTap = _
    unfold Application.leftButtonTap
    rcases hs.top with htop | htop | htop <;> rw [htop]
  -- the others need a screen or a block that is not there
  | didSelectRow table row => exact absurd (hs.of_top he.2.1) (by decide)
  | btnStartDescribed draws => exact absurd (hs.of_top he.2) (by decide)
  | chooseChapter draws => exact absurd hs.chosen he
  | answer event =>
    obtain ⟨screen, hscreen, -⟩ := he.2.2
    rcases hs.top with htop | htop | htop <;> rw [htop] at hscreen <;> cases hscreen
  | dismissed i event =>
    obtain ⟨screen, hscreen, -⟩ := he.2.2
    rw [hs.dismissed] at hscreen
    cases hscreen
  | deallocated i =>
    have hlt : i < s.dismissed.length := he
    rw [hs.dismissed] at hlt
    exact absurd hlt (Nat.not_lt_zero i)

/-! ## Runs over the crashes -/

/-- The chapters are there, or they are lost. -/
def Lives (ui : Platform) (bundle : List DescribedChapter) (s : Application) : Prop :=
  s.AppInv ui bundle ∨ s.Emptied

/-- An event, and a new start after a trap, keep the chapters unless the first copy fails. -/
theorem AppInv.stepOrRestart {s' : Application} (hfit : Fit bundle) (hs : s.AppInv ui bundle)
    (he : s.Enabled e) (h : s.stepOrRestart ui e = .ok s') :
    s'.AppInv ui bundle ∧ ¬ (e = .btnStartLearning false ∧ s.library = none) ∨
      s'.Emptied ∧ e = .btnStartLearning false ∧ s.library = none := by
  have hfirst {t : AppTrap} {copySucceeds : Bool}
      (ht : s.btnStartLearning copySucceeds = .error t) :
      copySucceeds = false ∧ s.library = none :=
    ((btnStartLearning_error_iff hfit.filled hs).mp ht).2
  unfold Application.stepOrRestart at h
  split at h
  · next t ht =>
    obtain rfl := Except.ok.inj h
    refine .inl ⟨appInv_step hs he ht, fun hfails => ?_⟩
    have htrap : s.step ui (.btnStartLearning false) = .error .chapterOutOfRange :=
      (btnStartLearning_error_iff hfit.filled hs).mpr ⟨rfl, rfl, hfails.2⟩
    rw [hfails.1, htrap] at ht
    cases ht
  · next t ht =>
    obtain rfl := Except.ok.inj h
    by_cases hopens : ∃ copySucceeds, e = .btnStartLearning copySucceeds
    · obtain ⟨copySucceeds, rfl⟩ := hopens
      obtain ⟨rfl, hnone⟩ := hfirst ht
      refine .inr ⟨?_, rfl, hnone⟩
      rw [libraryAfter, hnone]
      exact emptied_start s.bundle s.records
    · have hkept : s.libraryAfter e = s.library := by
        cases e with
        | btnStartLearning copySucceeds => exact absurd ⟨copySucceeds, rfl⟩ hopens
        | _ => rfl
      rw [hkept]
      exact .inl ⟨⟨hs.bundled, hs.library, .main, .inl rfl, fun _ h => (by cases h), hs.records⟩,
        fun hfails => hopens ⟨false, hfails.1⟩⟩

theorem Emptied.stepOrRestart {s' : Application} (hs : s.Emptied) (he : s.Enabled e)
    (h : s.stepOrRestart ui e = .ok s') : s'.Emptied := by
  unfold Application.stepOrRestart at h
  rcases hs.step_cases ui he with ⟨copySucceeds, rfl, htrap⟩ | ⟨-, t, ht, hemptied⟩
  · rw [htrap] at h
    obtain rfl := Except.ok.inj h
    rw [libraryAfter, hs.library]
    exact emptied_start s.bundle s.records
  · rw [ht] at h
    exact Except.ok.inj h ▸ hemptied

theorem lives_of_run (hfit : Fit bundle)
    (h : Reaches (stepOrRestart ui) Enabled (start bundle) s) : s.Lives ui bundle := by
  refine h.inv (Lives ui bundle) (.inl (appInv_start ui bundle)) fun t e t' ht he hstep => ?_
  rcases ht with ht | ht
  · exact (ht.stepOrRestart hfit he hstep).imp (·.1) (·.1)
  · exact .inr (ht.stepOrRestart he hstep)

/-- The application is started again after each trap. In every such run with such chapters, and
whatever the popped question screens still do, a step traps outside the content views exactly when
the choice of a chapter is opened and there are no chapters: for the first time, and they cannot be
copied, or after they were lost. They are lost when the first copy fails, and for good, since the
Realm has made its file by then. No list is subscripted outside its bounds otherwise, and every
number is there when a record needs it. -/
theorem step_traps_iff_chapters_lost (hfit : Fit bundle)
    (h : Reaches (stepOrRestart ui) Enabled (start bundle) s) (he : s.Enabled e) :
    (∀ t, ¬ t.InContent → (s.step ui e = .error t ↔
      t = .chapterOutOfRange ∧ ∃ copySucceeds, e = .btnStartLearning copySucceeds ∧
        (s.library = some [] ∨ s.library = none ∧ copySucceeds = false))) ∧
    ∀ s', s.stepOrRestart ui e = .ok s' → (s'.library = some [] ↔
      s.library = some [] ∨ s.library = none ∧ e = .btnStartLearning false) := by
  rcases lives_of_run hfit h with hs | hs
  · refine ⟨fun t hout => (hs.step_error_iff hfit he hout).trans ?_, fun s' hstep => ?_⟩
    · simp [hs.library_ne_nil hfit, and_comm]
    · rcases hs.stepOrRestart hfit he hstep with ⟨hs', hcopied⟩ | ⟨hs', hfails⟩
      · exact iff_of_false (hs'.library_ne_nil hfit) fun hlost =>
          hlost.elim (hs.library_ne_nil hfit) fun hlost => hcopied ⟨hlost.2, hlost.1⟩
      · exact iff_of_true hs'.library (.inr ⟨hfails.2, hfails.1⟩)
  · refine ⟨fun t hout => ?_, fun s' hstep =>
      iff_of_true (hs.stepOrRestart he hstep).library (.inl hs.library)⟩
    rcases hs.step_cases ui he with ⟨copySucceeds, rfl, htrap⟩ | ⟨hother, s', hs', -⟩
    · rw [htrap, Except.error.injEq]
      exact ⟨fun ht => ⟨ht.symm, copySucceeds, rfl, .inl hs.library⟩, fun ht => ht.1.symm⟩
    · rw [hs']
      exact iff_of_false (by simp) fun ⟨_, copySucceeds, heq, _⟩ => hother copySucceeds heq

/-- The copy of the chapters fails when they are first needed; at the next start it is not even
tried. -/
theorem step_traps_iff_chapters_lost_twice : ∃ s s',
    Reaches (stepOrRestart .ascii) Enabled (start sampleBundle) s ∧
    Reaches (stepOrRestart .ascii) Enabled (start sampleBundle) s' ∧
    s.step .ascii (.btnStartLearning false) = .error .chapterOutOfRange ∧
    s.step .ascii (.btnStartLearning true) ≠ .error .chapterOutOfRange ∧
    s'.step .ascii (.btnStartLearning true) = .error .chapterOutOfRange := by
  have hrun : (play (stepOrRestart .ascii) Enabled (start sampleBundle)
      [.appearance, .appearance]).any (fun s => decide (s.Enabled (.btnStartLearning true)) &&
        decide (s.library = none)) = true := by decide +kernel
  have hrun' : (play (stepOrRestart .ascii) Enabled (start sampleBundle)
      [.appearance, .appearance, .btnStartLearning false, .appearance, .appearance]).any
      (fun s => decide (s.Enabled (.btnStartLearning true)) &&
        decide (s.library = some [])) = true := by decide +kernel
  have hfit : Fit sampleBundle := ⟨by decide +kernel, by decide +kernel, by decide +kernel⟩
  obtain ⟨s, hreach, hend⟩ := exists_reaches_of_play hrun
  obtain ⟨s', hreach', hend'⟩ := exists_reaches_of_play hrun'
  rw [Bool.and_eq_true, decide_eq_true_eq, decide_eq_true_eq] at hend hend'
  have hout : ¬ AppTrap.InContent .chapterOutOfRange := by
    rintro ⟨trap, h⟩
    cases h
  have hfails := (step_traps_iff_chapters_lost hfit hreach (e := .btnStartLearning false) hend.1).1
    _ hout
  have hcopied := (step_traps_iff_chapters_lost hfit hreach (e := .btnStartLearning true) hend.1).1
    _ hout
  have hlost := (step_traps_iff_chapters_lost hfit hreach' (e := .btnStartLearning true) hend'.1).1
    _ hout
  refine ⟨s, s', hreach, hreach', hfails.mpr ⟨rfl, false, rfl, .inr ⟨hend.2, rfl⟩⟩, fun h => ?_,
    hlost.mpr ⟨rfl, true, rfl, .inl hend'.2⟩⟩
  obtain ⟨-, copySucceeds, heq, hempty⟩ := hcopied.mp h
  cases heq
  simp [hend.2] at hempty

end Application

end Imijun
