import Imijun.ChapterRun

/-!
# Timely runs of the application

* `Application.Timely`: the events of the content views come in time, and the chapters can be
  copied.
* `screens_step`: what every question screen keeps by itself is kept in the application.
* `Course`: every chapter of the tables can be worked with; `step_total`: then no event of a timely
  run traps, but for a finger that leaves the Japanese hint button (`leavesHint_of_ok`).
* `Touchable`: the choice of a chapter does not stay disabled.
-/

namespace Imijun

open Transition Fallible List

variable {ui : Platform} {bundle : List DescribedChapter}

/-- The finger is dragged off the Japanese hint button of a question screen. -/
def AppEvent.leavesHint : AppEvent → Bool
  | .answer event | .dismissed _ event => event.leavesHint
  | _ => false

/-- There is a chapter for every row of the tables, and every chapter that they show can be worked
with. -/
structure Course (bundle : List DescribedChapter) : Prop where
  rows : 14 ≤ bundle.length
  wellFormed : ∀ table chapter, Shows bundle table chapter → chapter.toAIMChapter.WellFormed

theorem Course.filled (h : Course bundle) : Filled bundle where
  rows := h.rows
  index table chapter hshown := (h.wellFormed table chapter hshown).index

namespace Application

variable {s s' : Application} {e : AppEvent}

/-- An event that can occur; one of a question screen is timely, and the copy of the chapters does
not fail. -/
def Timely (s : Application) (e : AppEvent) : Prop :=
  s.Enabled e ∧ match e with
  | .answer event => ∀ screen ∈ s.top.bind (·.questionScreen), screen.Timely event
  | .dismissed i event => ∀ screen ∈ s.dismissed[i]?, screen.Timely event
  | .btnStartLearning copySucceeds => s.library = none → copySucceeds = true
  | _ => True

instance (s : Application) (e : AppEvent) : Decidable (s.Timely e) :=
  match e with
  | .answer event => inferInstanceAs
    (Decidable (_ ∧ ∀ screen ∈ s.top.bind (·.questionScreen), screen.Timely event))
  | .dismissed i event => inferInstanceAs
    (Decidable (_ ∧ ∀ screen ∈ s.dismissed[i]?, screen.Timely event))
  | .btnStartLearning copySucceeds => inferInstanceAs
    (Decidable (_ ∧ (s.library = none → copySucceeds = true)))
  | .launch | .appearance | .btnLearningAndUse | .btnAbout | .didSelectRow _ _ | .chooseChapter _
  | .btnStartDescribed _ | .leftButtonTap | .deallocated _ => inferInstanceAs (Decidable (_ ∧ True))

/-! ## The question screens -/

/-- The question screens, on the stack and popped. -/
def screens (s : Application) : List AIMQuestionAnswerScreenViewController :=
  s.viewControllers.filterMap (·.questionScreen) ++ s.dismissed

theorem mem_screens_of_top {screen : AIMQuestionAnswerScreenViewController}
    (h : s.top = some (.answer screen)) : screen ∈ s.screens :=
  mem_append_left _ (mem_filterMap.mpr ⟨_, mem_of_getLast? h, rfl⟩)

section ForScreens

variable {P : AIMQuestionAnswerScreenViewController → Prop}

/-- Every question screen has the property. -/
def ForScreens (P : AIMQuestionAnswerScreenViewController → Prop) (s : Application) : Prop :=
  ∀ screen ∈ s.screens, P screen

/-- A controller is put on a part of the stack. -/
theorem ForScreens.put (hs : s.ForScreens P) {l : List ViewController} {controller : ViewController}
    (hl : l ⊆ s.viewControllers) (hcontroller : ∀ screen ∈ controller.questionScreen, P screen)
    (hstack : s'.viewControllers = l ++ [controller]) (hdismissed : s'.dismissed = s.dismissed) :
    s'.ForScreens P := by
  intro screen hscreen
  rcases mem_append.mp hscreen with hscreen | hscreen
  · obtain ⟨other, hother, hquestion⟩ := mem_filterMap.mp hscreen
    rw [hstack] at hother
    rcases mem_append.mp hother with hother | hother
    · exact hs screen (mem_append_left _ (mem_filterMap.mpr ⟨other, hl hother, hquestion⟩))
    · obtain rfl := mem_singleton.mp hother
      exact hcontroller screen hquestion
  · rw [hdismissed] at hscreen
    exact hs screen (mem_append_right _ hscreen)

theorem ForScreens.push (hs : s.ForScreens P) {controller : ViewController}
    (hcontroller : ∀ screen ∈ controller.questionScreen, P screen) :
    (s.pushViewController controller).ForScreens P :=
  hs.put (Subset.refl _) hcontroller rfl rfl

theorem ForScreens.setTop (hs : s.ForScreens P) {controller : ViewController}
    (hcontroller : ∀ screen ∈ controller.questionScreen, P screen) :
    (s.setTop controller).ForScreens P :=
  hs.put (dropLast_subset _) hcontroller rfl rfl

/-- A controller without questions. -/
theorem noQuestions {controller : ViewController} (h : controller.questionScreen = none) :
    ∀ screen ∈ controller.questionScreen, P screen := fun screen hscreen => by
  rw [h] at hscreen
  cases hscreen

/-- What is popped is still there. -/
theorem ForScreens.popTo (hs : s.ForScreens P) (n : Nat) : (s.popTo n).ForScreens P := by
  unfold Application.popTo
  split
  · exact hs
  · intro screen hscreen
    rcases mem_append.mp hscreen with hscreen | hscreen
    · exact hs screen (mem_append_left _ ((take_sublist _ _).filterMap _ |>.subset hscreen))
    · rcases mem_append.mp hscreen with hscreen | hscreen
      · exact hs screen (mem_append_right _ hscreen)
      · exact hs screen (mem_append_left _ ((drop_sublist _ _).filterMap _ |>.subset hscreen))

theorem ForScreens.navigate (hs : s.ForScreens P) (pop : Pop) : (s.navigate pop).ForScreens P := by
  cases pop with
  | popViewController => exact hs.popTo _
  | popToQuestionChoice =>
    show s.popToQuestionChoice.ForScreens P
    unfold popToQuestionChoice
    split
    · exact hs.popTo _
    · exact hs

theorem ForScreens.navigateAll (hs : s.ForScreens P) (pops : List Pop) :
    (pops.foldl Application.navigate s).ForScreens P := by
  induction pops generalizing s with
  | nil => exact hs
  | cons pop pops ih => exact ih (hs.navigate pop)

/-- A popped screen that changes. -/
theorem ForScreens.set (hs : s.ForScreens P) {i : Nat}
    {screen' : AIMQuestionAnswerScreenViewController} (hscreen' : P screen')
    (records : List LogRecord) :
    ForScreens P { s with dismissed := s.dismissed.set i screen', records := records } := by
  intro screen hscreen
  rcases mem_append.mp hscreen with hscreen | hscreen
  · exact hs screen (mem_append_left _ hscreen)
  · rcases mem_or_eq_of_mem_set hscreen with hscreen | rfl
    · exact hs screen (mem_append_right _ hscreen)
    · exact hscreen'

theorem ForScreens.appear (hs : s.ForScreens P) {callback : Appearance}
    (h : s.appear callback = .ok s') : s'.ForScreens P := by
  unfold Application.appear at h
  split at h
  · exact Except.ok.inj h ▸ hs
  · exact Except.ok.inj h ▸ hs.setTop (noQuestions rfl)
  · exact Except.ok.inj h ▸ hs
  · obtain ⟨r, -, h⟩ := bind_eq_ok.mp h
    exact Except.ok.inj h ▸ hs
  · exact Except.ok.inj h ▸ hs

theorem ForScreens.leftButtonTap (hs : s.ForScreens P) (h : s.leftButtonTap = .ok s') :
    s'.ForScreens P := by
  have hpopped : s.popViewController.ForScreens P := hs.popTo _
  unfold Application.leftButtonTap at h
  split at h
  · exact Except.ok.inj h ▸ hpopped
  · obtain ⟨r, -, h⟩ := bind_eq_ok.mp h
    exact Except.ok.inj h ▸ hpopped
  · exact Except.ok.inj h ▸ hpopped

theorem ForScreens.didSelectRow (hs : s.ForScreens P) {table : TagTable} {row : Nat}
    (h : s.didSelectRow table row = .ok s') : s'.ForScreens P := by
  unfold Application.didSelectRow at h
  split at h
  · obtain ⟨cell, -, h⟩ := bind_eq_ok.mp h
    exact Except.ok.inj h ▸ hs.setTop (noQuestions rfl)
  · exact Except.ok.inj h ▸ hs

variable (hopen : ∀ table chapter draws screen, Shows bundle table chapter →
  (AIMQuestionAnswerScreenViewController.loaded chapter.toAIMChapter table.questionType
    kSkip).viewDidLoad ui draws = .ok screen → P screen)
include hopen

theorem ForScreens.showQuestions (hs : s.ForScreens P) {table : TagTable}
    {chapter : DescribedChapter} (hshown : Shows bundle table chapter) {draws : Nat → Nat}
    (h : s.showQuestions ui chapter table.questionType draws = .ok s') : s'.ForScreens P := by
  obtain ⟨screen, hscreen, h⟩ := bind_eq_ok.mp h
  obtain rfl := Except.ok.inj h
  have hpushed : (s.pushViewController (.answer screen)).ForScreens P := by
    refine hs.push fun other hother => ?_
    obtain rfl := Option.some.inj hother
    exact hopen table chapter draws screen hshown (inScreen_eq_ok.mp hscreen)
  exact hpushed

theorem ForScreens.chooseChapter (hinv : s.AppInv ui bundle) (hs : s.ForScreens P)
    (hchosen : s.chosen ≠ []) {draws : Nat → Nat} (h : s.chooseChapter ui draws = .ok s') :
    s'.ForScreens P := by
  obtain ⟨table, chapter, hwaiting, hshown⟩ := (hinv.chosen.resolve_left hchosen).chosen
  unfold Application.chooseChapter at h
  rw [hwaiting] at h
  cases table with
  | TableImijun => exact ForScreens.showQuestions (s := { s with chosen := [] }) hopen hs hshown h
  | TableExternalData => exact Except.ok.inj h ▸ hs.push (noQuestions rfl)

theorem ForScreens.btnStartDescribed (hinv : s.AppInv ui bundle) (hs : s.ForScreens P)
    {draws : Nat → Nat} (h : s.btnStartDescribed ui draws = .ok s') : s'.ForScreens P := by
  unfold Application.btnStartDescribed at h
  split at h
  · next d hd =>
    obtain ⟨r, -, h⟩ := bind_eq_ok.mp h
    obtain ⟨c, chapter, -, -, rfl, hshown⟩ := hinv.stack.eq_description hd
    have h : (s.record r).showQuestions ui chapter TagTable.TableExternalData.questionType draws =
        .ok s' := h
    exact ForScreens.showQuestions (s := s.record r) hopen hs hshown h
  · exact Except.ok.inj h ▸ hs

omit hopen

variable (hstep : ∀ screen event screen', P screen → screen.Timely event →
  screen.step ui event = .ok screen' → P screen')
include hstep

theorem ForScreens.answer (hs : s.ForScreens P) {event : ScreenEvent}
    (he : ∀ screen ∈ s.top.bind (·.questionScreen), screen.Timely event)
    (h : s.answer ui event = .ok s') : s'.ForScreens P := by
  unfold Application.answer at h
  split at h
  · next screen htop =>
    obtain ⟨screen', hscreen, h⟩ := bind_eq_ok.mp h
    obtain rfl := Except.ok.inj h
    have htimely : screen.Timely event := he screen (by rw [htop]; rfl)
    have hmoved : (s.setTop (.answer screen')).ForScreens P := by
      refine hs.setTop fun other hother => ?_
      obtain rfl := Option.some.inj hother
      exact hstep _ _ _ (hs _ (mem_screens_of_top htop)) htimely (inScreen_eq_ok.mp hscreen)
    exact ForScreens.navigateAll (s := { s.setTop (.answer screen') with
      records := s.records ++ newRecords screen screen' }) hmoved _
  · exact Except.ok.inj h ▸ hs

theorem ForScreens.dismissedEvent (hs : s.ForScreens P) {i : Nat} {event : ScreenEvent}
    (he : ∀ screen ∈ s.dismissed[i]?, screen.Timely event)
    (h : s.dismissedEvent ui i event = .ok s') : s'.ForScreens P := by
  unfold Application.dismissedEvent at h
  split at h
  · next screen hscreen =>
    obtain ⟨screen', hmoved, h⟩ := bind_eq_ok.mp h
    obtain rfl := Except.ok.inj h
    have hmem : screen ∈ s.screens := mem_append_right _ (mem_of_getElem? hscreen)
    exact hs.set (hstep _ _ _ (hs _ hmem) (he screen hscreen) (inScreen_eq_ok.mp hmoved)) _
  · exact Except.ok.inj h ▸ hs

include hopen

/-- A property that every question screen of the tables has when it is opened, and keeps in its
timely steps, is one of all question screens in timely runs of the application. -/
theorem screens_step (hinv : s.AppInv ui bundle) (hs : s.ForScreens P) (he : s.Timely e)
    (h : s.step ui e = .ok s') : s'.ForScreens P := by
  cases e with
  | launch =>
    obtain rfl := Except.ok.inj h
    intro screen hscreen
    cases hscreen
  | appearance =>
    obtain ⟨callback, callbacks, hcallbacks⟩ := exists_cons_of_ne_nil he.1
    simp only [step, hcallbacks] at h
    exact ForScreens.appear (s := { s with callbacks := callbacks }) hs h
  | btnStartLearning copySucceeds =>
    obtain ⟨c, -, h⟩ := bind_eq_ok.mp h
    have hpushed : (s.pushViewController (.choice c)).ForScreens P := hs.push (noQuestions rfl)
    exact Except.ok.inj h ▸ hpushed
  | btnLearningAndUse => exact Except.ok.inj h ▸ hs.push (noQuestions rfl)
  | btnAbout => exact Except.ok.inj h ▸ hs.push (noQuestions rfl)
  | didSelectRow table row => exact hs.didSelectRow h
  | chooseChapter draws => exact ForScreens.chooseChapter hopen hinv hs he.1 h
  | btnStartDescribed draws => exact ForScreens.btnStartDescribed hopen hinv hs h
  | leftButtonTap => exact hs.leftButtonTap h
  | answer event => exact ForScreens.answer hstep hs he.2 h
  | dismissed i event => exact ForScreens.dismissedEvent hstep hs he.2 h
  | deallocated i =>
    obtain rfl := Except.ok.inj h
    intro screen hscreen
    rcases mem_append.mp hscreen with hscreen | hscreen
    · exact hs screen (mem_append_left _ hscreen)
    · exact hs screen (mem_append_right _ (mem_of_mem_eraseIdx hscreen))

end ForScreens

/-! ## The choice of a chapter can be touched -/

/-- The callbacks come in their order, and the choice of a chapter is disabled only while it waits
for a segue or for its next appearance. -/
structure Touchable (s : Application) : Prop where
  callbacks : s.callbacks <:+ [.viewWillAppear, .viewDidAppear]
  choice : ∀ c, s.top = some (.choice c) →
    c.isUserInteractionEnabled = true ∨ s.chosen ≠ [] ∨ .viewWillAppear ∈ s.callbacks

theorem top_setTop (s : Application) (controller : ViewController) :
    (s.setTop controller).top = some controller := getLast?_concat

/-- A controller that has just come on top waits for its callbacks. -/
theorem Touchable.of_shown (h : s.callbacks = [.viewWillAppear, .viewDidAppear]) : s.Touchable where
  callbacks := h ▸ suffix_rfl
  choice _ _ := .inr (.inr (h ▸ mem_cons_self))

theorem Touchable.popTo (hs : s.Touchable) (n : Nat) : (s.popTo n).Touchable := by
  unfold Application.popTo
  split
  · exact hs
  · exact .of_shown rfl

theorem Touchable.navigate (hs : s.Touchable) (pop : Pop) : (s.navigate pop).Touchable := by
  cases pop with
  | popViewController => exact hs.popTo _
  | popToQuestionChoice =>
    show s.popToQuestionChoice.Touchable
    unfold popToQuestionChoice
    split
    · exact hs.popTo _
    · exact hs

theorem Touchable.navigateAll (hs : s.Touchable) (pops : List Pop) :
    (pops.foldl Application.navigate s).Touchable := by
  induction pops generalizing s with
  | nil => exact hs
  | cons pop pops ih => exact ih (hs.navigate pop)

/-- A part that records, or another part of the state. -/
theorem Touchable.of_same (hs : s.Touchable) (hcallbacks : s'.callbacks = s.callbacks)
    (htop : s'.top = s.top) (hchosen : s'.chosen = s.chosen) : s'.Touchable where
  callbacks := hcallbacks ▸ hs.callbacks
  choice c hc := by
    rw [hchosen, hcallbacks]
    exact hs.choice c (htop ▸ hc)

theorem Touchable.appearance (hs : s.Touchable) {callback : Appearance}
    {callbacks : List Appearance} (hcallbacks : s.callbacks = callback :: callbacks)
    (h : { s with callbacks := callbacks }.appear callback = .ok s') : s'.Touchable := by
  have htail : callbacks <:+ [.viewWillAppear, .viewDidAppear] :=
    (suffix_cons callback callbacks).trans (hcallbacks ▸ hs.callbacks)
  cases callback with
  | viewWillAppear =>
    have hother (hnone : ∀ c, s.top ≠ some (.choice c)) :
        Touchable { s with callbacks := callbacks } := ⟨htail, fun c hc => (hnone c hc).elim⟩
    unfold Application.appear at h
    split at h
    · next htop _ =>
      have hmain : s.top = some .main := htop
      exact Except.ok.inj h ▸ (hother fun c hc => by cases hmain.symm.trans hc).of_same rfl rfl rfl
    · next screen _ _ =>
      obtain rfl := Except.ok.inj h
      refine ⟨htail, fun c hc => .inl ?_⟩
      have hset := top_setTop { s with callbacks := callbacks }
        (.choice { screen with isUserInteractionEnabled := true })
      cases hset.symm.trans hc
      rfl
    · next heq => cases heq
    · next heq => cases heq
    · next hnone _ _ => exact Except.ok.inj h ▸ hother fun c hc => hnone c hc rfl
  | viewDidAppear =>
    have hkept : Touchable { s with callbacks := callbacks } := by
      refine ⟨htail, fun c hc => (hs.choice c hc).imp_right fun h => h.imp_right fun h => ?_⟩
      rw [hcallbacks] at h
      exact (mem_cons.mp h).resolve_left (by simp)
    unfold Application.appear at h
    split at h
    · next heq => cases heq
    · next heq => cases heq
    · exact Except.ok.inj h ▸ hkept.of_same rfl rfl rfl
    · obtain ⟨r, -, h⟩ := bind_eq_ok.mp h
      exact Except.ok.inj h ▸ hkept.of_same rfl rfl rfl
    · exact Except.ok.inj h ▸ hkept

theorem touchable_step (hs : s.Touchable) (he : s.Enabled e) (h : s.step ui e = .ok s') :
    s'.Touchable := by
  cases e with
  | launch => exact Except.ok.inj h ▸ .of_shown rfl
  | appearance =>
    obtain ⟨callback, callbacks, hcallbacks⟩ := exists_cons_of_ne_nil he
    simp only [step, hcallbacks] at h
    exact hs.appearance hcallbacks h
  | btnStartLearning copySucceeds =>
    obtain ⟨c, -, h⟩ := bind_eq_ok.mp h
    exact Except.ok.inj h ▸ .of_shown rfl
  | btnLearningAndUse => exact Except.ok.inj h ▸ .of_shown rfl
  | btnAbout => exact Except.ok.inj h ▸ .of_shown rfl
  | didSelectRow table row =>
    simp only [step, didSelectRow] at h
    split at h
    · obtain ⟨cell, -, h⟩ := bind_eq_ok.mp h
      obtain rfl := Except.ok.inj h
      exact ⟨hs.callbacks, fun _ _ => .inr (.inl (by simp))⟩
    · exact Except.ok.inj h ▸ hs
  | chooseChapter draws =>
    simp only [step, chooseChapter] at h
    split at h
    · exact Except.ok.inj h ▸ hs
    · split at h
      · obtain ⟨screen, -, h⟩ := bind_eq_ok.mp h
        exact Except.ok.inj h ▸ .of_shown rfl
      · exact Except.ok.inj h ▸ .of_shown rfl
  | btnStartDescribed draws =>
    simp only [step, btnStartDescribed] at h
    split at h
    · obtain ⟨r, -, h⟩ := bind_eq_ok.mp h
      obtain ⟨screen, -, h⟩ := bind_eq_ok.mp h
      exact Except.ok.inj h ▸ .of_shown rfl
    · exact Except.ok.inj h ▸ hs
  | leftButtonTap =>
    have hpopped : s.popViewController.Touchable := hs.popTo _
    simp only [step, leftButtonTap] at h
    split at h
    · exact Except.ok.inj h ▸ hpopped.of_same rfl rfl rfl
    · obtain ⟨r, -, h⟩ := bind_eq_ok.mp h
      exact Except.ok.inj h ▸ hpopped.of_same rfl rfl rfl
    · exact Except.ok.inj h ▸ hpopped
  | answer event =>
    simp only [step, answer] at h
    split at h
    · next screen htop =>
      obtain ⟨screen', -, h⟩ := bind_eq_ok.mp h
      obtain rfl := Except.ok.inj h
      have hanswer := top_setTop s (.answer screen')
      have hmoved : (s.setTop (.answer screen')).Touchable :=
        ⟨hs.callbacks, fun c hc => by cases hanswer.symm.trans hc⟩
      exact Touchable.navigateAll (s := { s.setTop (.answer screen') with
        records := s.records ++ newRecords screen screen' }) (hmoved.of_same rfl rfl rfl) _
    · exact Except.ok.inj h ▸ hs
  | dismissed i event =>
    simp only [step, dismissedEvent] at h
    split at h
    · obtain ⟨screen', -, h⟩ := bind_eq_ok.mp h
      exact Except.ok.inj h ▸ hs.of_same rfl rfl rfl
    · exact Except.ok.inj h ▸ hs
  | deallocated i => exact Except.ok.inj h ▸ hs.of_same rfl rfl rfl

/-! ## No timely event traps -/

/-- What a timely run of the application keeps: every question screen goes through a timely run for
a chapter that a table shows. -/
structure Works (ui : Platform) (bundle : List DescribedChapter) (s : Application) : Prop where
  inv : s.AppInv ui bundle
  touchable : s.Touchable
  screens : s.ForScreens fun screen =>
    ∃ table chapter, Shows bundle table chapter ∧ screen.Underway ui chapter.toAIMChapter

theorem works_start (ui : Platform) (bundle : List DescribedChapter) :
    (start bundle).Works ui bundle :=
  ⟨appInv_start ui bundle, .of_shown rfl, fun _ h => by cases h⟩

theorem works_step (hcourse : Course bundle) (hs : s.Works ui bundle) (he : s.Timely e)
    (h : s.step ui e = .ok s') : s'.Works ui bundle := by
  refine ⟨appInv_step hs.inv he.1 h, touchable_step hs.touchable he.1 h, ?_⟩
  refine screens_step ?_ ?_ hs.inv hs.screens he h
  · intro table chapter draws screen hshown hload
    exact ⟨table, chapter, hshown, AIMQuestionAnswerScreenViewController.underway_start
      (hcourse.wellFormed table chapter hshown) hload⟩
  · rintro screen event screen' ⟨table, chapter, hshown, hunderway⟩ htimely hstep
    exact ⟨table, chapter, hshown, AIMQuestionAnswerScreenViewController.underway_step
      (hcourse.wellFormed table chapter hshown) hunderway htimely hstep⟩

theorem inScreen_total {α : Type} {x : Except ScreenTrap α} (h : ∃ a, x = .ok a) :
    ∃ a, inScreen x = .ok a := by
  obtain ⟨a, rfl⟩ := h
  exact ⟨a, rfl⟩

theorem showQuestions_total (hcourse : Course bundle) {table : TagTable}
    {chapter : DescribedChapter} (hshown : Shows bundle table chapter)
    (chapterType : Log.ChapterType) (draws : Nat → Nat) :
    ∃ s', s.showQuestions ui chapter chapterType draws = .ok s' := by
  have hwell := hcourse.wellFormed table chapter hshown
  have hfirst := List.getElem?_eq_getElem (Nat.lt_of_lt_of_le Nat.two_pos hwell.two)
  have hopens := (hwell.playable _ (mem_of_getElem? hfirst)).opens
  have hload : ∃ screen, (AIMQuestionAnswerScreenViewController.loaded chapter.toAIMChapter
      chapterType kSkip).viewDidLoad ui draws = .ok screen :=
    AIMQuestionAnswerScreenViewController.viewDidLoad_total hwell.index hfirst hopens kSkip draws
  exact bind_total (inScreen_total hload) fun _ _ => ⟨_, rfl⟩

/-- A timely event of one of the question screens. -/
theorem screen_step_total (hcourse : Course bundle) (hs : s.Works ui bundle)
    {screen : AIMQuestionAnswerScreenViewController} (hscreen : screen ∈ s.screens)
    {event : ScreenEvent} (he : screen.Timely event) (hstays : event.leavesHint = false) :
    ∃ screen', inScreen (screen.step ui event) = .ok screen' := by
  obtain ⟨table, chapter, hshown, hunderway⟩ := hs.screens screen hscreen
  exact inScreen_total (AIMQuestionAnswerScreenViewController.step_total
    (hcourse.wellFormed table chapter hshown) hunderway.inv he hstays)

/-- No event of a timely run traps, but for a finger that leaves a hint button. -/
theorem step_total (hcourse : Course bundle) (hs : s.Works ui bundle) (he : s.Timely e)
    (hstays : e.leavesHint = false) : ∃ s', s.step ui e = .ok s' := by
  have hfilled := hcourse.filled
  cases e with
  | launch => exact ⟨_, rfl⟩
  | appearance =>
    obtain ⟨callback, callbacks, hcallbacks⟩ := exists_cons_of_ne_nil he.1
    simp only [step, hcallbacks]
    have hmoved : AppInv ui bundle { s with callbacks := callbacks } :=
      ⟨hs.inv.bundled, hs.inv.library, hs.inv.stack, .inl (hs.inv.idle (.inl he.1)),
        hs.inv.dismissed, hs.inv.records⟩
    exact exists_ok fun t => appear_ne_error hfilled hmoved
  | btnStartLearning copySucceeds =>
    refine exists_ok fun t h => ?_
    obtain ⟨-, hfails, hlibrary⟩ := (btnStartLearning_error_iff hfilled hs.inv).mp h
    exact Bool.false_ne_true (hfails.symm.trans (he.2 hlibrary))
  | btnLearningAndUse => exact ⟨_, rfl⟩
  | btnAbout => exact ⟨_, rfl⟩
  | didSelectRow table row =>
    exact exists_ok fun t => didSelectRow_ne_error hfilled hs.inv he.1.2.2
  | chooseChapter draws =>
    obtain ⟨table, chapter, hwaiting, hshown⟩ := (hs.inv.chosen.resolve_left he.1).chosen
    simp only [step, chooseChapter, hwaiting]
    cases table with
    | TableImijun => exact showQuestions_total hcourse hshown _ draws
    | TableExternalData => exact ⟨_, rfl⟩
  | btnStartDescribed draws =>
    simp only [step, btnStartDescribed]
    split
    · next d hd =>
      obtain ⟨c, chapter, -, -, rfl, hshown⟩ := hs.inv.stack.eq_description hd
      exact bind_total (inScreen_total (description_record_total hfilled hshown _ _ _)) fun _ _ =>
        showQuestions_total hcourse hshown _ draws
    · exact ⟨_, rfl⟩
  | leftButtonTap => exact exists_ok fun t => leftButtonTap_ne_error hfilled hs.inv
  | answer event =>
    simp only [step, answer]
    split
    · next screen htop =>
      have htimely : screen.Timely event := he.2 screen (by rw [htop]; rfl)
      exact bind_total (screen_step_total hcourse hs (mem_screens_of_top htop) htimely hstays)
        fun _ _ => ⟨_, rfl⟩
    · exact ⟨_, rfl⟩
  | dismissed i event =>
    simp only [step, dismissedEvent]
    split
    · next screen hscreen =>
      have hmem : screen ∈ s.screens := mem_append_right _ (mem_of_getElem? hscreen)
      exact bind_total (screen_step_total hcourse hs hmem (he.2 screen hscreen) hstays)
        fun _ _ => ⟨_, rfl⟩
    · exact ⟨_, rfl⟩
  | deallocated i => exact ⟨_, rfl⟩

/-- Such a finger stops the program. -/
theorem leavesHint_of_ok (he : s.Enabled e) (h : s.step ui e = .ok s') :
    e.leavesHint = false := by
  cases e with
  | answer event =>
    obtain ⟨screen, hscreen, -⟩ := he.2.2
    obtain ⟨controller, htop, hquestion⟩ := Option.bind_eq_some_iff.mp hscreen
    cases controller with
    | answer other =>
      simp only [step, answer, htop] at h
      obtain ⟨screen', hstep, -⟩ := bind_eq_ok.mp h
      exact AIMQuestionAnswerScreenViewController.leavesHint_of_ok (inScreen_eq_ok.mp hstep)
    | _ => cases hquestion
  | dismissed i event =>
    obtain ⟨screen, hscreen, -⟩ := he.2.2
    simp only [step, dismissedEvent, Option.mem_def.mp hscreen] at h
    obtain ⟨screen', hstep, -⟩ := bind_eq_ok.mp h
    exact AIMQuestionAnswerScreenViewController.leavesHint_of_ok (inScreen_eq_ok.mp hstep)
  | _ => rfl

end Application

end Imijun
