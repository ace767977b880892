import Imijun.AppTimely

/-!
# Every chapter can be finished

* `Sound`: a state of the application from which no timely run traps.
* `appearAll`: the controller on top appears; then it can be touched.
* `openChapter`: from the choice of a chapter the first question of any chapter can be shown.
* `reaches_answer`: a run of the question screen on top is one of the application.
* `application_traps_at_hint_only_iff`: timely runs trap at the Japanese hint button only exactly
  when every chapter of the tables can be worked with.
* `any_chapter_can_be_finished`: then every chapter can be opened and finished, whatever has been
  left open.
-/

namespace Imijun

open Transition Fallible List

namespace Application

variable {ui : Platform} {bundle : List DescribedChapter} {s s' t : Application} {e : AppEvent}
  {screen screen' : AIMQuestionAnswerScreenViewController} {table : TagTable}
  {chapter : DescribedChapter} {draws : Nat → Nat}

/-- A timely event of a run in which the application is not started again. -/
def Continues (s : Application) (e : AppEvent) : Prop :=
  s.Timely e ∧ e ≠ .launch

/-- No event of a timely run from here traps, but for a finger that leaves a hint button. -/
def Safe (ui : Platform) (s : Application) : Prop :=
  ∀ t, Reaches (step ui) Timely s t → ∀ e, t.Timely e → e.leavesHint = false →
    ∃ t', t.step ui e = .ok t'

structure Sound (ui : Platform) (bundle : List DescribedChapter) (s : Application) : Prop where
  inv : s.AppInv ui bundle
  touchable : s.Touchable
  safe : s.Safe ui

theorem sound_step (hs : s.Sound ui bundle) (he : s.Timely e) (h : s.step ui e = .ok s') :
    s'.Sound ui bundle :=
  ⟨appInv_step hs.inv he.1 h, touchable_step hs.touchable he.1 h,
    fun t ht => hs.safe t ((Reaches.tail .refl he h).trans ht)⟩

theorem Sound.event (hs : s.Sound ui bundle) (he : s.Timely e) (hstays : e.leavesHint = false) :
    ∃ t, s.step ui e = .ok t ∧ t.Sound ui bundle := by
  obtain ⟨t, ht⟩ := hs.safe s .refl e he hstays
  exact ⟨t, ht, sound_step hs he ht⟩

theorem Works.sound (hcourse : Course bundle) (hs : s.Works ui bundle) : s.Sound ui bundle := by
  refine ⟨hs.inv, hs.touchable, fun t ht e he hstays => ?_⟩
  exact step_total hcourse
    (ht.inv (Works ui bundle) hs fun _ _ _ hu he hstep => works_step hcourse hu he hstep) he hstays

/-! ## A controller appears -/

/-- The choice of a chapter can be touched, as it can when it has appeared. -/
def enable : ViewController → ViewController
  | .choice c => .choice { c with isUserInteractionEnabled := true }
  | controller => controller

/-- The callbacks of the top controller change nothing else. -/
structure Appeared (s t : Application) : Prop where
  stack : t.viewControllers.map enable = s.viewControllers.map enable
  chosen : t.chosen = s.chosen
  dismissed : t.dismissed = s.dismissed

theorem Appeared.trans (h : Appeared s s') (h' : Appeared s' t) : Appeared s t :=
  ⟨h'.stack.trans h.stack, h'.chosen.trans h.chosen, h'.dismissed.trans h.dismissed⟩

theorem appear_appeared {callback : Appearance} (h : s.appear callback = .ok s') :
    Appeared s s' ∧ s'.callbacks = s.callbacks := by
  unfold appear at h
  split at h
  · obtain rfl := Except.ok.inj h
    exact ⟨⟨rfl, rfl, rfl⟩, rfl⟩
  · next c hc =>
    obtain rfl := Except.ok.inj h
    refine ⟨⟨?_, rfl, rfl⟩, rfl⟩
    obtain ⟨l, hl⟩ := getLast?_eq_some_iff.mp hc
    show (s.viewControllers.dropLast ++ [_]).map enable = _
    rw [hl, dropLast_concat, map_append, map_append]
    rfl
  · obtain rfl := Except.ok.inj h
    exact ⟨⟨rfl, rfl, rfl⟩, rfl⟩
  · obtain ⟨r, -, h⟩ := bind_eq_ok.mp h
    obtain rfl := Except.ok.inj h
    exact ⟨⟨rfl, rfl, rfl⟩, rfl⟩
  · obtain rfl := Except.ok.inj h
    exact ⟨⟨rfl, rfl, rfl⟩, rfl⟩

theorem appearAll (hs : s.Sound ui bundle) :
    CanReach (step ui) Continues s fun t =>
      (t.Sound ui bundle ∧ Appeared s t) ∧ t.callbacks = [] := by
  refine canReach_of_measure (fun t => t.Sound ui bundle ∧ Appeared s t) (fun t => t.callbacks = [])
    (fun t => t.callbacks.length) ?_ ⟨hs, rfl, rfl, rfl⟩
  rintro t ⟨ht, happeared⟩ hwaits
  have he : t.Timely .appearance := ⟨hwaits, trivial⟩
  obtain ⟨u, hu, hsound⟩ := ht.event he rfl
  obtain ⟨callback, callbacks, hcallbacks⟩ := exists_cons_of_ne_nil hwaits
  have hmoved : Appeared t u ∧ u.callbacks = callbacks := by
    simp only [step, hcallbacks] at hu
    obtain ⟨hmoved, hrest⟩ := appear_appeared hu
    exact ⟨⟨hmoved.stack, hmoved.chosen, hmoved.dismissed⟩, hrest⟩
  refine .event ⟨he, by simp⟩ hu (.refl ⟨⟨hsound, happeared.trans hmoved.1⟩, ?_⟩)
  rw [hmoved.2, hcallbacks]
  exact Nat.lt_succ_self _

/-- The choice of a chapter is on top and can be touched. -/
structure AtChoice (bundle : List DescribedChapter) (s : Application) : Prop where
  stack : ∃ c, s.viewControllers = [.main, .choice c] ∧ c.chapterList = bundle ∧
    c.isUserInteractionEnabled = true
  callbacks : s.callbacks = []

theorem enable_eq_choice {controller : ViewController} {c : AIMQuestionChoiceScreenViewController}
    (h : enable controller = enable (.choice c)) : ∃ c', controller = .choice c' := by
  cases controller with
  | choice c' => exact ⟨c', rfl⟩
  | _ => cases h

theorem enable_eq {controller controller' : ViewController} (hother : controller'.isChoice = false)
    (h : enable controller = enable controller') : controller = controller' := by
  cases controller' with
  | choice c => cases hother
  | _ => cases controller <;> first | exact h | cases h

/-- The same controller is on top, unless it is the choice of a chapter. -/
theorem Appeared.top_eq {controller : ViewController} (h : Appeared s t)
    (hother : controller.isChoice = false) (htop : s.top = some controller) :
    t.top = some controller := by
  have hmap : t.top.map enable = s.top.map enable := by
    rw [top, top, ← getLast?_map, ← getLast?_map, h.stack]
  rw [htop] at hmap
  obtain ⟨controller', htop', heq⟩ := Option.map_eq_some_iff.mp hmap
  rw [htop', enable_eq hother heq]

/-- The choice of a chapter that has come on top. -/
theorem choiceAppears (hs : s.Sound ui bundle) (hidle : s.chosen = [])
    (hstack : ∃ c, s.viewControllers = [.main, .choice c]) :
    CanReach (step ui) Continues s fun t =>
      t.Sound ui bundle ∧ t.AtChoice bundle ∧ t.dismissed = s.dismissed := by
  refine (appearAll hs).mono ?_
  rintro t ⟨⟨ht, happeared⟩, hcallbacks⟩
  refine ⟨ht, ⟨?_, hcallbacks⟩, happeared.dismissed⟩
  obtain ⟨c, hc⟩ := hstack
  have hmap := happeared.stack
  rw [hc] at hmap
  obtain ⟨root, rest, hviews, hroot, hrest⟩ := map_eq_cons_iff.mp hmap
  obtain ⟨controller, rest', rfl, hcontroller, hnil⟩ := map_eq_cons_iff.mp hrest
  obtain rfl := enable_eq rfl hroot
  obtain ⟨c', rfl⟩ := enable_eq_choice hcontroller
  obtain rfl := map_eq_nil_iff.mp hnil
  have htop : t.top = some (.choice c') := by rw [top, hviews]; rfl
  refine ⟨c', hviews, (ht.inv.stack.eq_choice htop).2, ?_⟩
  rcases ht.touchable.choice c' htop with henabled | hchosen | hwaits
  · exact henabled
  · exact absurd (happeared.chosen.trans hidle) hchosen
  · rw [hcallbacks] at hwaits
    cases hwaits

/-! ## A chapter is opened -/

/-- The question screen of a chapter is on top, as it has been opened. -/
structure Asks (ui : Platform) (table : TagTable) (chapter : DescribedChapter) (s : Application) :
    Prop where
  opened : ∃ screen draws, s.top = some (.answer screen) ∧
    (AIMQuestionAnswerScreenViewController.loaded chapter.toAIMChapter table.questionType
      kSkip).viewDidLoad ui draws = .ok screen
  callbacks : s.callbacks = []

/-- The screen that a segue pushes. -/
theorem showQuestions_appears (hs : s'.Sound ui bundle)
    (h : s.showQuestions ui chapter table.questionType draws = .ok s') :
    CanReach (step ui) Continues s' fun t => t.Sound ui bundle ∧ t.Asks ui table chapter := by
  obtain ⟨screen, hscreen, h⟩ := bind_eq_ok.mp h
  have htop : s'.top = some (.answer screen) := by
    obtain rfl := Except.ok.inj h
    exact getLast?_concat
  refine (appearAll hs).mono ?_
  rintro t ⟨⟨ht, happeared⟩, hcallbacks⟩
  exact ⟨ht, ⟨screen, draws, happeared.top_eq rfl htop, inScreen_eq_ok.mp hscreen⟩, hcallbacks⟩

/-- A row of a table is tapped, and its segue comes. -/
theorem openChapter (hs : s.Sound ui bundle) (hchoice : s.AtChoice bundle)
    (hshown : Shows bundle table chapter) :
    CanReach (step ui) Continues s fun t => t.Sound ui bundle ∧ t.Asks ui table chapter := by
  obtain ⟨row, hrow, hchapter⟩ := hshown
  obtain ⟨c, hstack, hlist, henabled⟩ := hchoice.stack
  have htop : s.top = some (.choice c) := by rw [top, hstack]; rfl
  have htables : s.top.any (·.hasTables) = true := by rw [htop]; exact henabled
  have he : s.Timely (.didSelectRow table row) := ⟨⟨hchoice.callbacks, htables, hrow⟩, trivial⟩
  obtain ⟨t, ht, hts⟩ := hs.event he rfl
  refine .event ⟨he, by simp⟩ ht ?_
  have hchosen : t.chosen = [(table, chapter)] := by
    simp only [step, didSelectRow, htop] at ht
    obtain ⟨cell, hcell, ht⟩ := bind_eq_ok.mp ht
    obtain ⟨other, hother, hcell⟩ := bind_eq_ok.mp hcell
    rw [orThrow_eq_ok, hlist] at hother
    obtain rfl := Option.some.inj (hchapter.symm.trans hother)
    obtain rfl := Except.ok.inj hcell
    obtain rfl := Except.ok.inj ht
    have hidle : s.chosen = [] := hs.inv.idle (.inr fun d hd => by
      obtain rfl : c = d := by simpa using htop.symm.trans hd
      exact henabled)
    show s.chosen ++ _ = _
    rw [hidle]
    rfl
  have he' : t.Timely (.chooseChapter fun _ => 0) :=
    ⟨by rw [Enabled, hchosen]; exact cons_ne_nil _ _, trivial⟩
  obtain ⟨u, hu, hus⟩ := hts.event he' rfl
  refine .event ⟨he', by simp⟩ hu ?_
  simp only [step, chooseChapter, hchosen] at hu
  cases table with
  | TableImijun => exact showQuestions_appears hus hu
  | TableExternalData =>
    have hdescription : u.top = some (.description (.viewDidLoad chapter)) := by
      obtain rfl := Except.ok.inj hu
      exact getLast?_concat
    refine (appearAll hus).bind ?_
    rintro v ⟨⟨hv, happeared⟩, hcallbacks⟩
    have htop' := happeared.top_eq rfl hdescription
    have hstart : v.Timely (.btnStartDescribed fun _ => 0) :=
      ⟨⟨hcallbacks, by rw [htop']; rfl⟩, trivial⟩
    obtain ⟨w, hw, hws⟩ := hv.event hstart rfl
    refine .event ⟨hstart, by simp⟩ hw ?_
    simp only [step, btnStartDescribed, htop'] at hw
    obtain ⟨r, -, hw⟩ := bind_eq_ok.mp hw
    have hw : (v.record r).showQuestions ui chapter TagTable.TableExternalData.questionType
        (fun _ => 0) = .ok w := hw
    exact showQuestions_appears hws hw

/-! ## The question screen on top -/

theorem timely_answer {event : ScreenEvent} (htop : s.top = some (.answer screen))
    (hcallbacks : s.callbacks = []) (he : screen.Timely event) (hoccurs : event.occurs = true) :
    s.Timely (.answer event) := by
  have hscreen : s.top.bind (·.questionScreen) = some screen := by rw [htop]; rfl
  refine ⟨⟨fun _ => hcallbacks, hoccurs, screen, hscreen, he.1⟩, fun other hother => ?_⟩
  obtain rfl := Option.some.inj (hscreen.symm.trans hother)
  exact he

/-- A step that stays on the screen. -/
theorem answer_stays {event : ScreenEvent} (htop : s.top = some (.answer screen))
    (hstep : screen.step ui event = .ok screen') (hpops : screen'.pops = screen.pops)
    (h : s.step ui (.answer event) = .ok s') :
    s'.top = some (.answer screen') ∧ s'.callbacks = s.callbacks := by
  obtain ⟨other, hother, rfl⟩ := answer_ok htop h
  obtain rfl := Except.ok.inj (hstep.symm.trans hother)
  rw [hpops, drop_length]
  exact ⟨top_setTop s _, rfl⟩

/-- A run of the question screen on top. -/
theorem reaches_answer (hs : s.Sound ui bundle) (htop : s.top = some (.answer screen))
    (hcallbacks : s.callbacks = [])
    (h : Reaches (AIMQuestionAnswerScreenViewController.step ui)
      (AIMQuestionAnswerScreenViewController.Stays ui) screen screen') :
    CanReach (step ui) Continues s fun t =>
      t.Sound ui bundle ∧ t.top = some (.answer screen') ∧ t.callbacks = [] := by
  induction h with
  | refl => exact .refl ⟨hs, htop, hcallbacks⟩
  | tail _ he hstep ih =>
    refine ih.bind fun t ht => ?_
    obtain ⟨ht, htop, hcallbacks⟩ := ht
    have hallowed := timely_answer htop hcallbacks he.1 he.2.1
    have hstays := AIMQuestionAnswerScreenViewController.leavesHint_of_ok hstep
    obtain ⟨u, hu, hus⟩ := ht.event hallowed hstays
    obtain ⟨htop', hsame⟩ := answer_stays htop hstep (he.2.2 _ hstep) hu
    exact .event ⟨hallowed, by simp⟩ hu (.refl ⟨hus, htop', hsame.trans hcallbacks⟩)

/-! ## When timely runs do not trap -/

/-- The choice of a chapter is opened from the title. -/
theorem openChoice (hs : s.Sound ui bundle) (hmain : s.top = some .main)
    (hcallbacks : s.callbacks = []) : 14 ≤ bundle.length ∧
    CanReach (step ui) Continues s fun t =>
      t.Sound ui bundle ∧ t.AtChoice bundle ∧ t.dismissed = s.dismissed := by
  have he : s.Timely (.btnStartLearning true) :=
    ⟨⟨hcallbacks, by rw [hmain]; rfl⟩, fun _ => rfl⟩
  obtain ⟨t, ht, hts⟩ := hs.event he rfl
  have hopened : ∃ c, t.viewControllers = s.viewControllers ++ [.choice c] ∧
      t.chosen = s.chosen ∧ t.dismissed = s.dismissed ∧ 14 ≤ bundle.length := by
    obtain ⟨c, hc, h⟩ := bind_eq_ok.mp ht
    obtain rfl := Except.ok.inj h
    have hlist := hts.inv.library _ rfl
    exact ⟨c, rfl, rfl, rfl, hlist ▸ (viewDidLoad_choice_ok.mp hc).1⟩
  obtain ⟨c, hviews, hchosen, hdismissed, hrows⟩ := hopened
  rw [hs.inv.stack.eq_main hmain] at hviews
  refine ⟨hrows, .event ⟨he, by simp⟩ ht ?_⟩
  refine (choiceAppears hts (hchosen.trans (hs.inv.idle_of_main hmain)) ⟨c, hviews⟩).mono ?_
  rintro u ⟨hu, hchoice, hsame⟩
  exact ⟨hu, hchoice, hsame.trans hdismissed⟩

/-- The screen right after question `j` has been shown for the first time is on top. -/
structure AsksFresh (ui : Platform) (chapter : DescribedChapter) (j : Nat) (s : Application) :
    Prop where
  shown : ∃ screen, s.top = some (.answer screen) ∧ screen.ShowsFresh ui chapter.toAIMChapter j
  callbacks : s.callbacks = []

/-- A timely event of the screen on top does not trap. -/
theorem Sound.screen_total (hs : s.Sound ui bundle) (htop : s.top = some (.answer screen))
    (hcallbacks : s.callbacks = []) {event : ScreenEvent} (he : screen.Timely event)
    (hoccurs : event.occurs = true) (hstays : event.leavesHint = false) :
    ∃ screen', screen.step ui event = .ok screen' := by
  obtain ⟨t, ht, -⟩ := hs.event (timely_answer htop hcallbacks he hoccurs) hstays
  obtain ⟨screen', hscreen', -⟩ := answer_ok htop ht
  exact ⟨screen', hscreen'⟩

/-- Every question of the chapter is shown at some time. -/
theorem AsksFresh.reach (hs : s.Sound ui bundle) (hfresh : s.AsksFresh ui chapter 0) {j : Nat}
    (hj : j < chapter.questions.length) :
    CanReach (step ui) Continues s fun t => t.Sound ui bundle ∧ t.AsksFresh ui chapter j := by
  induction j with
  | zero => exact .refl ⟨hs, hfresh⟩
  | succ j ih =>
    refine (ih (Nat.lt_of_succ_lt hj)).bind ?_
    rintro t ⟨ht, ⟨screen, htop, hshows⟩, hcallbacks⟩
    have htitle := hshows.title (.inl hj)
    have hpos : 0 ≤ screen.currentPositionQuestion := by
      rw [hshows.position]
      exact Int.natCast_nonneg j
    have he : t.Timely (.answer (.rightButtonTap fun _ => 0)) :=
      timely_answer htop hcallbacks ⟨trivial, trivial⟩ rfl
    obtain ⟨u, hu, hus⟩ := ht.event he rfl
    obtain ⟨screen', hscreen', -⟩ := answer_ok htop hu
    obtain ⟨q, content, lbSubTitle, entries, -, -, hswitched⟩ :=
      AIMQuestionAnswerScreenViewController.rightButtonTap_moves hpos (.inr htitle) hscreen'
    have hpops : screen'.pops = screen.pops := by rw [hswitched]; rfl
    obtain ⟨htop', hsame⟩ := answer_stays htop hscreen' hpops hu
    exact .event ⟨he, by simp⟩ hu (.refl ⟨hus,
      ⟨screen', htop', (hshows.next htitle hscreen').2⟩, hsame.trans hcallbacks⟩)

/-- A chapter that can be opened, and whose questions can be answered without a trap. -/
theorem wellFormed_of_sound (hs : s.Sound ui bundle) (hchoice : s.AtChoice bundle)
    (hshown : Shows bundle table chapter) : chapter.toAIMChapter.WellFormed := by
  obtain ⟨t, -, ht, ⟨screen, draws, htop, hload⟩, hcallbacks⟩ := openChapter hs hchoice hshown
  have hfresh : t.AsksFresh ui chapter 0 :=
    ⟨⟨screen, htop, AIMQuestionAnswerScreenViewController.showsFresh_start hload⟩, hcallbacks⟩
  refine AIMQuestionAnswerScreenViewController.wellFormed_of_fresh hload ?_ fun j hj => ?_
  · have htap : screen.Timely (.rightButtonTap draws) := ⟨trivial, trivial⟩
    exact ht.screen_total htop hcallbacks htap rfl rfl
  · obtain ⟨u, -, hu, ⟨screen', htop', hshows⟩, hcallbacks'⟩ := hfresh.reach ht hj
    exact ⟨screen', hshows, fun view p location offset he =>
      hu.screen_total htop' hcallbacks' he rfl rfl⟩

/-- Over any number of launches, with question screens popped while their drops and transitions are
pending, an event of a timely run of the application traps only when the finger is dragged off the
Japanese hint button, which always traps, exactly when there is a chapter for every row of the two
tables and every one of these chapters can be worked with. -/
theorem application_traps_at_hint_only_iff :
    (∀ s, Reaches (step ui) Timely (start bundle) s → ∀ e, s.Timely e →
      ((∃ s', s.step ui e = .ok s') ↔ e.leavesHint = false)) ↔ Course bundle := by
  constructor
  · intro htraps
    have hs : (start bundle).Sound ui bundle :=
      ⟨appInv_start ui bundle, .of_shown rfl, fun s h e he hstays => (htraps s h e he).mpr hstays⟩
    obtain ⟨t, -, ⟨ht, happeared⟩, hcallbacks⟩ := appearAll hs
    have hmain : t.top = some .main := happeared.top_eq rfl rfl
    obtain ⟨hrows, u, -, hu, hchoice, -⟩ := openChoice ht hmain hcallbacks
    exact ⟨hrows, fun table chapter hshown => wellFormed_of_sound hu hchoice hshown⟩
  · intro hcourse s h e he
    have hs := h.inv (Works ui bundle) (works_start ui bundle)
      fun _ _ _ hs he hstep => works_step hcourse hs he hstep
    exact ⟨fun ⟨_, hstep⟩ => leavesHint_of_ok he.1 hstep, step_total hcourse hs he⟩

/-! ## A chapter is finished -/

theorem Works.canReach {Q : Application → Prop} (hcourse : Course bundle) (hs : s.Works ui bundle)
    (h : CanReach (step ui) Continues s Q) :
    CanReach (step ui) Continues s fun t => t.Works ui bundle ∧ Q t :=
  h.inv (Works ui bundle) hs fun _ _ _ ht he hstep => works_step hcourse ht he.1 hstep

/-- The close button of the last question leads to the choice of a chapter. -/
theorem closeChapter (hs : s.Sound ui bundle) (htop : s.top = some (.answer screen))
    (hcallbacks : s.callbacks = [])
    (hclose : screen.step ui (.rightButtonTap fun _ => 0) = .ok screen')
    (hpops : screen'.pops = screen.pops ++ [.popToQuestionChoice]) :
    CanReach (step ui) Continues s fun t =>
      t.Sound ui bundle ∧ t.AtChoice bundle ∧ t.dismissed.getLast? = some screen' := by
  have he : s.Timely (.answer (.rightButtonTap fun _ => 0)) :=
    timely_answer htop hcallbacks ⟨trivial, trivial⟩ rfl
  obtain ⟨t, ht, hts⟩ := hs.event he rfl
  refine .event ⟨he, by simp⟩ ht ?_
  obtain ⟨other, hother, heq⟩ := answer_ok htop ht
  obtain rfl := Except.ok.inj (hclose.symm.trans hother)
  obtain ⟨c, popped, -, hclosed⟩ := closed_eq hs.inv.stack htop screen'
    (s.records ++ newRecords screen screen')
  have hclosed := (navigate_close hpops _).trans hclosed
  rw [← heq] at hclosed
  have hidle : t.chosen = [] := by
    rw [hclosed]
    exact hs.inv.idle (.inr fun d hd => by cases htop.symm.trans hd)
  refine (choiceAppears hts hidle ⟨c, by rw [hclosed]⟩).mono ?_
  rintro u ⟨hu, hchoice, hsame⟩
  refine ⟨hu, hchoice, ?_⟩
  rw [hsame, hclosed]
  exact getLast?_concat

/-- The chapter whose question screen is on top can be finished. -/
theorem finishChapter (hcourse : Course bundle) (hs : s.Works ui bundle)
    (htop : s.top = some (.answer screen)) (hcallbacks : s.callbacks = [])
    (hwell : chapter.toAIMChapter.WellFormed)
    (hunderway : screen.Underway ui chapter.toAIMChapter) :
    CanReach (step ui) Continues s fun t => t.Sound ui bundle ∧ t.AtChoice bundle ∧
      ∃ screen', t.dismissed.getLast? = some screen' ∧
        screen'.AllSolved ui chapter.toAIMChapter ∧
        Reaches (AIMQuestionAnswerScreenViewController.step ui)
          AIMQuestionAnswerScreenViewController.Enabled screen screen' := by
  obtain ⟨last, hrun, -, screen', hclose, hsolved, hpops⟩ :=
    AIMQuestionAnswerScreenViewController.solveAndClose hwell hunderway
  refine (reaches_answer (hs.sound hcourse) htop hcallbacks hrun).bind ?_
  rintro t ⟨ht, htop', hcallbacks'⟩
  refine (closeChapter ht htop' hcallbacks' hclose hpops).mono ?_
  rintro u ⟨hu, hchoice, hlast⟩
  have hrun' := (hrun.mono fun _ _ he => he.1.1).tail trivial hclose
  exact ⟨hu, hchoice, screen', hlast, hsolved, hrun'⟩

/-! ## Back to the choice of a chapter -/

/-- The back button leads to the controller below. -/
theorem leftButtonTap_pops (hs : s.Sound ui bundle) {l : List ViewController}
    {controller : ViewController} (hstack : s.viewControllers = l ++ [controller]) (hne : l ≠ [])
    (hleft : controller.hasLeftButton = true) (hcallbacks : s.callbacks = []) :
    CanReach (step ui) Continues s fun t =>
      t.Sound ui bundle ∧ t.viewControllers = l ∧ t.chosen = s.chosen := by
  have htop : s.top = some controller := by rw [top, hstack, getLast?_concat]
  have he : s.Timely .leftButtonTap := ⟨⟨hcallbacks, by rw [htop]; exact hleft⟩, trivial⟩
  obtain ⟨t, ht, hts⟩ := hs.event he rfl
  refine .event ⟨he, by simp⟩ ht (.refl ⟨hts, ?_⟩)
  have hpopped : s.popViewController.viewControllers = l ∧
      s.popViewController.chosen = s.chosen := by
    refine ⟨?_, popViewController_chosen s⟩
    have hlength : s.viewControllers.length = l.length + 1 := by rw [hstack, length_append]; rfl
    have hpos := length_pos_iff.mpr hne
    have hlong : ¬ s.viewControllers.length ≤ max 1 (s.viewControllers.length - 1) := by omega
    have hcount : max 1 (s.viewControllers.length - 1) = l.length := by omega
    rw [popViewController, popTo, if_neg hlong, hcount, hstack]
    exact take_left
  simp only [step, leftButtonTap] at ht
  split at ht
  · exact Except.ok.inj ht ▸ hpopped
  · obtain ⟨r, -, ht⟩ := bind_eq_ok.mp ht
    exact Except.ok.inj ht ▸ hpopped
  · exact Except.ok.inj ht ▸ hpopped

/-- From the title the choice of a chapter can be opened. -/
theorem titleToChoice (hs : s.Sound ui bundle) (hstack : s.viewControllers = [.main]) :
    CanReach (step ui) Continues s fun t => t.Sound ui bundle ∧ t.AtChoice bundle := by
  have hmain : s.top = some .main := by rw [top, hstack]; rfl
  refine (appearAll hs).bind ?_
  rintro t ⟨⟨ht, happeared⟩, hcallbacks⟩
  refine (openChoice ht (happeared.top_eq rfl hmain) hcallbacks).2.mono ?_
  rintro u ⟨hu, hchoice, -⟩
  exact ⟨hu, hchoice⟩

/-- A waiting chapter is shown. -/
theorem clearChosen (hcourse : Course bundle) (hs : s.Works ui bundle) :
    CanReach (step ui) Continues s fun t => t.chosen = [] := by
  by_cases hidle : s.chosen = []
  · exact .refl hidle
  · obtain ⟨table, chapter, hwaiting, hshown⟩ := (hs.inv.chosen.resolve_left hidle).chosen
    have he : s.Timely (.chooseChapter fun _ => 0) := ⟨hidle, trivial⟩
    obtain ⟨t, ht⟩ : ∃ t, s.step ui (.chooseChapter fun _ => 0) = .ok t :=
      step_total hcourse hs he rfl
    refine .event ⟨he, by simp⟩ ht (.refl ?_)
    simp only [step, chooseChapter, hwaiting] at ht
    cases table with
    | TableImijun =>
      obtain ⟨screen, -, ht⟩ := bind_eq_ok.mp ht
      obtain rfl := Except.ok.inj ht
      rfl
    | TableExternalData =>
      obtain rfl := Except.ok.inj ht
      rfl

/-- From every state the choice of a chapter can be come back to. -/
theorem toChoice (hcourse : Course bundle) (hs : s.Works ui bundle) :
    CanReach (step ui) Continues s fun t => t.Sound ui bundle ∧ t.AtChoice bundle := by
  refine (hs.canReach hcourse (clearChosen hcourse hs)).bind ?_
  rintro t ⟨ht, hidle⟩
  refine (ht.canReach hcourse (appearAll (ht.sound hcourse))).bind ?_
  rintro u ⟨hu, ⟨hus, happeared⟩, hcallbacks⟩
  have hidle := happeared.chosen.trans hidle
  have hstack := hu.inv.stack
  have hquestions {screen : AIMQuestionAnswerScreenViewController}
      (htop : u.top = some (.answer screen)) :
      CanReach (step ui) Continues u fun t => t.Sound ui bundle ∧ t.AtChoice bundle := by
    obtain ⟨table, chapter, hshown, hunderway⟩ := hu.screens screen (mem_screens_of_top htop)
    refine (finishChapter hcourse hu htop hcallbacks
      (hcourse.wellFormed table chapter hshown) hunderway).mono ?_
    rintro v ⟨hv, hchoice, -⟩
    exact ⟨hv, hchoice⟩
  generalize hviews : u.viewControllers = l at hstack
  cases hstack with
  | main => exact titleToChoice hus hviews
  | tutorial =>
    refine (leftButtonTap_pops (l := [.main]) hus hviews (by simp) rfl hcallbacks).bind ?_
    rintro v ⟨hv, hmain, -⟩
    exact titleToChoice hv hmain
  | about =>
    refine (leftButtonTap_pops (l := [.main]) hus hviews (by simp) rfl hcallbacks).bind ?_
    rintro v ⟨hv, hmain, -⟩
    exact titleToChoice hv hmain
  | @choice c _ =>
    refine (choiceAppears hus hidle ⟨c, hviews⟩).mono ?_
    rintro v ⟨hv, hchoice, -⟩
    exact ⟨hv, hchoice⟩
  | @description c _ _ _ =>
    refine (leftButtonTap_pops (l := [.main, .choice c]) hus hviews (by simp) rfl
      hcallbacks).bind ?_
    rintro v ⟨hv, hchoice, hsame⟩
    refine (choiceAppears hv (hsame.trans hidle) ⟨c, hchoice⟩).mono ?_
    rintro w ⟨hw, hchoice, -⟩
    exact ⟨hw, hchoice⟩
  | basic _ _ => exact hquestions (by rw [top, hviews]; rfl)
  | aplication _ _ => exact hquestions (by rw [top, hviews]; rfl)

/-- From every state of a timely run of the application, whatever chapters, drops, transitions and
segues have been left open, a timely run without a trap and without a new launch opens any chapter
of the tables, solves all of its questions, and comes back to the choice of a chapter, which can be
touched again. The question screen that has just been popped is in a run of its own, for this
chapter. -/
theorem any_chapter_can_be_finished (hcourse : Course bundle)
    (h : Reaches (step ui) Timely (start bundle) s) (hshown : Shows bundle table chapter) :
    CanReach (step ui) Continues s fun t => t.AtChoice bundle ∧
      ∃ screen, t.dismissed.getLast? = some screen ∧ Opened ui bundle table chapter screen ∧
        ∀ q ∈ chapter.questions, screen.SolvedIn ui q := by
  have hs := h.inv (Works ui bundle) (works_start ui bundle)
    fun _ _ _ ht he hstep => works_step hcourse ht he hstep
  refine (hs.canReach hcourse (toChoice hcourse hs)).bind ?_
  rintro t ⟨ht, hsound, hchoice⟩
  refine (ht.canReach hcourse (openChapter hsound hchoice hshown)).bind ?_
  rintro u ⟨hu, -, ⟨first, draws, htop, hload⟩, hcallbacks⟩
  have hwell := hcourse.wellFormed table chapter hshown
  have hunderway := AIMQuestionAnswerScreenViewController.underway_start hwell hload
  refine (finishChapter hcourse hu htop hcallbacks hwell hunderway).mono ?_
  rintro v ⟨-, hchoice, screen, hlast, hsolved, hrun⟩
  exact ⟨hchoice, screen, hlast, ⟨hshown, draws, first, hload, hrun⟩, hsolved⟩

theorem sampleBundle_course : Course sampleBundle := by
  refine ⟨by decide +kernel, fun table chapter hshown => ?_⟩
  obtain ⟨i, hi, rfl⟩ := mem_map.mp hshown.mem
  have hindex : ∀ i ∈ List.range 14, (swiftInt (toString (i + 1))).isSome = true := by
    decide +kernel
  have hwell := AIMQuestionAnswerScreenViewController.sampleChapter_wellFormed 3 (by decide)
  exact ⟨hindex i hi, hwell.two, hwell.playable⟩

/-- The last chapter has been left through the back button while a drop was pending, and its
description has still to appear; then the first chapter can be finished. -/
theorem any_chapter_can_be_finished_pending : ∃ s t chapter,
    Reaches (step .ascii) Timely (start sampleBundle) s ∧ s.dismissed.length = 1 ∧
      s.callbacks.length = 2 ∧ sampleBundle[0]? = some chapter ∧
      Reaches (step .ascii) Continues s t ∧ t.AtChoice sampleBundle ∧
      ∃ screen, t.dismissed.getLast? = some screen ∧
        ∀ q ∈ chapter.questions, screen.SolvedIn .ascii q := by
  have hrun : (play (step .ascii) Timely (start sampleBundle) (openLast ++
      (QuestionRun.drag 1 (QuestionRun.inList 1) (QuestionRun.onSlot 1)).map
        (fun e => .answer (.inView 0 e)) ++ [.answer (.leftButtonTap fun _ => 0)])).any (fun s =>
      decide (s.dismissed.length = 1) && decide (s.callbacks.length = 2)) = true := by
    decide +kernel
  obtain ⟨s, hreach, hend⟩ := exists_reaches_of_play hrun
  simp only [Bool.and_eq_true, decide_eq_true_eq] at hend
  have hlength : sampleBundle.length = 14 := by decide +kernel
  have hfirst := List.getElem?_eq_getElem (l := sampleBundle) (i := 0) (by omega)
  have hshown : Shows sampleBundle .TableImijun sampleBundle[0] := ⟨0, by decide, hfirst⟩
  obtain ⟨t, hrest, hchoice, screen, hlast, -, hsolved⟩ :=
    any_chapter_can_be_finished sampleBundle_course hreach hshown
  exact ⟨s, t, _, hreach, hend.1, hend.2, hfirst, hrest, hchoice, screen, hlast, hsolved⟩

end Application

end Imijun
