import Imijun.ChapterTraps

/-!
# A chapter can be finished

* `Underway`: what a timely run of the screen of a chapter keeps.
* `settle`: the pending transitions can end; then the current view shows the current position.
* `solveCurrent`: the question of this view can be solved, by a run of the view that is one of the
  screen (`reaches_inView`).
* `forward`, `back`: the next and the previous question can be shown.
* `chapter_can_be_finished`: from every state of a timely run all questions of the chapter can be
  solved and the screen left through its close button.
-/

namespace Imijun

open Transition Fallible List

namespace AIMQuestionAnswerScreenViewController

variable {ui : Platform} {s s' t : AIMQuestionAnswerScreenViewController} {e : ScreenEvent}
  {chapter : AIMChapter} {chapterType : Log.ChapterType} {draws : Nat → Nat}

/-- What a timely run of the screen of a chapter keeps. -/
structure Underway (ui : Platform) (chapter : AIMChapter)
    (s : AIMQuestionAnswerScreenViewController) : Prop where
  inv : s.ChapterInv ui chapter
  orderly : Handover.Orderly s.handover
  shows : s.ShowsPosition
  titled : s.rightButtonTitle = kNext ∨ s.rightButtonTitle = kSkip ∨ s.rightButtonTitle = kClose

theorem underway_start (hwell : chapter.WellFormed)
    (h₀ : (loaded chapter chapterType kSkip).viewDidLoad ui draws = .ok s) :
    s.Underway ui chapter := by
  refine ⟨chapterInv_start hwell h₀, (orderly_of_run h₀ .refl).1, showsPosition_start h₀, ?_⟩
  obtain ⟨q, content, lbTitle, lbSubTitle, entry, -, -, -, rfl⟩ := viewDidLoad_ok h₀
  exact .inr (.inl rfl)

theorem finishTitle_titled (s : AIMQuestionAnswerScreenViewController) :
    s.finishTitle = kNext ∨ s.finishTitle = kSkip ∨ s.finishTitle = kClose := by
  unfold finishTitle
  split_ifs
  · exact .inr (.inr rfl)
  · exact .inl rfl

theorem titled_step (hs : s.Underway ui chapter) (he : s.Enabled e) (h : s.step ui e = .ok s') :
    s'.rightButtonTitle = kNext ∨ s'.rightButtonTitle = kSkip ∨ s'.rightButtonTitle = kClose := by
  cases screen_outcome hs.inv.range.lower he h with
  | popped _ _ => exact hs.titled
  | @switched _ position q draws content lbSubTitle entries _ _ _ _ =>
    have htitle : (s.switched position content lbSubTitle entries).rightButtonTitle =
        if position ≥ (s.currentChapter.questions.length : Int) - 1 then kClose else kSkip := rfl
    rw [htitle]
    split_ifs
    · exact .inr (.inr rfl)
    · exact .inr (.inl rfl)
  | completed _ => exact hs.titled
  | @inView view event run calls _ _ _ delivered =>
    rw [delivered.state]
    show (if .finishAtCurrentQuestion ∈ calls then s.finishTitle else s.rightButtonTitle) = _ ∨
      _ ∨ _
    split_ifs
    · exact finishTitle_titled s
    · exact hs.titled
  | finished _ => exact finishTitle_titled s

theorem underway_step (hwell : chapter.WellFormed) (hs : s.Underway ui chapter) (he : s.Timely e)
    (h : s.step ui e = .ok s') : s'.Underway ui chapter := by
  have hhandover := handover_step hs.inv.range.lower he.1 h
  exact ⟨chapterInv_step hwell hs.inv he h,
    hhandover.inv Handover.Orderly hs.orderly
      fun _ _ _ ht _ hstep => Handover.orderly_step ht hstep,
    showsPosition_step hs.shows he.1 h, titled_step hs he.1 h⟩

/-- A timely event that occurs and does not leave the screen. -/
def Stays (ui : Platform) (s : AIMQuestionAnswerScreenViewController) (e : ScreenEvent) : Prop :=
  s.Timely e ∧ e.occurs = true ∧ ∀ s', s.step ui e = .ok s' → s'.pops = s.pops

theorem stays_of_step (he : s.Timely e) (hoccurs : e.occurs = true) (h : s.step ui e = .ok s')
    (hpops : s'.pops = s.pops) : s.Stays ui e := by
  refine ⟨he, hoccurs, fun t ht => ?_⟩
  obtain rfl := Except.ok.inj (h.symm.trans ht)
  exact hpops

/-- The invariant is there where a run ends. -/
theorem Underway.canReach {Q : AIMQuestionAnswerScreenViewController → Prop}
    (hs : s.Underway ui chapter) (hwell : chapter.WellFormed)
    (h : CanReach (step ui) (Stays ui) s Q) :
    CanReach (step ui) (Stays ui) s fun t => t.Underway ui chapter ∧ Q t :=
  h.inv (Underway ui chapter) hs fun _ _ _ ht he hstep => underway_step hwell ht he.1 hstep

/-! ## The transitions end -/

/-- Without a pending transition. -/
def Settled (s : AIMQuestionAnswerScreenViewController) : Prop := s.transitions = []

/-- The same content views at the same position. -/
structure SameViews (s t : AIMQuestionAnswerScreenViewController) : Prop where
  position : t.currentPositionQuestion = s.currentPositionQuestion
  created : t.created = s.created
  contentViews : t.contentViews = s.contentViews

theorem settle (s : AIMQuestionAnswerScreenViewController) :
    CanReach (step ui) (Stays ui) s fun t => SameViews s t ∧ t.Settled := by
  refine canReach_of_measure (SameViews s) Settled (fun t => t.transitions.length) ?_
    ⟨rfl, rfl, rfl⟩
  intro t ht hpending
  obtain ⟨view, transitions, hview⟩ := exists_cons_of_ne_nil hpending
  have hstep : t.step ui .transitionCompletion =
      .ok { t.transitionCompletion view with transitions := transitions } := by
    rw [step, hview]
  have hallowed : t.Timely .transitionCompletion := ⟨hpending, trivial⟩
  have hstays := stays_of_step hallowed rfl hstep rfl
  refine .event hstays hstep (.refl ⟨⟨ht.position, ht.created, ht.contentViews⟩, ?_⟩)
  show transitions.length < t.transitions.length
  rw [hview]
  exact Nat.lt_succ_self _

/-! ## A run of one view -/

/-- The screen with view `view` in the state `run`, apart from its title and its log. -/
structure WithView (view : Nat) (run : QuestionRun)
    (s t : AIMQuestionAnswerScreenViewController) : Prop where
  contentViews : t.contentViews = Function.update s.contentViews view run
  created : t.created = s.created
  subviews : t.subviews = s.subviews
  current : t.currentQuestionContentView = s.currentQuestionContentView
  transitions : t.transitions = s.transitions
  position : t.currentPositionQuestion = s.currentPositionQuestion

/-- The events of the only view of the screen can occur. -/
theorem timely_inView {view : Nat} {event : Event} (hview : view < s.created)
    (hpresent : view ∈ s.subviews) (hcurrent : view = s.currentQuestionContentView)
    (he : (s.contentViews view).WellTimed event) : s.Timely (.inView view event) := by
  refine ⟨⟨hview, he.1, ?_⟩, he⟩
  cases event with
  | dropCompletion i => trivial
  | animationCompletion i => trivial
  | willResignActive => exact hcurrent
  | _ => exact hpresent

/-- An event of a content view does not leave the screen. -/
theorem stays_inView {view : Nat} {event : Event} (he : s.Timely (.inView view event))
    (h : s.step ui (.inView view event) = .ok s') : s.Stays ui (.inView view event) := by
  refine stays_of_step he rfl h ?_
  obtain ⟨run, -, h⟩ := bind_eq_ok.mp h
  obtain ⟨hstate, -⟩ := deliver_ok h
  rw [hstate]

/-- A run of the only view is a run of the screen. -/
theorem reaches_inView (hwell : chapter.WellFormed) (hs : s.Underway ui chapter) {view : Nat}
    (hview : view < s.created) (hpresent : view ∈ s.subviews)
    (hcurrent : view = s.currentQuestionContentView) {run : QuestionRun}
    (h : Reaches (QuestionRun.step ui) QuestionRun.WellTimed (s.contentViews view) run) :
    ∃ t, Reaches (step ui) (Stays ui) s t ∧ WithView view run s t := by
  induction h with
  | refl => exact ⟨s, .refl, (Function.update_eq_self _ _).symm, rfl, rfl, rfl, rfl, rfl⟩
  | @tail r r' event _ he hstep ih =>
    obtain ⟨t, hreach, ht⟩ := ih
    have hinv := hreach.inv (Underway ui chapter) hs
      fun _ _ _ hu he hstep => underway_step hwell hu he.1 hstep
    have hrun : t.contentViews view = r := by rw [ht.contentViews, Function.update_self]
    have hallowed : t.Timely (.inView view event) :=
      timely_inView (ht.created ▸ hview) (ht.subviews ▸ hpresent) (ht.current ▸ hcurrent)
        (hrun ▸ he)
    obtain ⟨u, hu⟩ := step_total hwell hinv.inv hallowed (QuestionRun.leavesHint_of_ok hstep)
    refine ⟨u, hreach.tail (stays_inView hallowed hu) hu, ?_⟩
    obtain ⟨run', hrun', hu⟩ := bind_eq_ok.mp hu
    rw [inContent_eq_ok, hrun, hstep] at hrun'
    obtain rfl := Except.ok.inj hrun'
    obtain ⟨hstate, -⟩ := deliver_ok hu
    rw [hstate]
    refine ⟨?_, ht.created, ht.subviews, ht.current, ht.transitions, ht.position⟩
    show Function.update t.contentViews view r' = _
    rw [ht.contentViews, Function.update_idem]

/-! ## One question -/

/-- A content view shows the question, and it is solved there. -/
def SolvedIn (ui : Platform) (q : AIMQuestion) (s : AIMQuestionAnswerScreenViewController) : Prop :=
  ∃ view < s.created, (s.contentViews view).Works ui q ∧ (s.contentViews view).Solved q

/-- What is solved stays solved in `t`. -/
def KeepsSolved (ui : Platform) (s t : AIMQuestionAnswerScreenViewController) : Prop :=
  ∀ q, s.SolvedIn ui q → t.SolvedIn ui q

theorem KeepsSolved.trans (h : KeepsSolved ui s s') (h' : KeepsSolved ui s' t) :
    KeepsSolved ui s t := fun q hq => h' q (h q hq)

theorem SameViews.keepsSolved (h : SameViews s t) : KeepsSolved ui s t := by
  rintro q ⟨view, hview, hworks, hsolved⟩
  refine ⟨view, h.created ▸ hview, ?_⟩
  rw [h.contentViews]
  exact ⟨hworks, hsolved⟩

theorem keepsSolved_switched (position : Int) (content : AIMQuestionContentView)
    (lbSubTitle : String) (entries : List LogEntry) :
    KeepsSolved ui s (s.switched position content lbSubTitle entries) := by
  rintro q ⟨view, hview, hworks, hsolved⟩
  refine ⟨view, Nat.lt_succ_of_lt hview, ?_⟩
  show ((Function.update s.contentViews s.created _) view).Works ui q ∧
    ((Function.update s.contentViews s.created _) view).Solved q
  rw [Function.update_of_ne hview.ne]
  exact ⟨hworks, hsolved⟩

/-- The current view shows the question at the position, and its question can be solved. -/
theorem solveCurrent (hwell : chapter.WellFormed) (hs : s.Underway ui chapter)
    (hsettled : s.Settled) {q : AIMQuestion} (hq : s.question s.currentPositionQuestion = .ok q) :
    CanReach (step ui) (Stays ui) s fun t => t.Settled ∧
      t.currentPositionQuestion = s.currentPositionQuestion ∧ t.SolvedIn ui q ∧
      KeepsSolved ui s t := by
  obtain ⟨hpresent, hnewest⟩ := hs.orderly.settled hsettled
  have hview : s.currentQuestionContentView < s.created := Nat.lt_of_succ_le hnewest.le
  have hlast : s.created - 1 = s.currentQuestionContentView := (Nat.eq_sub_of_add_eq hnewest).symm
  obtain ⟨q', -, hworks⟩ := hs.inv.works _ hview
  obtain rfl : q' = q := by
    have hshown := hs.shows.shown
    rw [hlast, hworks.shown] at hshown
    exact Except.ok.inj (hshown.symm.trans hq)
  obtain ⟨run, hrun, hworks', hsolved⟩ := hworks.solve
  have hmem : s.currentQuestionContentView ∈ s.subviews := by
    have hpresent : s.subviews = [s.currentQuestionContentView] := hpresent
    rw [hpresent]
    exact mem_singleton_self _
  obtain ⟨t, hreach, ht⟩ := reaches_inView hwell hs hview hmem rfl hrun
  have hcontent : t.contentViews s.currentQuestionContentView = run := by
    rw [ht.contentViews, Function.update_self]
  have hsolvedIn : t.SolvedIn ui q' := by
    refine ⟨_, ht.created ▸ hview, ?_⟩
    rw [hcontent]
    exact ⟨hworks', hsolved⟩
  refine ⟨t, hreach, ht.transitions.trans hsettled, ht.position, hsolvedIn, ?_⟩
  rintro p ⟨w, hw, hp, hpsolved⟩
  by_cases hwv : w = s.currentQuestionContentView
  · -- the question of this view is the one that has just been solved
    subst hwv
    obtain rfl : p = q' := hp.shown.symm.trans hworks.shown
    exact hsolvedIn
  · refine ⟨w, ht.created ▸ hw, ?_⟩
    rw [ht.contentViews, Function.update_of_ne hwv]
    exact ⟨hp, hpsolved⟩

/-! ## From question to question -/

/-- A tap that has moved to another question is followed by the end of the transition. -/
theorem settle_switched {position : Int} {content : AIMQuestionContentView} {lbSubTitle : String}
    {entries : List LogEntry} (he : s.Timely e) (hoccurs : e.occurs = true)
    (h : s.step ui e = .ok (s.switched position content lbSubTitle entries)) :
    CanReach (step ui) (Stays ui) s fun t => t.Settled ∧ t.currentPositionQuestion = position ∧
      KeepsSolved ui s t := by
  refine .event (stays_of_step he hoccurs h rfl) h ((settle _).mono ?_)
  rintro t ⟨ht, hsettled⟩
  exact ⟨hsettled, ht.position, (keepsSolved_switched _ _ _ _).trans ht.keepsSolved⟩

theorem forward (hwell : chapter.WellFormed) (hs : s.Underway ui chapter)
    (hnext : s.currentPositionQuestion + 1 < chapter.questions.length) :
    CanReach (step ui) (Stays ui) s fun t => t.Settled ∧
      t.currentPositionQuestion = s.currentPositionQuestion + 1 ∧ KeepsSolved ui s t := by
  have htap : s.Timely (.rightButtonTap fun _ => 0) := ⟨trivial, trivial⟩
  obtain ⟨u, hu⟩ := step_total hwell hs.inv htap rfl
  have hopen : s.rightButtonTitle ≠ kClose := by
    rw [Ne, hs.inv.range.title, hs.inv.current]
    omega
  have htitle : s.rightButtonTitle = kNext ∨ s.rightButtonTitle = kSkip :=
    hs.titled.imp_right fun h => h.resolve_right hopen
  obtain ⟨q, content, lbSubTitle, entries, -, -, rfl⟩ :=
    rightButtonTap_moves hs.inv.range.lower htitle hu
  exact settle_switched htap rfl hu

/-- The back button shows the previous question, unless it leaves the screen. -/
theorem leftButtonTap_moves (hne : s.currentPositionQuestion ≠ 0)
    (h : s.leftButtonTap ui draws = .ok s') :
    ∃ content lbSubTitle entries,
      s' = s.switched (s.currentPositionQuestion - 1) content lbSubTitle entries := by
  obtain ⟨t, ht, h⟩ := bind_eq_ok.mp h
  obtain ⟨tap, q₀, rfl, -, hq₀, -⟩ := record_ok ht
  have hmoved : ¬ { s with log := s.log ++ [tap] }.currentPositionQuestion = 0 := hne
  rw [if_neg hmoved] at h
  obtain ⟨u, hu, h⟩ := bind_eq_ok.mp h
  obtain ⟨lbSubTitle, rfl⟩ := setSubTitle_ok hu
  obtain ⟨q, -, h⟩ := bind_eq_ok.mp h
  obtain ⟨w, hw, h⟩ := bind_eq_ok.mp h
  obtain ⟨content, -, rfl⟩ := switchTo_ok hw
  obtain ⟨display, rfl, -⟩ := recordDisplay_ok h
  have hnotLast : ¬ s.currentPositionQuestion - 1 ≥
      (s.currentChapter.questions.length : Int) - 1 := by
    have hupper := (question_inRange hq₀).2
    omega
  refine ⟨content, lbSubTitle, [tap, display], ?_⟩
  simp [switched, addContentView, hnotLast]

theorem back (hwell : chapter.WellFormed) (hs : s.Underway ui chapter)
    (hne : s.currentPositionQuestion ≠ 0) :
    CanReach (step ui) (Stays ui) s fun t => t.Settled ∧
      t.currentPositionQuestion = s.currentPositionQuestion - 1 ∧ KeepsSolved ui s t := by
  have htap : s.Timely (.leftButtonTap fun _ => 0) := ⟨trivial, trivial⟩
  obtain ⟨u, hu⟩ := step_total hwell hs.inv htap rfl
  obtain ⟨content, lbSubTitle, entries, rfl⟩ := leftButtonTap_moves hne hu
  exact settle_switched htap rfl hu

/-- The first question can be shown again. -/
theorem rewind (hwell : chapter.WellFormed) (hs : s.Underway ui chapter) :
    CanReach (step ui) (Stays ui) s fun t =>
      (t.Underway ui chapter ∧ t.Settled) ∧ t.currentPositionQuestion = 0 := by
  refine (hs.canReach hwell (settle s)).bind fun t ht => ?_
  refine canReach_of_measure
    (fun u : AIMQuestionAnswerScreenViewController => u.Underway ui chapter ∧ u.Settled)
    (fun u => u.currentPositionQuestion = 0) (fun u => u.currentPositionQuestion.toNat) ?_
    ⟨ht.1, ht.2.2⟩
  rintro u ⟨hu, -⟩ hne
  refine (hu.canReach hwell (back hwell hu hne)).mono ?_
  rintro v ⟨hv, hsettled, hposition, -⟩
  refine ⟨⟨hv, hsettled⟩, ?_⟩
  rw [hposition]
  have hlower := hu.inv.range.lower
  omega

/-! ## The chapter -/

/-- The questions up to the current position are solved. -/
structure SolvedSoFar (ui : Platform) (chapter : AIMChapter)
    (s : AIMQuestionAnswerScreenViewController) : Prop where
  underway : s.Underway ui chapter
  settled : s.Settled
  solved : ∀ (j : Nat) q, (j : Int) ≤ s.currentPositionQuestion → chapter.questions[j]? = some q →
    s.SolvedIn ui q

/-- The question of the current position is solved, when those before it are. -/
theorem solveNext (hwell : chapter.WellFormed) (hs : s.Underway ui chapter) (hsettled : s.Settled)
    (hbefore : ∀ (j : Nat) q, (j : Int) < s.currentPositionQuestion →
      chapter.questions[j]? = some q → s.SolvedIn ui q) :
    CanReach (step ui) (Stays ui) s fun t => t.SolvedSoFar ui chapter ∧
      t.currentPositionQuestion = s.currentPositionQuestion := by
  obtain ⟨q, hq⟩ := exists_question hs.inv.range.lower hs.inv.range.upper
  refine (hs.canReach hwell (solveCurrent hwell hs hsettled hq)).mono ?_
  rintro t ⟨ht, htsettled, hposition, hsolved, hkept⟩
  refine ⟨⟨ht, htsettled, fun j p hj hp => ?_⟩, hposition⟩
  rw [hposition] at hj
  rcases lt_or_eq_of_le hj with hj | hj
  · exact hkept p (hbefore j p hj hp)
  · have hfound := (question_eq_ok.mp hq).2
    rw [hs.inv.current, ← hj, Int.toNat_natCast] at hfound
    obtain rfl := Option.some.inj (hfound.symm.trans hp)
    exact hsolved

/-- All questions from the first one on can be solved. -/
theorem solveAll (hwell : chapter.WellFormed) (hs : s.Underway ui chapter) :
    CanReach (step ui) (Stays ui) s fun t => t.SolvedSoFar ui chapter ∧
      t.currentPositionQuestion = (chapter.questions.length : Int) - 1 := by
  refine (rewind hwell hs).bind fun t ht => ?_
  obtain ⟨⟨ht, hsettled⟩, hzero⟩ := ht
  have hnone (j : Nat) (q : AIMQuestion) (hj : (j : Int) < t.currentPositionQuestion) :
      chapter.questions[j]? = some q → t.SolvedIn ui q := by omega
  refine (solveNext hwell ht hsettled hnone).bind fun u hu => ?_
  refine canReach_of_measure (SolvedSoFar ui chapter)
    (fun t => t.currentPositionQuestion = (chapter.questions.length : Int) - 1)
    (fun t => chapter.questions.length - t.currentPositionQuestion.toNat) ?_ hu.1
  intro v hv hnotLast
  have hrange := hv.underway.inv.range
  have hupper : v.currentPositionQuestion < chapter.questions.length :=
    hv.underway.inv.current ▸ hrange.upper
  have hlower := hrange.lower
  have hnext : v.currentPositionQuestion + 1 < chapter.questions.length := by omega
  refine (hv.underway.canReach hwell (forward hwell hv.underway hnext)).bind fun w hw => ?_
  obtain ⟨hw, hwsettled, hposition, hkept⟩ := hw
  refine (solveNext hwell hw hwsettled fun j q hj hq => ?_).mono fun x hx => ⟨hx.1, ?_⟩
  · rw [hposition] at hj
    exact hkept q (hv.solved j q (Int.lt_add_one_iff.mp hj) hq)
  · rw [hx.2, hposition]
    omega

/-- The close button at the last question leaves the screen. -/
theorem close (hwell : chapter.WellFormed) (hs : s.Underway ui chapter)
    (hlast : s.currentPositionQuestion = (chapter.questions.length : Int) - 1) :
    ∃ t, s.step ui (.rightButtonTap fun _ => 0) = .ok t ∧ SameViews s t ∧
      t.pops = s.pops ++ [.popToQuestionChoice] := by
  have htap : s.Timely (.rightButtonTap fun _ => 0) := ⟨trivial, trivial⟩
  obtain ⟨t, ht⟩ := step_total hwell hs.inv htap rfl
  refine ⟨t, ht, ?_⟩
  have htitle : s.rightButtonTitle = kClose := by
    rw [hs.inv.range.title, hs.inv.current]
    exact hlast
  have hother : ¬ (s.rightButtonTitle = kNext ∨ s.rightButtonTitle = kSkip) := by
    rw [htitle]
    simp [Ne.symm kNext_ne_kClose, Ne.symm kSkip_ne_kClose]
  obtain ⟨entry, rfl⟩ := closeTap_ok hother ht
  exact ⟨⟨rfl, rfl, rfl⟩, rfl⟩

/-- All questions of the chapter are solved, each in a view that shows it. -/
def AllSolved (ui : Platform) (chapter : AIMChapter)
    (s : AIMQuestionAnswerScreenViewController) : Prop :=
  ∀ q ∈ chapter.questions, s.SolvedIn ui q

/-- All questions can be solved, and then the close button leaves the screen. -/
theorem solveAndClose (hwell : chapter.WellFormed) (hs : s.Underway ui chapter) :
    CanReach (step ui) (Stays ui) s fun t => t.Underway ui chapter ∧
      ∃ u, t.step ui (.rightButtonTap fun _ => 0) = .ok u ∧ u.AllSolved ui chapter ∧
        u.pops = t.pops ++ [.popToQuestionChoice] := by
  refine (solveAll hwell hs).mono fun t ht => ⟨ht.1.underway, ?_⟩
  obtain ⟨ht, hlast⟩ := ht
  obtain ⟨u, hu, hsame, hpops⟩ := close hwell ht.underway hlast
  refine ⟨u, hu, fun q hq => ?_, hpops⟩
  obtain ⟨j, hj⟩ := mem_iff_getElem?.mp hq
  have hlt := (List.getElem?_eq_some_iff.mp hj).1
  have hle : (j : Int) ≤ t.currentPositionQuestion := by omega
  exact hsame.keepsSolved q (ht.solved j q hle hj)

/-- From every state of a timely run, whatever has been tapped, dropped and left open so far, a
timely run without a trap goes through the whole chapter: each of its questions is solved in a view
that shows it, and the screen is left through the close button, to the choice of a chapter. -/
theorem chapter_can_be_finished (hwell : chapter.WellFormed)
    {s₀ : AIMQuestionAnswerScreenViewController}
    (h₀ : (loaded chapter chapterType kSkip).viewDidLoad ui draws = .ok s₀)
    (h : Reaches (step ui) Timely s₀ s) :
    CanReach (step ui) Timely s fun t => (∀ q ∈ chapter.questions, t.SolvedIn ui q) ∧
      t.pops.getLast? = some .popToQuestionChoice := by
  have hs := h.inv (Underway ui chapter) (underway_start hwell h₀)
    fun _ _ _ ht he hstep => underway_step hwell ht he hstep
  obtain ⟨t, hreach, ht, u, hu, hsolved, hpops⟩ := solveAndClose hwell hs
  have hclose : t.Timely (.rightButtonTap fun _ => 0) := ⟨trivial, trivial⟩
  refine ⟨u, (hreach.mono fun _ _ he => he.1).tail hclose hu, hsolved, ?_⟩
  rw [hpops, getLast?_concat]

theorem sampleQuestion_playable (index : String) :
    AIMQuestion.Playable { QuestionRun.sampleQuestion with index := index } := by
  have hentry : AIMQuestionContentView.patternEntry
      ⟨"3", ["だれが", "です", "だれ・なに", "どこ", "いつ"].map AIMPiece.mk⟩ =
      .ok ⟨5, [1, 1, 1, 1, 1]⟩ := by decide +kernel
  have hfive (k : Nat) (a : AIMPiece) (ha : QuestionRun.sampleQuestion.answers[k]? = some a) :
      k < 5 := (List.getElem?_eq_some_iff.mp ha).1
  exact ⟨_, _, ⟨rfl, hentry, le_refl 5, le_refl 5, fun k a ha _ => hfive k a ha⟩,
    fun k a ha _ => hfive k a ha⟩

theorem sampleChapter_wellFormed (n : Nat) (hn : 2 ≤ n) : (sampleChapter n).WellFormed := by
  have hindex : (swiftInt "1").isSome = true := by decide
  refine ⟨hindex, ?_, fun q hq => ?_⟩
  · simpa [sampleChapter] using hn
  · obtain ⟨i, -, rfl⟩ := mem_map.mp hq
    exact sampleQuestion_playable _

/-- A wrong drop is on its way back in the first view, and two transitions overlap. -/
theorem chapter_can_be_finished_overlapping :
    ∃ s₀ s t, (loaded (sampleChapter 3) .BasicQuestion kSkip).viewDidLoad .ascii (fun _ => 0) =
        .ok s₀ ∧ Reaches (step .ascii) Timely s₀ s ∧ s.transitions = [1, 2] ∧
      (s.contentViews 0).drops = [.returned 0] ∧ Reaches (step .ascii) Timely s t ∧
      (∀ q ∈ (sampleChapter 3).questions, t.SolvedIn .ascii q) ∧
      t.pops.getLast? = some .popToQuestionChoice := by
  have hrun : (playChapter 3 Timely
      ((QuestionRun.drag 0 (QuestionRun.inList 0) QuestionRun.offSlots).map (.inView 0) ++
        [.rightButtonTap fun _ => 0, .leftButtonTap fun _ => 0])).any (fun s =>
      decide (s.transitions = [1, 2]) &&
        decide ((s.contentViews 0).drops = [.returned 0])) = true := by decide +kernel
  obtain ⟨s₀, s, h₀, hreach, hend⟩ := exists_run_of_playChapter hrun
  simp only [Bool.and_eq_true, decide_eq_true_eq] at hend
  obtain ⟨t, hrest, hsolved, hpop⟩ :=
    chapter_can_be_finished (sampleChapter_wellFormed 3 (by decide)) h₀ hreach
  exact ⟨s₀, s, t, h₀, hreach, hend.1, hend.2, hrest, hsolved, hpop⟩

end AIMQuestionAnswerScreenViewController

end Imijun
