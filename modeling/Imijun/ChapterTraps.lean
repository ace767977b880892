import Imijun.AppTraps
import Imijun.Opening

/-!
# Which chapters can be worked with

* `Timely`: the events of a content view come in time; the taps on the buttons and the completions
  of the transitions come in any order.
* `AIMChapter.WellFormed`: a number, at least two questions, and every question playable.
* `step_ok_iff`: only the nib of the Japanese hint button traps in a timely run then.
* `chapter_traps_at_hint_only_iff`: and otherwise some other event does.
-/

namespace Imijun

open Transition Fallible List

/-- What the screen takes for granted of a chapter. -/
structure AIMChapter.WellFormed (chapter : AIMChapter) : Prop where
  index : (swiftInt chapter.index).isSome = true
  two : 2 ≤ chapter.questions.length
  playable : ∀ q ∈ chapter.questions, q.Playable

/-- The finger is dragged off the Japanese hint button of a content view. -/
def ScreenEvent.leavesHint : ScreenEvent → Bool
  | .inView _ event => event.leavesHint
  | _ => false

namespace AIMQuestionAnswerScreenViewController

variable {ui : Platform} {s s' : AIMQuestionAnswerScreenViewController} {e : ScreenEvent}
  {chapter : AIMChapter} {chapterType : Log.ChapterType} {draws : Nat → Nat}

/-- An event that can occur; one of a content view is well timed. -/
def Timely (s : AIMQuestionAnswerScreenViewController) (e : ScreenEvent) : Prop :=
  s.Enabled e ∧ InViews QuestionRun.WellTimed s e

instance (s : AIMQuestionAnswerScreenViewController) (e : ScreenEvent) : Decidable (s.Timely e) :=
  inferInstanceAs (Decidable (_ ∧ _))

/-! ## The handlers run through -/

section Total

variable (hindex : s.HasIndex) (h0 : 0 ≤ s.currentPositionQuestion)
  (hn : s.currentPositionQuestion < s.currentChapter.questions.length)
include hindex

theorem chapterNumber_total : ∃ n, s.chapterNumber = .ok n := by
  obtain ⟨n, hn⟩ := Option.isSome_iff_exists.mp hindex
  exact ⟨_, bind_eq_ok.mpr ⟨n, orThrow_eq_ok.mpr hn, rfl⟩⟩

include h0 hn

theorem record_total (actionName : Log.ActionName)
    (objectName objectType boxResult result : String) (source : Option (Nat × Call)) :
    ∃ s', s.record actionName objectName objectType boxResult result source = .ok s' :=
  bind_total (chapterNumber_total hindex) fun _ _ =>
    bind_total (exists_question h0 hn) fun _ _ => ⟨_, rfl⟩

theorem recordDisplay_total : ∃ s', s.recordDisplay = .ok s' :=
  bind_total (exists_question h0 hn) fun _ _ => record_total hindex h0 hn _ _ _ _ _ _

theorem setSubTitle_total : ∃ s', s.setSubTitle s.currentPositionQuestion = .ok s' :=
  bind_total (chapterNumber_total hindex) fun _ _ =>
    bind_total (exists_question h0 hn) fun _ _ => ⟨_, rfl⟩

theorem delegate_total (view : Nat) (call : Call) : ∃ s', delegate view s call = .ok s' := by
  cases call with
  | endDragPiece piece k => exact record_total hindex h0 hn _ _ _ _ _ _
  | pressedHintButton => exact record_total hindex h0 hn _ _ _ _ _ _
  | pressedEnglishHintButton => exact record_total hindex h0 hn _ _ _ _ _ _
  | playAudio sound => exact ⟨s, rfl⟩
  | finishAtCurrentQuestion =>
    exact bind_total (record_total hindex h0 hn _ _ _ _ _ _) fun _ _ => ⟨_, rfl⟩

theorem deliver_total (view : Nat) (calls : List Call) :
    ∃ s', calls.foldlM (delegate view) s = .ok s' := by
  induction calls generalizing s with
  | nil => exact ⟨s, rfl⟩
  | cons call calls ih =>
    refine bind_total (delegate_total hindex h0 hn view call) fun t ht => ?_
    obtain ⟨hstate, -⟩ := delegate_ok ht
    have hindex' : t.HasIndex := by
      rw [hstate]
      exact hindex
    have h0' : 0 ≤ t.currentPositionQuestion := by
      rw [hstate]
      exact h0
    have hn' : t.currentPositionQuestion < t.currentChapter.questions.length := by
      rw [hstate]
      exact hn
    exact ih hindex' h0' hn'

end Total

theorem inContent_total {α : Type} {x : Except Trap α} (h : ∃ a, x = .ok a) :
    ∃ a, inContent x = .ok a := by
  obtain ⟨a, rfl⟩ := h
  exact ⟨a, rfl⟩

theorem switchTo_total {q : AIMQuestion} (hq : q.Opens) (draws : Nat → Nat) (title : String) :
    ∃ s', s.switchTo ui q draws title = .ok s' :=
  bind_total (inContent_total (setData_total_iff.mpr hq)) fun _ _ => ⟨_, rfl⟩

theorem opens_of_question (hopens : ∀ q ∈ s.currentChapter.questions, q.Opens) {i : Int}
    {q : AIMQuestion} (hq : s.question i = .ok q) : q.Opens :=
  hopens q (mem_of_getElem? (question_eq_ok.mp hq).2)

theorem rightButtonTap_total (hindex : s.HasIndex) (hrange : s.InRange)
    (hopens : ∀ q ∈ s.currentChapter.questions, q.Opens) (draws : Nat → Nat) :
    ∃ s', s.rightButtonTap ui draws = .ok s' := by
  have hlower := hrange.lower
  have hupper := hrange.upper
  unfold rightButtonTap
  by_cases htitle : s.rightButtonTitle = kNext ∨ s.rightButtonTitle = kSkip
  · rw [if_pos htitle]
    -- the title is not `kClose`, so there is a next question
    have hclose : s.rightButtonTitle ≠ kClose := by
      rcases htitle with h | h <;> simp [h]
    have hnotLast := hrange.title.not.mp hclose
    have h0 : 0 ≤ s.currentPositionQuestion + 1 := by omega
    have hpos : 0 < s.currentPositionQuestion + 1 := by omega
    have hn : s.currentPositionQuestion + 1 < s.currentChapter.questions.length := by omega
    refine bind_total (record_total hindex hlower hupper _ _ _ _ _ _) fun t ht => ?_
    obtain ⟨tap, -, rfl, -⟩ := record_ok ht
    refine bind_total ?_ fun u hu => ?_
    · refine bind_total (setSubTitle_total hindex h0 hn) fun w hw => ?_
      obtain ⟨lbSubTitle, rfl⟩ := setSubTitle_ok hw
      rw [if_pos hpos]
      refine bind_total (exists_question h0 hn) fun q hq => ?_
      exact switchTo_total (opens_of_question hopens hq) draws _
    · obtain ⟨w, hw, hu⟩ := bind_eq_ok.mp hu
      obtain ⟨lbSubTitle, rfl⟩ := setSubTitle_ok hw
      rw [if_pos hpos] at hu
      obtain ⟨q, -, hu⟩ := bind_eq_ok.mp hu
      obtain ⟨content, -, rfl⟩ := switchTo_ok hu
      exact recordDisplay_total hindex h0 hn
  · rw [if_neg htitle]
    exact bind_total (record_total hindex hlower hupper _ _ _ _ _ _) fun _ _ => ⟨_, rfl⟩

theorem leftButtonTap_total (hindex : s.HasIndex) (hrange : s.InRange)
    (hopens : ∀ q ∈ s.currentChapter.questions, q.Opens) (draws : Nat → Nat) :
    ∃ s', s.leftButtonTap ui draws = .ok s' := by
  have hlower := hrange.lower
  have hupper := hrange.upper
  refine bind_total (record_total hindex hlower hupper _ _ _ _ _ _) fun t ht => ?_
  obtain ⟨tap, -, rfl, -⟩ := record_ok ht
  split_ifs with hzero
  · exact ⟨_, rfl⟩
  · have hne : s.currentPositionQuestion ≠ 0 := hzero
    have h0 : 0 ≤ s.currentPositionQuestion - 1 := by omega
    have hn : s.currentPositionQuestion - 1 < s.currentChapter.questions.length := by omega
    refine bind_total (setSubTitle_total hindex h0 hn) fun u hu => ?_
    obtain ⟨lbSubTitle, rfl⟩ := setSubTitle_ok hu
    refine bind_total (exists_question h0 hn) fun q hq => ?_
    refine bind_total (switchTo_total (opens_of_question hopens hq) draws _) fun w hw => ?_
    obtain ⟨content, -, rfl⟩ := switchTo_ok hw
    exact recordDisplay_total hindex h0 hn

theorem viewDidLoad_total (hindex : (swiftInt chapter.index).isSome = true) {q : AIMQuestion}
    (hfirst : chapter.questions[0]? = some q) (hq : q.Opens) (title : String)
    (draws : Nat → Nat) :
    ∃ s₀, (loaded chapter chapterType title).viewDidLoad ui draws = .ok s₀ := by
  have hn : (0 : Int) < chapter.questions.length :=
    Int.natCast_pos.mpr (List.getElem?_eq_some_iff.mp hfirst).1
  refine bind_total ?_ fun t ht => ?_
  · refine bind_total (setSubTitle_total (s := { loaded chapter chapterType title with
      lbTitle := titleString chapter.title }) hindex le_rfl hn) fun _ _ => ⟨_, rfl⟩
  · obtain ⟨w, hw, ht⟩ := bind_eq_ok.mp ht
    obtain ⟨lbSubTitle, rfl⟩ := setSubTitle_ok hw
    obtain rfl := Except.ok.inj ht
    refine bind_total (exists_question le_rfl hn) fun q' hq' => ?_
    obtain rfl := Option.some.inj (hfirst.symm.trans (question_eq_ok.mp hq').2)
    refine bind_total (inContent_total (setData_total_iff.mpr hq)) fun content _ => ?_
    exact recordDisplay_total hindex le_rfl hn

/-! ## Timely runs -/

/-- What a timely run keeps: every view goes through a timely run for a question of the chapter. -/
structure ChapterInv (ui : Platform) (chapter : AIMChapter)
    (s : AIMQuestionAnswerScreenViewController) : Prop where
  current : s.currentChapter = chapter
  range : s.InRange
  works : ∀ view < s.created, ∃ q ∈ chapter.questions, (s.contentViews view).Works ui q

theorem chapterInv_start (hwell : chapter.WellFormed)
    (h : (loaded chapter chapterType kSkip).viewDidLoad ui draws = .ok s) :
    s.ChapterInv ui chapter := by
  obtain ⟨q, content, lbTitle, lbSubTitle, entry, hq, hcontent, -, rfl⟩ := viewDidLoad_ok h
  have htwo := hwell.two
  have hupper : (0 : Int) < chapter.questions.length := by omega
  have hnotLast : ¬ (0 : Int) = (chapter.questions.length : Int) - 1 := by omega
  refine ⟨rfl, ⟨le_refl _, hupper, iff_of_false kSkip_ne_kClose hnotLast⟩, fun view hview => ?_⟩
  obtain rfl : view = 0 := Nat.lt_one_iff.mp hview
  have hmem := mem_of_getElem? hq
  exact ⟨q, hmem, QuestionRun.works_start (hwell.playable q hmem) hcontent⟩

theorem currentChapter_step (hpos : 0 ≤ s.currentPositionQuestion) (he : s.Enabled e)
    (h : s.step ui e = .ok s') : s'.currentChapter = s.currentChapter := by
  cases screen_outcome hpos he h with
  | popped _ _ => rfl
  | switched _ _ _ _ => rfl
  | completed _ => rfl
  | inView _ _ delivered => rw [delivered.state]
  | finished _ => rfl

theorem chapterInv_step (hwell : chapter.WellFormed) (hs : s.ChapterInv ui chapter)
    (he : s.Timely e) (h : s.step ui e = .ok s') : s'.ChapterInv ui chapter := by
  have hrange := inRange_step hs.range he.1 h
  have hchapter := (currentChapter_step hs.range.lower he.1 h).trans hs.current
  refine ⟨hchapter, hrange, ?_⟩
  cases screen_outcome hs.range.lower he.1 h with
  | popped _ _ => exact hs.works
  | @switched _ position q draws content lbSubTitle entries _ hquestion hcontent _ =>
    intro view hview
    show ∃ q ∈ _, ((Function.update s.contentViews s.created (QuestionRun.start content))
      view).Works ui q
    rcases Nat.lt_succ_iff_lt_or_eq.mp hview with hview | rfl
    · rw [Function.update_of_ne hview.ne]
      exact hs.works view hview
    · rw [Function.update_self]
      have hmem : q ∈ chapter.questions :=
        hs.current ▸ mem_of_getElem? (question_eq_ok.mp hquestion).2
      exact ⟨q, hmem, QuestionRun.works_start (hwell.playable q hmem) hcontent⟩
  | completed _ => exact hs.works
  | @inView view event run calls _ hstep _ delivered =>
    rw [delivered.state]
    intro w hw
    show ∃ q ∈ _, ((Function.update s.contentViews view run) w).Works ui q
    by_cases hwv : w = view
    · subst hwv
      rw [Function.update_self]
      obtain ⟨q, hq, hworks⟩ := hs.works w hw
      exact ⟨q, hq, QuestionRun.works_step hworks he.2 hstep⟩
    · rw [Function.update_of_ne hwv]
      exact hs.works w hw
  | finished _ => exact hs.works

/-- No event of a timely run traps, but for a finger that leaves a hint button. -/
theorem step_total (hwell : chapter.WellFormed) (hs : s.ChapterInv ui chapter)
    (he : s.Timely e) (hstays : e.leavesHint = false) : ∃ s', s.step ui e = .ok s' := by
  have hindex : s.HasIndex := by
    unfold HasIndex
    rw [hs.current]
    exact hwell.index
  have hopens : ∀ q ∈ s.currentChapter.questions, q.Opens := fun q hq =>
    (hwell.playable q (hs.current ▸ hq)).opens
  cases e with
  | rightButtonTap draws => exact rightButtonTap_total hindex hs.range hopens draws
  | leftButtonTap draws => exact leftButtonTap_total hindex hs.range hopens draws
  | transitionCompletion =>
    cases ht : s.transitions with
    | nil => exact ⟨s, by rw [step, ht]⟩
    | cons view transitions => exact ⟨_, by rw [step, ht]⟩
  | inView view event =>
    obtain ⟨q, -, -, draws, list, -, hworking⟩ := hs.works view he.1.1
    have hstep : ∃ run, (s.contentViews view).step ui event = .ok run :=
      QuestionRun.wellTimed_total hworking he.2 hstays
    refine bind_total (inContent_total hstep) fun run _ => ?_
    exact deliver_total (s := { s with contentViews := Function.update s.contentViews view run })
      hindex hs.range.lower hs.range.upper view _
  | finishAtCurrentQuestion =>
    exact bind_total (record_total hindex hs.range.lower hs.range.upper _ _ _ _ _ _)
      fun _ _ => ⟨_, rfl⟩

/-- A finger that leaves a hint button stops the program. -/
theorem leavesHint_of_ok (h : s.step ui e = .ok s') : e.leavesHint = false := by
  cases e with
  | inView view event =>
    obtain ⟨run, hrun, -⟩ := bind_eq_ok.mp h
    exact QuestionRun.leavesHint_of_ok (inContent_eq_ok.mp hrun)
  | _ => rfl

theorem step_ok_iff (hwell : chapter.WellFormed) (hs : s.ChapterInv ui chapter)
    (he : s.Timely e) : (∃ s', s.step ui e = .ok s') ↔ e.leavesHint = false :=
  ⟨fun ⟨_, h⟩ => leavesHint_of_ok h, step_total hwell hs he⟩

/-! ## Every question is reached -/

/-- A tap that is not on the close button shows the next question. -/
theorem rightButtonTap_moves (hpos : 0 ≤ s.currentPositionQuestion)
    (htitle : s.rightButtonTitle = kNext ∨ s.rightButtonTitle = kSkip)
    (h : s.rightButtonTap ui draws = .ok s') :
    ∃ q content lbSubTitle entries, s.question (s.currentPositionQuestion + 1) = .ok q ∧
      AIMQuestionContentView.setData ui q draws = .ok content ∧
      s' = s.switched (s.currentPositionQuestion + 1) content lbSubTitle entries := by
  unfold rightButtonTap at h
  rw [if_pos htitle] at h
  obtain ⟨t, ht, h⟩ := bind_eq_ok.mp h
  obtain ⟨tap, -, rfl, -⟩ := record_ok ht
  obtain ⟨u, hu, h⟩ := bind_eq_ok.mp h
  obtain ⟨w, hw, hu⟩ := bind_eq_ok.mp hu
  obtain ⟨lbSubTitle, rfl⟩ := setSubTitle_ok hw
  have hnext : s.currentPositionQuestion + 1 > 0 := Int.lt_add_one_of_le hpos
  rw [if_pos hnext] at hu
  obtain ⟨q, hq, hu⟩ := bind_eq_ok.mp hu
  obtain ⟨content, hcontent, rfl⟩ := switchTo_ok hu
  obtain ⟨display, rfl, -⟩ := recordDisplay_ok h
  refine ⟨q, content, lbSubTitle, [tap, display], hq, hcontent, ?_⟩
  simp [switched, addContentView, atLastQuestion]

/-- The screen right after question `j` has been shown for the first time. -/
structure ShowsFresh (ui : Platform) (chapter : AIMChapter) (j : Nat)
    (s : AIMQuestionAnswerScreenViewController) : Prop where
  current : s.currentChapter = chapter
  position : s.currentPositionQuestion = j
  fresh : ∃ q ∈ chapter.questions[j]?, ∃ draws content view,
    AIMQuestionContentView.setData ui q draws = .ok content ∧ view < s.created ∧
      view ∈ s.subviews ∧ s.contentViews view = QuestionRun.start content
  title : j + 1 < chapter.questions.length ∨ j = 0 → s.rightButtonTitle = kSkip

theorem showsFresh_start (h : (loaded chapter chapterType kSkip).viewDidLoad ui draws = .ok s) :
    s.ShowsFresh ui chapter 0 := by
  obtain ⟨q, content, lbTitle, lbSubTitle, entry, hq, hcontent, -, rfl⟩ := viewDidLoad_ok h
  exact ⟨rfl, rfl, ⟨q, hq, draws, content, 0, hcontent, Nat.one_pos, mem_singleton_self 0, rfl⟩,
    fun _ => rfl⟩

theorem ShowsFresh.next {j : Nat} (hs : s.ShowsFresh ui chapter j)
    (htitle : s.rightButtonTitle = kSkip) (h : s.rightButtonTap ui draws = .ok s') :
    j + 1 < chapter.questions.length ∧ s'.ShowsFresh ui chapter (j + 1) := by
  have hpos : 0 ≤ s.currentPositionQuestion := by
    rw [hs.position]
    exact Int.natCast_nonneg j
  obtain ⟨q, content, lbSubTitle, entries, hq, hcontent, rfl⟩ :=
    rightButtonTap_moves hpos (.inr htitle) h
  have hnext : s.currentPositionQuestion + 1 = ((j + 1 : Nat) : Int) := by rw [hs.position]; rfl
  have hfound := (question_eq_ok.mp hq).2
  rw [hnext, hs.current, Int.toNat_natCast] at hfound
  have hlt := (List.getElem?_eq_some_iff.mp hfound).1
  refine ⟨hlt, hs.current, hnext, ⟨q, hfound, draws, content, s.created, hcontent,
    Nat.lt_succ_self _, mem_append_right _ (mem_singleton_self _), Function.update_self ..⟩, ?_⟩
  intro hnotLast
  have hnotLast : j + 1 + 1 < chapter.questions.length :=
    hnotLast.resolve_right (Nat.succ_ne_zero j)
  show (if s.currentPositionQuestion + 1 ≥ (s.currentChapter.questions.length : Int) - 1
    then kClose else kSkip) = kSkip
  rw [hnext, hs.current]
  exact if_neg (by omega)

/-- While nothing traps, every question is shown at some time. -/
theorem ShowsFresh.reach {s₀ : AIMQuestionAnswerScreenViewController}
    (hstart : s₀.ShowsFresh ui chapter 0)
    (htotal : ∀ s, Reaches (step ui) Timely s₀ s → ∀ e, s.Timely e → e.leavesHint = false →
      ∃ s', s.step ui e = .ok s')
    {j : Nat} (hj : j < chapter.questions.length) :
    ∃ s, Reaches (step ui) Timely s₀ s ∧ s.ShowsFresh ui chapter j := by
  induction j with
  | zero => exact ⟨s₀, .refl, hstart⟩
  | succ j ih =>
    obtain ⟨s, hreach, hs⟩ := ih (Nat.lt_of_succ_lt hj)
    have htap : s.Timely (.rightButtonTap fun _ => 0) := ⟨trivial, trivial⟩
    obtain ⟨s', hstep⟩ := htotal s hreach _ htap rfl
    exact ⟨s', hreach.tail htap hstep, (hs.next (hs.title (.inl hj)) hstep).2⟩

/-- No touch on a piece traps. -/
def TouchesTotal (ui : Platform) (s : AIMQuestionAnswerScreenViewController) : Prop :=
  ∀ view p location offset, s.Timely (.inView view (.touchBegan p location offset)) →
    ∃ s', s.step ui (.inView view (.touchBegan p location offset)) = .ok s'

/-- Then its pieces can be touched. -/
theorem ShowsFresh.playable {j : Nat} (hs : s.ShowsFresh ui chapter j)
    (htotal : s.TouchesTotal ui) {q : AIMQuestion} (hq : chapter.questions[j]? = some q) :
    q.Playable := by
  obtain ⟨q', hq', draws, content, view, hcontent, hview, hmem, hfresh⟩ := hs.fresh
  obtain rfl := Option.some.inj (hq.symm.trans hq')
  refine QuestionRun.playable_of_touches hcontent fun p location offset htimed => ?_
  rw [← hfresh] at htimed ⊢
  obtain ⟨s', hstep⟩ :=
    htotal view p location offset ⟨⟨hview, htimed.1, hmem⟩, htimed⟩
  obtain ⟨run, hrun, -⟩ := bind_eq_ok.mp hstep
  exact ⟨run, inContent_eq_ok.mp hrun⟩

/-- A chapter that opens, whose button leads on from the first question, and whose questions can all
be touched when they are shown. -/
theorem wellFormed_of_fresh {s₀ : AIMQuestionAnswerScreenViewController}
    (h₀ : (loaded chapter chapterType kSkip).viewDidLoad ui draws = .ok s₀)
    (htap : ∃ s', s₀.rightButtonTap ui draws = .ok s')
    (hfresh : ∀ j < chapter.questions.length,
      ∃ s : AIMQuestionAnswerScreenViewController, s.ShowsFresh ui chapter j ∧ s.TouchesTotal ui) :
    chapter.WellFormed := by
  have hstart := showsFresh_start h₀
  refine ⟨?_, ?_, fun q hq => ?_⟩
  · obtain ⟨t, ht, -⟩ := bind_eq_ok.mp h₀
    obtain ⟨u, hu, -⟩ := bind_eq_ok.mp ht
    obtain ⟨n, hn, -⟩ := bind_eq_ok.mp hu
    obtain ⟨i, hi, -⟩ := bind_eq_ok.mp hn
    exact Option.isSome_iff_exists.mpr ⟨i, orThrow_eq_ok.mp hi⟩
  · obtain ⟨s', hstep⟩ := htap
    exact (hstart.next (hstart.title (.inr rfl)) hstep).1
  · obtain ⟨j, hj⟩ := mem_iff_getElem?.mp hq
    obtain ⟨s, hs, htotal⟩ := hfresh j (List.getElem?_eq_some_iff.mp hj).1
    exact hs.playable htotal hj

/-- Whatever is drawn for the first view, the chapter opens and an event of a timely run of its
screen traps only when the finger is dragged off the Japanese hint button, which always traps,
exactly when the chapter has a number, two questions at least, and every question has a pattern
with a known type, enough labels and hints, and a slot for each of its answers. -/
theorem chapter_traps_at_hint_only_iff :
    (∀ draws, ∃ s₀, (loaded chapter chapterType kSkip).viewDidLoad ui draws = .ok s₀ ∧
      ∀ s, Reaches (step ui) Timely s₀ s → ∀ e, s.Timely e →
        ((∃ s', s.step ui e = .ok s') ↔ e.leavesHint = false)) ↔
      chapter.WellFormed := by
  constructor
  · intro hall
    obtain ⟨s₀, h₀, htraps⟩ := hall fun _ => 0
    have htotal (s) (hs : Reaches (step ui) Timely s₀ s) (e) (he : s.Timely e)
        (hstays : e.leavesHint = false) : ∃ s', s.step ui e = .ok s' :=
      (htraps s hs e he).mpr hstays
    refine wellFormed_of_fresh h₀ (htotal s₀ .refl (.rightButtonTap _) ⟨trivial, trivial⟩ rfl)
      fun j hj => ?_
    obtain ⟨s, hreach, hs⟩ := (showsFresh_start h₀).reach htotal hj
    exact ⟨s, hs, fun view p location offset he => htotal s hreach _ he rfl⟩
  · intro hwell draws
    have hfirst := List.getElem?_eq_getElem (Nat.lt_of_lt_of_le Nat.two_pos hwell.two)
    have hopens := (hwell.playable _ (mem_of_getElem? hfirst)).opens
    obtain ⟨s₀, h₀⟩ : ∃ s₀, (loaded chapter chapterType kSkip).viewDidLoad ui draws = .ok s₀ :=
      viewDidLoad_total hwell.index hfirst hopens kSkip draws
    refine ⟨s₀, h₀, fun s hreach e he => ?_⟩
    have hs := hreach.inv (ChapterInv ui chapter) (chapterInv_start hwell h₀)
      fun _ _ _ hs he hstep => chapterInv_step hwell hs he hstep
    exact step_ok_iff hwell hs he

end AIMQuestionAnswerScreenViewController

end Imijun
