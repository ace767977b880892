import Imijun.LogContents
import Imijun.RecordTexts

/-!
# The application and its log

Every screen reports to the one `AIMLogManager`, and the application delegate has it write the log
when the application leaves the foreground. The application can be killed at any time: the buffer
and the main queue are gone then, the defaults and the files stay.

* `LoggedApplication`: the application with its log, stepping on `LoggedEvent`s.
* `outbox_of_log`: within a session the log is an outbox.
* `sessions_saved`: in every run the log file holds a prefix of the records of each session.
-/

namespace Imijun

open Transition Fallible Delimited List

structure LoggedApplication where
  app : Application
  /-- the log of this session -/
  log : LogRun
  /-- the calls of the sessions that have ended -/
  ended : List (List LogCall)

inductive LoggedEvent
  /-- an event of the application, with the times that its records are made at -/
  | app (event : AppEvent) (times : Nat → DateComponents × DateComponents)
  | applicationWillResignActive
  | applicationWillTerminate
  /-- the next block of `writeLogToFile` -/
  | runBlock (writeSucceeds : Bool)

inductive LoggedTrap
  | app (trap : AppTrap)
  | log (trap : Trap)
  deriving DecidableEq, Repr

def AppEvent.isLaunch : AppEvent → Bool
  | .launch => true
  | _ => false

/-- A new session: the buffer is empty, and no block is queued. -/
def LogRun.relaunch (s : LogRun) : LogRun where
  manager := { s.manager with content := "" }
  queued := 0
  calls := []

/-- The calls of `record` with these arguments, one after the other. -/
def LogRun.recordAll (s : LogRun) (times : Nat → DateComponents × DateComponents) :
    List LogRecord → LogRun
  | [] => s
  | r :: records =>
    let call := ⟨r, (times 0).2⟩
    recordAll { s with
      manager := s.manager.record (times 0).1 call
      calls := s.calls ++ [call] } (fun k => times (k + 1)) records

namespace LoggedApplication

/-- The first start after the installation. -/
def start (bundle : List DescribedChapter) : LoggedApplication where
  app := .start bundle
  log := .start none
  ended := []

/-- Whether the application is started again. -/
def relaunch (s : LoggedApplication) (event : AppEvent) : LoggedApplication :=
  if event.isLaunch then { s with log := s.log.relaunch, ended := s.ended ++ [s.log.calls] } else s

def step (ui : Platform) (s : LoggedApplication) : LoggedEvent → Except LoggedTrap LoggedApplication
  | .app event times =>
    match s.app.step ui event with
    | .ok app =>
      let s' := s.relaunch event
      .ok { s' with
        app := app
        log := s'.log.recordAll times (app.records.drop s.app.records.length) }
    | .error trap => .error (.app trap)
  | .applicationWillResignActive | .applicationWillTerminate =>
    .ok { s with log := s.log.writeLogToFile }
  | .runBlock writeSucceeds =>
    match s.log.step (.runBlock writeSucceeds) with
    | .ok log => .ok { s with log := log }
    | .error trap => .error (.log trap)

def Enabled (s : LoggedApplication) : LoggedEvent → Prop
  | .app event _ => s.app.Enabled event
  | .applicationWillResignActive | .applicationWillTerminate => True
  | .runBlock _ => 0 < s.log.queued

instance (s : LoggedApplication) (e : LoggedEvent) : Decidable (s.Enabled e) := by
  cases e <;> unfold Enabled <;> infer_instance

end LoggedApplication

/-! ## One session -/

namespace LogRun

variable {s s' : LogRun} {times : Nat → DateComponents × DateComponents}
  {records : List LogRecord}

/-- The calls are events of the log. -/
theorem recordAll_reaches (hrecords : ∀ r ∈ records, r.Without '\t' ∧ r.Without '\n') :
    Reaches step Enabled s (s.recordAll times records) := by
  induction records generalizing s times with
  | nil => exact .refl
  | cons r records ih =>
    obtain ⟨hr, hrest⟩ := forall_mem_cons.mp hrecords
    have hcall : Reaches step Enabled s { s with
        manager := s.manager.record (times 0).1 ⟨r, (times 0).2⟩
        calls := s.calls ++ [⟨r, (times 0).2⟩] } :=
      .tail (e := .record (times 0).1 ⟨r, (times 0).2⟩) .refl ⟨trivial, hr⟩ rfl
    exact hcall.trans (ih hrest)

theorem recordAll_calls (s : LogRun) (times : Nat → DateComponents × DateComponents)
    (records : List LogRecord) :
    (s.recordAll times records).calls.map (·.record) = s.calls.map (·.record) ++ records := by
  induction records generalizing s times with
  | nil => exact (append_nil _).symm
  | cons r records ih =>
    refine (ih _ _).trans ?_
    rw [map_append, append_assoc]
    rfl

theorem nameInv_relaunch (hs : s.NameInv) : s.relaunch.NameInv where
  onlyLogFile := hs.onlyLogFile
  begun h := by simp [relaunch] at h
  named h := absurd rfl h

/-- The log file stays as it is. -/
theorem outbox_relaunch (s : LogRun) :
    s.relaunch.outbox = { stored := s.manager.stored, pending := [], accepted := [] } := by
  rw [outbox, relaunch, AIMLogManager.pending, entries_empty]
  rfl

/-- Within a session the log is an outbox. -/
theorem outbox_of_log {archive : List String} (hs : s.NameInv)
    (harchive : Outbox.Since archive s.outbox) (h : Reaches step Enabled s s') :
    s'.NameInv ∧ Outbox.Since archive s'.outbox := by
  obtain ⟨hname, houtbox⟩ := outbox_of_reaches hs h
  exact ⟨hname, Outbox.since_of_reaches harchive houtbox⟩

end LogRun

/-! ## Sessions -/

namespace LoggedApplication

variable {ui : Platform} {bundle : List DescribedChapter} {s s' : LoggedApplication}
  {e : LoggedEvent}

/-- The log file began this session with a prefix of each of the others. -/
def Saved (s : LoggedApplication) : Prop :=
  ∃ kept, Forall₂ (· <+: ·) kept (s.ended.map (·.map LogCall.line)) ∧
    Outbox.Since kept.flatten s.log.outbox

structure LogInv (ui : Platform) (bundle : List DescribedChapter) (s : LoggedApplication) :
    Prop where
  app : Reaches (Application.step ui) Application.Enabled (.start bundle) s.app
  name : s.log.NameInv
  saved : s.Saved
  /-- the calls of `record`, over all sessions -/
  records : (s.ended.flatten ++ s.log.calls).map (·.record) = s.app.records

theorem logInv_start (ui : Platform) (bundle : List DescribedChapter) :
    (start bundle).LogInv ui bundle where
  app := .refl
  name := LogRun.nameInv_start none
  saved := by
    refine ⟨[], .nil, ?_⟩
    rw [start, LogRun.outbox_start]
    exact ⟨prefix_refl _, rfl⟩
  records := rfl

/-- A session that is killed leaves a prefix of it in the file. -/
theorem Saved.relaunch (hs : s.Saved) :
    Saved { s with log := s.log.relaunch, ended := s.ended ++ [s.log.calls] } := by
  have hsessions : Outbox.Sessions (s.ended.map (·.map LogCall.line)) s.log.outbox := hs
  show Outbox.Sessions ((s.ended ++ [s.log.calls]).map (·.map LogCall.line)) s.log.relaunch.outbox
  rw [map_append, LogRun.outbox_relaunch]
  exact hsessions.restart

theorem LogInv.relaunch (hs : s.LogInv ui bundle) (event : AppEvent) :
    (s.relaunch event).LogInv ui bundle := by
  unfold LoggedApplication.relaunch
  split
  · refine ⟨hs.app, LogRun.nameInv_relaunch hs.name, hs.saved.relaunch, ?_⟩
    rw [← hs.records, flatten_append, flatten_singleton]
    exact congrArg _ (append_nil _)
  · exact hs

theorem relaunch_app (s : LoggedApplication) (event : AppEvent) :
    (s.relaunch event).app = s.app := by
  unfold LoggedApplication.relaunch
  split <;> rfl

/-- A step of the log alone. -/
theorem LogInv.log (hs : s.LogInv ui bundle) {log : LogRun}
    (hrun : Reaches LogRun.step LogRun.Enabled s.log log) (hcalls : log.calls = s.log.calls) :
    LogInv ui bundle { s with log := log } := by
  obtain ⟨kept, hkept, hsince⟩ := hs.saved
  obtain ⟨hname, hsince⟩ := LogRun.outbox_of_log hs.name hsince hrun
  exact ⟨hs.app, hname, ⟨kept, hkept, hsince⟩, by rw [hcalls]; exact hs.records⟩

/-- The records of a step of the application reach the log. -/
theorem LogInv.recorded (hs : s.LogInv ui bundle) (hbundle : RecordableBundle ui bundle)
    {app : Application} {event : AppEvent} (he : s.app.Enabled event)
    (h : s.app.step ui event = .ok app) (times : Nat → DateComponents × DateComponents) :
    LogInv ui bundle { s with
      app := app
      log := s.log.recordAll times (app.records.drop s.app.records.length) } := by
  have hrun := hs.app.tail he h
  have hrecords : ∀ r ∈ app.records.drop s.app.records.length,
      r.Without '\t' ∧ r.Without '\n' := by
    intro r hr
    have hrecord := (Application.appInv_of_run hrun).records r (mem_of_mem_drop hr)
    exact ⟨appRecord_without (.inl rfl) hbundle hrecord,
      appRecord_without (.inr rfl) hbundle hrecord⟩
  obtain ⟨kept, hkept, hsince⟩ := hs.saved
  obtain ⟨hname, hsince⟩ :=
    LogRun.outbox_of_log hs.name hsince (LogRun.recordAll_reaches hrecords)
  refine ⟨hrun, hname, ⟨kept, hkept, hsince⟩, ?_⟩
  obtain ⟨new, hnew, -⟩ := Application.step_made (Application.appInv_of_run hs.app) he h
  rw [map_append, LogRun.recordAll_calls, ← append_assoc, ← map_append, hs.records, hnew, drop_left]

theorem logInv_step (hbundle : RecordableBundle ui bundle) (hs : s.LogInv ui bundle)
    (he : s.Enabled e) (h : s.step ui e = .ok s') : s'.LogInv ui bundle := by
  have hwrite : LogInv ui bundle { s with log := s.log.writeLogToFile } := by
    refine hs.log (.tail (e := .writeLogToFile) .refl ⟨trivial, trivial, trivial⟩ rfl) ?_
    unfold LogRun.writeLogToFile
    split <;> rfl
  cases e with
  | app event times =>
    simp only [step] at h
    split at h
    · next app happ =>
      obtain rfl := Except.ok.inj h
      have hrelaunched := hs.relaunch event
      rw [← relaunch_app s event] at happ ⊢
      exact hrelaunched.recorded hbundle (relaunch_app s event ▸ he) happ times
    · cases h
  | applicationWillResignActive => exact Except.ok.inj h ▸ hwrite
  | applicationWillTerminate => exact Except.ok.inj h ▸ hwrite
  | runBlock writeSucceeds =>
    simp only [step] at h
    split at h
    · next log hlog =>
      obtain rfl := Except.ok.inj h
      have hallowed : s.log.Enabled (.runBlock writeSucceeds) := ⟨he, trivial, trivial⟩
      refine hs.log (.tail .refl hallowed hlog) ?_
      cases LogRun.step_outcome hlog with
      | ran _ => rfl
    · cases h

theorem logInv_of_run (hbundle : RecordableBundle ui bundle)
    (h : Reaches (step ui) Enabled (start bundle) s) : s.LogInv ui bundle :=
  h.inv (LogInv ui bundle) (logInv_start ui bundle) fun _ _ _ hs he hstep =>
    logInv_step hbundle hs he hstep

/-- The application may be killed at any time and any writes may fail. In every run the calls of
`record`, over all its sessions, are the records of the screens in order, and the log file holds a
prefix of the lines of each session, one session after the other; the buffer holds the rest of this
session. Each line splits into the columns of its call, a write that succeeds leaves nothing in the
buffer, and the log never traps. -/
theorem sessions_saved (hbundle : RecordableBundle ui bundle)
    (h : Reaches (step ui) Enabled (start bundle) s) :
    (s.ended.flatten ++ s.log.calls).map (·.record) = s.app.records ∧
      (∃ kept now, Forall₂ (· <+: ·) kept (s.ended.map (·.map LogCall.line)) ∧
        s.log.manager.stored = kept.flatten ++ now ∧
        now ++ s.log.manager.pending = s.log.calls.map LogCall.line) ∧
      (∀ call ∈ s.ended.flatten ++ s.log.calls, split '\t' call.line = call.columns) ∧
      (∀ s', s.step ui (.runBlock true) = .ok s' → s'.log.manager.pending = []) ∧
      ∀ e, s.Enabled e → ∀ trap, s.step ui e ≠ .error (.log trap) := by
  have hs := logInv_of_run hbundle h
  refine ⟨hs.records, ?_, fun call hcall => ?_, fun s' hstep => ?_, fun e he trap hstep => ?_⟩
  · obtain ⟨kept, hkept, hsince⟩ := hs.saved
    obtain ⟨now, hstored, hnow⟩ := hsince.kept
    exact ⟨kept, now, hkept, hstored, hnow⟩
  · have hrecord : call.record ∈ s.app.records := hs.records ▸ mem_map_of_mem hcall
    exact LogCall.split_line (appRecord_without (.inl rfl) hbundle
      ((Application.appInv_of_run hs.app).records _ hrecord))
  · simp only [step] at hstep
    split at hstep
    · next log hlog =>
      obtain rfl := Except.ok.inj hstep
      cases LogRun.step_outcome hlog with
      | ran hm => exact (AIMLogManager.writeBlock_moves hm).2
    · cases hstep
  · cases e with
    | app event times =>
      simp only [step] at hstep
      split at hstep <;> cases hstep
    | applicationWillResignActive => cases hstep
    | applicationWillTerminate => cases hstep
    | runBlock writeSucceeds =>
      obtain ⟨log, hlog⟩ := LogRun.step_total (e := .runBlock writeSucceeds) hs.name he
      simp only [step, hlog] at hstep
      cases hstep

/-- The chapters of the sample hold no separator. -/
theorem recordableBundle_sample : RecordableBundle .ascii Application.sampleBundle := by
  intro ch hch chapter hchapter
  obtain ⟨i, -, rfl⟩ := mem_map.mp hchapter
  have hquestion {P : AIMQuestion → Prop}
      (hP : ∀ j : Nat, P { QuestionRun.sampleQuestion with index := toString (j + 1) }) :
      ∀ q ∈ (AIMQuestionAnswerScreenViewController.sampleChapter 3).questions, P q := by
    intro q hq
    obtain ⟨j, -, rfl⟩ := mem_map.mp hq
    exact hP j
  have htitle : Free ch (titleString "1") := free_of_decide hch (by decide) (by decide)
  have hcontent : Free ch QuestionRun.sampleQuestion.content :=
    free_of_decide hch (by decide) (by decide)
  have hanswers : ∀ a ∈ QuestionRun.sampleQuestion.answers,
      ∀ text ∈ (Platform.ascii.lowercaseFirstCharater a.content).toOption, Free ch text := by
    rcases hch with rfl | rfl
    · decide +kernel
    · decide +kernel
  exact ⟨htitle, hquestion fun j => free_nat hch (j + 1), hquestion fun _ => hcontent,
    hquestion fun _ => hanswers⟩

/-- The record of the title is saved; the application is killed with two more in the buffer, and it
is left right after its second start. -/
theorem sessions_saved_killed : ∃ s,
    Reaches (step .ascii) Enabled (start Application.sampleBundle) s ∧
    s.ended.map (·.length) = [3] ∧ s.log.calls.length = 1 ∧ s.app.records.length = 4 ∧
    s.log.manager.content = "" ∧
    ∃ kept now, Forall₂ (· <+: ·) kept (s.ended.map (·.map LogCall.line)) ∧
      s.log.manager.stored = kept.flatten ++ now ∧
      now ++ s.log.manager.pending = s.log.calls.map LogCall.line := by
  have hrun : (play (step .ascii) Enabled (start Application.sampleBundle)
      [.app .appearance fun _ => (LogRun.sampleDate 1, LogRun.sampleDate 1),
        .applicationWillResignActive, .runBlock true,
        .app .appearance fun _ => (LogRun.sampleDate 2, LogRun.sampleDate 2),
        .app (.btnStartLearning true) fun _ => (LogRun.sampleDate 3, LogRun.sampleDate 3),
        .app .appearance fun _ => (LogRun.sampleDate 4, LogRun.sampleDate 4),
        .app .appearance fun _ => (LogRun.sampleDate 5, LogRun.sampleDate 5),
        .app .launch fun _ => (LogRun.sampleDate 6, LogRun.sampleDate 6),
        .app .appearance fun _ => (LogRun.sampleDate 7, LogRun.sampleDate 7),
        .applicationWillTerminate, .runBlock true]).any (fun s =>
      decide (s.ended.map (·.length) = [3]) && decide (s.log.calls.length = 1) &&
        decide (s.app.records.length = 4) && decide (s.log.manager.content = "")) = true := by
    decide +kernel
  obtain ⟨s, hreach, hend⟩ := exists_reaches_of_play hrun
  simp only [Bool.and_eq_true, decide_eq_true_eq] at hend
  obtain ⟨⟨⟨hended, hcalls⟩, hrecords⟩, hwritten⟩ := hend
  exact ⟨s, hreach, hended, hcalls, hrecords, hwritten,
    (sessions_saved recordableBundle_sample hreach).2.1⟩

end LoggedApplication

end Imijun
