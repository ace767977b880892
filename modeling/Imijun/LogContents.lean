import Imijun.LogFacts
import Imijun.Lib.Outbox

/-!
# What the log contains

The log loses, duplicates and reorders nothing, whatever writes fail.

* `NameInv`: what keeps the forced cast of a queued block safe.
* `outbox_of_reaches`: the log refines an outbox whose store is the log file.
* `log_conserved`: in every run the entries of the log file and of the buffer are the lines of the
  calls, in order.
-/

namespace Imijun

open Transition Fallible Delimited

/-- A call of `record` has no field with the character. -/
def LogEvent.Without (c : Char) : LogEvent → Prop
  | .record _ call => call.record.Without c
  | _ => True

instance (c : Char) (e : LogEvent) : Decidable (e.Without c) :=
  match e with
  | .record _ call => inferInstanceAs (Decidable (call.record.Without c))
  | .writeLogToFile | .runBlock _ | .restart => instDecidableTrue

namespace LogRun

variable {s s' : LogRun} {e : LogEvent}

/-- A block that runs was queued, and the application is restarted with an empty buffer only. -/
def Possible (s : LogRun) : LogEvent → Prop
  | .runBlock _ => 0 < s.queued
  | .restart => s.manager.content = ""
  | _ => True

instance (s : LogRun) (e : LogEvent) : Decidable (s.Possible e) :=
  match e with
  | .runBlock _ => inferInstanceAs (Decidable (0 < s.queued))
  | .restart => inferInstanceAs (Decidable (s.manager.content = ""))
  | .record _ _ | .writeLogToFile => instDecidableTrue

/-- What one step does. -/
inductive Outcome (s : LogRun) : LogEvent → LogRun → Prop
  | recorded (fileNow : DateComponents) (call : LogCall) :
      Outcome s (.record fileNow call)
        { s with manager := s.manager.record fileNow call, calls := s.calls ++ [call] }
  | ignored (hcontent : s.manager.content = "") : Outcome s .writeLogToFile s
  | queued (hcontent : s.manager.content ≠ "") :
      Outcome s .writeLogToFile { s with queued := s.queued + 1 }
  | ran {ok : Bool} {m : AIMLogManager} (hm : s.manager.writeBlock ok = .ok m) :
      Outcome s (.runBlock ok) { s with manager := m, queued := s.queued - 1 }
  | restarted :
      Outcome s .restart { s with manager := { s.manager with content := "" }, queued := 0 }

theorem step_outcome (h : s.step e = .ok s') : s.Outcome e s' := by
  cases e with
  | record fileNow call => exact Except.ok.inj h ▸ .recorded fileNow call
  | writeLogToFile =>
    obtain rfl := Except.ok.inj h
    unfold writeLogToFile
    split
    · next hcontent => exact .ignored hcontent
    · next hcontent => exact .queued hcontent
  | runBlock ok =>
    obtain ⟨m, hm, h⟩ := bind_eq_ok.mp h
    exact Except.ok.inj h ▸ .ran hm
  | restart => exact Except.ok.inj h ▸ .restarted

/-! ## The file name -/

/-- The log file is the only file, and it has a name when something has been recorded: before that
nothing is in the buffer and no block is queued. -/
structure NameInv (s : LogRun) : Prop where
  onlyLogFile : s.manager.OnlyLogFile
  begun : s.manager.content ≠ "" ∨ 0 < s.queued → s.calls ≠ []
  named : s.calls ≠ [] → s.manager.logFileName.isSome = true

theorem nameInv_start (logFileName : Option String) : (start logFileName).NameInv where
  onlyLogFile _ _ h := by cases h
  begun h := by simp [start] at h
  named h := absurd rfl h

theorem nameInv_step (hs : s.NameInv) (he : s.Possible e) (h : s.step e = .ok s') :
    s'.NameInv := by
  cases step_outcome h with
  | recorded fileNow call =>
    exact {
      onlyLogFile := AIMLogManager.record_onlyLogFile hs.onlyLogFile
      begun := fun _ => List.append_ne_nil_of_right_ne_nil _ (List.cons_ne_nil _ _)
      named := fun _ => AIMLogManager.record_fileName_isSome }
  | ignored _ => exact hs
  | queued hcontent => exact { hs with begun := fun _ => hs.begun (.inl hcontent) }
  | ran hm =>
    exact {
      onlyLogFile := AIMLogManager.writeBlock_onlyLogFile hs.onlyLogFile hm
      begun := fun _ => hs.begun (.inr he)
      named := fun hcalls => (AIMLogManager.writeBlock_logFileName hm).symm ▸ hs.named hcalls }
  | restarted => exact { hs with begun := fun hb => absurd hb (by simp) }

/-- The file name changes in `record` only, and not while the buffer holds something. -/
theorem step_logFileName (hs : s.NameInv) (hcontent : s.manager.content ≠ "")
    (h : s.step e = .ok s') : s'.manager.logFileName = s.manager.logFileName := by
  cases step_outcome h with
  | recorded fileNow call =>
    exact AIMLogManager.record_fileName_of_content (hs.named (hs.begun (.inl hcontent))) hcontent
  | ignored _ => rfl
  | queued _ => rfl
  | ran hm => exact AIMLogManager.writeBlock_logFileName hm
  | restarted => rfl

/-- No step of a run traps: a block that is queued finds a file name. -/
theorem step_total (hs : s.NameInv) (he : s.Possible e) : ∃ s', s.step e = .ok s' := by
  cases e with
  | record fileNow call => exact ⟨_, rfl⟩
  | writeLogToFile => exact ⟨_, rfl⟩
  | runBlock ok =>
    obtain ⟨m, hm⟩ := AIMLogManager.writeBlock_total (hs.named (hs.begun (.inr he))) ok
    exact ⟨_, bind_eq_ok.mpr ⟨m, hm, rfl⟩⟩
  | restart => exact ⟨_, rfl⟩

/-! ## The outbox -/

/-- No field contains a tab or a newline. -/
def Enabled (s : LogRun) (e : LogEvent) : Prop :=
  s.Possible e ∧ e.Without '\t' ∧ e.Without '\n'

instance (s : LogRun) (e : LogEvent) : Decidable (s.Enabled e) :=
  inferInstanceAs (Decidable (_ ∧ _ ∧ _))

/-- The log as an outbox of lines: the file is the store. -/
def outbox (s : LogRun) : Outbox.State String where
  stored := s.manager.stored
  pending := s.manager.pending
  accepted := s.calls.map LogCall.line

/-- An event of the log is a step of the outbox, or changes nothing of it. -/
theorem outbox_step (hs : s.NameInv) (he : s.Enabled e) (h : s.step e = .ok s') :
    Reaches Outbox.step (fun _ _ => True) s.outbox s'.outbox := by
  cases step_outcome h with
  | recorded fileNow call =>
    refine .tail (e := .accept call.line) .refl trivial ?_
    have hstored : (s.manager.record fileNow call).stored = s.manager.stored := by
      rw [AIMLogManager.stored, AIMLogManager.record_logFile hs.onlyLogFile]
      rfl
    simp [Outbox.step, outbox, hstored, AIMLogManager.pending_record he.2.1 he.2.2]
  | ignored _ => exact .refl
  | queued _ => exact .refl
  | @ran ok m hm =>
    cases ok with
    | true =>
      obtain ⟨hstored, hpending⟩ := AIMLogManager.writeBlock_moves hm
      refine .tail (e := .flush) .refl trivial ?_
      simp [Outbox.step, outbox, hstored, hpending]
    | false =>
      obtain ⟨hstored, hpending⟩ := AIMLogManager.writeBlock_fails hm
      have hsame : LogRun.outbox { s with manager := m, queued := s.queued - 1 } = s.outbox := by
        simp [outbox, hstored, hpending]
      rw [hsame]
      exact .refl
  | restarted =>
    have hcontent : s.manager.content = "" := he.1
    have hmanager : { s.manager with content := "" } = s.manager := by rw [← hcontent]
    rw [hmanager]
    exact .refl

/-- What holds of the new calls and of the old ones holds of the calls after a step. -/
theorem calls_step {c : Char} (hs : ∀ call ∈ s.calls, call.record.Without c) (he : e.Without c)
    (h : s.step e = .ok s') : ∀ call ∈ s'.calls, call.record.Without c := by
  cases step_outcome h with
  | recorded fileNow call =>
    intro other hother
    rcases List.mem_append.mp hother with hother | hother
    · exact hs other hother
    · exact List.mem_singleton.mp hother ▸ he
  | ignored _ => exact hs
  | queued _ => exact hs
  | ran _ => exact hs
  | restarted => exact hs

/-! ## Runs -/

/-- The outbox follows every run of the log. -/
theorem outbox_of_reaches {t : LogRun} (hs : s.NameInv) (h : Reaches step Enabled s t) :
    t.NameInv ∧ Reaches Outbox.step (fun _ _ => True) s.outbox t.outbox := by
  refine h.inv (fun t => t.NameInv ∧ Reaches Outbox.step (fun _ _ => True) s.outbox t.outbox)
    ⟨hs, .refl⟩ fun t e u ht he hstep => ?_
  exact ⟨nameInv_step ht.1 he.1 hstep, ht.2.trans (outbox_step ht.1 he hstep)⟩

theorem outbox_start (logFileName : Option String) :
    (start logFileName).outbox = Outbox.empty := by
  cases logFileName <;> simp [start, outbox, Outbox.empty, AIMLogManager.stored,
    AIMLogManager.pending, AIMLogManager.logFile]

/-- An entry that has reached the log file stays where it is, whatever happens later. -/
theorem stored_stays {t : LogRun} {logFileName : Option String}
    (hs : Reaches step Enabled (start logFileName) s) (h : Reaches step Enabled s t) :
    s.manager.stored <+: t.manager.stored := by
  obtain ⟨hname, -⟩ := outbox_of_reaches (nameInv_start logFileName) hs
  exact Outbox.stored_mono (outbox_of_reaches hname h).2

/-- In every run, with any writes failing, the entries of the log file followed by those of the
buffer are the lines of the calls of `record` in order, each with the columns of its call; once
something is recorded the file name is set, it stays while the buffer holds something, and no step
traps. -/
theorem log_conserved {logFileName : Option String}
    (h : Reaches step Enabled (start logFileName) s) :
    s.manager.stored ++ s.manager.pending = s.calls.map LogCall.line ∧
      (∀ call ∈ s.calls, split '\t' call.line = call.columns ∧
        call.columns.length = (split '\t' Log.columnTitle).length) ∧
      (s.calls ≠ [] → s.manager.logFileName.isSome = true) ∧
      (∀ e s', s.manager.content ≠ "" → s.step e = .ok s' →
        s'.manager.logFileName = s.manager.logFileName) ∧
      ∀ e, s.Enabled e → ∃ s', s.step e = .ok s' := by
  obtain ⟨hname, houtbox⟩ := outbox_of_reaches (nameInv_start logFileName) h
  rw [outbox_start] at houtbox
  have hplain : ∀ call ∈ s.calls, call.record.Without '\t' :=
    h.inv (fun s => ∀ call ∈ s.calls, call.record.Without '\t') (fun call hcall => by cases hcall)
      fun _ _ _ hs he hstep => calls_step hs he.2.1 hstep
  refine ⟨Outbox.conserved houtbox, fun call hcall => ⟨LogCall.split_line (hplain call hcall), ?_⟩,
    hname.named, fun e s' hcontent hstep => step_logFileName hname hcontent hstep,
    fun e he => step_total hname he.1⟩
  rw [LogCall.split_columnTitle]
  rfl

def sampleDate (second : Nat) : DateComponents := ⟨2016, 8, 30, 9, 5, second⟩

def sampleCall (questionNumber : String) (second : Nat) : LogCall where
  record := ⟨Log.ScreenName.AnswerAndQuestion.rawValue, Log.ActionName.Tap.rawValue,
    Log.ObjectName.NextButton.rawValue, Log.ObjectKind.Button.rawValue, "-",
    Log.Resutl.Success.rawValue, Log.ChapterType.BasicQuestion.rawValue, "1", questionNumber⟩
  now := sampleDate second

/-- Two flushes are queued at once, the write of the first fails and leaves the header in the
buffer, and the application is restarted after the second. -/
theorem log_conserved_failed_write :
    ∃ s, Reaches step Enabled (start none) s ∧
      s.calls = [sampleCall "1" 1, sampleCall "2" 3, sampleCall "3" 5] ∧
      s.manager.stored ++ s.manager.pending =
        [(sampleCall "1" 1).line, (sampleCall "2" 3).line, (sampleCall "3" 5).line] := by
  have hrun : (play step Enabled (start none)
      [.record (sampleDate 0) (sampleCall "1" 1), .writeLogToFile, .writeLogToFile,
        .runBlock false, .record (sampleDate 2) (sampleCall "2" 3), .runBlock true, .restart,
        .record (sampleDate 4) (sampleCall "3" 5)]).any (fun s =>
      decide (s.calls = [sampleCall "1" 1, sampleCall "2" 3, sampleCall "3" 5])) = true := by
    decide +kernel
  obtain ⟨s, hreach, hcalls⟩ := exists_reaches_of_play hrun
  have hcalls := of_decide_eq_true hcalls
  exact ⟨s, hreach, hcalls, by rw [(log_conserved hreach).1, hcalls]; rfl⟩

end LogRun

end Imijun
