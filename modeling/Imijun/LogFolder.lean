import Imijun.AppLog
import Imijun.LogReader

/-!
# Log files that are taken away

The log files lie in the document directory, from which they can be taken. `record` looks for the
file each time, and goes on under a new name when it is gone and nothing is in the buffer.

* `LogFolder`: the log over all sessions, with the files that have been taken so far.
* `outbox_step`: taking a file away changes nothing of the outbox of all files.
* `folder_read_back`: the files that were taken and the log file give the calls of every session
  back.
-/

namespace Imijun

open Transition Fallible Delimited List

structure LogFolder where
  log : LogRun
  /-- the texts of the files that have been taken away, the first one first -/
  taken : List String
  /-- the calls of the sessions that have ended -/
  ended : List (List LogCall)

inductive FolderEvent
  | log (event : LogEvent)
  /-- the application is killed and started again -/
  | relaunch
  /-- a file is taken out of the document directory -/
  | take (name : String)
  deriving DecidableEq, Repr

/-- The time of a call is one of a calendar. -/
def LogEvent.Dated : LogEvent → Prop
  | .record _ call => call.now.InCalendar
  | .writeLogToFile | .runBlock _ | .restart => True

instance (e : LogEvent) : Decidable e.Dated := by
  cases e <;> unfold LogEvent.Dated <;> infer_instance

/-- The directory without a file. -/
def AIMLogManager.without (m : AIMLogManager) (name : String) : AIMLogManager :=
  { m with files := Function.update m.files name none }

namespace LogFolder

variable {s s' : LogFolder} {e : FolderEvent} {logFileName : Option String}

/-- Nothing has been recorded, and there is no file. -/
def start (logFileName : Option String) : LogFolder where
  log := .start logFileName
  taken := []
  ended := []

def step (s : LogFolder) : FolderEvent → Except Trap LogFolder
  | .log event => do
    let log ← s.log.step event
    return { s with log := log }
  | .relaunch => .ok { s with log := s.log.relaunch, ended := s.ended ++ [s.log.calls] }
  | .take name =>
    match s.log.manager.files name with
    | some text => .ok { s with
        log := { s.log with manager := s.log.manager.without name }
        taken := s.taken ++ [text] }
    | none => .ok s

def Enabled (s : LogFolder) : FolderEvent → Prop
  | .log event => s.log.Enabled event ∧ event.Dated
  | .relaunch | .take _ => True

instance (s : LogFolder) (e : FolderEvent) : Decidable (s.Enabled e) := by
  cases e <;> unfold Enabled <;> infer_instance

/-! ## The outbox of all files -/

/-- The entries of all files, those that were taken first. -/
def stored (s : LogFolder) : List String :=
  s.taken.flatMap entries ++ s.log.manager.stored

def outbox (s : LogFolder) : Outbox.State String where
  stored := s.stored
  pending := s.log.manager.pending
  accepted := s.log.calls.map LogCall.line

theorem outbox_eq (s : LogFolder) : s.outbox =
    { s.log.outbox with stored := s.taken.flatMap entries ++ s.log.outbox.stored } := rfl

end LogFolder

namespace AIMLogManager

variable {m : AIMLogManager} {name text : String}

theorem files_without (m : AIMLogManager) (name other : String) :
    (m.without name).files other = if other = name then none else m.files other :=
  Function.update_apply ..

theorem without_onlyLogFile (honly : m.OnlyLogFile) : (m.without name).OnlyLogFile := by
  intro other t h
  rw [files_without] at h
  split_ifs at h
  exact honly other t h

/-- The log file is the one that can be taken. -/
theorem stored_of_file (honly : m.OnlyLogFile) (h : m.files name = some text) :
    m.stored = Imijun.entries text := by
  rw [stored, logFile, honly name text h]
  show Imijun.entries ((m.files name).getD "") = _
  rw [h]
  rfl

/-- Then there is none. -/
theorem stored_without (honly : m.OnlyLogFile) (h : m.files name = some text) :
    (m.without name).stored = [] := by
  have hnone : (m.without name).logFile = none := by
    show m.logFileName.bind (m.without name).files = none
    rw [honly name text h]
    exact (files_without m name name).trans (if_pos rfl)
  rw [stored, hnone]
  exact entries_empty

end AIMLogManager

namespace LogFolder

variable {s s' : LogFolder} {e : FolderEvent} {logFileName : Option String}

/-- What every run keeps. -/
structure FolderInv (s : LogFolder) : Prop where
  name : s.log.NameInv
  sessions : Outbox.Sessions (s.ended.map (·.map LogCall.line)) s.outbox
  readable : ∀ call ∈ s.ended.flatten ++ s.log.calls,
    call.now.InCalendar ∧ call.record.Without '\t'

theorem folderInv_start (logFileName : Option String) : (start logFileName).FolderInv where
  name := LogRun.nameInv_start logFileName
  sessions := by
    rw [outbox_eq, start, LogRun.outbox_start]
    exact Outbox.sessions_empty
  readable _ h := by cases h

/-- A file that is taken away stays in the outbox. -/
theorem outbox_take (hs : s.log.NameInv) {name text : String}
    (h : s.log.manager.files name = some text) : outbox { s with
      log := { s.log with manager := s.log.manager.without name }
      taken := s.taken ++ [text] } = s.outbox := by
  have hstored : (s.taken ++ [text]).flatMap entries ++ (s.log.manager.without name).stored =
      s.stored := by
    rw [AIMLogManager.stored_without hs.onlyLogFile h, append_nil, flatMap_append,
      flatMap_singleton, stored, AIMLogManager.stored_of_file hs.onlyLogFile h]
  show ({ stored := _, pending := _, accepted := _ } : Outbox.State String) = s.outbox
  rw [outbox, ← hstored]
  rfl

theorem readable_step {log : LogRun} {event : LogEvent} {P : LogCall → Prop}
    (hs : ∀ call ∈ s.log.calls, P call)
    (he : ∀ fileNow call, event = .record fileNow call → P call)
    (h : s.log.step event = .ok log) : ∀ call ∈ log.calls, P call := by
  cases LogRun.step_outcome h with
  | recorded fileNow call =>
    intro other hother
    rcases mem_append.mp hother with hother | hother
    · exact hs other hother
    · exact mem_singleton.mp hother ▸ he fileNow call rfl
  | ignored _ => exact hs
  | queued _ => exact hs
  | ran _ => exact hs
  | restarted => exact hs

theorem folderInv_step (hs : s.FolderInv) (he : s.Enabled e) (h : s.step e = .ok s') :
    s'.FolderInv := by
  cases e with
  | log event =>
    obtain ⟨log, hlog, h⟩ := bind_eq_ok.mp h
    obtain rfl := Except.ok.inj h
    have hmoved := LogRun.outbox_step hs.name he.1 hlog
    refine ⟨LogRun.nameInv_step hs.name he.1.1 hlog, ?_, fun call hcall => ?_⟩
    · exact hs.sessions.of_reaches (Outbox.reaches_behind _ hmoved)
    · rcases mem_append.mp hcall with hcall | hcall
      · exact hs.readable call (mem_append_left _ hcall)
      · refine readable_step (P := fun call => call.now.InCalendar ∧ call.record.Without '\t')
          (fun call hcall => hs.readable call (mem_append_right _ hcall)) ?_ hlog call hcall
        rintro fileNow other rfl
        exact ⟨he.2, he.1.2.1⟩
  | relaunch =>
    obtain rfl := Except.ok.inj h
    refine ⟨LogRun.nameInv_relaunch hs.name, ?_, ?_⟩
    · have hrestart := hs.sessions.restart
      rw [outbox_eq, LogRun.outbox_relaunch, map_append]
      exact hrestart
    · rw [flatten_append, flatten_singleton]
      show ∀ call ∈ _ ++ [], _
      rw [append_nil]
      exact hs.readable
  | take name =>
    simp only [step] at h
    split at h
    · next text hfile =>
      obtain rfl := Except.ok.inj h
      refine ⟨⟨AIMLogManager.without_onlyLogFile hs.name.onlyLogFile, hs.name.begun,
        hs.name.named⟩, ?_, hs.readable⟩
      rw [outbox_take hs.name hfile]
      exact hs.sessions
    · exact Except.ok.inj h ▸ hs

/-! ## The header -/

/-- The first line of the text is the header. -/
def Headed (text : String) : Prop :=
  (split '\n' text).head? = some Log.columnTitle

theorem Headed.append {text : String} (h : Headed text) (b : String) :
    Headed (text ++ ("\n" ++ b)) := by
  have hsplit : split '\n' (text ++ ("\n" ++ b)) = split '\n' text ++ split '\n' b := by
    rw [← String.append_assoc]
    exact split_append text b
  rw [Headed, hsplit, head?_append, h]
  rfl

theorem headed_created (b : String) : Headed (Log.columnTitle ++ "\n" ++ b) := by
  have htitle : '\n' ∉ Log.columnTitle.toList := by simp [Log.columnTitle]
  have hsplit : split '\n' (Log.columnTitle ++ "\n" ++ b) =
      split '\n' Log.columnTitle ++ split '\n' b := split_append Log.columnTitle b
  rw [Headed, hsplit, split_eq_singleton htitle]
  rfl

/-- Every file, also one that has been taken away, begins with the header. -/
structure AllHeaded (s : LogFolder) : Prop where
  taken : ∀ text ∈ s.taken, Headed text
  files : ∀ name text, s.log.manager.files name = some text → Headed text

theorem headed_write {m : AIMLogManager}
    (hs : ∀ name text, m.files name = some text → Headed text) {name text : String}
    (htext : Headed text) :
    ∀ other t, m.write name text other = some t → Headed t := by
  intro other t h
  rw [AIMLogManager.write, Function.update_apply] at h
  split_ifs at h
  · exact Option.some.inj h ▸ htext
  · exact hs other t h

theorem allHeaded_step (hs : s.AllHeaded) (h : s.step e = .ok s') : s'.AllHeaded := by
  cases e with
  | log event =>
    obtain ⟨log, hlog, h⟩ := bind_eq_ok.mp h
    obtain rfl := Except.ok.inj h
    refine ⟨hs.taken, ?_⟩
    cases LogRun.step_outcome hlog with
    | recorded fileNow call => exact hs.files
    | ignored _ => exact hs.files
    | queued _ => exact hs.files
    | ran hm =>
      cases AIMLogManager.writeBlock_outcome hm with
      | appended _ hfile => exact headed_write hs.files ((hs.files _ _ hfile).append _)
      | appendFailed _ _ => exact hs.files
      | created _ _ => exact headed_write hs.files (headed_created _)
      | createFailed _ _ => exact hs.files
    | restarted => exact hs.files
  | relaunch =>
    obtain rfl := Except.ok.inj h
    exact ⟨hs.taken, hs.files⟩
  | take name =>
    simp only [step] at h
    split at h
    · next text hfile =>
      obtain rfl := Except.ok.inj h
      refine ⟨fun other hother => ?_, fun other t hother => ?_⟩
      · rcases mem_append.mp hother with hother | hother
        · exact hs.taken other hother
        · exact mem_singleton.mp hother ▸ hs.files name text hfile
      · rw [AIMLogManager.files_without] at hother
        split_ifs at hother
        exact hs.files other t hother
    · exact Except.ok.inj h ▸ hs

/-! ## Reading back -/

/-- Prefixes of lists of lines are lists of lines of prefixes. -/
theorem prefixes_of_mapped {α β : Type} {f : α → β} {kept : List (List β)} {xs : List (List α)}
    (h : Forall₂ (· <+: ·) kept (xs.map (·.map f))) :
    ∃ kept', Forall₂ (· <+: ·) kept' xs ∧ kept = kept'.map (·.map f) := by
  induction xs generalizing kept with
  | nil =>
    obtain rfl := forall₂_nil_right_iff.mp h
    exact ⟨[], .nil, rfl⟩
  | cons x xs ih =>
    obtain ⟨k, rest, hk, hrest, rfl⟩ := forall₂_cons_right_iff.mp h
    obtain ⟨rest', hrest', rfl⟩ := ih hrest
    obtain ⟨k', hk', rfl⟩ := prefix_map_iff.mp hk
    exact ⟨k' :: rest', .cons hk' hrest', rfl⟩

theorem mem_flatten_of_prefixes {α : Type} {kept xs : List (List α)} (h : Forall₂ (· <+: ·) kept xs)
    {a : α} (ha : a ∈ kept.flatten) : a ∈ xs.flatten := by
  induction h with
  | nil => exact ha
  | cons hprefix _ ih =>
    rw [flatten_cons, mem_append] at ha ⊢
    exact ha.imp (fun h => hprefix.subset h) ih

/-- The lines of readable calls. -/
theorem read_lines {calls : List LogCall}
    (h : ∀ call ∈ calls, call.now.InCalendar ∧ call.record.Without '\t') :
    (calls.map LogCall.line).map LogCall.read = calls.map some := by
  induction calls with
  | nil => rfl
  | cons call calls ih =>
    obtain ⟨hcall, hrest⟩ := forall_mem_cons.mp h
    rw [map_cons, map_cons, map_cons, LogCall.read_line hcall.1 hcall.2, ih hrest]

theorem step_total (hs : s.FolderInv) (he : s.Enabled e) : ∃ s', s.step e = .ok s' := by
  cases e with
  | log event =>
    obtain ⟨log, hlog⟩ := LogRun.step_total hs.name he.1.1
    exact ⟨_, bind_eq_ok.mpr ⟨log, hlog, rfl⟩⟩
  | relaunch => exact ⟨_, rfl⟩
  | take name =>
    simp only [step]
    split
    · exact ⟨_, rfl⟩
    · exact ⟨_, rfl⟩

/-- Files may be taken away and the application may be killed at any time, writes may fail, and
flushes come in any order. In every run the entries of all files, those that were taken away first,
read back as a prefix of the calls of each session, one session after the other, with all their
arguments and times; the buffer reads back as the rest of this session. Every file begins with the
header, and nothing traps. -/
theorem folder_read_back (h : Reaches step Enabled (start logFileName) s) :
    (∃ kept now rest, Forall₂ (· <+: ·) kept s.ended ∧ now ++ rest = s.log.calls ∧
      s.stored.map LogCall.read = (kept.flatten ++ now).map some ∧
      s.log.manager.pending.map LogCall.read = rest.map some) ∧
    (∀ text ∈ s.taken ++ s.log.manager.logFile.toList, Headed text) ∧
    ∀ e, s.Enabled e → ∃ s', s.step e = .ok s' := by
  have hs := h.inv FolderInv (folderInv_start logFileName)
    fun _ _ _ hs he hstep => folderInv_step hs he hstep
  have hheaded := h.inv AllHeaded ⟨fun _ h => (by cases h), fun _ _ h => (by cases h)⟩
    fun _ _ _ hs _ hstep => allHeaded_step hs hstep
  refine ⟨?_, fun text htext => ?_, fun e he => step_total hs he⟩
  · obtain ⟨keptLines, hkept, hsince⟩ := hs.sessions
    obtain ⟨nowLines, hstored, hnow⟩ := hsince.kept
    obtain ⟨kept, hprefixes, rfl⟩ := prefixes_of_mapped hkept
    obtain ⟨now, rest, hcalls, hnow, hrest⟩ := map_eq_append_iff.mp hnow.symm
    have hstored : s.stored = (kept.flatten ++ now).map LogCall.line := by
      rw [map_append, map_flatten, hnow]
      exact hstored
    have hreadable := hs.readable
    rw [hcalls] at hreadable
    refine ⟨kept, now, rest, hprefixes, hcalls.symm, ?_, ?_⟩
    · rw [hstored]
      refine read_lines fun call hcall => hreadable call ?_
      rcases mem_append.mp hcall with hcall | hcall
      · exact mem_append_left _ (mem_flatten_of_prefixes hprefixes hcall)
      · exact mem_append_right _ (mem_append_left _ hcall)
    · show s.outbox.pending.map LogCall.read = _
      rw [← hrest]
      exact read_lines fun call hcall =>
        hreadable call (mem_append_right _ (mem_append_right _ hcall))
  · rcases mem_append.mp htext with htext | htext
    · exact hheaded.taken text htext
    · obtain ⟨name, -, hfile⟩ := Option.bind_eq_some_iff.mp (Option.mem_toList.mp htext)
      exact hheaded.files name text hfile

/-- The first file is taken away while a record is in the buffer, whose write then fails once; the
application is killed with another one in the buffer, and goes on in the file of the same name. -/
theorem folder_read_back_taken : ∃ s, Reaches step Enabled (start none) s ∧
    s.taken.length = 1 ∧ s.ended.map (·.length) = [3] ∧ s.log.calls.length = 1 ∧
    ∃ kept now rest, Forall₂ (· <+: ·) kept s.ended ∧ now ++ rest = s.log.calls ∧
      s.stored.map LogCall.read = (kept.flatten ++ now).map some ∧
      s.log.manager.pending.map LogCall.read = rest.map some := by
  have hrun : (play step Enabled (start none)
      [.log (.record (LogRun.sampleDate 0) (LogRun.sampleCall "1" 1)), .log .writeLogToFile,
        .log (.runBlock true), .log (.record (LogRun.sampleDate 2) (LogRun.sampleCall "2" 3)),
        .take (AIMUtilities.getFileName (LogRun.sampleDate 0)), .log .writeLogToFile,
        .log .writeLogToFile, .log (.runBlock false), .log (.runBlock true),
        .log (.record (LogRun.sampleDate 4) (LogRun.sampleCall "3" 5)), .relaunch,
        .log (.record (LogRun.sampleDate 6) (LogRun.sampleCall "4" 7))]).any (fun s =>
      decide (s.taken.length = 1) && decide (s.ended.map (·.length) = [3]) &&
        decide (s.log.calls.length = 1)) = true := by decide +kernel
  obtain ⟨s, hreach, hend⟩ := exists_reaches_of_play hrun
  simp only [Bool.and_eq_true, decide_eq_true_eq] at hend
  exact ⟨s, hreach, hend.1.1, hend.1.2, hend.2, (folder_read_back hreach).1⟩

end LogFolder

end Imijun
