import Imijun.LogContents

/-!
# The shape of the log file

When every write succeeds, the log file is the header and one line for each call that has been
written, as long as no block finds an empty buffer.

* `HasShape`: the file holds the header and the lines of the calls `written`, the buffer those of
  the calls `pending`.
* `log_file_has_shape`: the runs in which every block finds something in the buffer keep the shape,
  and a block that finds nothing breaks it.
* `empty_flush_adds_newline`: two flushes that are queued at once leave a newline at the end.
-/

namespace Imijun

open Transition Fallible Delimited

/-! ## The texts of the file and of the buffer -/

/-- The text of a log file with the lines of the calls. -/
def logText (calls : List LogCall) : String :=
  Log.columnTitle ++ String.join (calls.map fun call => "\n" ++ call.line)

/-- The lines of the calls, as the buffer holds them. -/
def joinedLines (calls : List LogCall) : String :=
  "\n".intercalate (calls.map LogCall.line)

@[simp] theorem logText_nil : logText [] = Log.columnTitle := by
  simp [logText]

@[simp] theorem joinedLines_nil : joinedLines [] = "" := by
  simp [joinedLines]

theorem joinedLines_eq_empty {calls : List LogCall} : joinedLines calls = "" ↔ calls = [] := by
  refine ⟨fun h => ?_, fun h => by rw [h, joinedLines_nil]⟩
  cases calls with
  | nil => rfl
  | cons call calls =>
    by_cases hcalls : calls.map LogCall.line = []
    · rw [joinedLines, List.map_cons, hcalls, String.intercalate_singleton] at h
      exact absurd h call.line_ne_empty
    · rw [joinedLines, List.map_cons, String.intercalate_cons_of_ne_nil hcalls,
        String.append_eq_empty_iff, String.append_eq_empty_iff] at h
      exact absurd h.1.1 call.line_ne_empty

/-- A call adds its line to the buffer. -/
theorem joinedLines_append (calls : List LogCall) (call : LogCall) :
    joinedLines (calls ++ [call]) =
      if joinedLines calls = "" then joinedLines calls ++ call.line
      else joinedLines calls ++ ("\n" ++ call.line) := by
  by_cases h : calls = []
  · simp [h, joinedLines]
  · rw [if_neg (mt joinedLines_eq_empty.mp h), joinedLines, List.map_append, List.map_singleton,
      String.intercalate_append_of_ne_nil (by simpa using h) (List.cons_ne_nil _ _),
      String.intercalate_singleton, String.append_assoc]
    rfl

/-- The buffer goes behind a newline to the end of the file. -/
theorem logText_append (written : List LogCall) {pending : List LogCall} (h : pending ≠ []) :
    logText written ++ ("\n" ++ joinedLines pending) = logText (written ++ pending) := by
  have hjoin : "\n" ++ joinedLines pending =
      String.join (pending.map fun call => "\n" ++ call.line) := by
    rw [joinedLines, separator_intercalate (by simpa using h), List.map_map]
    rfl
  rw [hjoin, logText, logText, String.append_assoc, ← String.join_append, ← List.map_append]

/-- The lines of the text are the header and the lines of the calls: no line is blank, and there is
no second header. -/
theorem split_logText {calls : List LogCall} (h : ∀ call ∈ calls, call.record.Without '\n') :
    split '\n' (logText calls) = Log.columnTitle :: calls.map LogCall.line := by
  have htitle : '\n' ∉ Log.columnTitle.toList := by simp [Log.columnTitle]
  by_cases hcalls : calls = []
  · rw [hcalls, logText_nil, split_eq_singleton htitle]
    rfl
  · have hlines : ∀ line ∈ calls.map LogCall.line, '\n' ∉ line.toList := by
      simpa using fun call hcall => call.newline_not_mem_line (h call hcall)
    have htext : logText calls = Log.columnTitle ++ String.singleton '\n' ++ joinedLines calls := by
      rw [← List.nil_append calls, ← logText_append [] hcalls, logText_nil, String.append_assoc]
      rfl
    rw [htext, split_append, split_eq_singleton htitle, joinedLines,
      show "\n" = String.singleton '\n' from rfl,
      split_intercalate (by simpa using hcalls) hlines]
    rfl

/-! ## The condition -/

namespace LogRun

variable {s s' : LogRun} {e : LogEvent}

/-- A write succeeds, and the run is not interrupted. -/
def Succeeds : LogEvent → Prop
  | .runBlock writeSucceeds => writeSucceeds = true
  | .restart => False
  | _ => True

instance (e : LogEvent) : Decidable (Succeeds e) :=
  match e with
  | .runBlock writeSucceeds => inferInstanceAs (Decidable (writeSucceeds = true))
  | .restart => instDecidableFalse
  | .record _ _ | .writeLogToFile => instDecidableTrue

/-- A run of one start of the application in which every write succeeds and no field contains a
newline. -/
def Writing (s : LogRun) (e : LogEvent) : Prop :=
  s.Possible e ∧ e.Without '\n' ∧ Succeeds e

instance (s : LogRun) (e : LogEvent) : Decidable (s.Writing e) :=
  inferInstanceAs (Decidable (_ ∧ _ ∧ _))

/-- A block that runs finds something in the buffer. -/
def FindsRecords (s : LogRun) : LogEvent → Prop
  | .runBlock _ => s.manager.content ≠ ""
  | _ => True

instance (s : LogRun) (e : LogEvent) : Decidable (s.FindsRecords e) :=
  match e with
  | .runBlock _ => inferInstanceAs (Decidable (s.manager.content ≠ ""))
  | .record _ _ | .writeLogToFile | .restart => instDecidableTrue

/-- The calls `written` are in the file, and the later ones `pending` in the buffer; a file exists
once something is written. -/
structure HasShape (s : LogRun) (written pending : List LogCall) : Prop where
  calls : s.calls = written ++ pending
  content : s.manager.content = joinedLines pending
  logFile : s.manager.logFile = if written = [] then none else some (logText written)

/-- The shape and what its proof needs in every step. -/
structure FileInv (s : LogRun) : Prop where
  name : s.NameInv
  plain : ∀ call ∈ s.calls, call.record.Without '\n'
  shape : ∃ written pending, s.HasShape written pending

theorem HasShape.logFile_getD {written pending : List LogCall} (hs : s.HasShape written pending) :
    s.manager.logFile.getD Log.columnTitle = logText written := by
  rw [hs.logFile]
  split_ifs with h
  · rw [h, logText_nil]
    rfl
  · rfl

theorem hasShape_step (hname : s.NameInv) {written pending : List LogCall}
    (hs : s.HasShape written pending) (he : s.Writing e) (hfinds : s.FindsRecords e)
    (h : s.step e = .ok s') : ∃ written pending, s'.HasShape written pending := by
  cases step_outcome h with
  | recorded fileNow call =>
    refine ⟨written, pending ++ [call], ?_, ?_, ?_⟩
    · rw [← List.append_assoc, ← hs.calls]
    · rw [joinedLines_append, ← hs.content]
      rfl
    · exact (AIMLogManager.record_logFile hname.onlyLogFile).trans hs.logFile
  | ignored _ => exact ⟨written, pending, hs⟩
  | queued _ => exact ⟨written, pending, ⟨hs.calls, hs.content, hs.logFile⟩⟩
  | @ran ok m hm =>
    obtain rfl : ok = true := he.2.2
    obtain ⟨hcontent, hfile⟩ := AIMLogManager.writeBlock_succeeds hm
    have hpending : pending ≠ [] := fun hnil => hfinds (by rw [hs.content, hnil, joinedLines_nil])
    rw [hs.logFile_getD, hs.content, logText_append written hpending] at hfile
    refine ⟨written ++ pending, [], ?_, ?_, ?_⟩
    · rw [List.append_nil]
      exact hs.calls
    · exact hcontent.trans joinedLines_nil.symm
    · rw [if_neg (List.append_ne_nil_of_right_ne_nil _ hpending)]
      exact hfile
  | restarted => exact absurd he.2.2 id

/-- With an empty buffer the file of the shape is the text of all calls, without a newline more. -/
theorem not_hasShape_of_newline (hcontent : s.manager.content = "")
    (hfile : s.manager.logFile = some (logText s.calls ++ "\n")) :
    ¬ ∃ written pending, s.HasShape written pending := by
  rintro ⟨written, pending, hs⟩
  have hpending : pending = [] := joinedLines_eq_empty.mp (hs.content.symm.trans hcontent)
  have hwritten : s.calls = written := by rw [hs.calls, hpending, List.append_nil]
  have hshape := hs.logFile
  rw [hfile, hwritten] at hshape
  split_ifs at hshape
  have hlength := congrArg String.length (Option.some.inj hshape)
  rw [String.length_append] at hlength
  have hone : "\n".length = 1 := rfl
  omega

/-- A block that finds an empty buffer adds a newline to the file. -/
theorem not_hasShape_of_empty {written pending : List LogCall} (hs : s.HasShape written pending)
    (hempty : s.manager.content = "") (h : s.step (.runBlock true) = .ok s') :
    ¬ ∃ written pending, s'.HasShape written pending := by
  obtain ⟨m, hm, h⟩ := bind_eq_ok.mp h
  obtain rfl := Except.ok.inj h
  obtain ⟨hcontent, hfile⟩ := AIMLogManager.writeBlock_succeeds hm
  have hpending : pending = [] := joinedLines_eq_empty.mp (hs.content.symm.trans hempty)
  have hwritten : s.calls = written := by rw [hs.calls, hpending, List.append_nil]
  rw [hs.logFile_getD, hempty, String.append_empty, ← hwritten] at hfile
  exact not_hasShape_of_newline hcontent hfile

theorem fileInv_of_reaches {logFileName : Option String}
    (h : Reaches step (fun s e => s.Writing e ∧ s.FindsRecords e) (start logFileName) s) :
    s.FileInv := by
  refine h.inv FileInv ⟨nameInv_start logFileName, fun call hcall => (by cases hcall), [], [], ?_⟩
    fun t e u ht he hstep => ?_
  · exact ⟨rfl, joinedLines_nil.symm, by simp [start, AIMLogManager.logFile]⟩
  · obtain ⟨written, pending, hshape⟩ := ht.shape
    exact ⟨nameInv_step ht.name he.1.1 hstep, calls_step ht.plain he.1.2.1 hstep,
      hasShape_step ht.name hshape he.1 he.2 hstep⟩

/-! ## Runs -/

/-- In every run in which every block finds something in the buffer, the log file is the header
followed by a newline and the line for each call written so far, and the buffer holds the rest; in
each state reached this way the next step keeps the shape exactly when it meets the condition. -/
theorem log_file_has_shape {logFileName : Option String}
    (h : Reaches step (fun s e => s.Writing e ∧ s.FindsRecords e) (start logFileName) s) :
    (∃ written pending, s.HasShape written pending ∧
        split '\n' (logText written) = Log.columnTitle :: written.map LogCall.line) ∧
      ∀ e s', s.Writing e → s.step e = .ok s' →
        ((∃ written pending, s'.HasShape written pending) ↔ s.FindsRecords e) := by
  have hs := fileInv_of_reaches h
  obtain ⟨written, pending, hshape⟩ := hs.shape
  have hwritten : ∀ call ∈ written, call.record.Without '\n' := fun call hcall =>
    hs.plain call (hshape.calls ▸ List.mem_append_left _ hcall)
  refine ⟨⟨written, pending, hshape, split_logText hwritten⟩, fun e s' he hstep =>
    ⟨fun hnext => ?_, fun hfinds => hasShape_step hs.name hshape he hfinds hstep⟩⟩
  cases e with
  | runBlock ok =>
    obtain rfl : ok = true := he.2.2
    exact fun hempty => not_hasShape_of_empty hshape hempty hstep hnext
  | _ => trivial

/-- Two flushes, each with a call to write. -/
theorem log_file_has_shape_two_flushes :
    ∃ s written pending, Reaches step (fun s e => s.Writing e ∧ s.FindsRecords e) (start none) s ∧
      s.calls = [sampleCall "1" 1, sampleCall "2" 3] ∧ s.HasShape written pending := by
  have hrun : (play step (fun s e => s.Writing e ∧ s.FindsRecords e) (start none)
      [.record (sampleDate 0) (sampleCall "1" 1), .writeLogToFile, .runBlock true,
        .record (sampleDate 2) (sampleCall "2" 3), .writeLogToFile, .runBlock true]).any (fun s =>
      decide (s.calls = [sampleCall "1" 1, sampleCall "2" 3])) = true := by decide +kernel
  obtain ⟨s, hreach, hcalls⟩ := exists_reaches_of_play hrun
  obtain ⟨written, pending, hshape, -⟩ := (log_file_has_shape hreach).1
  exact ⟨s, written, pending, hreach, of_decide_eq_true hcalls, hshape⟩

/-- Both flushes of one call are queued before the first block runs, and nothing is recorded after
it: the second block leaves the file with a newline at the end. -/
theorem empty_flush_adds_newline :
    ∃ s, Reaches step Writing (start none) s ∧ s.calls = [sampleCall "1" 1] ∧
      s.manager.logFile = some (logText [sampleCall "1" 1] ++ "\n") ∧
      ¬ ∃ written pending, s.HasShape written pending := by
  have hrun : (play step Writing (start none)
      [.record (sampleDate 0) (sampleCall "1" 1), .writeLogToFile, .writeLogToFile,
        .runBlock true, .runBlock true]).any (fun s => decide (s.calls = [sampleCall "1" 1]) &&
      decide (s.manager.content = "") &&
      decide (s.manager.logFile = some (logText [sampleCall "1" 1] ++ "\n"))) = true := by
    decide +kernel
  obtain ⟨s, hreach, hend⟩ := exists_reaches_of_play hrun
  simp only [Bool.and_eq_true, decide_eq_true_eq] at hend
  obtain ⟨⟨hcalls, hcontent⟩, hfile⟩ := hend
  exact ⟨s, hreach, hcalls, hfile, not_hasShape_of_newline hcontent (hcalls.symm ▸ hfile)⟩

end LogRun

end Imijun
