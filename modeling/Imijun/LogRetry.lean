import Imijun.LogContents

/-!
# Writes that fail

The block of `writeLogToFile` puts the separator or the header into `content` before it tries the
write, and its `catch` branch takes nothing out again.

* `writeBlock_false`: a failed write leaves the file and its name alone and makes the buffer longer.
* `failed_write_changes_buffer`: so no failed write leaves the manager as it was, and the file that
  a later write makes shows every failure before it.
* `failed_write_repeats_header`: a file created after one failure has two headers.
-/

namespace Imijun

open Transition Fallible

namespace AIMLogManager

variable {m m' : AIMLogManager}

/-- The buffer, the file name and all files are the same. -/
structure Unchanged (m m' : AIMLogManager) : Prop where
  content : m'.content = m.content
  logFileName : m'.logFileName = m.logFileName
  files : m'.files = m.files

/-- The queued block runs with `failures` failing writes, and then once with one that succeeds;
nothing is recorded in between. -/
def flushAfter (m : AIMLogManager) : Nat → Except Trap AIMLogManager
  | 0 => m.writeBlock true
  | failures + 1 => do
    let m ← m.writeBlock false
    m.flushAfter failures

/-- What a failed write leaves: the separator or the header stays in the buffer. -/
theorem writeBlock_false (h : m.writeBlock false = .ok m') :
    m'.logFileName = m.logFileName ∧ m'.files = m.files ∧
      m.content.length < m'.content.length := by
  cases writeBlock_outcome h with
  | appendFailed _ _ =>
    refine ⟨rfl, rfl, ?_⟩
    show m.content.length < ("\n" ++ m.content).length
    rw [String.length_append]
    exact Nat.lt_add_of_pos_left (by decide)
  | createFailed _ _ =>
    refine ⟨rfl, rfl, ?_⟩
    show m.content.length < (Log.columnTitle ++ "\n" ++ m.content).length
    rw [String.length_append, String.length_append]
    exact Nat.lt_add_of_pos_left (Nat.lt_add_left _ (by decide))

theorem not_unchanged (h : m.writeBlock false = .ok m') : ¬ m.Unchanged m' := by
  intro hsame
  obtain ⟨-, -, hlonger⟩ := writeBlock_false h
  rw [hsame.content] at hlonger
  exact Nat.lt_irrefl _ hlonger

/-- The file after `failures` failed writes and one that succeeds: what the failures have added to
the buffer is in it. -/
theorem flushAfter_ok (hname : m.logFileName.isSome = true) (failures : Nat) :
    ∃ m' content, m.flushAfter failures = .ok m' ∧
      m'.logFile = some (m.logFile.getD Log.columnTitle ++ ("\n" ++ content)) ∧
      m.content.length + failures ≤ content.length := by
  induction failures generalizing m with
  | zero =>
    obtain ⟨m', hm⟩ := writeBlock_total hname true
    exact ⟨m', m.content, hm, (writeBlock_succeeds hm).2, Nat.le_refl _⟩
  | succ failures ih =>
    obtain ⟨t, ht⟩ := writeBlock_total hname false
    obtain ⟨hkept, hfiles, hlonger⟩ := writeBlock_false ht
    obtain ⟨m', content, hm, hfile, hlength⟩ := @ih t (by rw [hkept]; exact hname)
    have hold : t.logFile = m.logFile := by rw [logFile, logFile, hkept, hfiles]
    refine ⟨m', content, bind_eq_ok.mpr ⟨t, ht, hm⟩, ?_, ?_⟩
    · rw [hfile, hold]
    · omega

/-- No failed write leaves the manager as it was: the buffer is longer, whatever it held and
whether there is a file or not. After `failures` failed writes the next one makes the file that it
would have made without them exactly when there were none. -/
theorem failed_write_changes_buffer (hname : m.logFileName.isSome = true) :
    (∃ m', m.writeBlock false = .ok m' ∧ ¬ m.Unchanged m' ∧
        m'.logFileName = m.logFileName ∧ m'.files = m.files) ∧
      ∀ failures, ∃ direct late, m.writeBlock true = .ok direct ∧
        m.flushAfter failures = .ok late ∧ (late.logFile = direct.logFile ↔ failures = 0) := by
  constructor
  · obtain ⟨m', hm⟩ := writeBlock_total hname false
    obtain ⟨hkept, hfiles, -⟩ := writeBlock_false hm
    exact ⟨m', hm, not_unchanged hm, hkept, hfiles⟩
  · intro failures
    obtain ⟨direct, hdirect⟩ := writeBlock_total hname true
    obtain ⟨late, content, hlate, hfile, hlength⟩ := flushAfter_ok hname failures
    refine ⟨direct, late, hdirect, hlate, fun heq => ?_, fun hzero => ?_⟩
    · -- equal files have equal lengths, and every failure has made the file longer
      rw [hfile, (writeBlock_succeeds hdirect).2, Option.some.injEq] at heq
      have hsame := congrArg String.length heq
      simp only [String.length_append] at hsame
      omega
    · subst hzero
      rw [Except.ok.inj (hlate.symm.trans hdirect)]

/-- One record in the buffer, and no file yet. -/
def oneRecord : AIMLogManager where
  content := (LogRun.sampleCall "1" 1).line
  logFileName := some (AIMUtilities.getFileName (LogRun.sampleDate 0))
  files := fun _ => none

/-- The failure changes the buffer of `oneRecord`. -/
theorem failed_write_changes_buffer_one :
    ∃ m', oneRecord.writeBlock false = .ok m' ∧ ¬ oneRecord.Unchanged m' := by
  have hname : oneRecord.logFileName.isSome = true := rfl
  obtain ⟨⟨m', hm, hchanged, -⟩, -⟩ := failed_write_changes_buffer hname
  exact ⟨m', hm, hchanged⟩

/-- One failed write before the file is created: the header stays in the buffer, and the file gets
it twice. -/
theorem failed_write_repeats_header :
    ∃ failed direct late, oneRecord.writeBlock false = .ok failed ∧
      failed.content = Log.columnTitle ++ "\n" ++ oneRecord.content ∧
      ¬ oneRecord.Unchanged failed ∧
      oneRecord.writeBlock true = .ok direct ∧
      direct.logFile = some (Log.columnTitle ++ ("\n" ++ oneRecord.content)) ∧
      oneRecord.flushAfter 1 = .ok late ∧
      late.logFile = some (Log.columnTitle ++ ("\n" ++ (Log.columnTitle ++ "\n" ++
        oneRecord.content))) ∧
      late.logFile ≠ direct.logFile := by
  have hname : oneRecord.logFileName.isSome = true := rfl
  obtain ⟨direct, hdirect⟩ := writeBlock_total hname true
  obtain ⟨failed, hfailed⟩ := writeBlock_total hname false
  obtain ⟨hkept, hfiles, hlonger⟩ := writeBlock_false hfailed
  obtain ⟨late, hlate⟩ := writeBlock_total (hkept ▸ hname) true
  have hcontent : failed.content = Log.columnTitle ++ "\n" ++ oneRecord.content := by
    cases writeBlock_outcome hfailed with
    | appendFailed _ hfile => cases hfile
    | createFailed _ _ => rfl
  have hnone : failed.logFile = none := by rw [logFile, hkept, hfiles]; rfl
  have hdirectFile := (writeBlock_succeeds hdirect).2
  have hlateFile := (writeBlock_succeeds hlate).2
  -- the second flush finds no file, and puts a header in front of a buffer that has one
  rw [hnone, hcontent] at hlateFile
  refine ⟨failed, direct, late, hfailed, hcontent, not_unchanged hfailed, hdirect, hdirectFile,
    bind_eq_ok.mpr ⟨failed, hfailed, hlate⟩, hlateFile, fun heq => ?_⟩
  rw [hlateFile, hdirectFile, Option.some.injEq] at heq
  have hsame := congrArg String.length heq
  rw [hcontent] at hlonger
  simp only [String.length_append, Option.getD_none] at hsame hlonger
  have hnofile : oneRecord.logFile = none := rfl
  simp only [hnofile, Option.getD_none] at hsame
  omega

end AIMLogManager

end Imijun
