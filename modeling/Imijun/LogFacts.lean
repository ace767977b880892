import Imijun.LogManager

/-!
# Lines, entries and the methods of the log manager

* `LogCall.split_line`: a line splits at tabs into its columns.
* `entries_line`, `entries_append`, `entries_header`: how the entries of a text come about.
* `AIMLogManager.pending_record`, `AIMLogManager.writeBlock_moves`: what the methods do to the
  entries of the file (`stored`) and of the buffer (`pending`).
-/

namespace Imijun

open Transition Fallible Delimited

/-! ## The texts made of the time -/

namespace AIMUtilities

theorem isDigit_of_mem_toString {n : Nat} {c : Char} (h : c ∈ (toString n).toList) :
    c.isDigit = true := by
  rw [Nat.toString_eq_repr, Nat.toList_repr] at h
  exact Nat.isDigit_of_mem_toDigits (by decide) (by decide) h

theorem isDigit_of_mem_twoDigits {n : Nat} {c : Char} (h : c ∈ (twoDigits n).toList) :
    c.isDigit = true := by
  unfold twoDigits at h
  split at h
  · rw [String.toList_append, List.mem_append] at h
    rcases h with h | h
    · obtain rfl : c = '0' := by simpa using h
      decide
    · exact isDigit_of_mem_toString h
  · exact isDigit_of_mem_toString h

theorem isDigit_of_mem_dayString {now : DateComponents} {c : Char}
    (h : c ∈ (dayString now).toList) : c.isDigit = true := by
  simp only [dayString, String.toList_append, List.mem_append] at h
  rcases h with (h | h) | h
  · exact isDigit_of_mem_toString h
  · exact isDigit_of_mem_twoDigits h
  · exact isDigit_of_mem_twoDigits h

theorem mem_clockString {now : DateComponents} {c : Char} (h : c ∈ (clockString now).toList) :
    c.isDigit = true ∨ c = ':' := by
  have hcolon : ":".toList = [':'] := rfl
  simp only [clockString, String.toList_append, List.mem_append, hcolon, List.mem_singleton] at h
  rcases h with (((h | h) | h) | h) | h
  · exact .inl (isDigit_of_mem_twoDigits h)
  · exact .inr h
  · exact .inl (isDigit_of_mem_twoDigits h)
  · exact .inr h
  · exact .inl (isDigit_of_mem_twoDigits h)

end AIMUtilities

/-! ## Lines -/

/-- No field contains the character. -/
def LogRecord.Without (r : LogRecord) (c : Char) : Prop :=
  ∀ field ∈ r.fields, c ∉ field.toList

instance (r : LogRecord) (c : Char) : Decidable (r.Without c) :=
  inferInstanceAs (Decidable (∀ field ∈ r.fields, c ∉ field.toList))

namespace LogCall

variable {c : LogCall} {ch : Char}

theorem line_eq (c : LogCall) : c.line = "\t".intercalate c.columns := by
  unfold line columns LogRecord.fields AIMUtilities.getTimeString
  generalize "\t" = tab
  simp only [String.intercalate_cons_cons, String.intercalate_singleton, String.append_assoc]

/-- A character that is neither a digit nor a colon occurs in no column of a call without it. -/
theorem not_mem_columns (hdigit : ch.isDigit = false) (hcolon : ch ≠ ':')
    (h : c.record.Without ch) : ∀ column ∈ c.columns, ch ∉ column.toList := by
  intro column hcolumn hmem
  obtain rfl | rfl | hfield : column = AIMUtilities.dayString c.now ∨
      column = AIMUtilities.clockString c.now ∨ column ∈ c.record.fields := by
    simpa [columns] using hcolumn
  · exact Bool.false_ne_true (hdigit.symm.trans (AIMUtilities.isDigit_of_mem_dayString hmem))
  · rcases AIMUtilities.mem_clockString hmem with hd | hc
    · exact Bool.false_ne_true (hdigit.symm.trans hd)
    · exact hcolon hc
  · exact h column hfield hmem

/-- A line splits at tabs into its columns. -/
theorem split_line (h : c.record.Without '\t') : split '\t' c.line = c.columns := by
  rw [line_eq]
  exact split_intercalate (List.cons_ne_nil _ _) (not_mem_columns (by decide) (by decide) h)

theorem newline_not_mem_line (h : c.record.Without '\n') : '\n' ∉ c.line.toList := by
  rw [line_eq]
  exact not_mem_intercalate (by decide) (not_mem_columns (by decide) (by decide) h)

theorem line_ne_empty (c : LogCall) : c.line ≠ "" := by
  intro h
  rw [line_eq, columns, String.intercalate_cons_of_ne_nil (List.cons_ne_nil _ _),
    String.append_eq_empty_iff, String.append_eq_empty_iff] at h
  exact absurd h.1.2 (by decide)

theorem split_columnTitle : split '\t' Log.columnTitle =
    ["操作日", "操作時間", "操作画面", "操作名", "操作対象", "操作対象種別", "操作結果対称", "操作結果",
      "基本・応用", "章", "問題No"] := by
  simp [split, Log.columnTitle, List.splitOn_cons_eq_if_modifyHead]

/-- A line starts with a digit, and the header does not. -/
theorem line_ne_columnTitle (h : c.record.Without '\t') : c.line ≠ Log.columnTitle := by
  intro heq
  have hcolumns := split_line h
  rw [heq, split_columnTitle] at hcolumns
  have hday : "操作日" = AIMUtilities.dayString c.now := (List.cons.inj hcolumns).1
  have hmem : '操' ∈ (AIMUtilities.dayString c.now).toList := hday ▸ by simp
  exact absurd (AIMUtilities.isDigit_of_mem_dayString hmem) (by decide)

end LogCall

/-! ## Entries -/

/-- Neither a blank line nor a copy of the header. -/
def isEntry (l : String) : Bool :=
  !decide (l = "") && !decide (l = Log.columnTitle)

/-- The entries of a text: its lines, less the blank ones and the copies of the header. -/
def entries (text : String) : List String :=
  kept '\n' isEntry text

@[simp] theorem entries_empty : entries "" = [] :=
  kept_of_drop (by decide) rfl

theorem entries_columnTitle : entries Log.columnTitle = [] :=
  kept_of_drop (by simp [Log.columnTitle]) (by simp [isEntry])

theorem entries_line {c : LogCall} (htab : c.record.Without '\t') (hnew : c.record.Without '\n') :
    entries c.line = [c.line] :=
  kept_of_keep (c.newline_not_mem_line hnew)
    (by simp [isEntry, c.line_ne_empty, LogCall.line_ne_columnTitle htab])

theorem entries_append (a b : String) : entries (a ++ ("\n" ++ b)) = entries a ++ entries b := by
  rw [← String.append_assoc]
  exact kept_append a b

theorem entries_newline (b : String) : entries ("\n" ++ b) = entries b :=
  kept_separator rfl b

theorem entries_header (b : String) : entries (Log.columnTitle ++ "\n" ++ b) = entries b := by
  rw [String.append_assoc, entries_append, entries_columnTitle, List.nil_append]

namespace AIMLogManager

variable {m m' : AIMLogManager} {c : LogCall} {fileNow : DateComponents} {ok : Bool}

/-- The entries of the log file. -/
def stored (m : AIMLogManager) : List String :=
  Imijun.entries (m.logFile.getD "")

/-- The entries of the buffer. -/
def pending (m : AIMLogManager) : List String :=
  Imijun.entries m.content

theorem stored_setContent (m : AIMLogManager) (content : String) :
    stored { m with content := content } = m.stored := rfl

theorem pending_setContent (m : AIMLogManager) (content : String) :
    pending { m with content := content } = Imijun.entries content := rfl

/-- The log file is the only file. -/
def OnlyLogFile (m : AIMLogManager) : Prop :=
  ∀ name text, m.files name = some text → m.logFileName = some name

/-! ## The methods -/

/-- A name that is replaced is the name of no file, so no file loses its name. -/
theorem recordFileName_of_file (honly : m.OnlyLogFile) {name text : String}
    (h : m.files name = some text) : m.recordFileName fileNow = some name := by
  have hname := honly name text h
  simp [recordFileName, hname, h]

theorem record_onlyLogFile (honly : m.OnlyLogFile) : (m.record fileNow c).OnlyLogFile :=
  fun _ _ h => recordFileName_of_file honly h

theorem record_logFile (honly : m.OnlyLogFile) : (m.record fileNow c).logFile = m.logFile := by
  have hsome (name text : String) (h : m.files name = some text) :
      (m.record fileNow c).logFile = m.logFile := by
    have hold : m.logFileName = some name := honly name text h
    have hnew : (m.record fileNow c).logFileName = some name := recordFileName_of_file honly h
    rw [logFile, logFile, hold, hnew]
    rfl
  by_cases hfile : ∃ name text, m.files name = some text
  · obtain ⟨name, text, h⟩ := hfile
    exact hsome name text h
  · have hnone (name : String) : m.files name = none :=
      Option.eq_none_iff_forall_ne_some.mpr fun text h => hfile ⟨name, text, h⟩
    have hbind (o : Option String) : o.bind m.files = none := by
      cases o with
      | none => rfl
      | some name => exact hnone name
    exact (hbind _).trans (hbind _).symm

theorem record_fileName_isSome : (m.record fileNow c).logFileName.isSome = true := by
  show (m.recordFileName fileNow).isSome = true
  unfold recordFileName
  split
  · rfl
  · split <;> rfl

/-- A set name stays while there is something in the buffer. -/
theorem record_fileName_of_content (hname : m.logFileName.isSome = true) (h : m.content ≠ "") :
    (m.record fileNow c).logFileName = m.logFileName := by
  obtain ⟨name, hname⟩ := Option.isSome_iff_exists.mp hname
  simp [record, recordFileName, hname, h]

/-- A call adds its line to the entries of the buffer. -/
theorem pending_record (htab : c.record.Without '\t') (hnew : c.record.Without '\n') :
    (m.record fileNow c).pending = m.pending ++ [c.line] := by
  by_cases h : m.content = ""
  · simp [pending, record, h, entries_line htab hnew]
  · have heq : (m.record fileNow c).content = m.content ++ ("\n" ++ c.line) := if_neg h
    rw [pending, heq, entries_append, entries_line htab hnew]
    rfl

theorem logFile_write {name text : String} (hname : m.logFileName = some name) :
    ({ m with files := m.write name text, content := "" } : AIMLogManager).logFile =
      some text := by
  simp [logFile, hname, write]

theorem write_onlyLogFile (honly : m.OnlyLogFile) {name text : String}
    (hname : m.logFileName = some name) :
    OnlyLogFile { m with files := m.write name text, content := "" } := by
  intro other t h
  by_cases heq : other = name
  · exact heq ▸ hname
  · exact honly other t (by simpa [write, Function.update_of_ne heq] using h)

theorem logFile_of_name {name : String} (hname : m.logFileName = some name) :
    m.logFile = m.files name := by
  rw [logFile, hname]
  rfl

/-- What the block does: a write that succeeds empties the buffer, one that fails leaves the longer
text in it. -/
inductive WriteOutcome (m : AIMLogManager) : Bool → AIMLogManager → Prop
  | appended {name text : String} (hname : m.logFileName = some name)
      (hfile : m.files name = some text) :
      WriteOutcome m true
        { m with files := m.write name (text ++ ("\n" ++ m.content)), content := "" }
  | appendFailed {name text : String} (hname : m.logFileName = some name)
      (hfile : m.files name = some text) :
      WriteOutcome m false { m with content := "\n" ++ m.content }
  | created {name : String} (hname : m.logFileName = some name) (hfile : m.files name = none) :
      WriteOutcome m true
        { m with files := m.write name (Log.columnTitle ++ "\n" ++ m.content), content := "" }
  | createFailed {name : String} (hname : m.logFileName = some name)
      (hfile : m.files name = none) :
      WriteOutcome m false { m with content := Log.columnTitle ++ "\n" ++ m.content }

theorem writeBlock_outcome (h : m.writeBlock ok = .ok m') : m.WriteOutcome ok m' := by
  obtain ⟨name, hname, h⟩ := bind_eq_ok.mp h
  rw [orThrow_eq_ok] at hname
  cases hfile : m.files name with
  | some text =>
    rw [hfile] at h
    cases ok with
    | true => exact Except.ok.inj h ▸ .appended hname hfile
    | false => exact Except.ok.inj h ▸ .appendFailed hname hfile
  | none =>
    rw [hfile] at h
    cases ok with
    | true => exact Except.ok.inj h ▸ .created hname hfile
    | false => exact Except.ok.inj h ▸ .createFailed hname hfile

theorem writeBlock_logFileName (h : m.writeBlock ok = .ok m') :
    m'.logFileName = m.logFileName := by
  cases writeBlock_outcome h <;> rfl

theorem writeBlock_onlyLogFile (honly : m.OnlyLogFile) (h : m.writeBlock ok = .ok m') :
    m'.OnlyLogFile := by
  cases writeBlock_outcome h with
  | appended hname _ => exact write_onlyLogFile honly hname
  | appendFailed _ _ => exact fun name text hfile => honly name text hfile
  | created hname _ => exact write_onlyLogFile honly hname
  | createFailed _ _ => exact fun name text hfile => honly name text hfile

/-- A write that fails leaves the entries where they are: it only adds a blank line or a header to
the buffer. -/
theorem writeBlock_fails (h : m.writeBlock false = .ok m') :
    m'.stored = m.stored ∧ m'.pending = m.pending := by
  cases writeBlock_outcome h with
  | appendFailed _ _ =>
    rw [stored_setContent, pending_setContent, entries_newline]
    exact ⟨rfl, rfl⟩
  | createFailed _ _ =>
    rw [stored_setContent, pending_setContent, entries_header]
    exact ⟨rfl, rfl⟩

/-- A write that succeeds empties the buffer; the file, or the header when there is none, is
continued with a newline and the buffer. -/
theorem writeBlock_succeeds (h : m.writeBlock true = .ok m') :
    m'.content = "" ∧
      m'.logFile = some (m.logFile.getD Log.columnTitle ++ ("\n" ++ m.content)) := by
  cases writeBlock_outcome h with
  | appended hname hfile =>
    rw [logFile_write hname, logFile_of_name hname, hfile]
    exact ⟨rfl, rfl⟩
  | created hname hfile =>
    rw [logFile_write hname, logFile_of_name hname, hfile, String.append_assoc]
    exact ⟨rfl, rfl⟩

/-- Such a write moves the entries of the buffer to the end of the file. -/
theorem writeBlock_moves (h : m.writeBlock true = .ok m') :
    m'.stored = m.stored ++ m.pending ∧ m'.pending = [] := by
  obtain ⟨hcontent, hfile⟩ := writeBlock_succeeds h
  have hold : Imijun.entries (m.logFile.getD Log.columnTitle) = m.stored := by
    rw [stored]
    cases m.logFile with
    | none => exact entries_columnTitle.trans entries_empty.symm
    | some text => rfl
  constructor
  · rw [stored, hfile, Option.getD_some, entries_append, hold]
    rfl
  · rw [pending, hcontent, entries_empty]

/-- The forced cast is the only trap of the block. -/
theorem writeBlock_total (h : m.logFileName.isSome = true) (ok : Bool) :
    ∃ m', m.writeBlock ok = .ok m' := by
  cases hw : m.writeBlock ok with
  | ok m' => exact ⟨m', rfl⟩
  | error t =>
    rcases bind_eq_error.mp hw with hnone | ⟨name, -, hrest⟩
    · have hname : m.logFileName = none := (orThrow_eq_error.mp hnone).1
      rw [hname] at h
      cases h
    · split at hrest <;> split at hrest <;> cases hrest

end AIMLogManager

end Imijun
