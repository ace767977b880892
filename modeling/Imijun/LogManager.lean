import Imijun.AppConstant
import Imijun.Lib.Delimited
import Imijun.Lib.Fallible
import Imijun.Lib.Transition

/-!
# The log

`AIMLogManager` collects the records of a run in `content` and appends them to a file of the
document directory. `writeLogToFile` only puts a block on the main queue; the block reads the
buffer when it runs.

* `AIMUtilities.getTimeString`, `AIMUtilities.getFileName`: the texts made of the current time.
* `LogCall`: a call of `record`, and the line it adds.
* `AIMLogManager.record`, `AIMLogManager.writeBlock`: the method, and the block of
  `writeLogToFile`.
* `LogRun`: the manager, the main queue and the calls so far, stepping on `LogEvent`s.

The write of a file happens as a whole or fails, which the event says. A file of the document
directory is named by its last path component.
-/

namespace Imijun

open Fallible

/-! ## Time -/

/-- The components of a date that the log reads. -/
structure DateComponents where
  year : Nat
  month : Nat
  day : Nat
  hour : Nat
  minute : Nat
  second : Nat
  deriving DecidableEq, Repr

namespace AIMUtilities

/-- The format `%0.2d`. -/
def twoDigits (n : Nat) : String :=
  if n < 10 then "0" ++ toString n else toString n

/-- `%d%0.2d%0.2d`, the part of the time string before its tab. -/
def dayString (now : DateComponents) : String :=
  toString now.year ++ twoDigits now.month ++ twoDigits now.day

/-- `%0.2d:%0.2d:%0.2d`, the part of the time string after its tab. -/
def clockString (now : DateComponents) : String :=
  twoDigits now.hour ++ ":" ++ twoDigits now.minute ++ ":" ++ twoDigits now.second

def getTimeString (now : DateComponents) : String :=
  dayString now ++ "\t" ++ clockString now

def getFileName (now : DateComponents) : String :=
  dayString now ++ "_" ++ twoDigits now.hour ++ twoDigits now.minute ++ twoDigits now.second ++
    ".csv"

end AIMUtilities

/-! ## Records -/

/-- The nine arguments, in the order of the columns. -/
def LogRecord.fields (r : LogRecord) : List String :=
  [r.screenName, r.actionName, r.objectName, r.objectType, r.boxResult, r.result, r.questionType,
    r.chapterNumber, r.questionNumber]

/-- A call of `record`: its arguments and the time it is made at. -/
structure LogCall where
  record : LogRecord
  now : DateComponents
  deriving DecidableEq, Repr

namespace LogCall

/-- The line that the call adds to the log. -/
def line (c : LogCall) : String :=
  AIMUtilities.getTimeString c.now ++ "\t" ++ c.record.screenName ++ "\t" ++ c.record.actionName ++
    "\t" ++ c.record.objectName ++ "\t" ++ c.record.objectType ++ "\t" ++ c.record.boxResult ++
    "\t" ++ c.record.result ++ "\t" ++ c.record.questionType ++ "\t" ++ c.record.chapterNumber ++
    "\t" ++ c.record.questionNumber

/-- The eleven columns of the line: day and clock time, then the arguments. -/
def columns (c : LogCall) : List String :=
  AIMUtilities.dayString c.now :: AIMUtilities.clockString c.now :: c.record.fields

end LogCall

/-! ## The manager -/

/-- The buffer of `AIMLogManager`, the default `logFileName` and the document directory. -/
structure AIMLogManager where
  content : String
  /-- `UserDefaults.standard.object(forKey: "logFileName")` -/
  logFileName : Option String
  /-- the texts of the files in the document directory, by name -/
  files : String → Option String

namespace AIMLogManager

/-- The text of the log file, when there is one. -/
def logFile (m : AIMLogManager) : Option String :=
  m.logFileName.bind m.files

/-- The file name after a `record` at the time `fileNow`: a missing name is set, and the name of a
file that does not exist is replaced while the buffer is empty. -/
def recordFileName (m : AIMLogManager) (fileNow : DateComponents) : Option String :=
  match m.logFileName with
  | none => some (AIMUtilities.getFileName fileNow)
  | some name =>
    if m.files name = none ∧ m.content = "" then some (AIMUtilities.getFileName fileNow)
    else some name

/-- `record`. The time is read twice, for the file name and for the line. -/
def record (m : AIMLogManager) (fileNow : DateComponents) (c : LogCall) : AIMLogManager :=
  { m with
    logFileName := m.recordFileName fileNow
    content := if m.content = "" then m.content ++ c.line else m.content ++ ("\n" ++ c.line) }

/-- Put `text` into the file `name`. -/
def write (m : AIMLogManager) (name text : String) : String → Option String :=
  Function.update m.files name (some text)

/-- The block of `writeLogToFile`. The separator or the header goes into the buffer before the
write is tried, and stays there when the write fails. -/
def writeBlock (m : AIMLogManager) (writeSucceeds : Bool) : Except Trap AIMLogManager := do
  let name ← orThrow m.logFileName .unexpectedNil
  match m.files name with
  | some text =>
    let content := "\n" ++ m.content
    if writeSucceeds then
      return { m with files := m.write name (text ++ content), content := "" }
    else
      return { m with content := content }
  | none =>
    let content := Log.columnTitle ++ "\n" ++ m.content
    if writeSucceeds then
      return { m with files := m.write name content, content := "" }
    else
      return { m with content := content }

end AIMLogManager

/-! ## Runs -/

/-- The manager and its surroundings: the number of blocks on the main queue, and the calls of
`record` so far. -/
structure LogRun where
  manager : AIMLogManager
  queued : Nat
  calls : List LogCall

inductive LogEvent
  | record (fileNow : DateComponents) (call : LogCall)
  | writeLogToFile
  /-- the next block of the main queue runs -/
  | runBlock (writeSucceeds : Bool)
  /-- the application ends and is started again: the defaults and the files stay -/
  | restart
  deriving DecidableEq, Repr

namespace LogRun

/-- The buffer is empty and there is no log file yet; the defaults may hold a file name. -/
def start (logFileName : Option String) : LogRun where
  manager := ⟨"", logFileName, fun _ => none⟩
  queued := 0
  calls := []

/-- `writeLogToFile`: an empty buffer is tested for here, and not again in the block. -/
def writeLogToFile (s : LogRun) : LogRun :=
  if s.manager.content = "" then s else { s with queued := s.queued + 1 }

def step (s : LogRun) : LogEvent → Except Trap LogRun
  | .record fileNow call =>
    .ok { s with manager := s.manager.record fileNow call, calls := s.calls ++ [call] }
  | .writeLogToFile => .ok s.writeLogToFile
  | .runBlock writeSucceeds => do
    let manager ← s.manager.writeBlock writeSucceeds
    return { s with manager := manager, queued := s.queued - 1 }
  | .restart => .ok { s with manager := { s.manager with content := "" }, queued := 0 }

end LogRun

end Imijun
