import Imijun.LogFacts

/-!
# Reading the log back

What the columns of a line say.

* `AIMUtilities.readDay`, `AIMUtilities.readClock`: the date in a time string.
* `LogCall.read`: the call that has added a line.
* `LogCall.read_line`: a line of a call gives the call back.
-/

namespace Imijun

open Delimited

/-- A month and a day of a calendar. -/
structure DateComponents.InCalendar (now : DateComponents) : Prop where
  month : now.month ≤ 12
  day : now.day ≤ 31

instance (now : DateComponents) : Decidable now.InCalendar :=
  decidable_of_iff (now.month ≤ 12 ∧ now.day ≤ 31) ⟨fun h => ⟨h.1, h.2⟩, fun h => ⟨h.1, h.2⟩⟩

namespace AIMUtilities

/-! ## Numbers -/

/-- The number that the digits stand for. -/
def readNumber (digits : List Char) : Option Nat :=
  if digits ≠ [] ∧ digits.all Char.isDigit then some (Nat.ofDigitChars 10 digits 0) else none

theorem readNumber_toString (n : Nat) : readNumber (toString n).toList = some n := by
  rw [Nat.toString_eq_repr, Nat.toList_repr]
  have hdigits : (Nat.toDigits 10 n).all Char.isDigit = true := by
    rw [List.all_eq_true]
    exact fun c hc => Nat.isDigit_of_mem_toDigits (by decide) (by decide) hc
  have hne : Nat.toDigits 10 n ≠ [] := Nat.toDigits_ne_nil
  rw [readNumber, if_pos ⟨hne, hdigits⟩, Nat.ofDigitChars_ten_toDigits]

/-- A zero in front does not count. -/
theorem readNumber_twoDigits (n : Nat) : readNumber (twoDigits n).toList = some n := by
  unfold twoDigits
  split
  · next h =>
    have hsmall : ∀ n < 10, readNumber ("0" ++ toString n).toList = some n := by decide +kernel
    exact hsmall n h
  · exact readNumber_toString n

theorem length_twoDigits {n : Nat} (h : n < 100) : (twoDigits n).toList.length = 2 := by
  have hshort : ∀ n < 100, (twoDigits n).toList.length = 2 := by decide +kernel
  exact hshort n h

/-! ## Dates -/

/-- Three numbers of a date. -/
def readThree (first second third : List Char) : Option (Nat × Nat × Nat) := do
  let first ← readNumber first
  let second ← readNumber second
  let third ← readNumber third
  return (first, second, third)

theorem readThree_eq {first second third : List Char} {n m k : Nat}
    (hfirst : readNumber first = some n) (hsecond : readNumber second = some m)
    (hthird : readNumber third = some k) : readThree first second third = some (n, m, k) := by
  rw [readThree, hfirst, hsecond, hthird]
  rfl

/-- The year takes what the four digits of the month and the day leave. -/
def readDay (s : String) : Option (Nat × Nat × Nat) :=
  let year := s.toList.length - 4
  readThree (s.toList.take year) ((s.toList.drop year).take 2) ((s.toList.drop year).drop 2)

theorem readDay_dayString {now : DateComponents} (h : now.InCalendar) :
    readDay (dayString now) = some (now.year, now.month, now.day) := by
  have hmonth := length_twoDigits (Nat.lt_of_le_of_lt h.month (by decide : 12 < 100))
  have hday := length_twoDigits (Nat.lt_of_le_of_lt h.day (by decide : 31 < 100))
  have hdigits : (dayString now).toList = (toString now.year).toList ++
      ((twoDigits now.month).toList ++ (twoDigits now.day).toList) := by
    simp only [dayString, String.toList_append, List.append_assoc]
  have hyear : (dayString now).toList.length - 4 = (toString now.year).toList.length := by
    rw [hdigits, List.length_append, List.length_append, hmonth, hday]
    rfl
  simp only [readDay]
  rw [hyear, hdigits, List.take_left, List.drop_left, List.take_left' hmonth,
    List.drop_left' hmonth]
  exact readThree_eq (readNumber_toString _) (readNumber_twoDigits _) (readNumber_twoDigits _)

def readClock (s : String) : Option (Nat × Nat × Nat) :=
  match split ':' s with
  | [hour, minute, second] => readThree hour.toList minute.toList second.toList
  | _ => none

theorem split_clockString (now : DateComponents) : split ':' (clockString now) =
    [twoDigits now.hour, twoDigits now.minute, twoDigits now.second] := by
  have hparts : ∀ part ∈ [twoDigits now.hour, twoDigits now.minute, twoDigits now.second],
      ':' ∉ part.toList := by
    intro part hpart hmem
    simp only [List.mem_cons, List.not_mem_nil, or_false] at hpart
    rcases hpart with rfl | rfl | rfl <;> exact absurd (isDigit_of_mem_twoDigits hmem) (by decide)
  rw [← split_intercalate (List.cons_ne_nil _ _) hparts, String.intercalate_cons_cons,
    String.intercalate_cons_cons, String.intercalate_singleton, clockString]
  simp only [String.append_assoc]
  rfl

theorem readClock_clockString (now : DateComponents) :
    readClock (clockString now) = some (now.hour, now.minute, now.second) := by
  unfold readClock
  rw [split_clockString]
  exact readThree_eq (readNumber_twoDigits _) (readNumber_twoDigits _) (readNumber_twoDigits _)

end AIMUtilities

/-! ## Lines -/

/-- The call that has added the line: the columns of the time, then the arguments. -/
def LogCall.read (line : String) : Option LogCall :=
  match split '\t' line with
  | [day, clock, screenName, actionName, objectName, objectType, boxResult, result, questionType,
      chapterNumber, questionNumber] => do
    let (year, month, day) ← AIMUtilities.readDay day
    let (hour, minute, second) ← AIMUtilities.readClock clock
    return {
      record := ⟨screenName, actionName, objectName, objectType, boxResult, result, questionType,
        chapterNumber, questionNumber⟩
      now := ⟨year, month, day, hour, minute, second⟩ }
  | _ => none

/-- A line gives its call back: the arguments and the time, to the second. -/
theorem LogCall.read_line {c : LogCall} (hnow : c.now.InCalendar) (htab : c.record.Without '\t') :
    LogCall.read c.line = some c := by
  unfold LogCall.read
  rw [LogCall.split_line htab]
  show (AIMUtilities.readDay (AIMUtilities.dayString c.now) >>= _) = _
  rw [AIMUtilities.readDay_dayString hnow]
  show (AIMUtilities.readClock (AIMUtilities.clockString c.now) >>= _) = _
  rw [AIMUtilities.readClock_clockString]
  rfl

end Imijun
