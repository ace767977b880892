import Mathlib.Data.List.Basic
import Mathlib.Tactic.Common

/-!
# Text with separators

A text whose parts are separated by one character: the lines of a file, the columns of a line.

* `split`: the parts of a text.
* `split_append`: a separator between two texts separates their parts.
* `split_intercalate`: parts without the separator come back.
* `kept`: the parts that pass a filter. A log is read this way when some of its parts are not
  entries.
-/

namespace Delimited

variable {sep : Char} {keep : String → Bool}

/-- The parts of a text between the separators; an empty text has one empty part. -/
def split (sep : Char) (s : String) : List String :=
  (s.toList.splitOn sep).map String.ofList

/-- The parts that pass the filter, in order. -/
def kept (sep : Char) (keep : String → Bool) (s : String) : List String :=
  (split sep s).filter keep

theorem split_eq_singleton {s : String} (h : sep ∉ s.toList) : split sep s = [s] := by
  rw [split, List.splitOn_eq_singleton h, List.map_singleton, String.ofList_toList]

theorem split_append (a b : String) :
    split sep (a ++ String.singleton sep ++ b) = split sep a ++ split sep b := by
  have htext : (a ++ String.singleton sep ++ b).toList = a.toList ++ sep :: b.toList := by simp
  rw [split, htext, List.splitOn_append_cons_self, List.map_append]
  rfl

theorem split_intercalate {parts : List String} (hne : parts ≠ [])
    (hsep : ∀ part ∈ parts, sep ∉ part.toList) :
    split sep ((String.singleton sep).intercalate parts) = parts := by
  have hlists : ∀ l ∈ parts.map String.toList, sep ∉ l := by simpa using hsep
  rw [split, String.toList_intercalate, String.toList_singleton,
    List.splitOn_intercalate sep hlists (by simpa using hne), List.map_map]
  exact List.map_id'' (fun _ => String.ofList_toList) parts

/-! ## Filtered parts -/

theorem kept_append (a b : String) :
    kept sep keep (a ++ String.singleton sep ++ b) = kept sep keep a ++ kept sep keep b := by
  rw [kept, split_append, List.filter_append]
  rfl

theorem kept_of_keep {s : String} (h : sep ∉ s.toList) (hs : keep s = true) :
    kept sep keep s = [s] := by
  rw [kept, split_eq_singleton h, List.filter_singleton, hs, cond_true]

theorem kept_of_drop {s : String} (h : sep ∉ s.toList) (hs : keep s = false) :
    kept sep keep s = [] := by
  rw [kept, split_eq_singleton h, List.filter_singleton, hs, cond_false]

/-- A text that starts with the separator. -/
theorem kept_separator (h : keep "" = false) (b : String) :
    kept sep keep (String.singleton sep ++ b) = kept sep keep b := by
  have happend : kept sep keep ("" ++ String.singleton sep ++ b) =
      kept sep keep "" ++ kept sep keep b := kept_append "" b
  rwa [String.empty_append, kept_of_drop (by simp) h, List.nil_append] at happend

/-! ## Joined parts -/

/-- A character of neither the separator nor a part does not occur in the joined parts. -/
theorem not_mem_intercalate {ch : Char} {s : String} {parts : List String} (hs : ch ∉ s.toList)
    (hparts : ∀ part ∈ parts, ch ∉ part.toList) : ch ∉ (s.intercalate parts).toList := by
  induction parts with
  | nil => simp
  | cons part parts ih =>
    have hpart := hparts part List.mem_cons_self
    by_cases hnil : parts = []
    · simpa [hnil] using hpart
    · rw [String.intercalate_cons_of_ne_nil hnil, String.toList_append, String.toList_append,
        List.mem_append, List.mem_append]
      have hrest := ih fun q hq => hparts q (List.mem_cons_of_mem _ hq)
      exact not_or_intro (not_or_intro hpart hs) hrest

/-- The joined parts with one separator in front of each. -/
theorem separator_intercalate {s : String} {parts : List String} (hne : parts ≠ []) :
    s ++ s.intercalate parts = String.join (parts.map (s ++ ·)) := by
  induction parts with
  | nil => exact absurd rfl hne
  | cons part parts ih =>
    by_cases hparts : parts = []
    · simp [hparts]
    · rw [String.intercalate_cons_of_ne_nil hparts, List.map_cons, String.join_cons, ← ih hparts]
      simp only [String.append_assoc]

end Delimited
