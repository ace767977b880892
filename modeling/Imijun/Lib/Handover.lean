import Imijun.Lib.Transition
import Mathlib.Data.List.Nodup

/-!
# Handing over a role

Objects are made one after another and take over a role in the order they were made. Making an
object starts a handover to it; the end of a handover removes whatever object has the role at that
time and gives the role to the new one. Several handovers may be under way.

* `Orderly`: the object with the role and those waiting for it are exactly the objects present, in
  the order they were made, and everything made before them has been removed.
* `orderly_of_reaches`: this holds in every state of every run.
* `Orderly.settled`, `Orderly.mem_iff`: what it says about the objects.
-/

namespace Handover

open Transition List

/-- Objects are numbered in the order they are made. -/
structure State where
  current : Nat
  /-- the objects whose handover is under way, oldest first -/
  pending : List Nat
  present : List Nat
  removed : List Nat
  /-- the objects that have been given the role, in this order -/
  installed : List Nat
  created : Nat

inductive Event
  /-- a new object is made, and the handover to it starts -/
  | start
  /-- the oldest handover ends -/
  | finish

def step (s : State) : Event → Except Empty State
  | .start => .ok { s with
      pending := s.pending ++ [s.created]
      present := s.present ++ [s.created]
      created := s.created + 1 }
  | .finish =>
    match s.pending with
    | [] => .ok s
    | next :: pending => .ok { s with
        current := next
        pending := pending
        present := s.present.filter (· ≠ s.current)
        removed := s.removed ++ [s.current]
        installed := s.installed ++ [next] }

/-- One object, which has the role. -/
def initial : State where
  current := 0
  pending := []
  present := [0]
  removed := []
  installed := []
  created := 1

structure Orderly (s : State) : Prop where
  present : s.present = s.current :: s.pending
  all : s.removed ++ s.present = range s.created
  handed : 0 :: s.installed = s.removed ++ [s.current]

theorem orderly_initial : Orderly initial := ⟨rfl, rfl, rfl⟩

variable {s t : State}

theorem orderly_step (hs : Orderly s) {e : Event} (h : step s e = .ok t) : Orderly t := by
  cases e with
  | start =>
    obtain rfl := Except.ok.inj h
    refine ⟨?_, ?_, hs.handed⟩
    · simp [hs.present]
    · rw [← append_assoc, hs.all, range_succ]
  | finish =>
    simp only [step] at h
    cases hp : s.pending with
    | nil =>
      rw [hp] at h
      exact Except.ok.inj h ▸ hs
    | cons next pending =>
      rw [hp] at h
      obtain rfl := Except.ok.inj h
      have hpresent := hs.present
      rw [hp] at hpresent
      -- the current object occurs once, in front
      have hnodup : s.present.Nodup := (hs.all ▸ nodup_range).of_append_right
      have hfilter : s.present.filter (· ≠ s.current) = next :: pending := by
        rw [hpresent] at hnodup ⊢
        have hfront := (nodup_cons.mp hnodup).1
        rw [filter_cons_of_neg (by simp)]
        exact filter_eq_self.mpr fun x hx => decide_eq_true fun h => hfront (h ▸ hx)
      refine ⟨hfilter, ?_, ?_⟩
      · show s.removed ++ [s.current] ++ s.present.filter (· ≠ s.current) = _
        rw [hfilter, append_assoc, singleton_append, ← hpresent, hs.all]
      · show 0 :: (s.installed ++ [next]) = s.removed ++ [s.current] ++ [next]
        rw [← cons_append, hs.handed]

theorem orderly_of_reaches (h : Reaches step (fun _ _ => True) initial s) : Orderly s :=
  h.inv Orderly orderly_initial fun _ _ _ hs _ hstep => orderly_step hs hstep

namespace Orderly

/-- The role went to the objects in the order they were made. -/
theorem in_order (hs : Orderly s) : 0 :: (s.installed ++ s.pending) = range s.created := by
  rw [← cons_append, hs.handed, append_assoc, singleton_append, ← hs.present, hs.all]

theorem current_eq (hs : Orderly s) : s.current = s.installed.getLast?.getD 0 := by
  have hlast := congrArg getLast? hs.handed
  rw [getLast?_append, getLast?_cons] at hlast
  simpa using hlast.symm

/-- An object is present from its making on until it is removed. -/
theorem mem_iff (hs : Orderly s) {x : Nat} :
    x < s.created ↔ (x ∈ s.present ∧ x ∉ s.removed) ∨ (x ∈ s.removed ∧ x ∉ s.present) := by
  have hdisjoint := disjoint_of_nodup_append (hs.all ▸ nodup_range)
  rw [← mem_range, ← hs.all, mem_append]
  constructor
  · rintro (hx | hx)
    · exact .inr ⟨hx, hdisjoint hx⟩
    · exact .inl ⟨hx, fun h => hdisjoint h hx⟩
  · rintro (⟨hx, -⟩ | ⟨hx, -⟩)
    · exact .inr hx
    · exact .inl hx

theorem removed_nodup (hs : Orderly s) : s.removed.Nodup :=
  (hs.all ▸ nodup_range).of_append_left

/-- Without a handover under way only the newest object is left, and it has the role. -/
theorem settled (hs : Orderly s) (hp : s.pending = []) :
    s.present = [s.current] ∧ s.current + 1 = s.created := by
  have hpresent : s.present = [s.current] := by rw [hs.present, hp]
  refine ⟨hpresent, ?_⟩
  have hall := hs.all
  rw [hpresent] at hall
  have hlast := congrArg getLast? hall
  rw [getLast?_append, getLast?_range] at hlast
  split_ifs at hlast with h0
  · simp at hlast
  · have : s.current = s.created - 1 := by simpa using hlast
    omega

end Orderly

end Handover
