import Imijun.Lib.Transition
import Mathlib.Data.List.Forall2
import Mathlib.Data.List.Infix

/-!
# An outbox

Entries are handed over one by one. They wait in a buffer, and a flush moves the whole buffer to the
store. What the buffer and the store look like is left to the program that refines this machine; a
flush that fails is no step of it.

* `conserved`: the store followed by the buffer are the entries handed over, in order.
* `stored_mono`: the store only grows, at its end.
* `Since`: the same for a session that begins with something in the store; when the buffer is lost,
  `Since.kept` says that a prefix of the session stays.
* `Sessions`: one session after the other, each but the last ended by the loss of the buffer.
-/

namespace Outbox

open Transition

variable {α : Type*}

structure State (α : Type*) where
  stored : List α
  pending : List α
  /-- everything handed over so far, in order -/
  accepted : List α

inductive Event (α : Type*)
  | accept (entry : α)
  | flush

def step (s : State α) : Event α → Except Empty (State α)
  | .accept entry => .ok { s with
      pending := s.pending ++ [entry]
      accepted := s.accepted ++ [entry] }
  | .flush => .ok { s with stored := s.stored ++ s.pending, pending := [] }

def empty : State α where
  stored := []
  pending := []
  accepted := []

variable {s t : State α} {e : Event α}

theorem conserved_step (hs : s.stored ++ s.pending = s.accepted) (h : step s e = .ok t) :
    t.stored ++ t.pending = t.accepted := by
  cases e with
  | accept entry =>
    obtain rfl := Except.ok.inj h
    rw [← hs, List.append_assoc]
  | flush =>
    obtain rfl := Except.ok.inj h
    rw [List.append_nil]
    exact hs

/-- Nothing is lost, duplicated or reordered. -/
theorem conserved (h : Reaches step (fun _ _ => True) empty s) :
    s.stored ++ s.pending = s.accepted :=
  h.inv (fun s => s.stored ++ s.pending = s.accepted) rfl
    fun _ _ _ hs _ hstep => conserved_step hs hstep

/-- What is stored stays where it is. -/
theorem stored_mono (h : Reaches step (fun _ _ => True) s t) : s.stored <+: t.stored := by
  refine h.inv (fun t => s.stored <+: t.stored) (List.prefix_refl _) fun t e u ht _ hstep => ?_
  cases e with
  | accept entry =>
    obtain rfl := Except.ok.inj hstep
    exact ht
  | flush =>
    obtain rfl := Except.ok.inj hstep
    exact ht.trans (List.prefix_append _ _)

/-! ## Sessions -/

variable {archive : List α}

/-- The store began with `archive`, and it continues with what has been handed over since. -/
structure Since (archive : List α) (s : State α) : Prop where
  archived : archive <+: s.stored
  conserved : s.stored ++ s.pending = archive ++ s.accepted

theorem since_step (hs : Since archive s) (h : step s e = .ok t) : Since archive t := by
  cases e with
  | accept entry =>
    obtain rfl := Except.ok.inj h
    refine ⟨hs.archived, ?_⟩
    calc s.stored ++ (s.pending ++ [entry])
        = (s.stored ++ s.pending) ++ [entry] := (List.append_assoc _ _ _).symm
      _ = (archive ++ s.accepted) ++ [entry] := by rw [hs.conserved]
      _ = archive ++ (s.accepted ++ [entry]) := List.append_assoc _ _ _
  | flush =>
    obtain rfl := Except.ok.inj h
    exact ⟨hs.archived.trans (List.prefix_append _ _), (List.append_nil _).trans hs.conserved⟩

theorem since_of_reaches (hs : Since archive s) (h : Reaches step (fun _ _ => True) s t) :
    Since archive t :=
  h.inv (Since archive) hs fun _ _ _ ht _ hstep => since_step ht hstep

/-- The store holds a prefix of the session, and the buffer the rest of it. -/
theorem Since.kept (hs : Since archive s) :
    ∃ kept, s.stored = archive ++ kept ∧ kept ++ s.pending = s.accepted := by
  obtain ⟨kept, hkept⟩ := hs.archived
  have heq : archive ++ (kept ++ s.pending) = archive ++ s.accepted := by
    rw [← List.append_assoc, hkept, hs.conserved]
  exact ⟨kept, hkept.symm, List.append_cancel_left heq⟩

/-- Something in front of the store changes nothing. -/
theorem reaches_behind (front : List α) (h : Reaches step (fun _ _ => True) s t) :
    Reaches step (fun _ _ => True) { s with stored := front ++ s.stored }
      { t with stored := front ++ t.stored } := by
  induction h with
  | refl => exact .refl
  | @tail u v e _ _ hstep ih =>
    refine ih.tail (e := e) trivial ?_
    cases e with
    | accept entry =>
      obtain rfl := Except.ok.inj hstep
      rfl
    | flush =>
      obtain rfl := Except.ok.inj hstep
      simp [step]

/-- The store holds a prefix of each session that has ended, and then this session began. -/
def Sessions (ended : List (List α)) (s : State α) : Prop :=
  ∃ kept, List.Forall₂ (· <+: ·) kept ended ∧ Since kept.flatten s

variable {ended : List (List α)}

theorem sessions_empty : Sessions [] (empty : State α) :=
  ⟨[], .nil, List.prefix_refl _, rfl⟩

theorem Sessions.of_reaches (hs : Sessions ended s) (h : Reaches step (fun _ _ => True) s t) :
    Sessions ended t := by
  obtain ⟨kept, hkept, hsince⟩ := hs
  exact ⟨kept, hkept, since_of_reaches hsince h⟩

/-- The buffer is lost, and a new session begins. -/
theorem Sessions.restart (hs : Sessions ended s) :
    Sessions (ended ++ [s.accepted]) { stored := s.stored, pending := [], accepted := [] } := by
  obtain ⟨kept, hkept, hsince⟩ := hs
  obtain ⟨now, hstored, hnow⟩ := hsince.kept
  refine ⟨kept ++ [now], List.rel_append hkept (.cons ⟨_, hnow⟩ .nil), ?_⟩
  rw [hstored, List.flatten_append, List.flatten_singleton]
  exact ⟨List.prefix_refl _, rfl⟩

end Outbox
