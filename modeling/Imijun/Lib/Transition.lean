import Mathlib.Data.List.Basic
import Mathlib.Tactic.Common

/-!
# Runs of a program that reacts to events

A program with state `σ` reacts to events `ε` through a step function that either returns the
next state or traps with a `τ`. The surroundings of the program decide which events may occur in
which state: that is the guard `ok`. A run ends at a trap.

* `Reaches step ok s t`: some run of allowed events leads from `s` to `t`.
* `Reaches.inv`: the induction principle of safety proofs.
* `Reaches.map`: a step-by-step simulation carries runs of one program to runs of another.
* `play`: an executable run, and `reaches_of_play`, which turns it into a reachability proof.
-/

namespace Transition

variable {σ ε τ : Type*}

/-- Some sequence of events, each allowed by `ok` in the state it meets, leads from `s` to the
last argument without a trap. -/
inductive Reaches (step : σ → ε → Except τ σ) (ok : σ → ε → Prop) (s : σ) : σ → Prop
  | refl : Reaches step ok s s
  | tail {t u : σ} {e : ε} : Reaches step ok s t → ok t e → step t e = .ok u → Reaches step ok s u

section Runs

variable {step : σ → ε → Except τ σ} {ok ok' : σ → ε → Prop} {s t u : σ}

/-- Safety: what holds at the start and is kept by every allowed step holds in every state a run
reaches. -/
theorem Reaches.inv (Inv : σ → Prop) (h0 : Inv s)
    (hstep : ∀ t e u, Inv t → ok t e → step t e = .ok u → Inv u) (h : Reaches step ok s t) :
    Inv t := by
  induction h with
  | refl => exact h0
  | tail _ he hs ih => exact hstep _ _ _ ih he hs

theorem Reaches.trans (h : Reaches step ok s t) (h' : Reaches step ok t u) :
    Reaches step ok s u := by
  induction h' with
  | refl => exact h
  | tail _ he hs ih => exact .tail ih he hs

/-- A run under a narrower guard is a run under a wider one. -/
theorem Reaches.mono (hok : ∀ s e, ok s e → ok' s e) (h : Reaches step ok s t) :
    Reaches step ok' s t := by
  induction h with
  | refl => exact .refl
  | tail _ he hs ih => exact .tail ih (hok _ _ he) hs

/-- Simulation: when every allowed step of the concrete program from a related state is matched by
a run of the abstract one, the abstract program follows every concrete run. -/
theorem Reaches.map {σ' ε' τ' : Type*} {astep : σ' → ε' → Except τ' σ'} {aok : σ' → ε' → Prop}
    (R : σ → σ' → Prop)
    (hsim : ∀ t e u t', R t t' → ok t e → step t e = .ok u →
      ∃ u', Reaches astep aok t' u' ∧ R u u')
    {s' : σ'} (h0 : R s s') (h : Reaches step ok s t) :
    ∃ t', Reaches astep aok s' t' ∧ R t t' := by
  induction h with
  | refl => exact ⟨s', .refl, h0⟩
  | tail _ he hs ih =>
    obtain ⟨t', hrun, ht⟩ := ih
    obtain ⟨u', hstep, hu⟩ := hsim _ _ _ t' ht he hs
    exact ⟨u', hrun.trans hstep, hu⟩

end Runs

/-! ## Executable runs -/

/-- The state after the listed events, when each of them is allowed and none traps. -/
def play (step : σ → ε → Except τ σ) (ok : σ → ε → Prop) [∀ s e, Decidable (ok s e)] :
    σ → List ε → Option σ
  | s, [] => some s
  | s, e :: es =>
    if ok s e then
      match step s e with
      | .ok t => play step ok t es
      | .error _ => none
    else none

theorem reaches_of_play {step : σ → ε → Except τ σ} {ok : σ → ε → Prop}
    [∀ s e, Decidable (ok s e)] {s t : σ} {es : List ε} (h : play step ok s es = some t) :
    Reaches step ok s t := by
  induction es generalizing s with
  | nil =>
    simp only [play, Option.some.injEq] at h
    exact h ▸ .refl
  | cons e es ih =>
    simp only [play] at h
    split at h
    · next he =>
      split at h
      · next u hs => exact (Reaches.tail .refl he hs).trans (ih h)
      · cases h
    · cases h

/-- A run that ends in a state with the decidable property `P` shows that such a state is
reachable. -/
theorem exists_reaches_of_play {step : σ → ε → Except τ σ} {ok : σ → ε → Prop}
    [∀ s e, Decidable (ok s e)] {s : σ} {es : List ε} {P : σ → Bool}
    (h : (play step ok s es).any P = true) : ∃ t, Reaches step ok s t ∧ P t = true := by
  cases hp : play step ok s es with
  | none => rw [hp] at h; cases h
  | some t => exact ⟨t, reaches_of_play hp, by simpa [hp] using h⟩

end Transition
