import Imijun.Lib.Transition
import Mathlib.Order.WellFounded

/-!
# What a run can still reach

`CanReach step ok s Q`: some run of allowed events leads from `s` to a state with the property `Q`.
The rules chain such runs (`CanReach.bind`, `CanReach.event`), carry an invariant along
(`CanReach.inv`), and repeat a round that lowers a measure until the goal is reached
(`canReach_of_measure`).
-/

namespace Transition

variable {σ ε τ : Type*} {step : σ → ε → Except τ σ} {ok : σ → ε → Prop} {s t : σ}
  {P Q : σ → Prop}

/-- Some run leads from `s` to a state with the property `Q`. -/
def CanReach (step : σ → ε → Except τ σ) (ok : σ → ε → Prop) (s : σ) (Q : σ → Prop) : Prop :=
  ∃ t, Reaches step ok s t ∧ Q t

theorem CanReach.refl (h : Q s) : CanReach step ok s Q := ⟨s, .refl, h⟩

theorem CanReach.mono (h : CanReach step ok s P) (hPQ : ∀ t, P t → Q t) :
    CanReach step ok s Q := by
  obtain ⟨t, hrun, ht⟩ := h
  exact ⟨t, hrun, hPQ t ht⟩

/-- Two runs in a row. -/
theorem CanReach.bind (h : CanReach step ok s P) (hPQ : ∀ t, P t → CanReach step ok t Q) :
    CanReach step ok s Q := by
  obtain ⟨t, hrun, ht⟩ := h
  obtain ⟨u, hrun', hu⟩ := hPQ t ht
  exact ⟨u, hrun.trans hrun', hu⟩

/-- One allowed event in front of a run. -/
theorem CanReach.event {e : ε} (he : ok s e) (hs : step s e = .ok t) (h : CanReach step ok t Q) :
    CanReach step ok s Q := by
  obtain ⟨u, hrun, hu⟩ := h
  exact ⟨u, (Reaches.tail .refl he hs).trans hrun, hu⟩

/-- What every allowed step keeps still holds where the run ends. -/
theorem CanReach.inv (Inv : σ → Prop) (h0 : Inv s)
    (hstep : ∀ t e u, Inv t → ok t e → step t e = .ok u → Inv u) (h : CanReach step ok s Q) :
    CanReach step ok s fun t => Inv t ∧ Q t := by
  obtain ⟨t, hrun, ht⟩ := h
  exact ⟨t, hrun, hrun.inv Inv h0 hstep, ht⟩

/-- Progress: when every state with the invariant has reached the goal, or can reach a state with
the invariant and a smaller measure, the goal can be reached. -/
theorem canReach_of_measure {α : Type*} [LT α] [WellFoundedLT α] (Inv goal : σ → Prop)
    (measure : σ → α)
    (hround : ∀ s, Inv s → ¬ goal s → CanReach step ok s fun t => Inv t ∧ measure t < measure s)
    (h0 : Inv s) : CanReach step ok s fun t => Inv t ∧ goal t := by
  induction hm : measure s using WellFoundedLT.induction generalizing s with
  | ind m ih =>
    by_cases hgoal : goal s
    · exact .refl ⟨h0, hgoal⟩
    · refine (hround s h0 hgoal).bind fun t ht => ?_
      obtain ⟨hinv, hlt⟩ := ht
      exact ih (measure t) (hm ▸ hlt) hinv rfl

end Transition
