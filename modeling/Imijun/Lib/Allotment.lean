import Mathlib.Algebra.Order.BigOperators.Group.List
import Mathlib.Algebra.Order.Ring.Defs
import Mathlib.Tactic.Common
import Mathlib.Tactic.Linarith
import Mathlib.Tactic.Ring

/-!
# Requests against a budget

Requests are served in order from a budget. A request that fits what is left is granted and charged.
A request that does not fit is granted what is left, and this is not charged: the next request finds
the same amount left.

* `grants`: what each request gets.
* `left`: what is left of the budget at the end.
* `uncharged`: the sum of the grants that were not charged.
* `sum_grants`: the three account for the budget.
-/

namespace Allotment

variable {K : Type*} [CommRing K] [LinearOrder K]

/-- What each request gets. -/
def grants (budget : K) : List K → List K
  | [] => []
  | request :: requests =>
    if request ≤ budget then request :: grants (budget - request) requests
    else budget :: grants budget requests

/-- What is left of the budget at the end. -/
def left (budget : K) : List K → K
  | [] => budget
  | request :: requests =>
    if request ≤ budget then left (budget - request) requests else left budget requests

/-- The sum of the grants that were not charged. -/
def uncharged (budget : K) : List K → K
  | [] => 0
  | request :: requests =>
    if request ≤ budget then uncharged (budget - request) requests
    else budget + uncharged budget requests

variable {budget request : K} {requests : List K}

theorem grants_cons_of_le (h : request ≤ budget) :
    grants budget (request :: requests) = request :: grants (budget - request) requests :=
  if_pos h

theorem grants_cons_of_not_le (h : ¬ request ≤ budget) :
    grants budget (request :: requests) = budget :: grants budget requests :=
  if_neg h

/-- The grants add up to what was charged and what was not. -/
theorem sum_grants (budget : K) (requests : List K) :
    (grants budget requests).sum = budget - left budget requests + uncharged budget requests := by
  induction requests generalizing budget with
  | nil => simp [grants, left, uncharged]
  | cons request requests ih =>
    unfold grants left uncharged
    split
    · rw [List.sum_cons, ih]
      ring
    · rw [List.sum_cons, ih]
      ring

/-- When all requests fit the budget together, each is granted and charged. -/
theorem uncharged_of_sum_le [IsStrictOrderedRing K] (hpos : ∀ r ∈ requests, 0 ≤ r)
    (hsum : requests.sum ≤ budget) :
    uncharged budget requests = 0 ∧ left budget requests = budget - requests.sum := by
  induction requests generalizing budget with
  | nil => simp [uncharged, left]
  | cons request requests ih =>
    have hrest : 0 ≤ requests.sum :=
      List.sum_nonneg fun r hr => hpos r (List.mem_cons_of_mem _ hr)
    rw [List.sum_cons] at hsum
    obtain ⟨huncharged, hleft⟩ := @ih (budget - request)
      (fun r hr => hpos r (List.mem_cons_of_mem _ hr)) (by linarith)
    unfold uncharged left
    rw [if_pos (by linarith), if_pos (by linarith), huncharged, hleft, List.sum_cons]
    exact ⟨rfl, by ring⟩

end Allotment
