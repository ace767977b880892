import Mathlib.Data.List.Basic
import Mathlib.Tactic.Common

/-!
# Steps that can trap

Rules for computations in `Except τ`: an optional value that must be present (`orThrow`) and the
inversion of a sequence of two computations (`bind_eq_ok`), which takes a handler apart into its
steps without unfolding the monad; `bind_total` puts it together again. `bind_ne_error` and
`foldlM_ne_error` show that a certain trap is never reached, and `mapM_total_iff` says when a list
of computations runs through.
-/

namespace Fallible

variable {τ : Type*} {α β : Type}

/-- The value of `o`; the trap `t` when there is none. -/
def orThrow (o : Option α) (t : τ) : Except τ α :=
  match o with
  | some a => .ok a
  | none => .error t

@[simp] theorem orThrow_eq_ok {o : Option α} {t : τ} {a : α} :
    orThrow o t = .ok a ↔ o = some a := by
  cases o <;> simp [orThrow]

@[simp] theorem orThrow_eq_error {o : Option α} {t t' : τ} :
    orThrow o t = .error t' ↔ o = none ∧ t = t' := by
  cases o <;> simp [orThrow]

/-- The trap of a computation that ends in one. -/
def trap (x : Except τ α) : Option τ :=
  match x with
  | .error t => some t
  | .ok _ => none

@[simp] theorem trap_eq_some {x : Except τ α} {t : τ} : trap x = some t ↔ x = .error t := by
  cases x <;> simp [trap]

theorem orThrow_some (a : α) (t : τ) : orThrow (some a) t = .ok a := rfl

theorem ok_bind (a : α) (f : α → Except τ β) : (.ok a >>= f) = f a := rfl

/-- A computation that avoids every trap runs through. -/
theorem exists_ok {x : Except τ α} (h : ∀ t, x ≠ .error t) : ∃ a, x = .ok a := by
  cases x with
  | ok a => exact ⟨a, rfl⟩
  | error t => exact absurd rfl (h t)

/-- A test of the result, if there is one. -/
theorem exists_ok_of_any {x : Except τ α} {P : α → Bool} (h : x.toOption.any P = true) :
    ∃ a, x = .ok a ∧ P a = true := by
  cases x with
  | error t => cases h
  | ok a => exact ⟨a, rfl, h⟩

theorem bind_eq_ok {x : Except τ α} {f : α → Except τ β} {b : β} :
    (x >>= f) = .ok b ↔ ∃ a, x = .ok a ∧ f a = .ok b := by
  cases x with
  | error e => simp [bind, Except.bind]
  | ok a => simp [bind, Except.bind]

theorem bind_eq_error {x : Except τ α} {f : α → Except τ β} {t : τ} :
    (x >>= f) = .error t ↔ x = .error t ∨ ∃ a, x = .ok a ∧ f a = .error t := by
  cases x with
  | error e => simp [bind, Except.bind]
  | ok a => simp [bind, Except.bind]

/-- A sequence runs through when each of its two steps does. -/
theorem bind_total {x : Except τ α} {f : α → Except τ β} (hx : ∃ a, x = .ok a)
    (hf : ∀ a, x = .ok a → ∃ b, f a = .ok b) : ∃ b, (x >>= f) = .ok b := by
  have ⟨a, ha⟩ := hx
  have ⟨b, hb⟩ := hf a ha
  exact ⟨b, bind_eq_ok.mpr ⟨a, ha, hb⟩⟩

/-- A computation avoids a trap when each of its two steps does. -/
theorem bind_ne_error {x : Except τ α} {f : α → Except τ β} {t : τ} (hx : x ≠ .error t)
    (hf : ∀ a, x = .ok a → f a ≠ .error t) : (x >>= f) ≠ .error t := fun h => by
  rcases bind_eq_error.mp h with h | ⟨a, ha, h⟩
  · exact hx h
  · exact hf a ha h

theorem foldlM_cons_eq_ok {f : α → β → Except τ α} {b : β} {bs : List β} {a c : α} :
    (b :: bs).foldlM f a = .ok c ↔ ∃ a', f a b = .ok a' ∧ bs.foldlM f a' = .ok c := by
  rw [List.foldlM_cons, bind_eq_ok]

/-- A fold avoids a trap when every step from a state with the invariant does. -/
theorem foldlM_ne_error {f : α → β → Except τ α} {bs : List β} {a : α} {t : τ} (Inv : α → Prop)
    (ha : Inv a) (hne : ∀ a b, Inv a → f a b ≠ .error t)
    (hInv : ∀ a b a', Inv a → f a b = .ok a' → Inv a') : bs.foldlM f a ≠ .error t := by
  induction bs generalizing a with
  | nil => simp [pure, Except.pure]
  | cons b bs ih =>
    rw [List.foldlM_cons]
    exact bind_ne_error (hne a b ha) fun a' ha' => ih (hInv a b a' ha ha')

/-- A list of computations runs through when each of them does. -/
theorem mapM_total_iff {f : α → Except τ β} {xs : List α} :
    (∃ ys, xs.mapM f = .ok ys) ↔ ∀ x ∈ xs, ∃ y, f x = .ok y := by
  induction xs with
  | nil => exact iff_of_true ⟨[], rfl⟩ fun _ hx => by cases hx
  | cons x xs ih =>
    rw [List.mapM_cons, List.forall_mem_cons, ← ih]
    constructor
    · rintro ⟨ys, h⟩
      obtain ⟨y, hy, h⟩ := bind_eq_ok.mp h
      obtain ⟨zs, hzs, -⟩ := bind_eq_ok.mp h
      exact ⟨⟨y, hy⟩, zs, hzs⟩
    · rintro ⟨hy, hzs⟩
      exact bind_total hy fun y _ => bind_total hzs fun zs _ => ⟨y :: zs, rfl⟩

end Fallible
