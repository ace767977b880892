import Imijun.Lib.Fallible
import Imijun.Lib.Pointwise
import Mathlib.Order.Basic

/-!
# Building objects in a store that grows

A loop adds an object to a store for each of its inputs and lists the references of the objects. The
store only grows, so an object that has been added can be read from then on.

* `addAll_ok`: the invariant rule of the loop.
* `addAll_read`: when each turn adds the object its input describes, the references read as the
  objects that the inputs describe, in order.
* `addAll_sound`: a loop that runs through has met inputs that describe objects only.
-/

namespace Growing

open List

variable {ι ρ σ α : Type} {τ : Type*}

/-- Adds an object for each input; `refs` are the references listed so far. -/
def addAll (add : ι → σ → Except τ (σ × ρ)) : List ι → σ → List ρ → Except τ (σ × List ρ)
  | [], s, refs => .ok (s, refs)
  | i :: is, s, refs => do
    let (s, r) ← add i s
    addAll add is s (refs ++ [r])

variable {add : ι → σ → Except τ (σ × ρ)} {Describes : ι → α → Prop} {is : List ι} {as : List α}

/-- `Inv` relates the store to the references and to the objects added so far. -/
theorem addAll_ok (Inv : σ → List ρ → List α → Prop)
    (hadd : ∀ i a s refs done, Describes i a → Inv s refs done →
      ∃ s' r, add i s = .ok (s', r) ∧ Inv s' (refs ++ [r]) (done ++ [a]))
    (h : Forall₂ Describes is as) {s : σ} (refs : List ρ) (done : List α) (hs : Inv s refs done) :
    ∃ s' refs', addAll add is s refs = .ok (s', refs') ∧ Inv s' refs' (done ++ as) := by
  induction h generalizing s refs done with
  | nil => exact ⟨s, refs, rfl, (append_nil done).symm ▸ hs⟩
  | @cons i a is as hi _ ih =>
    have ⟨s₁, r, hstep, hs₁⟩ := hadd _ _ _ _ _ hi hs
    have ⟨s', refs', hrest, hs'⟩ := ih _ _ hs₁
    refine ⟨s', refs', Fallible.bind_eq_ok.mpr ⟨(s₁, r), hstep, hrest⟩, ?_⟩
    rw [append_assoc] at hs'
    exact hs'

/-- In a growing store. -/
theorem addAll_read [Preorder σ] (read : σ → ρ → Option α)
    (hread : ∀ s s' r a, s ≤ s' → read s r = some a → read s' r = some a) {s₀ : σ}
    (hadd : ∀ i a s, s₀ ≤ s → Describes i a →
      ∃ s' r, add i s = .ok (s', r) ∧ s ≤ s' ∧ read s' r = some a)
    (h : Forall₂ Describes is as) :
    ∃ s' refs, addAll add is s₀ [] = .ok (s', refs) ∧ s₀ ≤ s' ∧ refs.mapM (read s') = some as := by
  let Inv (s : σ) (refs : List ρ) (done : List α) : Prop :=
    s₀ ≤ s ∧ Forall₂ (fun r a => read s r = some a) refs done
  have hturn (i a s refs done) (hi : Describes i a) (hs : Inv s refs done) :
      ∃ s' r, add i s = .ok (s', r) ∧ Inv s' (refs ++ [r]) (done ++ [a]) := by
    have ⟨hs, hrefs⟩ := hs
    have ⟨s', r, hstep, hle, hr⟩ := hadd i a s hs hi
    have hold := hrefs.imp fun r a => hread s s' r a hle
    exact ⟨s', r, hstep, hs.trans hle, rel_append hold (.cons hr .nil)⟩
  have hstart : Inv s₀ [] [] := ⟨le_rfl, .nil⟩
  have ⟨s', refs, hrun, hs, hrefs⟩ := addAll_ok Inv hturn h [] [] hstart
  exact ⟨s', refs, hrun, hs, Pointwise.mapM_eq_some.mpr hrefs⟩

/-- Each input describes an object when a turn with it runs through. -/
theorem addAll_sound (hadd : ∀ i s s' r, add i s = .ok (s', r) → ∃ a, Describes i a) {s s' : σ}
    {refs refs' : List ρ} (h : addAll add is s refs = .ok (s', refs')) :
    ∃ as, Forall₂ Describes is as := by
  induction is generalizing s refs with
  | nil => exact ⟨[], .nil⟩
  | cons i is ih =>
    obtain ⟨⟨s₁, r⟩, hturn, hrest⟩ := Fallible.bind_eq_ok.mp h
    obtain ⟨a, ha⟩ := hadd i s s₁ r hturn
    obtain ⟨as, has⟩ := ih hrest
    exact ⟨a :: as, .cons ha has⟩

/-- There is a reference for each input. -/
theorem addAll_length {s s' : σ} {refs refs' : List ρ}
    (h : addAll add is s refs = .ok (s', refs')) : refs'.length = refs.length + is.length := by
  induction is generalizing s refs with
  | nil =>
    obtain ⟨-, rfl⟩ := Prod.mk.inj (Except.ok.inj h)
    rfl
  | cons i is ih =>
    obtain ⟨⟨s₁, r⟩, -, hrest⟩ := Fallible.bind_eq_ok.mp h
    rw [ih hrest, length_append, length_singleton, length_cons, Nat.add_assoc, Nat.add_comm 1]

/-! ## Tables that get more rows -/

theorem getElem?_of_isPrefix {rows rows' : List α} (h : rows <+: rows') {i : Nat} {a : α}
    (ha : rows[i]? = some a) : rows'[i]? = some a := by
  obtain ⟨hlt, rfl⟩ := List.getElem?_eq_some_iff.mp ha
  exact prefix_iff_getElem?.mp h i hlt

/-- References that can be read in one store can be read in a store where each of them can. -/
theorem mapM_mono {read read' : ρ → Option α} (h : ∀ r a, read r = some a → read' r = some a)
    {refs : List ρ} (hrefs : refs.mapM read = some as) : refs.mapM read' = some as := by
  rw [Pointwise.mapM_eq_some] at hrefs ⊢
  exact hrefs.imp h

end Growing
