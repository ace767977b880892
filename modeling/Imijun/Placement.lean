import Imijun.RunFacts

/-!
# Placement

An accepted drop takes effect in two parts: `endMovedChoosePieceView` sets the slot's status, and
the completion writes the content, removes the piece and tests for the end of the question.

* `PlacementInv`: what the slots, the list, the pending drops and the reports of a run say about
  each other.
* `placement_sound`: in every run in which no touch begins on a piece whose accepted drop is
  pending, a slot with status `true` goes back to a drop close enough to it, the slot of a blank
  answer never gets the status, the slot of a removed piece shows the piece's content, and the end
  of the question is reported once, when the last piece is removed.
-/

namespace Imijun

open Transition Fallible Pointwise List

/-! ## Fresh slots -/

theorem makeSlots_status {question : AIMQuestion} {pattern : AIMPattern} {column i : Nat}
    {below : ℚ} {types : List Int} {slots : List AIMPatternPiece}
    (h : makeSlots question pattern column below types i = .ok slots) :
    ∀ slot ∈ slots, slot.status = false := by
  induction types generalizing i slots with
  | nil =>
    obtain rfl := Except.ok.inj h
    simp
  | cons type types ih =>
    obtain ⟨slot, hslot, h⟩ := bind_eq_ok.mp h
    obtain ⟨rest, hrest, h⟩ := bind_eq_ok.mp h
    obtain rfl := Except.ok.inj h
    have hfresh : slot.status = false := by
      unfold makeSlot at hslot
      dsimp only at hslot
      split_ifs at hslot
      · obtain ⟨_, h, -⟩ := bind_eq_ok.mp hslot
        cases h
      · obtain ⟨piece, -, hslot⟩ := bind_eq_ok.mp hslot
        obtain ⟨hint, -, hslot⟩ := bind_eq_ok.mp hslot
        obtain rfl := Except.ok.inj hslot
        rfl
    exact forall_mem_cons.mpr ⟨hfresh, ih hrest⟩

namespace QuestionRun

variable {ui : Platform} {s s' : QuestionRun} {e : Event} {list : AIMListPieceView} {n : Nat}

/-- No touch begins on a piece whose accepted drop is pending. -/
def NotPending (s : QuestionRun) (e : Event) : Prop :=
  e.AtTouch (· ∉ s.acceptedPieces)

instance (s : QuestionRun) (e : Event) : Decidable (s.NotPending e) := by
  unfold NotPending; infer_instance

/-! ## Slots by position -/

def StatusAt (slots : List AIMPatternPiece) (k : Nat) : Prop :=
  ∃ slot, slots[k]? = some slot ∧ slot.status = true

def PlacedAt (slots : List AIMPatternPiece) (k : Nat) (content : String) : Prop :=
  ∃ slot, slots[k]? = some slot ∧ slot.Placed content

theorem statusAt_keeps {xs ys : List AIMPatternPiece} (h : Forall₂ KeepsSlot xs ys) {k : Nat} :
    StatusAt ys k ↔ StatusAt xs k := by
  constructor
  · rintro ⟨slot, hslot, hstatus⟩
    obtain ⟨old, hold, hkeeps⟩ := forall₂_getElem?_right h hslot
    exact ⟨old, hold, hkeeps.status.symm.trans hstatus⟩
  · rintro ⟨slot, hslot, hstatus⟩
    obtain ⟨new, hnew, hkeeps⟩ := forall₂_getElem?_left h hslot
    exact ⟨new, hnew, hkeeps.status.trans hstatus⟩

theorem PlacedAt.keeps {xs ys : List AIMPatternPiece} {k : Nat} {c : String}
    (hp : PlacedAt xs k c) (h : Forall₂ KeepsSlot xs ys) : PlacedAt ys k c := by
  obtain ⟨slot, hslot, hplaced⟩ := hp
  obtain ⟨new, hnew, hkeeps⟩ := forall₂_getElem?_left h hslot
  exact ⟨new, hnew, hkeeps.placed c hplaced⟩

theorem statusAt_setStatus {slots : List AIMPatternPiece} {j k : Nat} {slot : AIMPatternPiece}
    (hj : slots[j]? = some slot) :
    StatusAt (slots.modify j fun slot => { slot with status := true }) k ↔
      k = j ∨ StatusAt slots k := by
  by_cases hk : k = j
  · subst hk
    simp [StatusAt, hj]
  · simp [StatusAt, hk, getElem?_modify_ne _ _ (Ne.symm hk)]

theorem PlacedAt.setStatus {slots : List AIMPatternPiece} {k : Nat} {c : String}
    (hp : PlacedAt slots k c) (j : Nat) :
    PlacedAt (slots.modify j fun slot => { slot with status := true }) k c := by
  obtain ⟨slot, hslot, hplaced⟩ := hp
  by_cases hk : j = k
  · subst hk
    exact ⟨{ slot with status := true }, by rw [getElem?_modify_eq, hslot]; rfl,
      rfl, hplaced.backgroundImage, hplaced.ideaEnabled, hplaced.currentContent⟩
  · exact ⟨slot, by rw [getElem?_modify_ne _ _ hk, hslot], hplaced⟩

theorem statusAt_fixed {slots : List AIMPatternPiece} {j k : Nat} {c : String} :
    StatusAt (slots.modify j (·.fixed c)) k ↔ StatusAt slots k := by
  by_cases hk : j = k
  · subst hk
    cases hslot : slots[j]? <;> simp [StatusAt, hslot]
  · simp [StatusAt, getElem?_modify_ne _ _ hk]

theorem placedAt_fixed {slots : List AIMPatternPiece} {j : Nat} (h : StatusAt slots j)
    (c : String) : PlacedAt (slots.modify j (·.fixed c)) j c := by
  obtain ⟨slot, hslot, hstatus⟩ := h
  exact ⟨_, by rw [getElem?_modify_eq, hslot]; rfl, AIMPatternPiece.placed_fixed hstatus c⟩

theorem PlacedAt.fixed {slots : List AIMPatternPiece} {j k : Nat} {c d : String}
    (hp : PlacedAt slots k d) (hjk : j ≠ k) : PlacedAt (slots.modify j (·.fixed c)) k d := by
  obtain ⟨slot, hslot, hplaced⟩ := hp
  exact ⟨slot, by rw [getElem?_modify_ne _ _ hjk, hslot], hplaced⟩

/-- Only a drop sets the status of a slot. -/
theorem statusAt_step (he : s.Enabled e) (hother : e ≠ .touchEnded) (h : s.step ui e = .ok s')
    {k : Nat} : StatusAt s'.view.listPatternPieceView k ↔
      StatusAt s.view.listPatternPieceView k := by
  cases step_outcome he h with
  | quiet _ same _ => exact statusAt_keeps same.slots
  | began _ => exact Iff.rfl
  | accepted _ _ _ _ => exact absurd rfl hother
  | wrong _ _ _ _ _ => exact absurd rfl hother
  | cancelled => exact Iff.rfl
  | resignedIdle same _ _ => exact statusAt_keeps same.slots
  | resigned same _ _ _ _ => exact statusAt_keeps same.slots
  | acceptedDone _ done =>
    obtain ⟨a, -, hslots⟩ := done.slots
    exact (statusAt_keeps hslots).trans statusAt_fixed
  | returnedDone _ => exact Iff.rfl
  | animation _ =>
    exact statusAt_keeps (AIMQuestionContentView.runAnimation_sameDrag ui s.view _).slots

/-! ## The invariant -/

/-- Piece `p` was dropped within `kMatchRadian` of its slot. -/
def DroppedNear (s : QuestionRun) (p : Nat) : Prop :=
  ∃ d ∈ s.history, d.piece = p ∧ mathDistance d.slotCenter d.point ≤ kMatchRadian

/-- The state of a run on the list `list` with `n` pieces. -/
structure PlacementInv (list : AIMListPieceView) (n : Nat) (s : QuestionRun) : Prop where
  face : ∀ p, (s.view.listPieceView.pieceView p).face = (list.pieceView p).face
  listed : s.view.listPieceView.pieceViewArray <+ range n
  dropped : ∀ k, StatusAt s.view.listPatternPieceView k →
    ∃ p < n, (list.pieceView p).patternIndex = k ∧ s.DroppedNear p
  removed : ∀ p < n, p ∉ s.view.listPieceView.pieceViewArray → ∃ a,
    (list.pieceView p).piece = some a ∧
      PlacedAt s.view.listPatternPieceView (list.pieceView p).patternIndex a.content
  /-- an accepted drop that is pending has set the status already -/
  pending : ∀ k p, .accepted k p ∈ s.drops → p ∈ s.view.listPieceView.pieceViewArray ∧
    (list.pieceView p).patternIndex = k ∧ StatusAt s.view.listPatternPieceView k
  distinct : s.acceptedPieces.Nodup
  touched : ∀ t, s.touch = some t → t.piece ∈ s.view.listPieceView.pieceViewArray ∧
    t.piece ∉ s.acceptedPieces
  finish : s.view.reports.count .finishAtCurrentQuestion =
    if s.view.listPieceView.pieceViewArray = [] ∧ n ≠ 0 then 1 else 0

section Step

variable (hs : s.PlacementInv list n)
include hs

theorem PlacementInv.patternIndex (p : Nat) :
    (s.view.listPieceView.pieceView p).patternIndex = (list.pieceView p).patternIndex :=
  congrArg Prod.fst (hs.face p)

theorem PlacementInv.piece (p : Nat) :
    (s.view.listPieceView.pieceView p).piece = (list.pieceView p).piece :=
  congrArg (fun f => f.2.2.1) (hs.face p)

/-- A step that keeps the slots, the list and the reports, and makes no drop. -/
theorem PlacementInv.of_keeps
    (hslots : Forall₂ KeepsSlot s.view.listPatternPieceView s'.view.listPatternPieceView)
    (hface : ∀ p, (s'.view.listPieceView.pieceView p).face =
      (s.view.listPieceView.pieceView p).face)
    (hpieces : s'.view.listPieceView.pieceViewArray = s.view.listPieceView.pieceViewArray)
    (hreports : s'.view.reports.count .finishAtCurrentQuestion =
      s.view.reports.count .finishAtCurrentQuestion)
    (hhistory : ∀ d ∈ s.history, d ∈ s'.history)
    (hdrops : ∀ k p, .accepted k p ∈ s'.drops → .accepted k p ∈ s.drops)
    (hdistinct : s'.acceptedPieces.Nodup)
    (htouched : ∀ t, s'.touch = some t → t.piece ∈ s.view.listPieceView.pieceViewArray ∧
      t.piece ∉ s'.acceptedPieces) : s'.PlacementInv list n where
  face p := (hface p).trans (hs.face p)
  listed := hpieces ▸ hs.listed
  dropped k hk := by
    obtain ⟨p, hp, hpk, d, hd, hdrop⟩ := hs.dropped k ((statusAt_keeps hslots).mp hk)
    exact ⟨p, hp, hpk, d, hhistory d hd, hdrop⟩
  removed p hp hout := by
    obtain ⟨a, ha, hplaced⟩ := hs.removed p hp (hpieces ▸ hout)
    exact ⟨a, ha, hplaced.keeps hslots⟩
  pending k p h := by
    obtain ⟨hp, hpk, hstatus⟩ := hs.pending k p (hdrops k p h)
    exact ⟨hpieces ▸ hp, hpk, (statusAt_keeps hslots).mpr hstatus⟩
  distinct := hdistinct
  touched t ht := by rw [hpieces]; exact htouched t ht
  finish := by rw [hreports, hpieces]; exact hs.finish

theorem PlacementInv.of_sameDrag {v : AIMQuestionContentView} (same : SameDrag s.view v)
    (animations : List Animation) :
    PlacementInv list n { s with view := v, animations := animations } :=
  hs.of_keeps same.slots (fun p => by rw [same.pieceView]) same.pieceViewArray
    (by rw [same.reports]) (fun _ h => h) (fun _ _ h => h) hs.distinct hs.touched

theorem placementInv_accepted {t : Touch} {slot : AIMPatternPiece} {l : AIMListPieceView}
    (ht : s.touch = some t)
    (hslot : s.view.listPatternPieceView[(s.view.listPieceView.pieceView t.piece).patternIndex]? =
      some slot)
    (hmatched : slot.matched s.view.currentSelectPieceView.frame.center = true)
    (hl : s.view.listPieceView.reRender = .ok l) :
    PlacementInv list n
      (s.dropped (s.view.accepted slot (s.view.listPieceView.pieceView t.piece).patternIndex l)
        t.piece (.accepted (s.view.listPieceView.pieceView t.piece).patternIndex t.piece)) := by
  have hsame := AIMListPieceView.reRender_same hl
  obtain ⟨hlisted, hfree⟩ := hs.touched t ht
  have hpieces : (s.view.accepted slot (s.view.listPieceView.pieceView t.piece).patternIndex
      l).listPieceView.pieceViewArray = s.view.listPieceView.pieceViewArray := hsame.pieceViewArray
  constructor
  · exact fun p => (hsame.face p).trans (hs.face p)
  · exact hpieces ▸ hs.listed
  · intro k hk
    rcases (statusAt_setStatus hslot).mp hk with rfl | hk
    · -- this drop is the one that set the status
      refine ⟨t.piece, mem_range.mp (hs.listed.subset hlisted), (hs.patternIndex _).symm, _,
        mem_append_right _ (mem_singleton_self _), rfl, ?_⟩
      simp only [dropOf, hslot]
      exact (withinRadian_iff kMatchRadian_nonneg).mp hmatched
    · obtain ⟨p, hp, hpk, d, hd, hdrop⟩ := hs.dropped k hk
      exact ⟨p, hp, hpk, d, mem_append_left _ hd, hdrop⟩
  · intro p hp hout
    obtain ⟨a, ha, hplaced⟩ := hs.removed p hp (hpieces ▸ hout)
    exact ⟨a, ha, hplaced.setStatus _⟩
  · intro k p h
    rcases mem_append.mp h with h | h
    · obtain ⟨hp, hpk, hstatus⟩ := hs.pending k p h
      exact ⟨hpieces ▸ hp, hpk, (statusAt_setStatus hslot).mpr (.inr hstatus)⟩
    · obtain ⟨rfl, rfl⟩ := DropCompletion.accepted.inj (mem_singleton.mp h)
      exact ⟨hpieces ▸ hlisted, (hs.patternIndex _).symm, (statusAt_setStatus hslot).mpr (.inl rfl)⟩
  · rw [acceptedPieces_dropped_accepted]
    exact nodup_append.mpr ⟨hs.distinct, nodup_singleton _, fun a ha b hb => by
      rw [mem_singleton.mp hb]; exact fun h => hfree (h ▸ ha)⟩
  · intro u hu
    cases hu
  · exact hpieces ▸ hs.finish

theorem placementInv_wrong {t : Touch} {start : CGPoint} {failure : List Call}
    (hfailure : ∀ c ∈ failure, c.isReport = false) :
    PlacementInv list n
      (s.dropped (s.view.rejected failure start) t.piece (.returned t.piece)) := by
  refine hs.of_keeps (keepsSlots_refl _) (fun _ => rfl) rfl ?_ (fun d hd => mem_append_left _ hd)
    (fun k p h => ?_) ?_ (fun u hu => by cases hu)
  · show (s.view.rejected failure start).reports.count _ = _
    rw [reports_rejected hfailure, count_append]
    simp
  · rcases mem_append.mp h with h | h
    · exact h
    · cases mem_singleton.mp h
  · rw [acceptedPieces_dropped_returned]
    exact hs.distinct

theorem placementInv_acceptedDone {i k p : Nat} {v : AIMQuestionContentView}
    (hslots : ∀ p < n, ∀ q < n,
      (list.pieceView p).patternIndex = (list.pieceView q).patternIndex → p = q)
    (hi : s.drops[i]? = some (.accepted k p)) (done : s.view.AcceptedDone k p v) :
    PlacementInv list n (s.completed i (.accepted k p) v [.blur 4]) := by
  obtain ⟨hp, hpk, hstatus⟩ := hs.pending k p (mem_of_getElem? hi)
  obtain ⟨a, ha, hkeeps⟩ := done.slots
  obtain ⟨t, -, hlist⟩ := AIMListPieceView.removePiece_ok.mp done.list
  have hview : (s.completed i (.accepted k p) v [.blur 4]).view.listPieceView = _ := hlist
  have hpieces : v.listPieceView.pieceViewArray =
      s.view.listPieceView.pieceViewArray.filter (· ≠ p) := by rw [hlist]
  -- the other pending pieces are other pieces
  have hperm := acceptedPieces_perm hi v [.blur 4]
  obtain ⟨hout, hrest⟩ := nodup_cons.mp (hperm.nodup_iff.mp hs.distinct)
  have hsub : ∀ q ∈ (s.completed i (.accepted k p) v [.blur 4]).acceptedPieces,
      q ∈ s.acceptedPieces := fun q hq => hperm.mem_iff.mpr (mem_cons_of_mem _ hq)
  have hother {q : Nat} (hq : q ∈ s.view.listPieceView.pieceViewArray) (hqp : q ≠ p) :
      q ∈ (s.completed i (.accepted k p) v [.blur 4]).view.listPieceView.pieceViewArray := by
    rw [hview]
    exact mem_filter.mpr ⟨hq, decide_eq_true hqp⟩
  constructor
  · intro q
    rw [hview]
    exact hs.face q
  · rw [hview]
    exact filter_sublist.trans hs.listed
  · intro j hj
    exact hs.dropped j (statusAt_fixed.mp ((statusAt_keeps hkeeps).mp hj))
  · intro q hq hgone
    by_cases hqp : q = p
    · subst hqp
      exact ⟨a, (hs.piece q).symm.trans ha, hpk ▸ (placedAt_fixed hstatus a.content).keeps hkeeps⟩
    · obtain ⟨b, hb, hplaced⟩ := hs.removed q hq fun hin => hgone (hother hin hqp)
      have hjk : k ≠ (list.pieceView q).patternIndex := fun h => hqp (hslots q hq p
        (mem_range.mp (hs.listed.subset hp)) (hpk.trans h).symm)
      exact ⟨b, hb, (hplaced.fixed hjk).keeps hkeeps⟩
  · intro j q h
    obtain ⟨hq, hqj, hq'⟩ := hs.pending j q (mem_of_mem_eraseIdx h)
    have hqp : q ≠ p := fun hqp => hout (hqp ▸ mem_acceptedPieces.mpr ⟨j, h⟩)
    exact ⟨hother hq hqp, hqj, (statusAt_keeps hkeeps).mpr (statusAt_fixed.mpr hq')⟩
  · exact hrest
  · intro u hu
    obtain ⟨hlisted, hfree⟩ := hs.touched u hu
    have hup : u.piece ≠ p := fun h => hfree (h ▸ hperm.mem_iff.mpr mem_cons_self)
    exact ⟨hother hlisted hup, fun h => hfree (hsub _ h)⟩
  · -- the list was not empty before, so the end has not been reported yet
    have hnonempty : s.view.listPieceView.pieceViewArray ≠ [] := ne_nil_of_mem hp
    have hn : n ≠ 0 := fun h => by simpa [h] using mem_range.mp (hs.listed.subset hp)
    show v.reports.count _ = if v.listPieceView.pieceViewArray = [] ∧ n ≠ 0 then 1 else 0
    have hcount := hs.finish
    rw [if_neg fun h => hnonempty h.1] at hcount
    rw [reports_acceptedDone done, count_append, hcount]
    by_cases hend : v.listPieceView.pieceViewArray = [] <;> simp [hend, hn]

theorem placementInv_returnedDone {i p : Nat} (hi : s.drops[i]? = some (.returned p)) :
    PlacementInv list n
      (s.completed i (.returned p) (s.view.returnedCompletion p) []) := by
  have hperm := acceptedPieces_perm hi (s.view.returnedCompletion p) []
  refine hs.of_keeps (keepsSlots_refl _) (AIMListPieceView.hidePiece_face _ _ _) rfl rfl
    (fun _ h => h) (fun k q h => mem_of_mem_eraseIdx h) (hperm.nodup_iff.mp hs.distinct)
    fun t ht => ?_
  obtain ⟨hlisted, hfree⟩ := hs.touched t ht
  exact ⟨hlisted, fun h => hfree (hperm.mem_iff.mpr h)⟩

/-- Nothing but the touch and the hiding of a piece differs. -/
theorem PlacementInv.of_hidden {v : AIMQuestionContentView} {touch : Option Touch}
    (hslots : v.listPatternPieceView = s.view.listPatternPieceView)
    (hlist : v.listPieceView.pieceViewArray = s.view.listPieceView.pieceViewArray)
    (hface : ∀ p, (v.listPieceView.pieceView p).face = (s.view.listPieceView.pieceView p).face)
    (hcalls : v.calls = s.view.calls)
    (htouched : ∀ t, touch = some t → t.piece ∈ s.view.listPieceView.pieceViewArray ∧
      t.piece ∉ s.acceptedPieces) :
    PlacementInv list n { s with view := v, touch := touch } :=
  hs.of_keeps (hslots.symm ▸ keepsSlots_refl _) hface hlist
    (by simp only [AIMQuestionContentView.reports, hcalls]) (fun _ h => h) (fun _ _ h => h)
    hs.distinct htouched

theorem placementInv_step
    (hslots : ∀ p < n, ∀ q < n,
      (list.pieceView p).patternIndex = (list.pieceView q).patternIndex → p = q)
    (he : s.Enabled e) (hnot : s.NotPending e) (h : s.step ui e = .ok s') :
    s'.PlacementInv list n := by
  cases step_outcome he h with
  | quiet _ same _ => exact hs.of_sameDrag same s.animations
  | began _ =>
    refine hs.of_hidden rfl rfl (AIMListPieceView.hidePiece_face _ _ _) rfl fun t ht => ?_
    obtain rfl := Option.some.inj ht
    exact ⟨he.2.1, hnot⟩
  | accepted ht hslot hmatched hl => exact placementInv_accepted hs ht hslot hmatched hl
  | wrong _ _ _ _ hfailure => exact placementInv_wrong hs hfailure
  | cancelled => exact hs.of_hidden rfl rfl (fun _ => rfl) rfl fun t ht => by cases ht
  | resignedIdle same _ _ =>
    exact (hs.of_sameDrag same s.animations).of_hidden rfl rfl (fun _ => rfl) rfl
      fun t ht => by cases ht
  | @resigned w p start same _ _ _ _ =>
    cases p with
    | none =>
      exact (hs.of_sameDrag same s.animations).of_hidden rfl rfl (fun _ => rfl) rfl
        fun t ht => by cases ht
    | some p =>
      exact (hs.of_sameDrag same s.animations).of_hidden rfl rfl
        (AIMListPieceView.hidePiece_face _ _ _) rfl fun t ht => by cases ht
  | acceptedDone hi done => exact placementInv_acceptedDone hs hslots hi done
  | returnedDone hi => exact placementInv_returnedDone hs hi
  | animation _ =>
    exact hs.of_sameDrag (AIMQuestionContentView.runAnimation_sameDrag ui s.view _) _

end Step

/-! ## Runs -/

theorem placementInv_start {question : AIMQuestion} {draws : Nat → Nat} {pattern : AIMPattern}
    {data : PatternUIData} {slots : List AIMPatternPiece}
    (hlist : AIMQuestionContentView.initAIMListPieceView ui question draws = .ok list)
    (hslots : AIMQuestionContentView.initPatterView question pattern data = .ok slots) :
    PlacementInv list (AIMListPieceView.pieceCount question.answers)
      (QuestionRun.start (AIMQuestionContentView.fresh question pattern data list slots)) := by
  have hfilled := (AIMListPieceView.setData_pieces hlist).filled
  have hpieces : (AIMQuestionContentView.fresh question pattern data list
      slots).listPieceView.pieceViewArray = _ := hfilled.pieceViewArray
  refine ⟨fun _ => rfl, hpieces ▸ Sublist.refl _, fun k hk => ?_, fun p hp hout => ?_,
    fun k p h => (by cases h), nodup_nil, fun t ht => (by cases ht), ?_⟩
  · obtain ⟨slot, hslot, hstatus⟩ := hk
    cases (makeSlots_status hslots slot (mem_of_getElem? hslot)).symm.trans hstatus
  · exact absurd (hpieces ▸ mem_range.mpr hp) hout
  · rw [if_neg]
    · rfl
    · rintro ⟨hempty, hn⟩
      exact hn (range_eq_nil.mp (hpieces.symm.trans hempty))

/-- Placement and finish over a whole run in which no touch begins on a piece whose accepted drop is
pending. The pieces are numbered below `pieceCount`, one for each non-blank answer. -/
theorem placement_sound {question : AIMQuestion} {v : AIMQuestionContentView}
    (hstart : Started ui question v)
    (h : Reaches (step ui) (fun s e => s.Enabled e ∧ s.NotPending e) (QuestionRun.start v) s) :
    -- a slot with status true: its piece was dropped near it
    (∀ (k : Nat) slot, s.view.listPatternPieceView[k]? = some slot → slot.status = true →
      ∃ p < AIMListPieceView.pieceCount question.answers,
        (s.view.listPieceView.pieceView p).patternIndex = k ∧ s.DroppedNear p) ∧
    -- the slot of a whitespace-only answer
    (∀ (k : Nat) a slot, question.answers[k]? = some a → isBlank a.content = true →
      s.view.listPatternPieceView[k]? = some slot → slot.status = false) ∧
    -- a piece removed from the list
    (∀ p < AIMListPieceView.pieceCount question.answers,
      p ∉ s.view.listPieceView.pieceViewArray →
      ∃ slot a, s.view.listPatternPieceView[(s.view.listPieceView.pieceView p).patternIndex]? =
          some slot ∧ slot.status = true ∧ (s.view.listPieceView.pieceView p).piece = some a ∧
        slot.currentContent = some a.content) ∧
    -- the end of the question
    s.view.calls.count .finishAtCurrentQuestion =
      (if s.view.listPieceView.pieceViewArray = [] ∧
        AIMListPieceView.pieceCount question.answers ≠ 0 then 1 else 0) ∧
    (s.view.listPieceView.pieceViewArray = [] → ∀ (k : Nat) a, question.answers[k]? = some a →
      isBlank a.content = false → ∃ slot, s.view.listPatternPieceView[k]? = some slot ∧
        slot.status = true ∧ slot.currentContent = some a.content) := by
  obtain ⟨draws, pattern, data, list, slots, hlist, hslots, rfl⟩ := hstart
  have hpieces := AIMListPieceView.setData_pieces hlist
  have hs := h.inv (PlacementInv list (AIMListPieceView.pieceCount question.answers))
    (placementInv_start hlist hslots)
    fun _ _ _ hs he hstep => placementInv_step hs hpieces.slot_injective he.1 he.2 hstep
  refine ⟨fun k slot hslot hstatus => ?_, fun k a slot ha hblank hslot => ?_,
    fun p hp hout => ?_, ?_, fun hempty k a ha hblank => ?_⟩
  · obtain ⟨p, hp, hpk, hdrop⟩ := hs.dropped k ⟨slot, hslot, hstatus⟩
    exact ⟨p, hp, (hs.patternIndex p).trans hpk, hdrop⟩
  · refine Bool.eq_false_iff.mpr fun hstatus => ?_
    obtain ⟨p, hp, rfl, -⟩ := hs.dropped k ⟨slot, hslot, hstatus⟩
    obtain ⟨b, hb, hnonblank, -⟩ := hpieces.answer p hp
    obtain rfl := Option.some.inj (ha.symm.trans hb)
    cases hblank.symm.trans hnonblank
  · obtain ⟨a, ha, slot, hslot, hplaced⟩ := hs.removed p hp hout
    exact ⟨slot, a, (hs.patternIndex p).symm ▸ hslot, hplaced.status, (hs.piece p).trans ha,
      hplaced.currentContent⟩
  · rw [← hs.finish, AIMQuestionContentView.reports, count_filter rfl]
  · obtain ⟨p, hp, rfl⟩ := hpieces.complete k a ha hblank
    obtain ⟨b, hb, -, hpiece⟩ := hpieces.answer p hp
    obtain rfl := Option.some.inj (ha.symm.trans hb)
    obtain ⟨c, hc, slot, hslot, hplaced⟩ := hs.removed p hp (by simp [hempty])
    obtain rfl := Option.some.inj (hpiece.symm.trans hc)
    exact ⟨slot, hslot, hplaced.status, hplaced.currentContent⟩

/-- All three pieces are dropped before a completion runs. -/
def allDropped : List Event :=
  drag 2 (inList 2) (onSlot 2) ++ drag 1 (inList 1) (onSlot 1) ++
    .hintCase2 1 :: drag 0 (inList 0) (onSlot 0) ++
    [.btnShowHint, .dropCompletion 0, .willResignActive, .dropCompletion 0, .dropCompletion 0]

theorem placement_sound_all_dropped :
    ∃ v s, AIMQuestionContentView.setData .ascii sampleQuestion (fun _ => 0) = .ok v ∧
      Reaches (step .ascii) (fun s e => s.Enabled e ∧ s.NotPending e) (QuestionRun.start v) s ∧
      s.view.calls.count .finishAtCurrentQuestion = 1 ∧
      ∃ slot, s.view.listPatternPieceView[1]? = some slot ∧ slot.currentContent = some "am" := by
  have hrun : (playQuestion .ascii (fun s e => s.Enabled e ∧ s.NotPending e) sampleQuestion
      (fun _ => 0) allDropped).any (fun s => s.view.listPieceView.pieceViewArray.isEmpty) =
      true := by decide +kernel
  obtain ⟨v, s, hv, hreach, hempty⟩ := exists_run_of_playQuestion hrun
  have hempty := isEmpty_iff.mp hempty
  obtain ⟨-, -, -, hcount, hplaced⟩ := placement_sound (started_of_setData hv) hreach
  obtain ⟨slot, hslot, -, hcontent⟩ := hplaced hempty 1 ⟨"am"⟩ rfl (by decide +kernel)
  refine ⟨v, s, hv, hreach, ?_, slot, hslot, hcontent⟩
  rw [hcount, if_pos ⟨hempty, by decide +kernel⟩]

end QuestionRun

end Imijun
