import Imijun.PieceListFacts

/-!
# The shuffle of the pieces

`setData` draws from `answerArray` and `indexArray`, which shrink together, until both are empty.

* `setDataLoop_total`: no subscript of a turn is out of range, and no piece is empty.
* `shuffle_keeps_associations`: whatever is drawn, each non-blank answer gets one piece, and the
  piece, its hint label and the cached numbers belong together.
-/

namespace Imijun

open Fallible

theorem ne_empty_of_not_blank {s : String} (h : isBlank s = false) : s ≠ "" := by
  rintro rfl
  cases h

/-- A string with a character can be put in lower case. -/
theorem Platform.lowercaseFirstCharater_ok (ui : Platform) {s : String} (h : s ≠ "") :
    ∃ t, ui.lowercaseFirstCharater s = .ok t := by
  unfold lowercaseFirstCharater
  split
  · next hnone => exact absurd ((ui.splitFirst_eq_none s).mp hnone) h
  · next first other _ =>
    split
    · exact ⟨_, rfl⟩
    · exact ⟨_, rfl⟩

theorem pieceView_setData_total (ui : Platform) (v : AIMPieceView) {a : AIMPiece}
    (h : isBlank a.content = false) : ∃ v', v.setData ui a = .ok v' := by
  have ⟨text, htext⟩ := ui.lowercaseFirstCharater_ok (ne_empty_of_not_blank h)
  exact ⟨_, bind_eq_ok.mpr ⟨text, htext, rfl⟩⟩

namespace AIMListPieceView

variable {ui : Platform} {l : AIMListPieceView} {answers hints : List AIMPiece} {draws : Nat → Nat}

/-- The loop runs until the arrays are empty. -/
theorem setDataLoop_total (ui : Platform) (draws : Nat → Nat) (entries : List (AIMPiece × Nat))
    {count : Nat} (hcount : entries.length = count)
    (hentries : ∀ e ∈ entries, isBlank e.1.content = false ∧ e.2 < hints.length)
    (index : Nat) (w : ℚ) (l : AIMListPieceView) :
    ∃ r, setDataLoop ui hints draws count (entries.map Prod.fst) (entries.map Prod.snd) index w l
      = .ok r := by
  induction count generalizing entries index w l with
  | zero => exact ⟨_, rfl⟩
  | succ count ih =>
    have ⟨e, he⟩ := Selection.exists_drawn draws index hcount
    have ⟨hblank, hhint⟩ := hentries e (List.mem_of_getElem? he)
    have ⟨view, hview⟩ := pieceView_setData_total ui
      (AIMPieceView.loadFromNibWithIndex e.2 index index) hblank
    have ⟨r, hrest⟩ := ih (entries.eraseIdx (draws index % (count + 1)))
      (Selection.length_eraseIdx_drawn hcount)
      (fun e he => hentries e (List.mem_of_mem_eraseIdx he)) (index + 1)
      (w + kAIMPieceViewHorizontalPadding + view.frame.width)
      (l.addPiece index (placedView view w) (placedLabel view hints[e.2] w))
    exact ⟨r, setDataLoop_succ.mpr
      ⟨e, view, hints[e.2], he, hview, List.getElem?_eq_getElem hhint, hrest⟩⟩

theorem setData_total (ui : Platform) (hhints : answers.length ≤ hints.length)
    (l : AIMListPieceView) (draws : Nat → Nat) :
    ∃ l', l.setData ui answers hints draws = .ok l' := by
  have hentries : ∀ e ∈ answerEntries answers,
      isBlank e.1.content = false ∧ e.2 < hints.length := by
    intro ⟨a, k⟩ he
    have ⟨hk, hblank⟩ := mem_answerEntries.mp he
    have ⟨hlt, _⟩ := List.getElem?_eq_some_iff.mp hk
    exact ⟨hblank, Nat.lt_of_lt_of_le hlt hhints⟩
  have ⟨r, hr⟩ := setDataLoop_total ui draws (answerEntries answers) rfl hentries 0 0 l
  exact ⟨_, bind_eq_ok.mpr ⟨r, hr, rfl⟩⟩

/-- The positions of the answers that are not blank. -/
def nonBlankPositions (answers : List AIMPiece) : List Nat :=
  (List.range answers.length).filter fun k => (answers[k]?).any fun a => !isBlank a.content

theorem answerEntries_positions_perm (answers : List AIMPiece) :
    ((answerEntries answers).map Prod.snd).Perm (nonBlankPositions answers) := by
  refine (List.perm_ext_iff_of_nodup (answerEntries_positions_nodup answers)
    (List.nodup_range.filter _)).mpr fun k => ?_
  simp only [List.mem_map, Prod.exists, mem_answerEntries, List.mem_filter, List.mem_range,
    Option.any_eq_true, Bool.not_eq_true']
  constructor
  · rintro ⟨a, _, ⟨hk, hblank⟩, rfl⟩
    obtain ⟨hlt, _⟩ := List.getElem?_eq_some_iff.mp hk
    exact ⟨hlt, a, hk, hblank⟩
  · rintro ⟨_, a, hk, hblank⟩
    exact ⟨a, k, ⟨hk, hblank⟩, rfl⟩

/-- For answers with a hint each, whatever is drawn, `setData` runs through. The slots of its
pieces are the positions of the non-blank answers in some order. The piece at a position carries the
answer of its slot, the label at this position shows the hint of the slot, and `index` and
`hintIndex` are the position. -/
theorem shuffle_keeps_associations (ui : Platform) (frame : CGRect) (draws : Nat → Nat)
    (hhints : answers.length ≤ hints.length) :
    ∃ l, (loadFromNibWithBundle frame).setData ui answers hints draws = .ok l ∧
      (l.pieceViewArray.map fun p => (l.pieceView p).patternIndex).Perm
        (nonBlankPositions answers) ∧
      l.hintLabelArray.length = l.pieceViewArray.length ∧
      ∀ (i : Nat) p, l.pieceViewArray[i]? = some p → ∃ t answer hint,
        l.hintLabelArray[i]? = some t ∧
        answers[(l.pieceView p).patternIndex]? = some answer ∧
        (l.pieceView p).piece = some answer ∧
        hints[(l.pieceView p).patternIndex]? = some hint ∧
        (l.hintLabel t).text = hint.content ∧
        (l.pieceView p).index = i ∧ (l.pieceView p).hintIndex = i := by
  obtain ⟨l, hl⟩ := setData_total ui hhints (loadFromNibWithBundle frame) draws
  obtain ⟨hfilled, hperm⟩ := setData_filled hl
  have hpieces := setData_pieces hl
  refine ⟨l, hl, ?_, ?_, fun i p hp => ?_⟩
  · have hslots := hperm.map Prod.snd
    rw [madePieces, List.map_map, List.map_map, ← hfilled.pieceViewArray] at hslots
    exact hslots.trans (answerEntries_positions_perm answers)
  · rw [hfilled.hintLabelArray, hfilled.pieceViewArray]
  · rw [hfilled.pieceViewArray] at hp
    obtain ⟨hlt, hget⟩ := List.getElem?_eq_some_iff.mp hp
    rw [List.getElem_range] at hget
    rw [List.length_range] at hlt
    subst hget
    obtain ⟨answer, hanswer, _, hpiece⟩ := hpieces.answer i hlt
    obtain ⟨hint, hhint, htext⟩ := hfilled.label i hlt
    obtain ⟨hindex, hcached⟩ := hfilled.numbered i hlt
    refine ⟨i, answer, hint, ?_, hanswer, hpiece, hhint, htext, hindex, hcached⟩
    rw [hfilled.hintLabelArray]
    exact hp

/-- Five answers, two of them blank. -/
def spacedAnswers : List AIMPiece := ["I", " ", "am", "", "Akira"].map AIMPiece.mk

def spacedHints : List AIMPiece := ["僕は", "", "です", "", "アキラ"].map AIMPiece.mk

/-- The pieces of `spacedAnswers`, drawn from the end. -/
theorem shuffle_keeps_associations_spaced :
    ∃ l, (loadFromNibWithBundle ⟨0, 422, 1024, 245⟩).setData .ascii spacedAnswers spacedHints
        (fun index => 2 - index) = .ok l ∧
      (l.pieceViewArray.map fun p => (l.pieceView p).patternIndex).Perm [0, 2, 4] := by
  have hhints : spacedAnswers.length ≤ spacedHints.length := by decide
  obtain ⟨l, hl, hperm, -⟩ :=
    shuffle_keeps_associations .ascii ⟨0, 422, 1024, 245⟩ (fun index => 2 - index) hhints
  have hpositions : nonBlankPositions spacedAnswers = [0, 2, 4] := by decide +kernel
  exact ⟨l, hl, hpositions ▸ hperm⟩

end AIMListPieceView

end Imijun
