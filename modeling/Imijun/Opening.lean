import Imijun.Shuffle
import Imijun.Solving

/-!
# Which questions open

The content view trusts its question: it unwraps the pattern, looks up the entry of its type, and
subscripts the labels and the hints.

* `AIMQuestion.Opens`: what the content view of a question needs; `setData_total_iff`: nothing else,
  whatever is drawn.
* `AIMQuestion.Playable`: besides, the pattern has a slot for every answer; the run of such a
  question `Works`, and it can be solved.
-/

namespace Imijun

open Transition Fallible List

/-! ## A question -/

/-- What the code takes for granted of a question, its pattern and the entry for its type. -/
structure AIMQuestion.OpensWith (q : AIMQuestion) (pattern : AIMPattern) (data : PatternUIData) :
    Prop where
  linked : q.pattern = some pattern
  entry : AIMQuestionContentView.patternEntry pattern = .ok data
  labels : data.listPieceType.length ≤ pattern.imijunPattern.length
  hints : data.listPieceType.length ≤ q.hints.length
  answers : ∀ (k : Nat) a, q.answers[k]? = some a → isBlank a.content = false → k < q.hints.length

def AIMQuestion.Opens (q : AIMQuestion) : Prop :=
  ∃ pattern data, q.OpensWith pattern data

/-- The question opens, and its pattern has a slot for every answer. -/
def AIMQuestion.Playable (q : AIMQuestion) : Prop :=
  ∃ pattern data, q.OpensWith pattern data ∧
    ∀ (k : Nat) a, q.answers[k]? = some a → isBlank a.content = false →
      k < data.listPieceType.length

theorem AIMQuestion.Playable.opens {q : AIMQuestion} (h : q.Playable) : q.Opens := by
  obtain ⟨pattern, data, hopens, -⟩ := h
  exact ⟨pattern, data, hopens⟩

/-- Every entry has columns. -/
theorem column_ne_zero {pattern : AIMPattern} {data : PatternUIData}
    (h : AIMQuestionContentView.patternEntry pattern = .ok data) : data.column ≠ 0 := by
  have hcolumns : ∀ data ∈ kPatternUIData, data.column ≠ 0 := by decide
  obtain ⟨type, -, h⟩ := bind_eq_ok.mp h
  split_ifs at h
  · cases h
  · exact hcolumns data (mem_of_getElem? (subscript_eq_ok.mp h))

/-- The loop over the piece types reads a label and a hint for each of them. -/
theorem makeSlots_bounds {question : AIMQuestion} {pattern : AIMPattern} {column : Nat} {below : ℚ}
    {types : List Int} {slots : List AIMPatternPiece}
    (h : makeSlots question pattern column below types 0 = .ok slots) :
    types.length ≤ pattern.imijunPattern.length ∧ types.length ≤ question.hints.length := by
  cases hlast : slots[types.length - 1]? with
  | none =>
    rw [getElem?_eq_none_iff, makeSlots_length h] at hlast
    have hzero : types.length = 0 := by omega
    rw [hzero]
    exact ⟨Nat.zero_le _, Nat.zero_le _⟩
  | some slot =>
    obtain ⟨type, -, hmade⟩ := makeSlots_getElem? h hlast
    obtain ⟨-, label, hint, hlabel, hhint, -⟩ := makeSlot_ok.mp hmade
    rw [Nat.zero_add] at hlabel hhint
    have hlabels := (List.getElem?_eq_some_iff.mp hlabel).1
    have hhints := (List.getElem?_eq_some_iff.mp hhint).1
    exact ⟨Nat.le_of_pred_lt hlabels, Nat.le_of_pred_lt hhints⟩

variable {ui : Platform} {question : AIMQuestion} {draws : Nat → Nat}

/-- The list is made when there is a hint for every answer that gets a piece. -/
theorem initAIMListPieceView_total_iff :
    (∃ list, AIMQuestionContentView.initAIMListPieceView ui question draws = .ok list) ↔
      ∀ (k : Nat) a, question.answers[k]? = some a → isBlank a.content = false →
        k < question.hints.length := by
  constructor
  · rintro ⟨list, hlist⟩ k a ha hblank
    have hpieces := AIMListPieceView.setData_pieces hlist
    obtain ⟨p, hp, rfl⟩ := hpieces.complete k a ha hblank
    obtain ⟨hint, hhint, -⟩ := hpieces.filled.label p hp
    exact (List.getElem?_eq_some_iff.mp hhint).1
  · intro hhints
    have hentries : ∀ e ∈ AIMListPieceView.answerEntries question.answers,
        isBlank e.1.content = false ∧ e.2 < question.hints.length := by
      intro e he
      obtain ⟨hk, hblank⟩ := AIMListPieceView.mem_answerEntries.mp he
      exact ⟨hblank, hhints e.2 e.1 hk hblank⟩
    obtain ⟨r, hr⟩ := AIMListPieceView.setDataLoop_total ui draws
      (AIMListPieceView.answerEntries question.answers) rfl hentries 0 0
      (AIMListPieceView.loadFromNibWithBundle kAnswerViewFrame)
    exact ⟨_, bind_eq_ok.mpr ⟨r, hr, rfl⟩⟩

/-- What has been read while the parts of a view were made. -/
theorem opensWith_of_parts {pattern : AIMPattern} {data : PatternUIData} {list : AIMListPieceView}
    {slots : List AIMPatternPiece} (hpattern : question.pattern = some pattern)
    (hdata : AIMQuestionContentView.patternEntry pattern = .ok data)
    (hlist : AIMQuestionContentView.initAIMListPieceView ui question draws = .ok list)
    (hslots : AIMQuestionContentView.initPatterView question pattern data = .ok slots) :
    question.OpensWith pattern data := by
  obtain ⟨hlabels, hhints⟩ := makeSlots_bounds hslots
  exact ⟨hpattern, hdata, hlabels, hhints, initAIMListPieceView_total_iff.mp ⟨list, hlist⟩⟩

/-- A content view is made for exactly these questions. -/
theorem setData_total_iff :
    (∃ v, AIMQuestionContentView.setData ui question draws = .ok v) ↔ question.Opens := by
  constructor
  · rintro ⟨v, h⟩
    obtain ⟨pattern, data, list, slots, hpattern, hdata, hlist, hslots, -⟩ :=
      QuestionRun.setData_ok h
    exact ⟨pattern, data, opensWith_of_parts hpattern hdata hlist hslots⟩
  · rintro ⟨pattern, data, hopens⟩
    obtain ⟨list, hlist⟩ := (@initAIMListPieceView_total_iff ui question draws).mpr hopens.answers
    have hpattern : orThrow question.pattern Trap.unexpectedNil = .ok pattern :=
      orThrow_eq_ok.mpr hopens.linked
    obtain ⟨slots, hslots⟩ :
        ∃ slots, AIMQuestionContentView.initPatterView question pattern data = .ok slots :=
      makeSlots_total (column_ne_zero hopens.entry) ((Nat.zero_add _).trans_le hopens.labels)
        ((Nat.zero_add _).trans_le hopens.hints)
    exact ⟨_, bind_eq_ok.mpr ⟨list, hlist, bind_eq_ok.mpr ⟨pattern, hpattern,
      bind_eq_ok.mpr ⟨data, hopens.entry, bind_eq_ok.mpr ⟨slots, hslots, rfl⟩⟩⟩⟩⟩

namespace QuestionRun

/-- The run of a content view that was made for the question, in a timely state. -/
structure Works (ui : Platform) (question : AIMQuestion) (s : QuestionRun) : Prop where
  shown : s.view.question = question
  working : ∃ draws list,
    AIMQuestionContentView.initAIMListPieceView ui question draws = .ok list ∧
      s.Working question.hints list (AIMListPieceView.pieceCount question.answers)

theorem works_start (hplayable : question.Playable) {content : AIMQuestionContentView}
    (h : AIMQuestionContentView.setData ui question draws = .ok content) :
    Works ui question (QuestionRun.start content) := by
  obtain ⟨p, d, hopens, hfits⟩ := hplayable
  obtain ⟨pattern, data, list, slots, hpattern, hdata, hlist, hslots, rfl⟩ := setData_ok h
  obtain rfl := Option.some.inj (hopens.linked.symm.trans hpattern)
  obtain rfl := Except.ok.inj (hopens.entry.symm.trans hdata)
  refine ⟨rfl, draws, list, hlist, working_start hlist hslots fun k a ha hblank => ?_⟩
  rw [makeSlots_length hslots]
  exact hfits k a ha hblank

theorem works_step {s s' : QuestionRun} {e : Event} (hs : s.Works ui question)
    (he : s.WellTimed e) (h : s.step ui e = .ok s') : s'.Works ui question := by
  obtain ⟨hshown, draws, list, hlist, hworking⟩ := hs
  exact ⟨(step_question he.1 h).1.trans hshown, draws, list, hlist, working_step hworking he h⟩

/-- From a timely state the question can be solved. -/
theorem Works.solve {s : QuestionRun} (hs : s.Works ui question) :
    CanReach (step ui) WellTimed s fun t => t.Works ui question ∧ t.Solved question := by
  obtain ⟨hshown, draws, list, hlist, hworking⟩ := hs
  have hstart : s.Works ui question := ⟨hshown, draws, list, hlist, hworking⟩
  refine (CanReach.inv (Works ui question) hstart (fun _ _ _ ht he hstep => works_step ht he hstep)
    (QuestionRun.solve hworking)).mono ?_
  rintro t ⟨ht, ⟨hworking, hrest⟩, hcount⟩
  exact ⟨ht, solved_of_working hlist hworking hrest hcount⟩

/-- A question that opens is playable when all its pieces can be touched. -/
theorem playable_of_touches {content : AIMQuestionContentView}
    (hcontent : AIMQuestionContentView.setData ui question draws = .ok content)
    (htotal : ∀ p location offset,
      (QuestionRun.start content).WellTimed (.touchBegan p location offset) →
      ∃ s', (QuestionRun.start content).step ui (.touchBegan p location offset) = .ok s') :
    question.Playable := by
  have hstarted := started_of_setData hcontent
  obtain ⟨pattern, data, list, slots, hpattern, hdata, hlist, hslots, rfl⟩ := setData_ok hcontent
  refine ⟨pattern, data, opensWith_of_parts hpattern hdata hlist hslots, fun k a ha hblank => ?_⟩
  by_contra hk
  -- the piece of this answer has no slot
  have hpieces := AIMListPieceView.setData_pieces hlist
  obtain ⟨p, hp, hslot⟩ := hpieces.complete k a ha hblank
  have hlisted : p ∈ list.pieceViewArray := by
    rw [hpieces.filled.pieceViewArray]
    exact mem_range.mpr hp
  have hcan := ((touchInv_start hstarted).restored rfl rfl rfl).canBegin p hlisted
  let v := AIMQuestionContentView.fresh question pattern data list slots
  have htimed : (QuestionRun.start v).WellTimed (.touchBegan p (v.centerInSelf p ⟨0, 0⟩) ⟨0, 0⟩) :=
    ⟨hcan, trivial, fun q hq => absurd hq not_mem_nil, trivial, trivial⟩
  obtain ⟨s', hstep⟩ := htotal p _ _ htimed
  have hmissing : slots.length ≤ (list.pieceView p).patternIndex := by
    rw [makeSlots_length hslots, hslot]
    exact not_lt.mp hk
  cases hstep.symm.trans (touchBegan_error.mpr ⟨rfl, hmissing⟩)

end QuestionRun

end Imijun
