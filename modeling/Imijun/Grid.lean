import Imijun.ContentView
import Imijun.PatternPieceFacts
import Mathlib.Tactic.Linarith

/-!
# The grid of the slots

`initPatterView` and `initPatterView2` recover the row and the column of a slot from one running
index. The row is `i / column`, but the place inside the row is computed from `i` and not from
`i % column`, and as if all slots before had the width of this one.

* `Grid`: the rows begin at one left edge, and neighbours overlap by `kPatternCoverSpace`.
* `slots_form_grid`: the slots and the panel form such a grid exactly if the pattern has one row of
  slots of one width; in every pattern the panel lies `109` below the slots.
* `second_row_indented`: the first pattern of the table, whose second row begins far to the right.
-/

namespace Imijun

open Fallible

/-- Frames, listed row by row, that form a grid moved down by `below`. -/
structure Grid (column : Nat) (below : ℚ) (frames : List CGRect) : Prop where
  row : ∀ i r, frames[i]? = some r →
    r.y = (i / column : Nat) * kPieceHeigh + kPatternTopSpace + below
  first : ∀ i r, frames[i]? = some r → i % column = 0 → r.x = kPatternLeftMargin + 150
  next : ∀ i r r', frames[i]? = some r → frames[i + 1]? = some r' → (i + 1) % column ≠ 0 →
    r'.x = r.x + r.width - kPatternCoverSpace
  /-- column `k` of the rows that begin with the frames `a` and `b` -/
  sameColumn : ∀ a b k r r', a % column = 0 → b % column = 0 → k < column →
    frames[a + k]? = some r → frames[b + k]? = some r' →
    (∀ m < k, (frames[a + m]?).map (·.width) = (frames[b + m]?).map (·.width)) → r.x = r'.x

/-- Where the rows begin and how neighbours overlap decides the places of a whole column. -/
theorem grid_of_neighbours {column : Nat} {below : ℚ} {frames : List CGRect}
    (row : ∀ i r, frames[i]? = some r →
      r.y = (i / column : Nat) * kPieceHeigh + kPatternTopSpace + below)
    (first : ∀ i r, frames[i]? = some r → i % column = 0 → r.x = kPatternLeftMargin + 150)
    (next : ∀ i r r', frames[i]? = some r → frames[i + 1]? = some r' → (i + 1) % column ≠ 0 →
      r'.x = r.x + r.width - kPatternCoverSpace) : Grid column below frames := by
  refine ⟨row, first, next, fun a b k r r' ha hb => ?_⟩
  induction k generalizing r r' with
  | zero =>
    intro _ hr hr' _
    rw [first a r hr ha, first b r' hr' hb]
  | succ k ih =>
    intro hk hr hr' hwidths
    have hinside {c : Nat} (hc : c % column = 0) : (c + k + 1) % column ≠ 0 := by
      have hmod : (c + (k + 1)) % column = k + 1 := by
        rw [Nat.add_mod, hc, Nat.zero_add, Nat.mod_mod, Nat.mod_eq_of_lt hk]
      rw [Nat.add_assoc, hmod]
      exact Nat.succ_ne_zero k
    have hprev {c : Nat} {q : CGRect} (hq : frames[c + (k + 1)]? = some q) :
        ∃ p, frames[c + k]? = some p := by
      have hlt := (List.getElem?_eq_some_iff.mp hq).1
      exact ⟨_, List.getElem?_eq_getElem (by omega)⟩
    obtain ⟨p, hp⟩ := hprev hr
    obtain ⟨p', hp'⟩ := hprev hr'
    -- both rows go on by the same width
    have hx := ih p p' (by omega) hp hp' fun m hm => hwidths m (by omega)
    have hwidth := hwidths k (Nat.lt_succ_self k)
    rw [hp, hp', Option.map_some, Option.map_some, Option.some.injEq] at hwidth
    rw [next (a + k) p r hp hr (hinside ha), next (b + k) p' r' hp' hr' (hinside hb), hx, hwidth]

/-! ## The frames of a pattern -/

/-- The frames of the panel lie below those of the slots. -/
theorem slotFrames_below (column : Nat) (types : List Int) (below : ℚ) :
    slotFrames column types below =
      (slotFrames column types 0).map fun r => { r with y := r.y + below } := by
  refine List.ext_getElem? fun i => ?_
  rw [slotFrames, slotFrames, List.getElem?_map, List.getElem?_mapIdx, List.getElem?_mapIdx]
  cases types[i]? with
  | none => rfl
  | some type =>
    refine congrArg some ?_
    unfold slotFrame
    rw [add_zero]

/-! ## When they form a grid -/

theorem pieceViewWidth_eq_iff (type type' : Int) :
    pieceViewWidth type = pieceViewWidth type' ↔ (type = 5 ↔ type' = 5) := by
  have hwidth (t : Int) : pieceViewWidth t = if t = 5 then 405 else 191 := by
    unfold pieceViewWidth kPiece1Width kPiece2Width kPiece3Width
    split_ifs <;> first | rfl | omega
  rw [hwidth, hwidth]
  by_cases h : type = 5
  · by_cases h' : type' = 5 <;> simp [h, h']
  · by_cases h' : type' = 5 <;> simp [h, h']

theorem pieceViewWidth_pos (type : Int) : 0 < pieceViewWidth type := by
  unfold pieceViewWidth
  split_ifs <;> norm_num [kPiece1Width, kPiece2Width, kPiece3Width]

/-- Inside the first row the place of a slot is computed from its own width. -/
theorem slotX_of_lt {column i : Nat} (h : i < column) (type : Int) :
    slotX column i type =
      kPatternLeftMargin + 150 + i * (pieceViewWidth type - kPatternCoverSpace) := by
  unfold slotX
  rw [Nat.mod_eq_of_lt h]
  split
  · next hi =>
    rw [hi, Nat.cast_zero, zero_mul, zero_mul]
    ring
  · ring

/-- All slots of the pattern have the width of a slot of type `5`, or none of them has. -/
def OneWidth (types : List Int) : Prop :=
  (∀ type ∈ types, type = 5) ∨ ∀ type ∈ types, type ≠ 5

instance (types : List Int) : Decidable (OneWidth types) := by
  unfold OneWidth; infer_instance

theorem OneWidth.eq {types : List Int} (h : OneWidth types) {type type' : Int}
    (ht : type ∈ types) (ht' : type' ∈ types) : pieceViewWidth type = pieceViewWidth type' := by
  rw [pieceViewWidth_eq_iff]
  rcases h with hall | hnone
  · exact iff_of_true (hall type ht) (hall type' ht')
  · exact iff_of_false (hnone type ht) (hnone type' ht')

/-- A second row begins with a shift by the width of a whole row. -/
theorem Grid.length_le {column : Nat} {types : List Int} {below : ℚ} (hcolumn : 1 ≤ column)
    (h : Grid column below (slotFrames column types below)) : types.length ≤ column := by
  by_contra hlong
  have htype := List.getElem?_eq_getElem (Nat.lt_of_not_le hlong)
  have hx := h.first column _ (slotFrames_getElem?.mpr ⟨_, htype, rfl⟩) (Nat.mod_self column)
  unfold slotFrame slotX at hx
  rw [if_pos (Nat.mod_self column)] at hx
  have hshift : 0 < (column : ℚ) * pieceViewWidth types[column] :=
    mul_pos (by exact_mod_cast hcolumn) (pieceViewWidth_pos _)
  linarith

/-- Neighbours of different widths do not overlap by `kPatternCoverSpace`. -/
theorem Grid.width_next {column : Nat} {types : List Int} {below : ℚ}
    (h : Grid column below (slotFrames column types below)) (hlength : types.length ≤ column)
    {i : Nat} {type type' : Int} (ht : types[i]? = some type) (ht' : types[i + 1]? = some type') :
    pieceViewWidth type' = pieceViewWidth type := by
  have hlt : i + 1 < column := ((List.getElem?_eq_some_iff.mp ht').1).trans_le hlength
  have hinside : (i + 1) % column ≠ 0 := by
    rw [Nat.mod_eq_of_lt hlt]
    exact Nat.succ_ne_zero i
  have hx := h.next i _ _ (slotFrames_getElem?.mpr ⟨type, ht, rfl⟩)
    (slotFrames_getElem?.mpr ⟨type', ht', rfl⟩) hinside
  unfold slotFrame at hx
  dsimp only at hx
  rw [slotX_of_lt hlt, slotX_of_lt (by omega), Nat.cast_succ] at hx
  -- the factor of the difference of the widths is the index, which is not zero
  have hfactor : ((i : ℚ) + 1) * (pieceViewWidth type' - pieceViewWidth type) = 0 := by linarith
  rcases mul_eq_zero.mp hfactor with hzero | hsame
  · have hpos : (0 : ℚ) < i + 1 := by exact_mod_cast Nat.succ_pos i
    exact absurd hzero hpos.ne'
  · exact sub_eq_zero.mp hsame

theorem Grid.oneWidth {column : Nat} {types : List Int} {below : ℚ}
    (h : Grid column below (slotFrames column types below)) (hlength : types.length ≤ column) :
    OneWidth types := by
  cases types with
  | nil => exact .inl fun type ht => by cases ht
  | cons first rest =>
    -- from left to right, every slot is as wide as the first
    have hfirst (i : Nat) : ∀ type, (first :: rest)[i]? = some type →
        pieceViewWidth type = pieceViewWidth first := by
      induction i with
      | zero =>
        intro type ht
        obtain rfl := Option.some.inj ht
        rfl
      | succ i ih =>
        intro type ht
        have hlt := (List.getElem?_eq_some_iff.mp ht).1
        have hprev := List.getElem?_eq_getElem (show i < (first :: rest).length by omega)
        rw [h.width_next hlength hprev ht]
        exact ih _ hprev
    have hfive : ∀ type ∈ first :: rest, (type = 5 ↔ first = 5) := by
      intro type ht
      obtain ⟨i, hi⟩ := List.mem_iff_getElem?.mp ht
      exact (pieceViewWidth_eq_iff type first).mp (hfirst i type hi)
    by_cases h5 : first = 5
    · exact .inl fun type ht => (hfive type ht).mpr h5
    · exact .inr fun type ht h => h5 ((hfive type ht).mp h)

/-- One row of slots of one width is a grid. -/
theorem grid_of_oneWidth {column : Nat} {types : List Int} (hlength : types.length ≤ column)
    (hwidth : OneWidth types) (below : ℚ) : Grid column below (slotFrames column types below) := by
  refine grid_of_neighbours ?_ ?_ ?_
  · intro i r hr
    obtain ⟨type, -, rfl⟩ := slotFrames_getElem?.mp hr
    rfl
  · intro i r hr hi
    obtain ⟨type, ht, rfl⟩ := slotFrames_getElem?.mp hr
    have hlt : i < column := ((List.getElem?_eq_some_iff.mp ht).1).trans_le hlength
    rw [Nat.mod_eq_of_lt hlt] at hi
    show slotX column i type = _
    rw [slotX_of_lt hlt, hi, Nat.cast_zero, zero_mul, add_zero]
  · intro i r r' hr hr' _
    obtain ⟨type, ht, rfl⟩ := slotFrames_getElem?.mp hr
    obtain ⟨type', ht', rfl⟩ := slotFrames_getElem?.mp hr'
    have hlt : i + 1 < column := ((List.getElem?_eq_some_iff.mp ht').1).trans_le hlength
    have hsame := hwidth.eq (List.mem_of_getElem? ht') (List.mem_of_getElem? ht)
    show slotX column (i + 1) type' = slotX column i type + pieceViewWidth type - _
    rw [slotX_of_lt hlt, slotX_of_lt (by omega), hsame, Nat.cast_succ]
    ring

theorem grid_iff {column : Nat} {types : List Int} (hcolumn : 1 ≤ column) (below : ℚ) :
    Grid column below (slotFrames column types below) ↔
      types.length ≤ column ∧ OneWidth types :=
  ⟨fun h => ⟨h.length_le hcolumn, h.oneWidth (h.length_le hcolumn)⟩,
    fun ⟨hlength, hwidth⟩ => grid_of_oneWidth hlength hwidth below⟩

/-- For every pattern with a column and enough labels and hints, the slots and the panel are made,
one for each piece type; the panel has the frames of the slots, moved down by `109`; and the two
form grids exactly if the pattern has one row of slots of one width. -/
theorem slots_form_grid {question : AIMQuestion} {pattern : AIMPattern} {data : PatternUIData}
    (hcolumn : 1 ≤ data.column)
    (hlabels : data.listPieceType.length ≤ pattern.imijunPattern.length)
    (hhints : data.listPieceType.length ≤ question.hints.length) :
    ∃ slots panel : List AIMPatternPiece,
      AIMQuestionContentView.initPatterView question pattern data = .ok slots ∧
      slots.length = data.listPieceType.length ∧
      (∀ v : AIMQuestionContentView, v.question = question → v.pattern = pattern →
        v.patternUIData = data → ∃ v', v.initPatterView2 = .ok v' ∧
          v'.listPatternPieceView2 = v.listPatternPieceView2 ++ panel.map fun slot =>
            ⟨slot, true⟩) ∧
      panel.map (·.frame) = slots.map (fun slot => { slot.frame with y := slot.frame.y + 109 }) ∧
      (Grid data.column 0 (slots.map (·.frame)) ∧ Grid data.column 109 (panel.map (·.frame)) ↔
        data.listPieceType.length ≤ data.column ∧ OneWidth data.listPieceType) := by
  have hmade (below : ℚ) : ∃ slots, makeSlots question pattern data.column below
      data.listPieceType 0 = .ok slots :=
    makeSlots_total (Nat.pos_iff_ne_zero.mp hcolumn) ((Nat.zero_add _).trans_le hlabels)
      ((Nat.zero_add _).trans_le hhints)
  have ⟨slots, hslots⟩ := hmade 0
  have ⟨panel, hpanel⟩ := hmade 109
  refine ⟨slots, panel, hslots, makeSlots_length hslots, ?_, ?_, ?_⟩
  · rintro v rfl rfl rfl
    exact ⟨_, bind_eq_ok.mpr ⟨panel, hpanel, rfl⟩, rfl⟩
  · rw [makeSlots_frames hpanel, slotFrames_below, ← makeSlots_frames hslots, List.map_map]
    rfl
  · rw [makeSlots_frames hslots, makeSlots_frames hpanel, grid_iff hcolumn, grid_iff hcolumn]
    exact and_self_iff

/-- The five slots of the third pattern of the table. -/
theorem slots_form_grid_one_row :
    ∃ slots panel : List AIMPatternPiece,
      AIMQuestionContentView.initPatterView ⟨"1", "", none, List.replicate 5 ⟨"hint"⟩, []⟩
        ⟨"3", List.replicate 5 ⟨"label"⟩⟩ ⟨5, [1, 1, 1, 1, 1]⟩ = .ok slots ∧
      Grid 5 0 (slots.map (·.frame)) ∧ Grid 5 109 (panel.map (·.frame)) := by
  obtain ⟨slots, panel, hslots, -, -, -, hgrid⟩ := @slots_form_grid
    ⟨"1", "", none, List.replicate 5 ⟨"hint"⟩, []⟩ ⟨"3", List.replicate 5 ⟨"label"⟩⟩
    ⟨5, [1, 1, 1, 1, 1]⟩ (by decide) (by decide) (by decide)
  exact ⟨slots, panel, hslots, hgrid.mpr (by decide)⟩

/-- A question of the first pattern of the table, with two rows of five slots. -/
def twoRows : AIMQuestion where
  index := "1"
  content := ""
  pattern := some ⟨"1", List.replicate 10 ⟨"label"⟩⟩
  hints := List.replicate 10 ⟨"hint"⟩
  answers := List.replicate 10 ⟨"answer"⟩

/-- The first slot of the second row stands `955` to the right of the first slot. -/
theorem second_row_indented :
    ∃ pattern slots first second, twoRows.pattern = some pattern ∧
      AIMQuestionContentView.patternEntry pattern = .ok ⟨5, [1, 1, 1, 1, 1, 1, 1, 1, 1, 1]⟩ ∧
      AIMQuestionContentView.initPatterView twoRows pattern
        ⟨5, [1, 1, 1, 1, 1, 1, 1, 1, 1, 1]⟩ = .ok slots ∧
      slots[0]? = some first ∧ slots[5]? = some second ∧
      first.frame.x = kPatternLeftMargin + 150 ∧
      second.frame.x = kPatternLeftMargin + 150 + 955 ∧ ¬ Grid 5 0 (slots.map (·.frame)) := by
  have ⟨slots, hslots⟩ : ∃ slots, AIMQuestionContentView.initPatterView twoRows
      ⟨"1", List.replicate 10 ⟨"label"⟩⟩ ⟨5, [1, 1, 1, 1, 1, 1, 1, 1, 1, 1]⟩ = .ok slots :=
    makeSlots_total (by decide) (by decide) (by decide)
  have hframes := makeSlots_frames hslots
  have hlength := makeSlots_length hslots
  have hslot (i : Nat) (hi : i < 10) : ∃ slot, slots[i]? = some slot ∧
      slot.frame.x = slotX 5 i 1 := by
    have ⟨slot, hslot⟩ : ∃ slot, slots[i]? = some slot :=
      ⟨_, List.getElem?_eq_getElem (hi.trans_eq hlength.symm)⟩
    have ⟨type, htype, hmade⟩ := makeSlots_getElem? hslots hslot
    obtain ⟨-, label, hint, -, -, rfl⟩ := makeSlot_ok.mp hmade
    obtain rfl : 1 = type := by
      have hall : ∀ t ∈ ([1, 1, 1, 1, 1, 1, 1, 1, 1, 1] : List Int), 1 = t := by decide
      exact hall type (List.mem_of_getElem? htype)
    rw [Nat.zero_add] at *
    exact ⟨_, hslot, rfl⟩
  have ⟨first, hfirst, hx⟩ := hslot 0 (by decide)
  have ⟨second, hsecond, hx'⟩ := hslot 5 (by decide)
  refine ⟨_, slots, first, second, rfl, by decide +kernel, hslots, hfirst, hsecond, ?_, ?_, ?_⟩
  · rw [hx]
    norm_num [slotX, pieceViewWidth, kPiece1Width]
  · rw [hx']
    norm_num [slotX, pieceViewWidth, kPiece1Width, kPatternLeftMargin]
  · rw [hframes, grid_iff (by decide)]
    decide

end Imijun
