import Imijun.PatternPiece

/-!
# The slots that a pattern makes

* `makeSlot_ok`: a slot of a pattern as `initPatterView` and `initPatterView2` make it.
* `makeSlots_getElem?`: the loop makes one slot for each piece type, in order, and
  `makeSlots_frames` says where.
* `makeSlots_total`: it does not trap on a pattern with enough labels and hints.
-/

namespace Imijun

open Fallible

/-- The image `AIMPatternPiece.setData` gives a slot of this type. -/
def AIMPatternPiece.emptyImage (type : Int) : SlotImage :=
  if type = 7 then .image7 else if type = 8 then .image8 else .image

/-- The image `setSelectedData` gives it. -/
def AIMPatternPiece.selectedImage (type : Int) : SlotImage :=
  if type = 7 then .image7Gold else if type = 8 then .image8Gold else .imageGold

variable {question : AIMQuestion} {pattern : AIMPattern} {column i k : Nat} {below : ℚ}
  {type : Int} {types : List Int} {slot : AIMPatternPiece} {slots : List AIMPatternPiece}

theorem makeSlot_ok :
    makeSlot question pattern column i type below = .ok slot ↔
      column ≠ 0 ∧ ∃ label hint, pattern.imijunPattern[i]? = some label ∧
        question.hints[i]? = some hint ∧
        slot = (AIMPatternPiece.loadFromNib (slotFrame column i type below) label hint).setData
          type := by
  unfold makeSlot
  split
  · next hcolumn =>
    constructor
    · intro h
      cases h
    · rintro ⟨hne, -⟩
      exact absurd hcolumn hne
  · next hcolumn =>
    constructor
    · intro h
      obtain ⟨label, hlabel, h⟩ := bind_eq_ok.mp h
      obtain ⟨hint, hhint, h⟩ := bind_eq_ok.mp h
      rw [subscript_eq_ok] at hlabel hhint
      exact ⟨hcolumn, label, hint, hlabel, hhint, (Except.ok.inj h).symm⟩
    · rintro ⟨-, label, hint, hlabel, hhint, rfl⟩
      exact bind_eq_ok.mpr ⟨label, subscript_eq_ok.mpr hlabel,
        bind_eq_ok.mpr ⟨hint, subscript_eq_ok.mpr hhint, rfl⟩⟩

theorem makeSlots_length (h : makeSlots question pattern column below types i = .ok slots) :
    slots.length = types.length := by
  induction types generalizing i slots with
  | nil =>
    obtain rfl := Except.ok.inj h
    rfl
  | cons type types ih =>
    obtain ⟨slot, -, h⟩ := bind_eq_ok.mp h
    obtain ⟨rest, hrest, h⟩ := bind_eq_ok.mp h
    obtain rfl := Except.ok.inj h
    rw [List.length_cons, List.length_cons, ih hrest]

/-- Slot `k` is made from the `k`-th piece type. -/
theorem makeSlots_getElem? (h : makeSlots question pattern column below types i = .ok slots)
    (hk : slots[k]? = some slot) :
    ∃ type, types[k]? = some type ∧
      makeSlot question pattern column (i + k) type below = .ok slot := by
  induction types generalizing i k slots with
  | nil =>
    obtain rfl := Except.ok.inj h
    cases hk
  | cons type types ih =>
    obtain ⟨first, hfirst, h⟩ := bind_eq_ok.mp h
    obtain ⟨rest, hrest, h⟩ := bind_eq_ok.mp h
    obtain rfl := Except.ok.inj h
    cases k with
    | zero =>
      obtain rfl := Option.some.inj hk
      exact ⟨type, rfl, hfirst⟩
    | succ k =>
      have hk : rest[k]? = some slot := hk
      have ⟨type, htype, hslot⟩ := ih hrest hk
      refine ⟨type, htype, ?_⟩
      rw [Nat.add_right_comm] at hslot
      exact hslot

/-- The frames of all slots of a pattern. -/
def slotFrames (column : Nat) (types : List Int) (below : ℚ) : List CGRect :=
  types.mapIdx fun i type => slotFrame column i type below

theorem slotFrames_getElem? {r : CGRect} :
    (slotFrames column types below)[i]? = some r ↔
      ∃ type, types[i]? = some type ∧ slotFrame column i type below = r := by
  rw [slotFrames, List.getElem?_mapIdx, Option.map_eq_some_iff]

/-- The loop gives the slots these frames. -/
theorem makeSlots_frames (h : makeSlots question pattern column below types 0 = .ok slots) :
    slots.map (·.frame) = slotFrames column types below := by
  have hlength := makeSlots_length h
  refine List.ext_getElem? fun i => ?_
  rw [List.getElem?_map, slotFrames, List.getElem?_mapIdx]
  cases hslot : slots[i]? with
  | none =>
    have htype : types[i]? = none := by
      rw [List.getElem?_eq_none_iff] at hslot ⊢
      omega
    rw [htype]
    rfl
  | some slot =>
    obtain ⟨type, htype, hmade⟩ := makeSlots_getElem? h hslot
    obtain ⟨-, label, hint, -, -, rfl⟩ := makeSlot_ok.mp hmade
    rw [htype, Nat.zero_add]
    rfl

/-- The loop runs through when no subscript of the labels and the hints is out of range. -/
theorem makeSlots_total (hcolumn : column ≠ 0)
    (hlabels : i + types.length ≤ pattern.imijunPattern.length)
    (hhints : i + types.length ≤ question.hints.length) :
    ∃ slots, makeSlots question pattern column below types i = .ok slots := by
  induction types generalizing i with
  | nil => exact ⟨[], rfl⟩
  | cons type types ih =>
    rw [List.length_cons] at hlabels hhints
    have hlabel := List.getElem?_eq_getElem (show i < pattern.imijunPattern.length by omega)
    have hhint := List.getElem?_eq_getElem (show i < question.hints.length by omega)
    obtain ⟨rest, hrest⟩ := @ih (i + 1) (by omega) (by omega)
    exact ⟨_, bind_eq_ok.mpr ⟨_, makeSlot_ok.mpr ⟨hcolumn, _, _, hlabel, hhint, rfl⟩,
      bind_eq_ok.mpr ⟨rest, hrest, rfl⟩⟩⟩

/-- The loop needs the same labels and hints wherever it puts the slots. -/
theorem makeSlots_moved (h : makeSlots question pattern column below types i = .ok slots)
    (below' : ℚ) : ∃ slots', makeSlots question pattern column below' types i = .ok slots' := by
  induction types generalizing i slots with
  | nil => exact ⟨[], rfl⟩
  | cons type types ih =>
    obtain ⟨first, hfirst, h⟩ := bind_eq_ok.mp h
    obtain ⟨rest, hrest, -⟩ := bind_eq_ok.mp h
    have ⟨hcolumn, label, hint, hlabel, hhint, _⟩ := makeSlot_ok.mp hfirst
    have ⟨rest', hrest'⟩ := ih hrest
    exact ⟨_, bind_eq_ok.mpr ⟨_, makeSlot_ok.mpr ⟨hcolumn, label, hint, hlabel, hhint, rfl⟩,
      bind_eq_ok.mpr ⟨rest', hrest', rfl⟩⟩⟩

end Imijun
