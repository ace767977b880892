import Imijun.PieceList
import Imijun.Lib.Row
import Imijun.Lib.Selection
import Mathlib.Data.List.Perm.Basic
import Mathlib.Data.List.Nodup
import Mathlib.Data.List.InsertIdx

/-!
# What the operations of the piece list keep

* `AIMPieceView.face`: the part of a piece view that is fixed once `setData` has made it.
* `SameList`: two states of the list that differ in frames and cached positions only.
* `reRenderLoop_cons`: what a turn of the loop of `reRender` does.
* `reRender_same`, `reRender_hintIndex`: `reRender` changes nothing but frames, and it makes the
  cached position of every piece right; `reRender_total`: it does not trap.
* `removePiece_ok`: what `removePiece` takes out, and when it traps.
* `setData_pieces`: the pieces are the non-blank answers, each once, with their own positions.
-/

namespace Imijun

open Fallible

/-- What a piece view keeps from `setData` on: its slot, its number, its answer and its text. -/
def AIMPieceView.face (v : AIMPieceView) : Nat × Nat × Option AIMPiece × String :=
  (v.patternIndex, v.index, v.piece, v.contentLabelText)

namespace AIMListPieceView

variable {l l' l'' : AIMListPieceView} {p q t : Nat}

/-! ## Access -/

@[simp] theorem modifyPiece_pieceView (l : AIMListPieceView) (p q : Nat)
    (f : AIMPieceView → AIMPieceView) :
    (l.modifyPiece p f).pieceView q = if q = p then f (l.pieceView p) else l.pieceView q := by
  simp [modifyPiece, Function.update_apply]

@[simp] theorem hidePiece_pieceView (l : AIMListPieceView) (p q : Nat) (b : Bool) :
    (l.hidePiece p b).pieceView q =
      if q = p then { l.pieceView p with isHidden := b } else l.pieceView q := by
  simp [hidePiece]

theorem hidePiece_face (l : AIMListPieceView) (p : Nat) (b : Bool) (q : Nat) :
    ((l.hidePiece p b).pieceView q).face = (l.pieceView q).face := by
  by_cases hq : q = p <;> simp [hq, AIMPieceView.face]

@[simp] theorem modifyLabel_hintLabel (l : AIMListPieceView) (t u : Nat)
    (f : UITextView → UITextView) :
    (l.modifyLabel t f).hintLabel u = if u = t then f (l.hintLabel t) else l.hintLabel u := by
  simp [modifyLabel, Function.update_apply]

/-- `l'` differs from `l` in frames, cached positions and the content width only. -/
structure SameList (l l' : AIMListPieceView) : Prop where
  pieceViewArray : l'.pieceViewArray = l.pieceViewArray
  hintLabelArray : l'.hintLabelArray = l.hintLabelArray
  isUserInteractionEnabled : l'.isUserInteractionEnabled = l.isUserInteractionEnabled
  scrollInteractionEnabled : l'.scrollInteractionEnabled = l.scrollInteractionEnabled
  scrollEnabled : l'.scrollEnabled = l.scrollEnabled
  englishHintSelected : l'.englishHintSelected = l.englishHintSelected
  face : ∀ p, (l'.pieceView p).face = (l.pieceView p).face
  isHidden : ∀ p, (l'.pieceView p).isHidden = (l.pieceView p).isHidden
  labelText : ∀ t, (l'.hintLabel t).text = (l.hintLabel t).text
  labelHidden : ∀ t, (l'.hintLabel t).isHidden = (l.hintLabel t).isHidden

theorem SameList.refl (l : AIMListPieceView) : SameList l l := by
  constructor <;> simp

theorem SameList.trans (h : SameList l l') (h' : SameList l' l'') : SameList l l'' where
  pieceViewArray := h'.pieceViewArray.trans h.pieceViewArray
  hintLabelArray := h'.hintLabelArray.trans h.hintLabelArray
  isUserInteractionEnabled := h'.isUserInteractionEnabled.trans h.isUserInteractionEnabled
  scrollInteractionEnabled := h'.scrollInteractionEnabled.trans h.scrollInteractionEnabled
  scrollEnabled := h'.scrollEnabled.trans h.scrollEnabled
  englishHintSelected := h'.englishHintSelected.trans h.englishHintSelected
  face p := (h'.face p).trans (h.face p)
  isHidden p := (h'.isHidden p).trans (h.isHidden p)
  labelText t := (h'.labelText t).trans (h.labelText t)
  labelHidden t := (h'.labelHidden t).trans (h.labelHidden t)

@[simp] theorem cachePosition_pieceView (l : AIMListPieceView) (p q index : Nat) :
    (l.cachePosition p index).pieceView q =
      if q = p then { l.pieceView p with hintIndex := index } else l.pieceView q := by
  simp [cachePosition]

@[simp] theorem placePiece_pieceView (l : AIMListPieceView) (p q : Nat) (frame : CGRect) :
    (l.placePiece p frame).pieceView q =
      if q = p then { l.pieceView p with frame := frame } else l.pieceView q := by
  simp [placePiece]

@[simp] theorem placeLabel_pieceView (l : AIMListPieceView) (t q : Nat) (frame : CGRect) :
    (l.placeLabel t frame).pieceView q = l.pieceView q := rfl

theorem sameList_cachePosition (l : AIMListPieceView) (p index : Nat) :
    SameList l (l.cachePosition p index) := by
  constructor <;> try (first | rfl | intro; rfl)
  · intro q; by_cases hq : q = p <;> simp [hq, AIMPieceView.face]
  · intro q; by_cases hq : q = p <;> simp [hq]

theorem sameList_placePiece (l : AIMListPieceView) (p : Nat) (frame : CGRect) :
    SameList l (l.placePiece p frame) := by
  constructor <;> try (first | rfl | intro; rfl)
  · intro q; by_cases hq : q = p <;> simp [hq, AIMPieceView.face]
  · intro q; by_cases hq : q = p <;> simp [hq]

theorem sameList_placeLabel (l : AIMListPieceView) (t : Nat) (frame : CGRect) :
    SameList l (l.placeLabel t frame) := by
  constructor <;> try (first | rfl | intro; rfl)
  · intro u; by_cases hu : u = t <;> simp [placeLabel, hu]
  · intro u; by_cases hu : u = t <;> simp [placeLabel, hu]

/-! ## `reRender` -/

def width (l : AIMListPieceView) (q : Nat) : ℚ := (l.pieceView q).frame.width

/-- The frame in the given row, of the given width, after pieces of the widths `before` in a layout
that begins with this content width. -/
def rowFrame (contentWidth : ℚ) (before : List ℚ) (row width : ℚ) : CGRect :=
  ⟨Row.after kAIMPieceViewHorizontalPadding (contentWidth + kAIMPieceViewHorizontalPadding) before,
    row, width, kAIMPieceViewFrame.height⟩

/-- The list after a turn that lays out the visible piece `p`, with its label `t`. -/
def laidOut (l : AIMListPieceView) (p index t : Nat) (contentWidth : ℚ) : AIMListPieceView :=
  let l' := (l.cachePosition p index).placePiece p (rowFrame contentWidth [] pieceRow (l.width p))
  l'.placeLabel t (rowFrame contentWidth [] hintRow (l.width p))

@[simp] theorem laidOut_hintLabelArray (l : AIMListPieceView) (p index t : Nat) (w : ℚ) :
    (l.laidOut p index t w).hintLabelArray = l.hintLabelArray := rfl

theorem laidOut_pieceView (l : AIMListPieceView) (p index t : Nat) (w : ℚ) (q : Nat) :
    (l.laidOut p index t w).pieceView q =
      if q = p then { l.pieceView p with
        hintIndex := index, frame := rowFrame w [] pieceRow (l.width p) } else l.pieceView q := by
  unfold laidOut
  by_cases hq : q = p <;> simp [hq]

theorem laidOut_hintLabel (l : AIMListPieceView) (p index t : Nat) (w : ℚ) (u : Nat) :
    (l.laidOut p index t w).hintLabel u =
      if u = t then { l.hintLabel t with frame := rowFrame w [] hintRow (l.width p) }
      else l.hintLabel u := by
  unfold laidOut placeLabel
  rw [modifyLabel_hintLabel]
  rfl

/-- A turn hides no piece, shows none, and keeps the widths. -/
theorem cachePosition_kept (l : AIMListPieceView) (p index q : Nat) :
    ((l.cachePosition p index).pieceView q).isHidden = (l.pieceView q).isHidden ∧
      (l.cachePosition p index).width q = l.width q := by
  unfold width
  rw [cachePosition_pieceView]
  split_ifs with hq
  · rw [hq]
    exact ⟨rfl, rfl⟩
  · exact ⟨rfl, rfl⟩

theorem laidOut_kept (l : AIMListPieceView) (p index t : Nat) (w : ℚ) (q : Nat) :
    ((l.laidOut p index t w).pieceView q).isHidden = (l.pieceView q).isHidden ∧
      (l.laidOut p index t w).width q = l.width q := by
  unfold width
  rw [laidOut_pieceView]
  split_ifs with hq
  · rw [hq]
    exact ⟨rfl, rfl⟩
  · exact ⟨rfl, rfl⟩

/-- A turn of the loop. -/
theorem reRenderLoop_cons {ps : List Nat} {index : Nat} {w : ℚ} {r : AIMListPieceView × ℚ}
    (h : reRenderLoop (p :: ps) index w l = .ok r) :
    ((l.pieceView p).isHidden = true ∧
        reRenderLoop ps (index + 1) w (l.cachePosition p index) = .ok r) ∨
      ((l.pieceView p).isHidden = false ∧ ∃ t, l.hintLabelArray[index]? = some t ∧
        reRenderLoop ps (index + 1) (w + kAIMPieceViewHorizontalPadding + l.width p)
          (l.laidOut p index t w) = .ok r) := by
  have hcached : (l.cachePosition p index).pieceView p =
      { l.pieceView p with hintIndex := index } := by
    rw [cachePosition_pieceView, if_pos rfl]
  rw [reRenderLoop] at h
  dsimp only at h
  rw [hcached] at h
  split at h
  · next hhidden => exact .inl ⟨hhidden, h⟩
  · next hhidden =>
    obtain ⟨t, ht, h⟩ := bind_eq_ok.mp h
    rw [subscript_eq_ok] at ht
    exact .inr ⟨Bool.not_eq_true _ ▸ hhidden, t, ht, h⟩

theorem sameList_laidOut (l : AIMListPieceView) (p index t : Nat) (w : ℚ) :
    SameList l (l.laidOut p index t w) :=
  (sameList_cachePosition l p index).trans
    ((sameList_placePiece _ _ _).trans (sameList_placeLabel _ _ _))

theorem reRenderLoop_same {ps : List Nat} {index : Nat} {w : ℚ} {r : AIMListPieceView × ℚ}
    (h : reRenderLoop ps index w l = .ok r) : SameList l r.1 := by
  induction ps generalizing index w l with
  | nil =>
    obtain rfl := Except.ok.inj h
    exact .refl l
  | cons p ps ih =>
    rcases reRenderLoop_cons h with ⟨-, h⟩ | ⟨-, t, -, h⟩
    · exact (sameList_cachePosition l p index).trans (ih h)
    · exact (sameList_laidOut l p index t w).trans (ih h)

/-- The loop leaves the cached position of a piece outside the rest of the array alone. -/
theorem reRenderLoop_hintIndex_of_notMem {ps : List Nat} {index : Nat} {w : ℚ}
    {r : AIMListPieceView × ℚ} (h : reRenderLoop ps index w l = .ok r) (hp : q ∉ ps) :
    (r.1.pieceView q).hintIndex = (l.pieceView q).hintIndex := by
  induction ps generalizing index w l with
  | nil =>
    obtain rfl := Except.ok.inj h
    rfl
  | cons p ps ih =>
    obtain ⟨hqp, hps⟩ := not_or.mp (List.mem_cons.not.mp hp)
    rcases reRenderLoop_cons h with ⟨-, h⟩ | ⟨-, t, -, h⟩
    · rw [ih h hps, cachePosition_pieceView, if_neg hqp]
    · rw [ih h hps, laidOut_pieceView, if_neg hqp]

theorem reRenderLoop_hintIndex {ps : List Nat} {index : Nat} {w : ℚ} {r : AIMListPieceView × ℚ}
    (hnodup : ps.Nodup) (h : reRenderLoop ps index w l = .ok r) {i : Nat} (hi : ps[i]? = some q) :
    (r.1.pieceView q).hintIndex = index + i := by
  induction ps generalizing index w l i with
  | nil => cases hi
  | cons p ps ih =>
    obtain ⟨hp, hps⟩ := List.nodup_cons.mp hnodup
    cases i with
    | zero =>
      obtain rfl := Option.some.inj hi
      rcases reRenderLoop_cons h with ⟨-, h⟩ | ⟨-, t, -, h⟩
      · rw [reRenderLoop_hintIndex_of_notMem h hp, cachePosition_pieceView, if_pos rfl]
        rfl
      · rw [reRenderLoop_hintIndex_of_notMem h hp, laidOut_pieceView, if_pos rfl]
        rfl
    | succ i =>
      have hnext : index + 1 + i = index + (i + 1) := by omega
      rw [← hnext]
      rcases reRenderLoop_cons h with ⟨-, h⟩ | ⟨-, t, -, h⟩
      · exact ih hps h hi
      · exact ih hps h hi

/-- `reRender` changes frames and cached positions only. -/
theorem reRender_same (h : reRender l = .ok l') : SameList l l' := by
  obtain ⟨r, hloop, hr⟩ := bind_eq_ok.mp h
  obtain rfl := Except.ok.inj hr
  obtain ⟨h1, h2, h3, h4, h5, h6, h7, h8, h9, h10⟩ := reRenderLoop_same hloop
  exact ⟨h1, h2, h3, h4, h5, h6, h7, h8, h9, h10⟩

/-- After `reRender` the cached position of every listed piece is its position. -/
theorem reRender_hintIndex (hnodup : l.pieceViewArray.Nodup) (h : reRender l = .ok l') {i : Nat}
    (hi : l.pieceViewArray[i]? = some p) : (l'.pieceView p).hintIndex = i := by
  obtain ⟨r, hloop, hr⟩ := bind_eq_ok.mp h
  obtain rfl := Except.ok.inj hr
  simpa using reRenderLoop_hintIndex hnodup hloop hi

theorem reRenderLoop_total {ps : List Nat} {index : Nat}
    (h : index + ps.length ≤ l.hintLabelArray.length) (w : ℚ) :
    ∃ r, reRenderLoop ps index w l = .ok r := by
  induction ps generalizing index w l with
  | nil => exact ⟨_, rfl⟩
  | cons p ps ih =>
    rw [List.length_cons] at h
    have hlabel : subscript l.hintLabelArray index = .ok l.hintLabelArray[index] :=
      subscript_eq_ok.mpr (List.getElem?_eq_getElem (by omega))
    have hrest (m : AIMListPieceView) (hm : m.hintLabelArray = l.hintLabelArray) (w : ℚ) :
        ∃ r, reRenderLoop ps (index + 1) w m = .ok r := by
      refine ih ?_ w
      rw [hm]
      omega
    rw [reRenderLoop]
    split
    · refine hrest _ ?_ _
      rfl
    · show ∃ r, (subscript l.hintLabelArray index >>= _) = .ok r
      rw [hlabel]
      refine hrest _ ?_ _
      rfl

/-- With a label for every piece no subscript of `reRender` is out of range. -/
theorem reRender_total (h : l.pieceViewArray.length ≤ l.hintLabelArray.length) :
    ∃ l', reRender l = .ok l' := by
  have hstart : 0 + l.pieceViewArray.length ≤ l.hintLabelArray.length := by
    rw [Nat.zero_add]
    exact h
  obtain ⟨r, hr⟩ := reRenderLoop_total hstart 0
  exact ⟨_, bind_eq_ok.mpr ⟨r, hr, rfl⟩⟩

/-! ## `removePiece` -/

theorem removePiece_ok :
    removePiece l p = .ok l' ↔ ∃ t, l.hintLabelArray[(l.pieceView p).hintIndex]? = some t ∧
      l' = { l with
        pieceViewArray := l.pieceViewArray.filter (· ≠ p)
        hintLabelArray := l.hintLabelArray.filter (· ≠ t) } := by
  simp only [removePiece, bind_eq_ok, subscript_eq_ok, pure, Except.pure, Except.ok.injEq]
  exact exists_congr fun t => and_congr_right fun _ => eq_comm

/-! ## `showHint` -/

/-- Showing or hiding the hint labels changes nothing but their visibility. -/
theorem showHint_keeps (l : AIMListPieceView) (b : Bool) :
    (l.showHint b).pieceView = l.pieceView ∧
      (l.showHint b).pieceViewArray = l.pieceViewArray ∧
      (l.showHint b).hintLabelArray = l.hintLabelArray ∧
      (∀ t, ((l.showHint b).hintLabel t).text = (l.hintLabel t).text) ∧
      (l.showHint b).isUserInteractionEnabled = l.isUserInteractionEnabled ∧
      (l.showHint b).scrollInteractionEnabled = l.scrollInteractionEnabled ∧
      (l.showHint b).scrollEnabled = l.scrollEnabled := by
  suffices h : ∀ (ts : List Nat) (m : AIMListPieceView),
      let m' := ts.foldl (fun l t => l.modifyLabel t fun v => { v with isHidden := !b }) m
      m'.pieceView = m.pieceView ∧ m'.pieceViewArray = m.pieceViewArray ∧
        m'.hintLabelArray = m.hintLabelArray ∧
        (∀ t, (m'.hintLabel t).text = (m.hintLabel t).text) ∧
        m'.isUserInteractionEnabled = m.isUserInteractionEnabled ∧
        m'.scrollInteractionEnabled = m.scrollInteractionEnabled ∧
        m'.scrollEnabled = m.scrollEnabled from h l.hintLabelArray l
  intro ts
  induction ts with
  | nil => simp
  | cons t ts ih =>
    intro m
    obtain ⟨h1, h2, h3, h4, h5, h6, h7⟩ := ih (m.modifyLabel t fun v => { v with isHidden := !b })
    refine ⟨h1, h2, h3, fun u => (h4 u).trans ?_, h5, h6, h7⟩
    by_cases hu : u = t <;> simp [hu]

/-! ## `setData` -/

/-- The answers and slots of the views made so far, in the order they were made. -/
def madePieces (l : AIMListPieceView) (n : Nat) : List (Option AIMPiece × Nat) :=
  (List.range n).map fun p => ((l.pieceView p).piece, (l.pieceView p).patternIndex)

/-- The list after `index` turns of the loop of `setData`. -/
structure Filled (hints : List AIMPiece) (l : AIMListPieceView) (index : Nat) : Prop where
  pieceViewArray : l.pieceViewArray = List.range index
  hintLabelArray : l.hintLabelArray = List.range index
  numbered : ∀ p < index, (l.pieceView p).index = p ∧ (l.pieceView p).hintIndex = p
  visible : ∀ p < index, (l.pieceView p).isHidden = false
  label : ∀ p < index, ∃ h, hints[(l.pieceView p).patternIndex]? = some h ∧
    (l.hintLabel p).text = h.content
  isUserInteractionEnabled : l.isUserInteractionEnabled = true
  scrollInteractionEnabled : l.scrollInteractionEnabled = true
  scrollEnabled : l.scrollEnabled = true

theorem pieceView_setData_ok {ui : Platform} {v v' : AIMPieceView} {a : AIMPiece}
    (h : v.setData ui a = .ok v') :
    v'.piece = some a ∧ v'.patternIndex = v.patternIndex ∧ v'.index = v.index ∧
      v'.hintIndex = v.hintIndex := by
  obtain ⟨text, -, h⟩ := bind_eq_ok.mp h
  obtain rfl := Except.ok.inj h
  exact ⟨rfl, rfl, rfl, rfl⟩

theorem addPiece_filled {hints : List AIMPiece} {index : Nat} (hl : Filled hints l index)
    (v : AIMPieceView) (lab : UITextView) {hint : AIMPiece} (hindex : v.index = index)
    (hhint : v.hintIndex = index) (hvis : v.isHidden = false)
    (hlab : hints[v.patternIndex]? = some hint) (htext : lab.text = hint.content) :
    Filled hints (l.addPiece index v lab) (index + 1) where
  pieceViewArray := by simp [addPiece, hl.pieceViewArray, List.range_succ]
  hintLabelArray := by simp [addPiece, hl.hintLabelArray, List.range_succ]
  numbered p hp := by
    rcases Nat.lt_succ_iff_lt_or_eq.mp hp with hp | rfl
    · simpa [addPiece, hp.ne] using hl.numbered p hp
    · simp [addPiece, hindex, hhint]
  visible p hp := by
    rcases Nat.lt_succ_iff_lt_or_eq.mp hp with hp | rfl
    · simpa [addPiece, hp.ne] using hl.visible p hp
    · simp [addPiece, hvis]
  label p hp := by
    rcases Nat.lt_succ_iff_lt_or_eq.mp hp with hp | rfl
    · simpa [addPiece, hp.ne] using hl.label p hp
    · exact ⟨hint, by simpa [addPiece] using hlab, by simpa [addPiece] using htext⟩
  isUserInteractionEnabled := hl.isUserInteractionEnabled
  scrollInteractionEnabled := hl.scrollInteractionEnabled
  scrollEnabled := hl.scrollEnabled

theorem madePieces_addPiece (l : AIMListPieceView) (index : Nat) (v : AIMPieceView)
    (lab : UITextView) :
    (l.addPiece index v lab).madePieces (index + 1) =
      l.madePieces index ++ [(v.piece, v.patternIndex)] := by
  have hold : (l.addPiece index v lab).madePieces index = l.madePieces index := by
    refine List.map_congr_left fun p hp => ?_
    have hne : p ≠ index := (List.mem_range.mp hp).ne
    simp [addPiece, hne]
  simp only [madePieces] at hold ⊢
  rw [List.range_succ, List.map_append, hold]
  simp [addPiece]

/-- An entry of `answerArray` and `indexArray` as the views record it. -/
def asMade (e : AIMPiece × Nat) : Option AIMPiece × Nat := (some e.1, e.2)

/-- The view of a turn that begins with this content width, where the loop puts it. -/
def placedView (view : AIMPieceView) (contentWidth : ℚ) : AIMPieceView :=
  { view with
    frame := ⟨contentWidth + kAIMPieceViewHorizontalPadding, pieceRow, view.frame.width,
      kAIMPieceViewFrame.height⟩
    isHidden := false }

/-- Its hint label. -/
def placedLabel (view : AIMPieceView) (hint : AIMPiece) (contentWidth : ℚ) : UITextView :=
  ⟨hint.content, ⟨contentWidth + kAIMPieceViewHorizontalPadding, hintRow, view.frame.width,
    kAIMPieceViewFrame.height⟩, true⟩

/-- A turn of the loop of `setData`, which draws from both arrays at one position. -/
theorem setDataLoop_succ {ui : Platform} {hints : List AIMPiece} {draws : Nat → Nat}
    {entries : List (AIMPiece × Nat)} {count index : Nat} {w : ℚ} {r : AIMListPieceView × ℚ} :
    setDataLoop ui hints draws (count + 1) (entries.map Prod.fst) (entries.map Prod.snd) index w l
        = .ok r ↔
      ∃ e view hint, entries[draws index % (count + 1)]? = some e ∧
        (AIMPieceView.loadFromNibWithIndex e.2 index index).setData ui e.1 = .ok view ∧
        hints[e.2]? = some hint ∧
        setDataLoop ui hints draws count
          ((entries.eraseIdx (draws index % (count + 1))).map Prod.fst)
          ((entries.eraseIdx (draws index % (count + 1))).map Prod.snd) (index + 1)
          (w + kAIMPieceViewHorizontalPadding + view.frame.width)
          (l.addPiece index (placedView view w) (placedLabel view hint w)) = .ok r := by
  rw [setDataLoop, List.eraseIdx_map, List.eraseIdx_map]
  constructor
  · intro h
    obtain ⟨answer, hanswer, h⟩ := bind_eq_ok.mp h
    obtain ⟨patternIndex, hindex, h⟩ := bind_eq_ok.mp h
    obtain ⟨view, hview, h⟩ := bind_eq_ok.mp h
    obtain ⟨hint, hhint, hrest⟩ := bind_eq_ok.mp h
    rw [subscript_eq_ok] at hanswer hindex hhint
    rw [List.getElem?_map, Option.map_eq_some_iff] at hanswer hindex
    obtain ⟨e, he, rfl⟩ := hanswer
    obtain ⟨e', he', rfl⟩ := hindex
    obtain rfl := Option.some.inj (he.symm.trans he')
    exact ⟨e, view, hint, he, hview, hhint, hrest⟩
  · rintro ⟨e, view, hint, he, hview, hhint, h⟩
    have hanswer : (entries.map Prod.fst)[draws index % (count + 1)]? = some e.1 := by
      rw [List.getElem?_map, he]
      rfl
    have hindex : (entries.map Prod.snd)[draws index % (count + 1)]? = some e.2 := by
      rw [List.getElem?_map, he]
      rfl
    exact bind_eq_ok.mpr ⟨e.1, subscript_eq_ok.mpr hanswer,
      bind_eq_ok.mpr ⟨e.2, subscript_eq_ok.mpr hindex,
        bind_eq_ok.mpr ⟨view, hview, bind_eq_ok.mpr ⟨hint, subscript_eq_ok.mpr hhint, h⟩⟩⟩⟩

/-- The loop of `setData` makes the views in the order in which the draws select the entries. -/
theorem setDataLoop_filled {ui : Platform} {hints : List AIMPiece} {draws : Nat → Nat}
    (entries : List (AIMPiece × Nat)) {count index : Nat} {w : ℚ} {r : AIMListPieceView × ℚ}
    (hl : Filled hints l index)
    (h : setDataLoop ui hints draws count (entries.map Prod.fst) (entries.map Prod.snd) index w l
      = .ok r) :
    Filled hints r.1 (index + count) ∧
      r.1.madePieces (index + count) =
        l.madePieces index ++ (Selection.select draws count index entries).map asMade := by
  induction count generalizing entries index w l with
  | zero =>
    obtain rfl := Except.ok.inj h
    exact ⟨hl, (List.append_nil _).symm⟩
  | succ count ih =>
    obtain ⟨e, view, hint, he, hview, hhint, h⟩ := setDataLoop_succ.mp h
    obtain ⟨hpiece, hpattern, hnum, hcached⟩ := pieceView_setData_ok hview
    have hadd := addPiece_filled hl (placedView view w) (placedLabel view hint w) hnum hcached rfl
      (by rw [placedView, hpattern]; exact hhint) rfl
    -- the rest of the loop draws from what this turn leaves
    obtain ⟨hfilled, hmade⟩ := ih _ hadd h
    have hsum : index + 1 + count = index + (count + 1) := by omega
    rw [hsum] at hfilled hmade
    refine ⟨hfilled, ?_⟩
    have hentry : ((placedView view w).piece, (placedView view w).patternIndex) = asMade e := by
      rw [placedView, hpiece, hpattern]
      rfl
    rw [hmade, madePieces_addPiece, hentry, Selection.select_succ he, List.map_cons,
      List.append_assoc]
    rfl

/-- The number of pieces `setData` makes. -/
def pieceCount (answers : List AIMPiece) : Nat := (answerEntries answers).length

/-- `setData` on the list of the nib makes one view for each non-blank answer, under the numbers
`0, 1, ...`, in the order of the draws. -/
theorem setData_made {ui : Platform} {frame : CGRect} {answers hints : List AIMPiece}
    {draws : Nat → Nat} (h : (loadFromNibWithBundle frame).setData ui answers hints draws = .ok l) :
    Filled hints l (pieceCount answers) ∧ l.madePieces (pieceCount answers) =
      (Selection.select draws (pieceCount answers) 0 (answerEntries answers)).map asMade := by
  obtain ⟨r, hloop, hr⟩ := bind_eq_ok.mp h
  obtain rfl := Except.ok.inj hr
  have hempty : Filled hints (loadFromNibWithBundle frame) 0 := by
    constructor <;> simp [loadFromNibWithBundle]
  obtain ⟨hfilled, hmade⟩ := setDataLoop_filled _ hempty hloop
  rw [Nat.zero_add] at hfilled hmade
  obtain ⟨h1, h2, h3, h4, h5, h6, h7, h8⟩ := hfilled
  exact ⟨⟨h1, h2, h3, h4, h5, h6, h7, h8⟩, hmade⟩

/-- These views carry the entries in some order. -/
theorem setData_filled {ui : Platform} {frame : CGRect} {answers hints : List AIMPiece}
    {draws : Nat → Nat} (h : (loadFromNibWithBundle frame).setData ui answers hints draws = .ok l) :
    Filled hints l (pieceCount answers) ∧
      (l.madePieces (pieceCount answers)).Perm ((answerEntries answers).map asMade) := by
  obtain ⟨hfilled, hmade⟩ := setData_made h
  refine ⟨hfilled, ?_⟩
  rw [hmade]
  exact (Selection.select_perm draws rfl).map _

theorem mem_answerEntries {answers : List AIMPiece} {a : AIMPiece} {k : Nat} :
    (a, k) ∈ answerEntries answers ↔ answers[k]? = some a ∧ isBlank a.content = false := by
  simp [answerEntries, List.mem_zipIdx_iff_getElem?]

theorem answerEntries_positions_nodup (answers : List AIMPiece) :
    ((answerEntries answers).map Prod.snd).Nodup := by
  have hsub : ((answerEntries answers).map Prod.snd).Sublist (answers.zipIdx.map Prod.snd) :=
    List.filter_sublist.map _
  refine hsub.nodup ?_
  rw [List.zipIdx_map_snd]
  exact List.nodup_range'

/-- The pieces of a fresh list. -/
structure Pieces (answers hints : List AIMPiece) (l : AIMListPieceView) : Prop where
  filled : Filled hints l (pieceCount answers)
  /-- each piece carries the non-blank answer at its slot's position -/
  answer : ∀ p < pieceCount answers, ∃ a, answers[(l.pieceView p).patternIndex]? = some a ∧
    isBlank a.content = false ∧ (l.pieceView p).piece = some a
  /-- no two pieces belong to one slot -/
  slot_injective : ∀ p < pieceCount answers, ∀ q < pieceCount answers,
    (l.pieceView p).patternIndex = (l.pieceView q).patternIndex → p = q
  /-- every non-blank answer has a piece -/
  complete : ∀ k a, answers[k]? = some a → isBlank a.content = false →
    ∃ p < pieceCount answers, (l.pieceView p).patternIndex = k

/-- `AIMListPieceView.setData` builds one piece for each non-blank answer. -/
theorem setData_pieces {ui : Platform} {frame : CGRect} {answers hints : List AIMPiece}
    {draws : Nat → Nat} (h : (loadFromNibWithBundle frame).setData ui answers hints draws = .ok l) :
    Pieces answers hints l := by
  obtain ⟨hfilled, hperm⟩ := setData_filled h
  have hmem : ∀ p < pieceCount answers, ∃ e ∈ answerEntries answers,
      asMade e = ((l.pieceView p).piece, (l.pieceView p).patternIndex) := by
    intro p hp
    refine List.mem_map.mp (hperm.subset ?_)
    exact List.mem_map.mpr ⟨p, List.mem_range.mpr hp, rfl⟩
  have hslots : ((List.range (pieceCount answers)).map
      fun p => (l.pieceView p).patternIndex).Nodup := by
    have hsnd := (hperm.map Prod.snd).nodup_iff.mpr
      (by simpa [Function.comp_def, asMade] using answerEntries_positions_nodup answers)
    simpa [madePieces, Function.comp_def] using hsnd
  refine ⟨hfilled, fun p hp => ?_, fun p hp q hq hpq => ?_, fun k a hk hblank => ?_⟩
  · obtain ⟨⟨a, k⟩, hin, hmade⟩ := hmem p hp
    obtain ⟨hpiece, hpattern⟩ := Prod.mk.injEq .. ▸ hmade
    obtain ⟨hk, hblank⟩ := mem_answerEntries.mp hin
    exact ⟨a, hpattern ▸ hk, hblank, hpiece.symm⟩
  · exact List.inj_on_of_nodup_map hslots (List.mem_range.mpr hp) (List.mem_range.mpr hq) hpq
  · have hin : asMade (a, k) ∈ l.madePieces (pieceCount answers) :=
      hperm.mem_iff.mpr (List.mem_map_of_mem (mem_answerEntries.mpr ⟨hk, hblank⟩))
    obtain ⟨p, hp, hmade⟩ := List.mem_map.mp hin
    exact ⟨p, List.mem_range.mp hp, congrArg Prod.snd hmade⟩

end AIMListPieceView

end Imijun
