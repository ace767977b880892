import Imijun.RunFacts
import Imijun.Shuffle
import Imijun.Lib.CachedIndex

/-!
# Layout before and after a removal

When a drop is accepted, `reRender` lays the list out while the dropped piece is hidden but still
listed, and the completion takes the piece out without laying out again.

* `shownPairs`: the visible pieces with their labels; `reRender_frames` says that `reRender` lays
  them in a row, whatever is hidden between them.
* `setDataLoop_frames`: the loop of `setData` lays the pieces it makes in the same row, and
  `fitted_run`: in every run they keep what it gave them.
* `relayout_commutes`: so the removal of a hidden piece may come before `reRender` or after it.
-/

namespace Imijun

open Transition Fallible List CachedIndex

namespace AIMListPieceView

variable {l l' : AIMListPieceView} {p q t k : Nat}

/-- The pieces and the labels stand side by side, each once. -/
structure Aligned (l : AIMListPieceView) : Prop where
  pieces : l.pieceViewArray.Nodup
  labels : l.hintLabelArray.Nodup
  length : l.hintLabelArray.length = l.pieceViewArray.length

/-- The visible pieces in order, each with its label. -/
def shownPairs (l : AIMListPieceView) : List (Nat × Nat) :=
  (l.pieceViewArray.zip l.hintLabelArray).filter fun e => !(l.pieceView e.1).isHidden

/-! ## The loop of `reRender` -/

/-- The loop leaves the frame of a piece outside the rest of the array alone. -/
theorem reRenderLoop_frame_of_notMem {ps : List Nat} {index : Nat} {w : ℚ}
    {r : AIMListPieceView × ℚ} (h : reRenderLoop ps index w l = .ok r) (hq : q ∉ ps) :
    (r.1.pieceView q).frame = (l.pieceView q).frame := by
  induction ps generalizing index w l with
  | nil =>
    obtain rfl := Except.ok.inj h
    rfl
  | cons p ps ih =>
    have ⟨hqp, hps⟩ := not_or.mp (mem_cons.not.mp hq)
    rcases reRenderLoop_cons h with ⟨-, h⟩ | ⟨-, t, -, h⟩
    · rw [ih h hps, cachePosition_pieceView, if_neg hqp]
    · rw [ih h hps, laidOut_pieceView, if_neg hqp]

/-- It leaves the labels in front of `index` alone. -/
theorem reRenderLoop_label_of_notMem {ps : List Nat} {index : Nat} {w : ℚ}
    {r : AIMListPieceView × ℚ} (h : reRenderLoop ps index w l = .ok r)
    (ht : t ∉ l.hintLabelArray.drop index) :
    (r.1.hintLabel t).frame = (l.hintLabel t).frame := by
  induction ps generalizing index w l with
  | nil =>
    obtain rfl := Except.ok.inj h
    rfl
  | cons p ps ih =>
    have hnext : t ∉ l.hintLabelArray.drop (index + 1) := by
      intro hmem
      rw [← drop_drop] at hmem
      exact ht (mem_of_mem_drop hmem)
    rcases reRenderLoop_cons h with ⟨-, h⟩ | ⟨-, u, hu, h⟩
    · have hrest := ih h hnext
      exact hrest
    · have hne : t ≠ u := by
        rintro rfl
        obtain ⟨hlt, rfl⟩ := List.getElem?_eq_some_iff.mp hu
        refine ht ?_
        rw [drop_eq_getElem_cons hlt]
        exact mem_cons_self
      rw [ih h hnext, laidOut_hintLabel, if_neg hne]

/-- The loop lays the visible pieces and their labels in a row. -/
theorem reRenderLoop_frames {hid : Nat → Bool} {wid : Nat → ℚ} {ps : List Nat} {index : Nat} {w : ℚ}
    {r : AIMListPieceView × ℚ} (hps : ps.Nodup) (hlabels : l.hintLabelArray.Nodup)
    (hlength : index + ps.length ≤ l.hintLabelArray.length)
    (hhid : ∀ q, (l.pieceView q).isHidden = hid q) (hwid : ∀ q, l.width q = wid q)
    (h : reRenderLoop ps index w l = .ok r) {shown : List (Nat × Nat)}
    (hshown : (ps.zip (l.hintLabelArray.drop index)).filter (fun e => !hid e.1) = shown) :
    r.2 + kAIMPieceViewHorizontalPadding = Row.after kAIMPieceViewHorizontalPadding
        (w + kAIMPieceViewHorizontalPadding) (shown.map fun e => wid e.1) ∧
      ∀ (j : Nat) e, shown[j]? = some e →
        (r.1.pieceView e.1).frame =
          rowFrame w ((shown.take j).map fun e => wid e.1) pieceRow (wid e.1) ∧
        (r.1.hintLabel e.2).frame =
          rowFrame w ((shown.take j).map fun e => wid e.1) hintRow (wid e.1) := by
  induction ps generalizing index w l shown with
  | nil =>
    obtain rfl := Except.ok.inj h
    obtain rfl : [] = shown := hshown
    refine ⟨rfl, fun j e he => ?_⟩
    cases he
  | cons p ps ih =>
    obtain ⟨hp, hps⟩ := nodup_cons.mp hps
    rw [length_cons] at hlength
    have hlt : index < l.hintLabelArray.length := by omega
    have hnext : index + 1 + ps.length ≤ l.hintLabelArray.length := by omega
    rw [drop_eq_getElem_cons hlt, zip_cons_cons] at hshown
    rcases reRenderLoop_cons h with ⟨hhidden, hturn⟩ | ⟨hvisible, t, ht, hturn⟩
    · -- a hidden piece is passed over, and its label with it
      rw [filter_cons_of_neg (by simp [← hhid, hhidden])] at hshown
      have hkept := l.cachePosition_kept p index
      exact ih (l := l.cachePosition p index) hps hlabels hnext
        (fun q => (hkept q).1.trans (hhid q)) (fun q => (hkept q).2.trans (hwid q)) hturn hshown
    · rw [filter_cons_of_pos (by simp [← hhid, hvisible])] at hshown
      obtain ⟨_, rfl⟩ := List.getElem?_eq_some_iff.mp ht
      subst hshown
      have hkept := l.laidOut_kept p index l.hintLabelArray[index] w
      obtain ⟨hwidth, hframes⟩ := ih (l := l.laidOut p index l.hintLabelArray[index] w) hps hlabels
        hnext (fun q => (hkept q).1.trans (hhid q)) (fun q => (hkept q).2.trans (hwid q)) hturn rfl
      rw [hwid] at hwidth hframes
      refine ⟨hwidth, fun j e he => ?_⟩
      cases j with
      | zero =>
        obtain rfl := Option.some.inj he
        have hlabel : l.hintLabelArray[index] ∉ l.hintLabelArray.drop (index + 1) := by
          have hnodup := (drop_sublist index _).nodup hlabels
          rw [drop_eq_getElem_cons hlt] at hnodup
          exact (nodup_cons.mp hnodup).1
        refine ⟨?_, ?_⟩
        · rw [reRenderLoop_frame_of_notMem hturn hp, laidOut_pieceView, if_pos rfl, hwid]
          rfl
        · rw [reRenderLoop_label_of_notMem hturn hlabel, laidOut_hintLabel, if_pos rfl, hwid]
          rfl
      | succ j => exact hframes j e he

/-! ## `reRender` and a removal -/

/-- The pieces and labels `shown`, of the widths `wid`, stand in the row of the list, and the
content ends behind them. -/
structure InRow (shown : List (Nat × Nat)) (wid : Nat → ℚ) (l : AIMListPieceView) : Prop where
  contentWidth : l.contentWidth = Row.after kAIMPieceViewHorizontalPadding
    kAIMPieceViewHorizontalPadding (shown.map fun e => wid e.1)
  frames : ∀ (j : Nat) e, shown[j]? = some e →
    (l.pieceView e.1).frame =
      rowFrame 0 ((shown.take j).map fun e => wid e.1) pieceRow (wid e.1) ∧
    (l.hintLabel e.2).frame =
      rowFrame 0 ((shown.take j).map fun e => wid e.1) hintRow (wid e.1)

/-- `reRender` lays the visible pieces in a row. -/
theorem reRender_frames (hl : l.Aligned) (h : l.reRender = .ok l') :
    l'.InRow l.shownPairs l.width := by
  obtain ⟨r, hloop, hr⟩ := bind_eq_ok.mp h
  obtain rfl := Except.ok.inj hr
  have ⟨hwidth, hframes⟩ := reRenderLoop_frames hl.pieces hl.labels
    (by rw [hl.length, Nat.zero_add]) (fun _ => rfl) (fun _ => rfl) hloop rfl
  rw [zero_add] at hwidth
  exact ⟨hwidth, hframes⟩

/-- The list without the piece `p` and the label `t`. -/
def without (l : AIMListPieceView) (p t : Nat) : AIMListPieceView :=
  { l with
    pieceViewArray := l.pieceViewArray.filter (· ≠ p)
    hintLabelArray := l.hintLabelArray.filter (· ≠ t) }

theorem Aligned.hidePiece (hl : l.Aligned) (p : Nat) (b : Bool) : (l.hidePiece p b).Aligned :=
  ⟨hl.pieces, hl.labels, hl.length⟩

theorem Aligned.without (hl : l.Aligned) (hp : l.pieceViewArray[k]? = some p)
    (ht : l.hintLabelArray[k]? = some t) : (l.without p t).Aligned where
  pieces := hl.pieces.filter _
  labels := hl.labels.filter _
  length := by
    show (l.hintLabelArray.filter (· ≠ t)).length = (l.pieceViewArray.filter (· ≠ p)).length
    rw [filter_ne_eq_eraseIdx hl.labels ht, filter_ne_eq_eraseIdx hl.pieces hp,
      length_eraseIdx_of_lt (List.getElem?_eq_some_iff.mp ht).1,
      length_eraseIdx_of_lt (List.getElem?_eq_some_iff.mp hp).1, hl.length]

/-- Taking out a hidden piece and its label takes nothing visible out. -/
theorem shownPairs_without (hl : l.Aligned) (hp : l.pieceViewArray[k]? = some p)
    (ht : l.hintLabelArray[k]? = some t) (hhidden : (l.pieceView p).isHidden = true) :
    (l.without p t).shownPairs = l.shownPairs := by
  show ((l.pieceViewArray.filter (· ≠ p)).zip (l.hintLabelArray.filter (· ≠ t))).filter
    (fun e => !(l.pieceView e.1).isHidden) = _
  rw [zip_filter_ne hl.pieces hl.labels hp ht, filter_filter, shownPairs]
  refine filter_congr fun e _ => ?_
  cases hvisible : (l.pieceView e.1).isHidden with
  | true => rfl
  | false =>
    have hne : e.1 ≠ p := by
      rintro rfl
      cases hvisible.symm.trans hhidden
    rw [decide_eq_true hne]
    rfl

/-- Both orders run through, and leave the visible pieces in the same row. -/
theorem relayout_rows (hl : l.Aligned) (hp : l.pieceViewArray[k]? = some p)
    (hhidden : (l.pieceView p).isHidden = true) (hindex : (l.pieceView p).hintIndex = k) :
    ∃ t l₁ m₂, l.hintLabelArray[k]? = some t ∧ l.reRender = .ok l₁ ∧
      l₁.removePiece p = .ok (l₁.without p t) ∧ l.removePiece p = .ok (l.without p t) ∧
      (l.without p t).reRender = .ok m₂ ∧
      (l₁.without p t).InRow l.shownPairs l.width ∧ m₂.InRow l.shownPairs l.width := by
  have hlt : k < l.hintLabelArray.length := by
    rw [hl.length]
    exact (List.getElem?_eq_some_iff.mp hp).1
  have ht := getElem?_eq_getElem hlt
  have ⟨l₁, hrender⟩ := reRender_total hl.length.ge
  have hwithout := hl.without hp ht
  have ⟨m₂, hrender'⟩ := reRender_total hwithout.length.ge
  have hsame := reRender_same hrender
  refine ⟨_, l₁, m₂, ht, hrender, ?_, ?_, hrender', ?_, ?_⟩
  · -- `reRender` caches the position of hidden pieces as well
    refine removePiece_ok.mpr ⟨_, ?_, rfl⟩
    rw [reRender_hintIndex hl.pieces hrender hp, hsame.hintLabelArray]
    exact ht
  · refine removePiece_ok.mpr ⟨_, ?_, rfl⟩
    rw [hindex]
    exact ht
  · have ⟨hwidth, hframes⟩ := reRender_frames hl hrender
    exact ⟨hwidth, hframes⟩
  · have hrow := reRender_frames hwithout hrender'
    rw [shownPairs_without hl hp ht hhidden] at hrow
    exact hrow

/-! ## The loop of `setData` -/

/-- `AIMPieceView.setData` gives a view of the answer `a` the width `w`, whatever view it is. -/
def SetsWidth (ui : Platform) (a : AIMPiece) (w : ℚ) : Prop :=
  ∀ v : AIMPieceView, ∃ view, v.setData ui a = .ok view ∧ view.frame.width = w

variable {ui : Platform} {hints : List AIMPiece} {draws : Nat → Nat}

theorem setsWidth_of_setData {v view : AIMPieceView} {a : AIMPiece}
    (h : v.setData ui a = .ok view) : SetsWidth ui a view.frame.width := by
  obtain ⟨text, htext, h⟩ := bind_eq_ok.mp h
  obtain rfl := Except.ok.inj h
  intro v'
  exact ⟨_, bind_eq_ok.mpr ⟨text, htext, rfl⟩, rfl⟩

/-- The loop of `setData` lays the pieces it makes in a row, in the order of the draws. -/
theorem setDataLoop_frames {entries : List (AIMPiece × Nat)} {count index : Nat} {w : ℚ}
    (hcount : entries.length = count) {ws : List ℚ}
    (hws : Forall₂ (fun e width => (∃ hint, hints[e.2]? = some hint) ∧ SetsWidth ui e.1 width)
      (Selection.select draws count index entries) ws) :
    ∃ r, setDataLoop ui hints draws count (entries.map Prod.fst) (entries.map Prod.snd) index w l
        = .ok r ∧
      r.2 + kAIMPieceViewHorizontalPadding = Row.after kAIMPieceViewHorizontalPadding
        (w + kAIMPieceViewHorizontalPadding) ws ∧
      (∀ q < index, r.1.pieceView q = l.pieceView q ∧ r.1.hintLabel q = l.hintLabel q) ∧
      ∀ (j : Nat) width, ws[j]? = some width →
        (r.1.pieceView (index + j)).frame = rowFrame w (ws.take j) pieceRow width ∧
        (r.1.hintLabel (index + j)).frame = rowFrame w (ws.take j) hintRow width := by
  induction count generalizing entries index w l ws with
  | zero =>
    cases hws
    exact ⟨(l, w), rfl, rfl, fun _ _ => ⟨rfl, rfl⟩, fun j width h => by cases h⟩
  | succ count ih =>
    have ⟨e, he⟩ := Selection.exists_drawn draws index hcount
    rw [Selection.select_succ he] at hws
    cases hws with
    | @cons _ width _ ws hfirst hws =>
      have ⟨⟨hint, hhint⟩, hset⟩ := hfirst
      obtain ⟨view, hview, rfl⟩ := hset (AIMPieceView.loadFromNibWithIndex e.2 index index)
      have ⟨r, hrest, hend, hkept, hframes⟩ := ih
        (l := l.addPiece index (placedView view w) (placedLabel view hint w))
        (w := w + kAIMPieceViewHorizontalPadding + view.frame.width)
        (Selection.length_eraseIdx_drawn hcount) hws
      refine ⟨r, setDataLoop_succ.mpr ⟨e, view, hint, he, hview, hhint, hrest⟩, hend, ?_, ?_⟩
      · intro q hq
        have ⟨hpiece, hlabel⟩ := hkept q (hq.trans (Nat.lt_succ_self _))
        rw [hpiece, hlabel]
        exact ⟨Function.update_of_ne hq.ne _ _, Function.update_of_ne hq.ne _ _⟩
      · intro j width hj
        cases j with
        | zero =>
          obtain rfl := Option.some.inj hj
          -- the views of this turn keep their frames in the later ones
          have ⟨hpiece, hlabel⟩ := hkept index (Nat.lt_succ_self _)
          rw [Nat.add_zero, hpiece, hlabel]
          show (Function.update l.pieceView index _ index).frame = _ ∧
            (Function.update l.hintLabel index _ index).frame = _
          rw [Function.update_self, Function.update_self]
          exact ⟨rfl, rfl⟩
        | succ j =>
          rw [← Nat.add_assoc, Nat.add_right_comm]
          exact hframes j width hj

/-! ## Views made by `setData` -/

/-- The view is one that `setData` makes: it has an answer, of the width of the answer's text, and a
slot whose hint is in the list. -/
def Fits (ui : Platform) (hints : List AIMPiece) (v : AIMPieceView) : Prop :=
  ∃ a hint, v.piece = some a ∧ hints[v.patternIndex]? = some hint ∧ SetsWidth ui a v.frame.width

/-- `setData` has made the pieces of the list. -/
def Fitted (ui : Platform) (hints : List AIMPiece) (l : AIMListPieceView) : Prop :=
  ∀ q ∈ l.pieceViewArray, Fits ui hints (l.pieceView q)

theorem Fitted.of_keeps (hl : l.Fitted ui hints)
    (hlisted : ∀ q ∈ l'.pieceViewArray, q ∈ l.pieceViewArray)
    (hface : ∀ q, (l'.pieceView q).face = (l.pieceView q).face)
    (hwidth : ∀ q, l'.width q = l.width q) : l'.Fitted ui hints := by
  intro q hq
  have ⟨a, hint, hpiece, hhint, hset⟩ := hl q (hlisted q hq)
  refine ⟨a, hint, ?_, ?_, ?_⟩
  · exact (congrArg (fun f => f.2.2.1) (hface q)).trans hpiece
  · rw [← hhint]
    exact congrArg (fun f => hints[f.1]?) (hface q)
  · have hq := hwidth q
    unfold width at hq
    rw [hq]
    exact hset

theorem reRenderLoop_width {ps : List Nat} {index : Nat} {w : ℚ} {r : AIMListPieceView × ℚ}
    (h : reRenderLoop ps index w l = .ok r) : r.1.width q = l.width q := by
  induction ps generalizing index w l with
  | nil =>
    obtain rfl := Except.ok.inj h
    rfl
  | cons p ps ih =>
    rcases reRenderLoop_cons h with ⟨-, h⟩ | ⟨-, t, -, h⟩
    · exact (ih h).trans (l.cachePosition_kept p index q).2
    · exact (ih h).trans (l.laidOut_kept p index t w q).2

theorem Fitted.reRender (hl : l.Fitted ui hints) (h : l.reRender = .ok l') :
    l'.Fitted ui hints := by
  have hsame := reRender_same h
  obtain ⟨r, hloop, hr⟩ := bind_eq_ok.mp h
  obtain rfl := Except.ok.inj hr
  exact hl.of_keeps (fun _ hq => hsame.pieceViewArray ▸ hq) hsame.face
    fun _ => reRenderLoop_width hloop

theorem Fitted.hidePiece (hl : l.Fitted ui hints) (p : Nat) (b : Bool) :
    (l.hidePiece p b).Fitted ui hints := by
  refine hl.of_keeps (fun _ hq => hq) (hidePiece_face l p b) fun q => ?_
  unfold width
  rw [hidePiece_pieceView]
  split_ifs with hq
  · rw [hq]
  · rfl

theorem setDataLoop_fitted {entries : List (AIMPiece × Nat)} {count index : Nat} {w : ℚ}
    {r : AIMListPieceView × ℚ} (hl : l.Fitted ui hints)
    (h : setDataLoop ui hints draws count (entries.map Prod.fst) (entries.map Prod.snd) index w l
      = .ok r) : r.1.Fitted ui hints := by
  induction count generalizing entries index w l with
  | zero =>
    obtain rfl := Except.ok.inj h
    exact hl
  | succ count ih =>
    obtain ⟨e, view, hint, he, hview, hhint, h⟩ := setDataLoop_succ.mp h
    have ⟨hpiece, hpattern, _⟩ := pieceView_setData_ok hview
    refine ih (fun q hq => ?_) h
    -- the new view may stand under a number that was in use
    by_cases hnew : q = index
    · subst hnew
      show Fits ui hints (Function.update l.pieceView q (placedView view w) q)
      rw [Function.update_self]
      have hset := setsWidth_of_setData hview
      refine ⟨e.1, hint, hpiece, ?_, hset⟩
      show hints[view.patternIndex]? = some hint
      rw [hpattern]
      exact hhint
    · have hold : q ∈ l.pieceViewArray := by
        rcases mem_append.mp hq with hq | hq
        · exact hq
        · exact absurd (mem_singleton.mp hq) hnew
      show Fits ui hints (Function.update l.pieceView index (placedView view w) q)
      rw [Function.update_of_ne hnew]
      exact hl q hold

theorem setData_fitted {frame : CGRect} {answers : List AIMPiece}
    (h : (loadFromNibWithBundle frame).setData ui answers hints draws = .ok l) :
    l.Fitted ui hints := by
  obtain ⟨r, hloop, hr⟩ := bind_eq_ok.mp h
  obtain rfl := Except.ok.inj hr
  have hempty : (loadFromNibWithBundle frame).Fitted ui hints := fun q hq => by cases hq
  have hfitted := setDataLoop_fitted hempty hloop
  exact hfitted

theorem Filled.aligned {n : Nat} (hl : Filled hints l n) : l.Aligned where
  pieces := hl.pieceViewArray ▸ nodup_range
  labels := hl.hintLabelArray ▸ nodup_range
  length := by rw [hl.hintLabelArray, hl.pieceViewArray]

/-- Pieces that `setData` has made get from its loop the row of their own widths, when the loop
draws their answers in their order. -/
theorem Fitted.setDataLoop (hl : l.Fitted ui hints) {entries : List (AIMPiece × Nat)}
    {shown : List (Nat × Nat)} (hshown : ∀ e ∈ shown, e.1 ∈ l.pieceViewArray)
    (hmade : (Selection.select draws entries.length 0 entries).map asMade =
      shown.map fun e => ((l.pieceView e.1).piece, (l.pieceView e.1).patternIndex))
    (m : AIMListPieceView) :
    ∃ r, setDataLoop ui hints draws entries.length (entries.map Prod.fst) (entries.map Prod.snd)
        0 0 m = .ok r ∧
      r.2 + kAIMPieceViewHorizontalPadding = Row.after kAIMPieceViewHorizontalPadding
        kAIMPieceViewHorizontalPadding (shown.map fun e => l.width e.1) ∧
      ∀ (j : Nat) e, shown[j]? = some e →
        (r.1.pieceView j).frame =
          rowFrame 0 ((shown.take j).map fun e => l.width e.1) pieceRow (l.width e.1) ∧
        (r.1.hintLabel j).frame =
          rowFrame 0 ((shown.take j).map fun e => l.width e.1) hintRow (l.width e.1) := by
  -- an entry and the visible piece in its place have the same answer, so the same width
  have hpaired : Forall₂ (fun f e => f.1 ∈ l.pieceViewArray ∧
      ((l.pieceView f.1).piece, (l.pieceView f.1).patternIndex) = asMade e) shown
      (Selection.select draws entries.length 0 entries) := by
    rw [forall₂_and_left]
    exact ⟨hshown, Pointwise.forall₂_of_map_eq hmade.symm⟩
  have hws : Forall₂ (fun e width => (∃ hint, hints[e.2]? = some hint) ∧ SetsWidth ui e.1 width)
      (Selection.select draws entries.length 0 entries) (shown.map fun e => l.width e.1) := by
    rw [forall₂_map_right_iff]
    refine (hpaired.imp fun f e ⟨hf, he⟩ => ?_).flip
    have ⟨a, hint, hpiece, hhint, hset⟩ := hl f.1 hf
    have ⟨ha, hslot⟩ := Prod.mk.inj he
    obtain rfl := Option.some.inj (hpiece.symm.trans ha)
    rw [hslot] at hhint
    exact ⟨⟨hint, hhint⟩, hset⟩
  have ⟨r, hloop, hend, _, hframes⟩ := setDataLoop_frames (l := m) (w := 0) rfl hws
  rw [zero_add] at hend
  refine ⟨r, hloop, hend, fun j e he => ?_⟩
  have hwidth : (shown.map fun e => l.width e.1)[j]? = some (l.width e.1) := by
    rw [getElem?_map, he]
    rfl
  have hj := hframes j _ hwidth
  rw [Nat.zero_add, ← map_take] at hj
  exact hj

end AIMListPieceView

namespace QuestionRun

variable {ui : Platform} {hints : List AIMPiece} {s s' : QuestionRun} {e : Event}

theorem fitted_step (hs : s.view.listPieceView.Fitted ui hints) (he : s.Enabled e)
    (h : s.step ui e = .ok s') : s'.view.listPieceView.Fitted ui hints := by
  have hquiet {v : AIMQuestionContentView} (same : SameDrag s.view v) :
      v.listPieceView.Fitted ui hints :=
    hs.of_keeps (fun q hq => same.pieceViewArray ▸ hq) (fun q => by rw [same.pieceView])
      fun q => congrArg (fun f => (f q).frame.width) same.pieceView
  cases step_outcome he h with
  | quiet _ same _ => exact hquiet same
  | began _ => exact hs.hidePiece _ true
  | accepted _ _ _ hlist =>
    have hlaid := hs.reRender hlist
    exact hlaid
  | wrong _ _ _ _ _ => exact hs
  | cancelled => exact hs
  | resignedIdle same _ _ => exact hquiet same
  | @resigned w p start same _ _ _ _ =>
    have hw := hquiet same
    cases p with
    | none => exact hw
    | some p => exact hw.hidePiece p false
  | @acceptedDone i k p v hi done =>
    obtain ⟨t, -, hlist⟩ := AIMListPieceView.removePiece_ok.mp done.list
    show v.listPieceView.Fitted ui hints
    rw [hlist]
    exact hs.of_keeps (fun _ hq => mem_of_mem_filter hq) (fun _ => rfl) fun _ => rfl
  | returnedDone _ => exact hs.hidePiece _ false
  | animation _ => exact hquiet (AIMQuestionContentView.runAnimation_sameDrag ui s.view _)

/-- Whatever happens to a question on the screen, its pieces keep what `setData` gave them. -/
theorem fitted_run {question : AIMQuestion} {v : AIMQuestionContentView}
    (hv : Started ui question v) (h : Reaches (step ui) Enabled (start v) s) :
    s.view.listPieceView.Fitted ui question.hints := by
  have ⟨draws, pattern, data, list, slots, hlist, _, hfresh⟩ := hv
  subst hfresh
  have hstart := AIMListPieceView.setData_fitted hlist
  exact h.inv (fun s => s.view.listPieceView.Fitted ui question.hints) hstart
    fun _ _ _ hs he hstep => fitted_step hs he hstep

end QuestionRun

namespace AIMListPieceView

variable {l l' : AIMListPieceView} {p k : Nat}

/-! ## Both orders -/

theorem shownPairs_reRender (h : l.reRender = .ok l') : l'.shownPairs = l.shownPairs := by
  have hsame := reRender_same h
  unfold shownPairs
  rw [hsame.pieceViewArray, hsame.hintLabelArray]
  exact filter_congr fun e _ => by rw [hsame.isHidden]

/-- `reRender` and then `removePiece`, or the other way round: the same pieces and labels are left,
the visible ones have the same frames, and the content has the same width. The loop of `setData`
gives the visible pieces, drawn in their order, these frames and this width as well. -/
theorem relayout_commutes (hl : l.Aligned) (hp : l.pieceViewArray[k]? = some p)
    (hhidden : (l.pieceView p).isHidden = true) (hindex : (l.pieceView p).hintIndex = k) :
    ∃ l₁ l₂ m₁ m₂, l.reRender = .ok l₁ ∧ l₁.removePiece p = .ok l₂ ∧
      l.removePiece p = .ok m₁ ∧ m₁.reRender = .ok m₂ ∧
      l₂.pieceViewArray = m₂.pieceViewArray ∧ l₂.hintLabelArray = m₂.hintLabelArray ∧
      l₂.shownPairs = l.shownPairs ∧ m₂.shownPairs = l.shownPairs ∧
      l₂.contentWidth = m₂.contentWidth ∧
      (∀ q t, (q, t) ∈ l.shownPairs → (l₂.pieceView q).frame = (m₂.pieceView q).frame ∧
        (l₂.hintLabel t).frame = (m₂.hintLabel t).frame) ∧
      ∀ ui hints draws entries empty, l.Fitted ui hints →
        (Selection.select draws entries.length 0 entries).map asMade =
          l.shownPairs.map (fun e => ((l.pieceView e.1).piece, (l.pieceView e.1).patternIndex)) →
        ∃ r, AIMListPieceView.setDataLoop ui hints draws entries.length (entries.map Prod.fst)
            (entries.map Prod.snd) 0 0 empty = .ok r ∧
          r.2 + kAIMPieceViewHorizontalPadding = l₂.contentWidth ∧
          ∀ j q t : Nat, l.shownPairs[j]? = some (q, t) →
            (r.1.pieceView j).frame = (l₂.pieceView q).frame ∧
              (r.1.hintLabel j).frame = (l₂.hintLabel t).frame := by
  have ⟨t, l₁, m₂, ht, hrender, hremove, hremove', hrender', hrow, hrow'⟩ :=
    relayout_rows hl hp hhidden hindex
  have hsame := reRender_same hrender
  have hsame' := reRender_same hrender'
  have hhidden₁ : (l₁.pieceView p).isHidden = true := (hsame.isHidden p).trans hhidden
  have hl₁ : l₁.Aligned := by
    constructor
    · exact hsame.pieceViewArray ▸ hl.pieces
    · exact hsame.hintLabelArray ▸ hl.labels
    · rw [hsame.hintLabelArray, hsame.pieceViewArray, hl.length]
  refine ⟨l₁, l₁.without p t, l.without p t, m₂, hrender, hremove, hremove', hrender',
    ?_, ?_, ?_, ?_, ?_, fun q u hq => ?_, fun ui hints draws entries empty hfitted hmade => ?_⟩
  · rw [hsame'.pieceViewArray]
    exact congrArg (filter (· ≠ p)) hsame.pieceViewArray
  · rw [hsame'.hintLabelArray]
    exact congrArg (filter (· ≠ t)) hsame.hintLabelArray
  · rw [← shownPairs_reRender hrender]
    exact shownPairs_without hl₁ (hsame.pieceViewArray ▸ hp) (hsame.hintLabelArray ▸ ht) hhidden₁
  · rw [shownPairs_reRender hrender']
    exact shownPairs_without hl hp ht hhidden
  · rw [hrow.contentWidth, hrow'.contentWidth]
  · have ⟨j, hj⟩ := mem_iff_getElem?.mp hq
    have ⟨hpiece, hlabel⟩ := hrow.frames j _ hj
    have ⟨hpiece', hlabel'⟩ := hrow'.frames j _ hj
    exact ⟨hpiece.trans hpiece'.symm, hlabel.trans hlabel'.symm⟩
  · have ⟨r, hloop, hend, hframes⟩ := hfitted.setDataLoop
      (fun e he => (of_mem_zip (mem_of_mem_filter he)).1) hmade empty
    refine ⟨r, hloop, hend.trans hrow.contentWidth.symm, fun j q u hj => ?_⟩
    have ⟨hpiece, hlabel⟩ := hframes j _ hj
    have ⟨hpiece', hlabel'⟩ := hrow.frames j _ hj
    exact ⟨hpiece.trans hpiece'.symm, hlabel.trans hlabel'.symm⟩

/-- The list of "I", "am" and "Akira" while "am" is dragged. -/
theorem relayout_commutes_middle :
    ∃ l l₁ l₂ m₁ m₂ r, (loadFromNibWithBundle ⟨0, 422, 1024, 245⟩).setData .ascii
        QuestionRun.sampleQuestion.answers QuestionRun.sampleQuestion.hints (fun _ => 0) = .ok l ∧
      (l.hidePiece 1 true).reRender = .ok l₁ ∧ l₁.removePiece 1 = .ok l₂ ∧
      (l.hidePiece 1 true).removePiece 1 = .ok m₁ ∧ m₁.reRender = .ok m₂ ∧
      l₂.contentWidth = m₂.contentWidth ∧ (l₂.pieceView 2).frame = (m₂.pieceView 2).frame ∧
      AIMListPieceView.setDataLoop .ascii QuestionRun.sampleQuestion.hints (fun _ => 0) 2
        [⟨"I"⟩, ⟨"Akira"⟩] [0, 2] 0 0 (loadFromNibWithBundle ⟨0, 422, 1024, 245⟩) = .ok r ∧
      (r.1.pieceView 1).frame = (l₂.pieceView 2).frame := by
  have hhints : QuestionRun.sampleQuestion.answers.length ≤
      QuestionRun.sampleQuestion.hints.length := by decide
  obtain ⟨l, hl⟩ := setData_total .ascii hhints
    (loadFromNibWithBundle ⟨0, 422, 1024, 245⟩) fun _ => 0
  have hfitted := (setData_fitted hl).hidePiece 1 true
  obtain ⟨hfilled, hmade⟩ := setData_made hl
  have hcount : pieceCount QuestionRun.sampleQuestion.answers = 3 := by decide +kernel
  have hdrawn : (Selection.select (fun _ => 0) 3 0
      (answerEntries QuestionRun.sampleQuestion.answers)).map asMade =
      [(some ⟨"I"⟩, 0), (some ⟨"am"⟩, 1), (some ⟨"Akira"⟩, 2)] := by decide +kernel
  rw [hcount] at hfilled hmade
  rw [hdrawn] at hmade
  have hshown : (l.hidePiece 1 true).shownPairs = [(0, 0), (2, 2)] := by
    show (l.pieceViewArray.zip l.hintLabelArray).filter _ = _
    rw [hfilled.pieceViewArray, hfilled.hintLabelArray]
    simp [List.range_succ, hfilled.visible]
  obtain ⟨l₁, l₂, m₁, m₂, h₁, h₂, h₁', h₂', _, _, _, _, hwidth, hframes, hloop⟩ :=
    relayout_commutes (l := l.hidePiece 1 true) (p := 1) (k := 1) (hfilled.aligned.hidePiece 1 true)
      (by show l.pieceViewArray[1]? = some 1; rw [hfilled.pieceViewArray]; rfl)
      (by rw [hidePiece_pieceView, if_pos rfl])
      (by rw [hidePiece_pieceView, if_pos rfl]; exact (hfilled.numbered 1 (by decide)).2)
  rw [hshown] at hframes hloop
  obtain ⟨r, hr, _, hmatch⟩ := hloop .ascii QuestionRun.sampleQuestion.hints (fun _ => 0)
    [(⟨"I"⟩, 0), (⟨"Akira"⟩, 2)] (loadFromNibWithBundle ⟨0, 422, 1024, 245⟩) hfitted (by
      simp only [madePieces, List.range_succ, List.range_zero, nil_append, cons_append, map_cons,
        map_nil, cons.injEq, Prod.mk.injEq, and_true] at hmade
      rw [Selection.select_zero rfl]
      simp [asMade, hmade])
  exact ⟨l, l₁, l₂, m₁, m₂, r, hl, h₁, h₂, h₁', h₂', hwidth, (hframes 2 2 (by simp)).1, hr,
    (hmatch 1 2 2 rfl).1⟩

end AIMListPieceView

end Imijun
