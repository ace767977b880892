import Imijun.ImportOnce

/-!
# What the import accepts

The casts of `inportData` are forced, so that a value of the wrong kind, a missing key or a question
of an unknown type stops the program.

* `addDocument_sound`: what runs through is a document.
* `inportData_accepts_iff`: so a call imports chapters exactly when the document describes them and
  the commit succeeds, and stops the program exactly when the text is no document.
-/

namespace Imijun

open List Fallible

/-! ## Casts -/

namespace JSONObject

variable {value : JSONObject}

theorem asString_eq_ok {text : String} : value.asString = .ok text ↔ value = .string text := by
  cases value <;> simp [asString]

theorem asArray_eq_ok {values : List JSONObject} :
    value.asArray = .ok values ↔ value = .array values := by
  cases value <;> simp [asArray]

theorem asDictionary_eq_ok {entries : List (String × JSONObject)} :
    value.asDictionary = .ok entries ↔ value = .dictionary entries := by
  cases value <;> simp [asDictionary]

end JSONObject

theorem objectForKey_eq_ok {dictionary : List (String × JSONObject)} {key : String}
    {value : JSONObject} :
    objectForKey dictionary key = .ok value ↔ dictionary.lookup key = some value :=
  orThrow_eq_ok

/-- A value of a dictionary that is cast to an array. -/
theorem array_of_key {dictionary : List (String × JSONObject)} {key : String} {value : JSONObject}
    {values : List JSONObject} (hkey : objectForKey dictionary key = .ok value)
    (hvalue : value.asArray = .ok values) : dictionary.lookup key = some (.array values) :=
  JSONObject.asArray_eq_ok.mp hvalue ▸ objectForKey_eq_ok.mp hkey

/-- A value of a dictionary that is cast to a string. -/
theorem string_of_key {dictionary : List (String × JSONObject)} {key : String} {value : JSONObject}
    {text : String} (hkey : objectForKey dictionary key = .ok value)
    (hvalue : value.asString = .ok text) : dictionary.lookup key = some (.string text) :=
  JSONObject.asString_eq_ok.mp hvalue ▸ objectForKey_eq_ok.mp hkey

/-! ## The loops -/

variable {interpolated : JSONObject → String} {json : JSONObject} {patterns : List AIMPattern}
  {patternArray : List Nat} {realm realm' : RealmStore} {r : Nat}

theorem addPieces_sound {values : List JSONObject} {refs : List Nat}
    (h : addPieces values realm = .ok (realm', refs)) : ∃ pieces, IsPieces values pieces := by
  refine Growing.addAll_sound (fun value s s' r hturn => ?_) h
  obtain ⟨content, hcontent, -⟩ := bind_eq_ok.mp hturn
  exact ⟨⟨content⟩, JSONObject.asString_eq_ok.mp hcontent⟩

theorem addPattern_sound (h : addPattern interpolated json realm = .ok (realm', r)) :
    ∃ pattern, IsPattern interpolated json pattern := by
  obtain ⟨entries, hentries, h⟩ := bind_eq_ok.mp h
  obtain ⟨type, htype, h⟩ := bind_eq_ok.mp h
  obtain ⟨item, hitem, h⟩ := bind_eq_ok.mp h
  obtain ⟨pieceArray, harray, h⟩ := bind_eq_ok.mp h
  obtain ⟨⟨s, refs⟩, hpieces, -⟩ := bind_eq_ok.mp h
  obtain ⟨pieces, hpieces⟩ := addPieces_sound hpieces
  obtain rfl := JSONObject.asDictionary_eq_ok.mp hentries
  exact ⟨_, .intro (objectForKey_eq_ok.mp htype) (array_of_key hitem harray) hpieces⟩

theorem patternAt_sound {i : Int} (h : patternAt patternArray i = .ok r) :
    0 ≤ i ∧ patternArray[i.toNat]? = some r := by
  unfold patternAt at h
  split at h
  · next hi => exact ⟨hi, orThrow_eq_ok.mp h⟩
  · cases h

/-- The type of a question is that of a pattern of the document. -/
theorem addQuestion_sound (hpatterns : patternArray.length = patterns.length)
    (h : addQuestion interpolated patternArray json realm = .ok (realm', r)) :
    ∃ question, IsQuestion interpolated patterns json question := by
  obtain ⟨entries, hentries, h⟩ := bind_eq_ok.mp h
  obtain ⟨value, hvalue, h⟩ := bind_eq_ok.mp h
  obtain ⟨content, hcontent, h⟩ := bind_eq_ok.mp h
  obtain ⟨index, hindex, h⟩ := bind_eq_ok.mp h
  obtain ⟨type, htype, h⟩ := bind_eq_ok.mp h
  obtain ⟨t, ht, h⟩ := bind_eq_ok.mp h
  obtain ⟨p, hp, h⟩ := bind_eq_ok.mp h
  obtain ⟨hints, hhints, h⟩ := bind_eq_ok.mp h
  obtain ⟨hintArr, hhintArr, h⟩ := bind_eq_ok.mp h
  obtain ⟨⟨s, hintRefs⟩, hhint, h⟩ := bind_eq_ok.mp h
  obtain ⟨answers, hanswers, h⟩ := bind_eq_ok.mp h
  obtain ⟨answerArr, hanswerArr, h⟩ := bind_eq_ok.mp h
  obtain ⟨⟨s', answerRefs⟩, hanswer, -⟩ := bind_eq_ok.mp h
  obtain ⟨hintPieces, hhint⟩ := addPieces_sound hhint
  obtain ⟨answerPieces, hanswer⟩ := addPieces_sound hanswer
  obtain rfl := JSONObject.asDictionary_eq_ok.mp hentries
  obtain ⟨hpositive, hp⟩ := patternAt_sound hp
  have hlt : (t - 1).toNat < patterns.length :=
    hpatterns ▸ (List.getElem?_eq_some_iff.mp hp).1
  exact ⟨_, .intro (string_of_key hvalue hcontent) (objectForKey_eq_ok.mp hindex)
    (objectForKey_eq_ok.mp htype) ht (Int.sub_nonneg.mp hpositive)
    (List.getElem?_eq_getElem hlt) (array_of_key hhints hhintArr) hhint
    (array_of_key hanswers hanswerArr) hanswer⟩

theorem addChapter_sound (hpatterns : patternArray.length = patterns.length)
    (h : addChapter interpolated patternArray json realm = .ok (realm', r)) :
    ∃ chapter, IsChapter interpolated patterns json chapter := by
  obtain ⟨entries, hentries, h⟩ := bind_eq_ok.mp h
  obtain ⟨index, hindex, h⟩ := bind_eq_ok.mp h
  obtain ⟨value, hvalue, h⟩ := bind_eq_ok.mp h
  obtain ⟨title, htitle, h⟩ := bind_eq_ok.mp h
  obtain ⟨text, htext, h⟩ := bind_eq_ok.mp h
  obtain ⟨description, hdescription, h⟩ := bind_eq_ok.mp h
  obtain ⟨question, hquestion, h⟩ := bind_eq_ok.mp h
  obtain ⟨questionList, hlist, h⟩ := bind_eq_ok.mp h
  obtain ⟨⟨s, refs⟩, hquestions, -⟩ := bind_eq_ok.mp h
  obtain ⟨questions, hquestions⟩ := Growing.addAll_sound
    (fun _ _ _ _ hturn => addQuestion_sound hpatterns hturn) hquestions
  obtain rfl := JSONObject.asDictionary_eq_ok.mp hentries
  exact ⟨_, .intro (objectForKey_eq_ok.mp hindex) (string_of_key hvalue htitle)
    (string_of_key htext hdescription) (array_of_key hquestion hlist) hquestions⟩

/-- A text that is added without a trap is a document. -/
theorem addDocument_sound (h : addDocument interpolated json realm = .ok realm') :
    ∃ patterns chapters, IsDocument interpolated json patterns chapters := by
  obtain ⟨entries, hentries, h⟩ := bind_eq_ok.mp h
  obtain ⟨pattern, hpattern, h⟩ := bind_eq_ok.mp h
  obtain ⟨patternArr, hpatternArr, h⟩ := bind_eq_ok.mp h
  obtain ⟨⟨s, patternArray⟩, hpatterns, h⟩ := bind_eq_ok.mp h
  obtain ⟨chapter, hchapter, h⟩ := bind_eq_ok.mp h
  obtain ⟨chapterArray, hchapterArray, h⟩ := bind_eq_ok.mp h
  obtain ⟨⟨s', refs⟩, hchapters, -⟩ := bind_eq_ok.mp h
  obtain ⟨patterns, hread⟩ :=
    Growing.addAll_sound (fun _ _ _ _ hturn => addPattern_sound hturn) hpatterns
  have hlength : patternArray.length = patterns.length := by
    rw [Growing.addAll_length hpatterns, ← hread.length_eq]
    exact Nat.zero_add _
  obtain ⟨chapters, hchapters⟩ :=
    Growing.addAll_sound (fun _ _ _ _ hturn => addChapter_sound hlength hturn) hchapters
  obtain rfl := JSONObject.asDictionary_eq_ok.mp hentries
  exact ⟨patterns, chapters, .intro (array_of_key hpattern hpatternArr) hread
    (array_of_key hchapter hchapterArray) hchapters⟩

/-! ## Calls -/

variable {data : Option JSONObject} {committed : Bool} {s : App}
  {chapters new : List DescribedChapter}

/-- A call that returns 0 has imported a document. -/
theorem document_of_returned {s' : App}
    (h : inportData interpolated data committed s = .ok (0, s')) :
    committed = true ∧ ∃ json patterns chapters, data = some json ∧
      IsDocument interpolated json patterns chapters := by
  cases data with
  | none => cases h
  | some json =>
    rw [inportData_some] at h
    obtain ⟨realm, hadd, h⟩ := bind_eq_ok.mp h
    cases committed with
    | false => cases h
    | true =>
      obtain ⟨patterns, chapters, hdoc⟩ := addDocument_sound hadd
      exact ⟨rfl, json, patterns, chapters, rfl, hdoc⟩

/-- A call on a store with the given chapters returns 0 and adds others behind them exactly when the
text is a document that describes these and the commit succeeds; a call that returns anything else
leaves the files as they are, and a call stops the program exactly when the text is no document. -/
theorem inportData_accepts_iff (hs : (s.files dataRealm).chapterList = some chapters) :
    ((∃ s', inportData interpolated data committed s = .ok (0, s') ∧
        (s'.files dataRealm).chapterList = some (chapters ++ new)) ↔
      committed = true ∧ ∃ json patterns, data = some json ∧
        IsDocument interpolated json patterns new) ∧
    (∀ result s', inportData interpolated data committed s = .ok (result, s') → result ≠ 0 →
      s'.files = s.files) ∧
    ((∃ trap, inportData interpolated data committed s = .error trap) ↔
      ∃ json, data = some json ∧ ∀ patterns chapters,
        ¬ IsDocument interpolated json patterns chapters) := by
  refine ⟨⟨?_, ?_⟩, fun result s' hcall hresult => ?_, ⟨?_, ?_⟩⟩
  · rintro ⟨s', hcall, hs'⟩
    obtain ⟨rfl, json, patterns, found, rfl, hdoc⟩ := document_of_returned hcall
    obtain ⟨s'', hcall', hs''⟩ := inportData_committed hdoc hs
    obtain ⟨-, rfl⟩ := Prod.mk.inj (Except.ok.inj (hcall.symm.trans hcall'))
    obtain rfl : new = found := append_cancel_left (Option.some.inj (hs'.symm.trans hs''))
    exact ⟨rfl, json, patterns, rfl, hdoc⟩
  · rintro ⟨rfl, json, patterns, rfl, hdoc⟩
    exact inportData_committed hdoc hs
  · cases data with
    | none =>
      obtain ⟨-, rfl⟩ := Prod.mk.inj (Except.ok.inj hcall)
      rfl
    | some json =>
      rw [inportData_some] at hcall
      obtain ⟨realm, -, hcall⟩ := bind_eq_ok.mp hcall
      cases committed with
      | true =>
        obtain ⟨rfl, -⟩ := Prod.mk.inj (Except.ok.inj hcall)
        exact absurd rfl hresult
      | false =>
        obtain ⟨-, rfl⟩ := Prod.mk.inj (Except.ok.inj hcall)
        rfl
  · rintro ⟨trap, hcall⟩
    cases data with
    | none => cases hcall
    | some json =>
      refine ⟨json, rfl, fun patterns found hdoc => ?_⟩
      obtain ⟨realm', hadd, -⟩ := addDocument_ok hdoc hs
      rw [inportData_some, hadd] at hcall
      cases committed with
      | true => cases hcall
      | false => cases hcall
  · rintro ⟨json, rfl, hnone⟩
    rw [inportData_some]
    cases hadd : addDocument interpolated json (s.files dataRealm) with
    | ok realm' =>
      obtain ⟨patterns, found, hdoc⟩ := addDocument_sound hadd
      exact absurd hdoc (hnone patterns found)
    | error trap => exact ⟨trap, rfl⟩

/-- The sample document is imported, and an empty dictionary stops the program. -/
theorem inportData_accepts_iff_sample :
    (∃ s', inportData plainText (some sampleDocument) true freshApp = .ok (0, s') ∧
      (s'.files dataRealm).chapterList = some ([] ++ [sampleChapter])) ∧
    ∃ trap, inportData plainText (some (.dictionary [])) true freshApp = .error trap := by
  have hempty : (freshApp.files dataRealm).chapterList = some [] := rfl
  refine ⟨(inportData_accepts_iff hempty).1.mpr ⟨rfl, _, _, rfl, sampleDocument_isDocument⟩,
    ?_⟩
  have hnone (patterns : List AIMPattern) (found : List DescribedChapter) :
      ¬ IsDocument plainText (.dictionary []) patterns found := by
    intro hdoc
    cases hdoc with
    | intro hpattern => cases hpattern
  exact (@inportData_accepts_iff plainText _ true freshApp [] [] hempty).2.2.mpr ⟨_, rfl, hnone⟩

end Imijun
