import Imijun.DataImport

/-!
# What the import leaves in the store

* `IsDocument`: the documents that `inportData` casts without a trap, with the patterns and chapters
  they describe.
* `addDocument_ok`: the import adds the chapters of the document behind those in the store.
* `imported_once_iff`: so the store holds the chapters once exactly when one call is committed. The
  guard against a second import looks at a configuration of its own, which is never the one of
  `data.realm`; `imported_twice` is a run with two imports.
-/

namespace Imijun

open List Fallible

/-! ## Documents -/

section Shape

variable (interpolated : JSONObject → String)

def IsPieces (values : List JSONObject) (pieces : List AIMPiece) : Prop :=
  Forall₂ (fun value piece => value = .string piece.content) values pieces

inductive IsPattern : JSONObject → AIMPattern → Prop
  | intro {entries : List (String × JSONObject)} {type : JSONObject} {item : List JSONObject}
      {imijunPattern : List AIMPiece} (htype : entries.lookup "type" = some type)
      (hitem : entries.lookup "item" = some (.array item)) (hpieces : IsPieces item imijunPattern) :
      IsPattern (.dictionary entries) ⟨interpolated type, imijunPattern⟩

/-- The question has the pattern at position `t - 1`, where `t` is its type. -/
inductive IsQuestion (patterns : List AIMPattern) : JSONObject → AIMQuestion → Prop
  | intro {entries : List (String × JSONObject)} {index type : JSONObject} {content : String}
      {t : Int} {pattern : AIMPattern} {hintArr answerArr : List JSONObject}
      {hints answers : List AIMPiece}
      (hcontent : entries.lookup "content" = some (.string content))
      (hindex : entries.lookup "index" = some index) (htype : entries.lookup "type" = some type)
      (ht : type.asInt = .ok t) (hpositive : 1 ≤ t)
      (hpattern : patterns[(t - 1).toNat]? = some pattern)
      (hhints : entries.lookup "hints" = some (.array hintArr)) (hhint : IsPieces hintArr hints)
      (hanswers : entries.lookup "answers" = some (.array answerArr))
      (hanswer : IsPieces answerArr answers) :
      IsQuestion patterns (.dictionary entries)
        ⟨interpolated index, content, some pattern, hints, answers⟩

inductive IsChapter (patterns : List AIMPattern) : JSONObject → DescribedChapter → Prop
  | intro {entries : List (String × JSONObject)} {index : JSONObject} {title description : String}
      {questionList : List JSONObject} {questions : List AIMQuestion}
      (hindex : entries.lookup "index" = some index)
      (htitle : entries.lookup "title" = some (.string title))
      (hdescription : entries.lookup "description" = some (.string description))
      (hquestion : entries.lookup "question" = some (.array questionList))
      (hquestions : Forall₂ (IsQuestion interpolated patterns) questionList questions) :
      IsChapter patterns (.dictionary entries) ⟨⟨interpolated index, title, questions⟩, description⟩

inductive IsDocument : JSONObject → List AIMPattern → List DescribedChapter → Prop
  | intro {entries : List (String × JSONObject)} {patternArr chapterArray : List JSONObject}
      {patterns : List AIMPattern} {chapters : List DescribedChapter}
      (hpattern : entries.lookup "pattern" = some (.array patternArr))
      (hpatterns : Forall₂ (IsPattern interpolated) patternArr patterns)
      (hchapter : entries.lookup "chapter" = some (.array chapterArray))
      (hchapters : Forall₂ (IsChapter interpolated patterns) chapterArray chapters) :
      IsDocument (.dictionary entries) patterns chapters

end Shape

/-! ## The loops -/

variable {interpolated : JSONObject → String} {json : JSONObject} {patterns : List AIMPattern}
  {chapters : List DescribedChapter} {patternArray : List Nat} {realm : RealmStore}

theorem addPieces_ok {values : List JSONObject} {pieces : List AIMPiece}
    (h : IsPieces values pieces) (realm : RealmStore) :
    ∃ realm' refs, addPieces values realm = .ok (realm', refs) ∧ realm ≤ realm' ∧
      refs.mapM realm'.pieceAt = some pieces := by
  refine Growing.addAll_read RealmStore.pieceAt
    (fun _ _ _ _ hle => RealmStore.pieceAt_mono hle) ?_ h
  rintro value piece s - rfl
  exact ⟨_, _, rfl, s.le_addPiece piece, s.pieceAt_addPiece piece⟩

theorem addPattern_ok {p : AIMPattern} (h : IsPattern interpolated json p) (realm : RealmStore) :
    ∃ realm' r, addPattern interpolated json realm = .ok (realm', r) ∧ realm ≤ realm' ∧
      realm'.patternAt r = some p := by
  cases h with
  | @intro entries type item imijunPattern htype hitem hpieces =>
    have ⟨s, refs, hrun, hle, hrefs⟩ := addPieces_ok hpieces realm
    refine ⟨_, _, ?_, hle.trans (s.le_addPattern ⟨interpolated type, refs⟩),
      RealmStore.patternAt_addPattern rfl hrefs⟩
    simp only [addPattern, JSONObject.asDictionary, JSONObject.asArray, objectForKey, htype, hitem,
      hrun, orThrow_some, ok_bind]
    rfl

/-- The pattern of the type `t` is the entry at position `t - 1`. -/
theorem patternAt_ok {t : Int} {p : AIMPattern} (ht : 1 ≤ t)
    (hpatterns : patternArray.mapM realm.patternAt = some patterns)
    (hp : patterns[(t - 1).toNat]? = some p) :
    ∃ r, patternAt patternArray (t - 1) = .ok r ∧ realm.patternAt r = some p := by
  have ⟨r, hr, hread⟩ :=
    Pointwise.forall₂_getElem?_right (Pointwise.mapM_eq_some.mp hpatterns) hp
  refine ⟨r, ?_, hread⟩
  rw [patternAt, if_pos (by omega), hr]
  rfl

theorem addQuestion_ok {q : AIMQuestion} (h : IsQuestion interpolated patterns json q)
    (hpatterns : patternArray.mapM realm.patternAt = some patterns) :
    ∃ realm' r, addQuestion interpolated patternArray json realm = .ok (realm', r) ∧
      realm ≤ realm' ∧ realm'.questionAt r = some q := by
  cases h with
  | @intro entries index type content t pattern hintArr answerArr hints answers hcontent hindex
      htype ht hpositive hpattern hhints hhint hanswers hanswer =>
    have ⟨p, hp, hpread⟩ := patternAt_ok hpositive hpatterns hpattern
    have ⟨s₁, hintRefs, hrun₁, hle₁, hhintRefs⟩ := addPieces_ok hhint realm
    have ⟨s₂, answerRefs, hrun₂, hle₂, hanswerRefs⟩ := addPieces_ok hanswer s₁
    have hrow : s₂.IsRow ⟨interpolated index, content, some p, hintRefs, answerRefs⟩
        ⟨interpolated index, content, some pattern, hints, answers⟩ := by
      refine ⟨rfl, rfl, ?_, RealmStore.pieces_mono hle₂ hhintRefs, hanswerRefs⟩
      exact congrArg (Option.map some) (RealmStore.patternAt_mono (hle₁.trans hle₂) hpread)
    refine ⟨_, _, ?_, (hle₁.trans hle₂).trans (s₂.le_addQuestion _),
      RealmStore.questionAt_addQuestion hrow⟩
    simp only [addQuestion, JSONObject.asDictionary, JSONObject.asArray, JSONObject.asString,
      objectForKey, hcontent, hindex, htype, ht, hp, hhints, hrun₁, hanswers, hrun₂, orThrow_some,
      ok_bind]
    rfl

/-- A chapter goes behind the chapters of the store. -/
theorem addChapter_ok {c : DescribedChapter} (h : IsChapter interpolated patterns json c)
    (hpatterns : patternArray.mapM realm.patternAt = some patterns)
    (hrealm : realm.chapterList = some chapters) :
    ∃ realm' r, addChapter interpolated patternArray json realm = .ok (realm', r) ∧
      patternArray.mapM realm'.patternAt = some patterns ∧
      realm'.chapterList = some (chapters ++ [c]) := by
  cases h with
  | @intro entries index title description questionList questions hindex htitle hdescription
      hquestion hquestions =>
    have hkept {s : RealmStore} (hle : realm ≤ s) :
        patternArray.mapM s.patternAt = some patterns :=
      Growing.mapM_mono (fun _ _ => RealmStore.patternAt_mono hle) hpatterns
    have hturn (j q s) (hle : realm ≤ s) (hq : IsQuestion interpolated patterns j q) :
        ∃ s' r, addQuestion interpolated patternArray j s = .ok (s', r) ∧ s ≤ s' ∧
          s'.questionAt r = some q := addQuestion_ok hq (hkept hle)
    have ⟨s, refs, hrun, hle, hrefs⟩ := Growing.addAll_read RealmStore.questionAt
      (fun _ _ _ _ hle => RealmStore.questionAt_mono hle) hturn hquestions
    have hpatterns' := hkept hle
    refine ⟨(s.addChapter ⟨interpolated index, title, description, refs⟩).1, s.chapters.length, ?_,
      hpatterns', ?_⟩
    · simp only [addChapter, JSONObject.asDictionary, JSONObject.asArray, JSONObject.asString,
        objectForKey, hindex, htitle, hdescription, hquestion, hrun, orThrow_some, ok_bind]
      rfl
    · have hnew : s.chapter ⟨interpolated index, title, description, refs⟩ =
          some ⟨⟨interpolated index, title, questions⟩, description⟩ :=
        RealmStore.chapter_eq_some.mpr ⟨rfl, rfl, rfl, hrefs⟩
      -- the rows of the earlier chapters read as before
      have hold := (Pointwise.mapM_eq_some.mp hrealm).imp fun _ _ => RealmStore.chapter_mono hle
      rw [← hle.chapters] at hold
      exact Pointwise.mapM_eq_some.mpr (rel_append hold (.cons hnew .nil))

/-- The chapters of the document go behind the chapters of the store, in their order. -/
theorem addDocument_ok {new : List DescribedChapter} (h : IsDocument interpolated json patterns new)
    (hrealm : realm.chapterList = some chapters) :
    ∃ realm', addDocument interpolated json realm = .ok realm' ∧
      realm'.chapterList = some (chapters ++ new) := by
  cases h with
  | @intro entries patternArr chapterArray patterns new hpattern hpatterns hchapter hchapters =>
    have hpatternTurn (j p s) (_ : realm ≤ s) (hp : IsPattern interpolated j p) :
        ∃ s' r, addPattern interpolated j s = .ok (s', r) ∧ s ≤ s' ∧ s'.patternAt r = some p :=
      addPattern_ok hp s
    have ⟨s, patternArray, hrun, hle, hrefs⟩ := Growing.addAll_read RealmStore.patternAt
      (fun _ _ _ _ hle => RealmStore.patternAt_mono hle) hpatternTurn hpatterns
    have hs : s.chapterList = some chapters := by
      have hold := (Pointwise.mapM_eq_some.mp hrealm).imp fun _ _ => RealmStore.chapter_mono hle
      rw [← hle.chapters] at hold
      exact Pointwise.mapM_eq_some.mpr hold
    let Inv (s : RealmStore) (_ : List Nat) (done : List DescribedChapter) : Prop :=
      patternArray.mapM s.patternAt = some patterns ∧ s.chapterList = some (chapters ++ done)
    have hchapterTurn (j c s refs done) (hc : IsChapter interpolated patterns j c)
        (hs : Inv s refs done) : ∃ s' r, addChapter interpolated patternArray j s = .ok (s', r) ∧
          Inv s' (refs ++ [r]) (done ++ [c]) := by
      have ⟨s', r, hrun, hpatterns', hs'⟩ := addChapter_ok hc hs.1 hs.2
      rw [append_assoc] at hs'
      exact ⟨s', r, hrun, hpatterns', hs'⟩
    have hstart : Inv s [] [] := ⟨hrefs, (append_nil chapters).symm ▸ hs⟩
    have ⟨s', _, hrun', _, hs'⟩ := Growing.addAll_ok Inv hchapterTurn hchapters [] [] hstart
    refine ⟨s', ?_, hs'⟩
    simp only [addDocument, JSONObject.asDictionary, JSONObject.asArray, objectForKey, hpattern,
      hchapter, hrun, hrun', orThrow_some, ok_bind]
    rfl

/-! ## Calls -/

variable {s s' : App} {new : List DescribedChapter}

/-- The process after a call: `data.realm` is the default. -/
def App.opened (s : App) : App := { s with defaultConfiguration := ⟨dataRealm⟩ }

/-- The guard looks at a new configuration, and lets every call through. -/
theorem inportData_some (committed : Bool) (s : App) :
    inportData interpolated (some json) committed s =
      (addDocument interpolated json (s.files dataRealm) >>= fun realm =>
        if committed then pure (0, s.opened.commit realm) else pure (1, s.opened)) := by
  have hguard : RealmConfiguration.new.lastPathComponent ≠ dataRealm := by decide
  unfold inportData
  exact if_neg hguard

theorem inportData_committed (hdoc : IsDocument interpolated json patterns new)
    (hs : (s.files dataRealm).chapterList = some chapters) :
    ∃ s', inportData interpolated (some json) true s = .ok (0, s') ∧
      (s'.files dataRealm).chapterList = some (chapters ++ new) := by
  have ⟨realm', hadd, hrealm'⟩ := addDocument_ok hdoc hs
  refine ⟨s.opened.commit realm', ?_, ?_⟩
  · rw [inportData_some, hadd]
    rfl
  · show (Function.update s.files dataRealm realm' dataRealm).chapterList = _
    rw [Function.update_self]
    exact hrealm'

theorem inportData_failed (hdoc : IsDocument interpolated json patterns new)
    (hs : (s.files dataRealm).chapterList = some chapters) :
    inportData interpolated (some json) false s = .ok (1, s.opened) := by
  have ⟨realm', hadd, _⟩ := addDocument_ok hdoc hs
  rw [inportData_some, hadd]
  rfl

/-- The chapters that `n` imports add. -/
def copies (n : Nat) (new : List DescribedChapter) : List DescribedChapter :=
  (replicate n new).flatten

theorem copies_succ (n : Nat) (new : List DescribedChapter) :
    copies (n + 1) new = new ++ copies n new := by
  unfold copies
  rw [replicate_succ, flatten_cons]

theorem copies_eq_self {n : Nat} (hn : 0 < n) : copies n new = new ↔ n = 1 ∨ new = [] := by
  constructor
  · intro h
    have hlength := congrArg length h
    rw [copies, length_flatten, map_replicate, sum_replicate_nat] at hlength
    rcases Nat.eq_zero_or_pos new.length with hnil | hpos
    · exact .inr (length_eq_zero_iff.mp hnil)
    · exact .inl (Nat.eq_of_mul_eq_mul_right hpos (hlength.trans (Nat.one_mul _).symm))
  · rintro (rfl | rfl)
    · exact append_nil new
    · simp [copies]

/-- Every sequence of calls and relaunches runs through. Each committed call adds the chapters of
the document once more, and only these calls return 0. -/
theorem run_imports (hdoc : IsDocument interpolated json patterns new) (es : List ImportEvent)
    {r : ImportRun} (hr : (r.app.files dataRealm).chapterList = some chapters) :
    ∃ t, es.foldlM (ImportRun.step interpolated (some json)) r = .ok t ∧
      (t.app.files dataRealm).chapterList =
        some (chapters ++ copies (es.count (.inportData true)) new) ∧
      (0 ∈ t.returned ↔ 0 ∈ r.returned ∨ 0 < es.count (.inportData true)) := by
  induction es generalizing r chapters with
  | nil => exact ⟨r, rfl, by simp [copies, hr], by simp⟩
  | cons e es ih =>
    cases e with
    | relaunch =>
      obtain ⟨t, hrun, hlist, hzero⟩ := ih (r := { r with app := r.app.relaunch }) hr
      exact ⟨t, foldlM_cons_eq_ok.mpr ⟨_, rfl, hrun⟩, by simpa using hlist, by simpa using hzero⟩
    | inportData committed =>
      cases committed with
      | false =>
        obtain ⟨t, hrun, hlist, hzero⟩ := ih (r := ⟨r.app.opened, r.returned ++ [1]⟩) hr
        refine ⟨t, foldlM_cons_eq_ok.mpr ⟨_, ?_, hrun⟩, by simpa using hlist, by simpa using hzero⟩
        exact bind_eq_ok.mpr ⟨_, inportData_failed hdoc hr, rfl⟩
      | true =>
        obtain ⟨s', hcall, hs'⟩ := inportData_committed hdoc hr
        obtain ⟨t, hrun, hlist, hzero⟩ := ih (r := ⟨s', r.returned ++ [0]⟩) hs'
        refine ⟨t, foldlM_cons_eq_ok.mpr ⟨_, ?_, hrun⟩, ?_, ?_⟩
        · exact bind_eq_ok.mpr ⟨_, hcall, rfl⟩
        · rw [hlist, count_cons_self, copies_succ, append_assoc]
        · simp [hzero]

/-- From an empty `data.realm`, when some call has returned 0, the store holds the chapters of the
document once exactly when a single call was committed, or there are no chapters. A call that
returns 1 leaves the files as they are, and whatever happens afterwards, the next call can
import. -/
theorem imported_once_iff (hdoc : IsDocument interpolated json patterns chapters)
    (hempty : s.files dataRealm = .empty) (es : List ImportEvent) :
    ∃ t, es.foldlM (ImportRun.step interpolated (some json)) ⟨s, []⟩ = .ok t ∧
      (0 ∈ t.returned → ((t.app.files dataRealm).chapterList = some chapters ↔
        es.count (.inportData true) = 1 ∨ chapters = [])) ∧
      ∀ committed u, inportData interpolated (some json) committed t.app = .ok (1, u) →
        u.files = t.app.files ∧
        ∀ (es' : List ImportEvent) v,
          es'.foldlM (ImportRun.step interpolated (some json)) ⟨u, t.returned ++ [1]⟩ = .ok v →
          ∃ w held, (v.app.files dataRealm).chapterList = some held ∧
            inportData interpolated (some json) true v.app = .ok (0, w) ∧
            (w.files dataRealm).chapterList = some (held ++ chapters) := by
  have hstart : (s.files dataRealm).chapterList = some [] := by
    rw [hempty]
    rfl
  have ⟨t, hrun, hlist, hzero⟩ := run_imports hdoc es (r := ⟨s, []⟩) hstart
  rw [nil_append] at hlist
  refine ⟨t, hrun, fun hreturned => ?_, fun committed u hcall => ?_⟩
  · have hpos := (hzero.mp hreturned).resolve_left not_mem_nil
    rw [hlist, Option.some.injEq]
    exact copies_eq_self hpos
  · -- only a failed commit makes a call return 1
    cases committed with
    | true =>
      have ⟨s', hcall', _⟩ := inportData_committed hdoc hlist
      cases hcall.symm.trans hcall'
    | false =>
      have hfailed := hcall.symm.trans (inportData_failed hdoc hlist)
      obtain ⟨-, rfl⟩ := Prod.mk.inj (Except.ok.inj hfailed)
      refine ⟨rfl, fun es' v hrun' => ?_⟩
      have ⟨v', hv', hheld, _⟩ :=
        run_imports hdoc es' (r := ⟨t.app.opened, t.returned ++ [1]⟩) hlist
      obtain rfl := Except.ok.inj (hrun'.symm.trans hv')
      have ⟨w, hcall', hw⟩ := inportData_committed hdoc hheld
      exact ⟨w, _, hheld, hcall', hw⟩

/-! ## A second import -/

/-- Numbers and strings as they are. -/
def plainText : JSONObject → String
  | .string value => value
  | .number value => toString value.num
  | _ => ""

def samplePattern : AIMPattern := ⟨plainText (.number 1), ["だれが", "する"].map AIMPiece.mk⟩

def sampleChapter : DescribedChapter :=
  ⟨⟨plainText (.number 1), "一般動詞", [⟨plainText (.number 1), "僕は走る。", some samplePattern,
    ["僕は", "走る"].map AIMPiece.mk, ["I", "run"].map AIMPiece.mk⟩]⟩, ""⟩

/-- One pattern, and one chapter with one question. -/
def sampleDocument : JSONObject :=
  .dictionary [
    ("chapter", .array [.dictionary [
      ("title", .string "一般動詞"), ("index", .number 1), ("description", .string ""),
      ("question", .array [.dictionary [
        ("content", .string "僕は走る。"), ("index", .number 1), ("type", .number 1),
        ("hints", .array [.string "僕は", .string "走る"]),
        ("answers", .array [.string "I", .string "run"])]])]]),
    ("pattern", .array [.dictionary [
      ("type", .number 1), ("item", .array [.string "だれが", .string "する"])]])]

theorem sampleDocument_isDocument :
    IsDocument plainText sampleDocument [samplePattern] [sampleChapter] := by
  have htwo (x y : String) : IsPieces [.string x, .string y] ([x, y].map AIMPiece.mk) :=
    .cons rfl (.cons rfl .nil)
  refine .intro rfl (.cons (.intro rfl rfl (htwo _ _)) .nil) rfl
    (.cons (.intro rfl rfl rfl rfl (.cons ?_ .nil)) .nil)
  exact .intro (t := 1) rfl rfl rfl rfl (by decide) rfl rfl (htwo _ _) rfl (htwo _ _)

/-- An application without data. -/
def freshApp : App := ⟨fun _ => .empty, .new⟩

theorem freshApp_chapterList : (freshApp.files dataRealm).chapterList = some [] := rfl

theorem imported_once_iff_retried :
    ∃ t, [ImportEvent.inportData false, .inportData true, .relaunch].foldlM
        (ImportRun.step plainText (some sampleDocument)) ⟨freshApp, []⟩ = .ok t ∧
      (t.app.files dataRealm).chapterList = some [sampleChapter] := by
  have ⟨t, hrun, honce, _⟩ := imported_once_iff sampleDocument_isDocument (s := freshApp) rfl
    [.inportData false, .inportData true, .relaunch]
  have ⟨t', hrun', _, hzero⟩ := run_imports sampleDocument_isDocument
    [.inportData false, .inportData true, .relaunch] (r := ⟨freshApp, []⟩) freshApp_chapterList
  obtain rfl := Except.ok.inj (hrun.symm.trans hrun')
  exact ⟨t, hrun, (honce (hzero.mpr (.inr (by decide)))).mpr (.inl (by decide))⟩

/-- Two calls that return 0, with a relaunch between them: the chapter is stored twice. -/
theorem imported_twice :
    ∃ json patterns chapters t, ∃ es : List ImportEvent,
      IsDocument plainText json patterns chapters ∧
      freshApp.files dataRealm = .empty ∧
      es.foldlM (ImportRun.step plainText (some json)) ⟨freshApp, []⟩ = .ok t ∧
      0 ∈ t.returned ∧ (t.app.files dataRealm).chapterList = some (chapters ++ chapters) ∧
      (t.app.files dataRealm).chapterList ≠ some chapters := by
  have ⟨t, hrun, hlist, hzero⟩ := run_imports sampleDocument_isDocument
    [.inportData true, .relaunch, .inportData true] (r := ⟨freshApp, []⟩) freshApp_chapterList
  refine ⟨_, _, _, t, _, sampleDocument_isDocument, rfl, hrun, hzero.mpr (.inr (by decide)), hlist,
    fun h => ?_⟩
  have hlength := congrArg length (Option.some.inj (hlist.symm.trans h))
  cases hlength

end Imijun
