import PropertyTree.Path.Basic
import PropertyTree.Proofs.SegmentForms

/-!
# Texts and segments of paths

A path is written as a text, and the library works with its segments.  Nothing is lost between the
two: joining the segments with slashes gives the text back, and cutting the joined text gives the
segments back, however many slashes stand in a row or at an end (`Path.ofText?_eq_some_iff`).  The
one gap is the empty text.  It would spell the path of a single empty segment, but it is refused,
and so that list of segments is the only one without a text.

`Path.texts_match_segments` puts this together with the forms that a segment can have, which
`SegmentForms` describes.
-/

namespace PropertyTree

variable {text : String} {segments : List String}

/-! ## Joining and cutting -/

/-- There is one piece more than there are separators. -/
lemma length_pieces (separator : Char) (cs : List Char) :
    (pieces separator cs).2.length = cs.count separator := by
  induction cs with
  | nil => rfl
  | cons c rest ih =>
    rw [pieces_cons]
    split
    case isTrue hc => rw [hc, List.count_cons_self, List.length_cons, ih]
    case isFalse hc => rw [List.count_cons_of_ne hc, ih]

lemma toList_joined (first : String) (others : List String) :
    ("/".intercalate (first :: others)).toList =
      joinedPieces '/' first.toList (others.map String.toList) := by
  induction others generalizing first with
  | nil => simp [joinedPieces]
  | cons next rest ih =>
    rw [String.intercalate_cons_cons, String.toList_append, String.toList_append, ih]
    simp [joinedPieces]

/-- Of the lists of segments only that of one empty segment has no text. -/
lemma joined_eq_empty_iff (h : segments ≠ []) :
    "/".intercalate segments = "" ↔ segments = [""] := by
  cases segments with
  | nil => exact absurd rfl h
  | cons first others =>
    rw [← String.toList_inj, toList_joined]
    cases others <;> simp [joinedPieces]

namespace Path

variable {path : Path}

lemma segments_ofSegments (first : String) (others : List String) :
    (ofSegments first others).segments = first :: others := by
  induction others generalizing first with
  | nil => rfl
  | cons next rest ih => rw [ofSegments, segments, List.cons_append, ← segments, ih]

lemma exists_segments_eq (h : segments ≠ []) : ∃ path : Path, path.segments = segments := by
  obtain ⟨first, others, rfl⟩ := List.exists_cons_of_ne_nil h
  exact ⟨ofSegments first others, segments_ofSegments first others⟩

lemma segments_injective : Function.Injective Path.segments := by
  rintro ⟨parents, last⟩ ⟨parents', last'⟩ h
  obtain ⟨rfl, hlast⟩ := List.append_inj' h rfl
  obtain rfl : last = last' := by simpa using hlast
  rfl

lemma ofText?_of_ne_empty (h : text ≠ "") :
    ofText? text = some (ofSegments (String.ofList (pieces '/' text.toList).1)
      ((pieces '/' text.toList).2.map String.ofList)) := by
  rw [ofText?, if_neg (by simpa using h)]

@[simp] lemma ofText?_empty : ofText? "" = none := rfl

/-- Every text but the empty one is a path. -/
lemma exists_of_ne_empty (h : text ≠ "") : ∃ path, ofText? text = some path :=
  ⟨_, ofText?_of_ne_empty h⟩

lemma ofText?_eq_none_iff : ofText? text = none ↔ text = "" := by
  by_cases h : text = ""
  · simp [h]
  · simp [ofText?_of_ne_empty h, h]

/-- A path is spelled by one text, its segments joined, and only if these are free of slashes. -/
theorem ofText?_eq_some_iff : ofText? text = some path ↔
    text ≠ "" ∧ "/".intercalate path.segments = text ∧ ∀ s ∈ path.segments, '/' ∉ s.toList := by
  constructor
  · intro h
    have hne : text ≠ "" := by
      rintro rfl
      cases h
    obtain ⟨hjoin, hfirst, hothers⟩ := joinedPieces_pieces '/' text.toList
    rw [ofText?_of_ne_empty hne, Option.some.injEq] at h
    subst h
    rw [segments_ofSegments]
    refine ⟨hne, ?_, List.forall_mem_cons.2 ⟨by simpa using hfirst, by simpa using hothers⟩⟩
    rw [← String.toList_inj, toList_joined]
    simpa [Function.comp_def] using hjoin
  · rintro ⟨hne, rfl, hfree⟩
    obtain ⟨first, others, hsegments⟩ : ∃ first others, path.segments = first :: others :=
      List.exists_cons_of_ne_nil (by simp [segments])
    rw [hsegments] at hne hfree ⊢
    obtain ⟨hfirst, hothers⟩ := List.forall_mem_cons.1 hfree
    have hpieces : pieces '/' ("/".intercalate (first :: others)).toList =
        (first.toList, others.map String.toList) := by
      rw [toList_joined]
      exact pieces_joinedPieces hfirst (by simpa using hothers)
    rw [ofText?_of_ne_empty hne, hpieces]
    refine congrArg some (segments_injective ?_)
    rw [segments_ofSegments, hsegments]
    simp [Function.comp_def]

lemma length_segments (h : ofText? text = some path) :
    path.segments.length = text.toList.count '/' + 1 := by
  have hne := (ofText?_eq_some_iff.1 h).1
  rw [ofText?_of_ne_empty hne, Option.some.injEq] at h
  rw [← h, segments_ofSegments, List.length_cons, List.length_map, length_pieces]

/-- A text that is not empty has one segment more than it has slashes, none with a slash in it, and
they join to the text.  Every list of segments without slashes is cut from its joined text, unless
it is the list of one empty segment; the empty text is the only one that is refused.  And each
segment has one form: `key=value` with no other `=` is a query, digits are an index, and any other
segment is a key as a whole. -/
theorem texts_match_segments :
    (∀ text, text ≠ "" → ∃ path, ofText? text = some path ∧
      path.segments.length = text.toList.count '/' + 1 ∧
      (∀ s ∈ path.segments, '/' ∉ s.toList) ∧ "/".intercalate path.segments = text) ∧
    (∀ segments, segments ≠ [] → segments ≠ [""] → (∀ s ∈ segments, '/' ∉ s.toList) →
      ∃ path, ofText? ("/".intercalate segments) = some path ∧ path.segments = segments) ∧
    (∀ text, ofText? text = none ↔ text = "") ∧
    ∀ segment,
      (∀ key value, SegmentClass.ofText segment = .query key value ↔
        IsQuery segment key value) ∧
      (∀ digits, SegmentClass.ofText segment = .index digits ↔ digits = segment ∧
        segment ≠ "" ∧ ∀ c ∈ segment.toList, '0' ≤ c ∧ c ≤ '9') ∧
      ∀ name, SegmentClass.ofText segment = .key name ↔ name = segment ∧
        (¬ ∃ key value, IsQuery segment key value) ∧
        ¬ (segment ≠ "" ∧ ∀ c ∈ segment.toList, '0' ≤ c ∧ c ≤ '9') := by
  refine ⟨fun text hne => ?_, fun segments hsome hne hfree => ?_, fun _ => ofText?_eq_none_iff,
    fun segment => ⟨fun _ _ => SegmentClass.ofText_eq_query_iff, fun _ => ?_, fun _ => ?_⟩⟩
  · obtain ⟨path, hpath⟩ := exists_of_ne_empty hne
    obtain ⟨-, hjoin, hfree⟩ := ofText?_eq_some_iff.1 hpath
    exact ⟨path, hpath, length_segments hpath, hfree, hjoin⟩
  · obtain ⟨path, rfl⟩ := exists_segments_eq hsome
    exact ⟨path, ofText?_eq_some_iff.2 ⟨mt (joined_eq_empty_iff hsome).1 hne, rfl, hfree⟩, rfl⟩
  · rw [SegmentClass.ofText_eq_index_iff, exists_isNumeral_iff]
  · rw [SegmentClass.ofText_eq_key_iff, exists_isNumeral_iff]

/-- Slashes in a row and at both ends make empty segments, and numbers with a sign are keys. -/
theorem texts_match_segments_doubled :
    "/a//name=x/" ≠ "" ∧ (∃ path, ofText? "/a//name=x/" = some path ∧ path.segments.length = 5 ∧
      "/".intercalate path.segments = "/a//name=x/") ∧
    ["", "007", "+1", ""] ≠ [] ∧ ["", "007", "+1", ""] ≠ [""] ∧
    (∀ s ∈ ["", "007", "+1", ""], '/' ∉ s.toList) ∧
    (∃ path, ofText? "/007/+1/" = some path ∧ path.segments = ["", "007", "+1", ""]) ∧
    SegmentClass.ofText "007" = .index "007" ∧ SegmentClass.ofText "+1" = .key "+1" := by
  obtain ⟨hcut, hjoin, -, hform⟩ := texts_match_segments
  have hfree : ∀ s ∈ ["", "007", "+1", ""], '/' ∉ s.toList := by decide
  obtain ⟨path, hpath, hlength, -, htext⟩ := hcut "/a//name=x/" (by decide)
  have hcount : "/a//name=x/".toList.count '/' = 4 := by decide
  obtain ⟨joined, hjoined, hsegments⟩ := hjoin ["", "007", "+1", ""] (by decide) (by decide) hfree
  have hspelled : "/".intercalate ["", "007", "+1", ""] = "/007/+1/" := by decide +kernel
  rw [hspelled] at hjoined
  exact ⟨by decide, ⟨path, hpath, hlength.trans (by rw [hcount]), htext⟩, by decide, by decide,
    hfree, ⟨joined, hjoined, hsegments⟩, ((hform "007").2.1 _).2 (by simp), by decide +kernel⟩

end Path

end PropertyTree
