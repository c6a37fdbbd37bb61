import LedgerUri.Proofs.Uri.Grammar
import LedgerUri.Proofs.Uri.Outline

/-!
# URIs by their path

A URI is *located* when its path is a segment and a run of digits, and nothing but a query follows.
On located URIs the two ways to find the resource agree: the grammar takes the path apart, and
reading looks for the first marker anywhere. For a token that needs a query without `/`, because
an application marker further to the right would win; for an application nothing can win, since
its own marker is the first.

* `Parts.checkUri_eq` — the grammar checks the path, then the escapes, then the entries;
* `checkUri_eq_ok_iff` — it accepts only located URIs, and those whose entries pass;
* `Located.read_eq` — reading them is left with the query.
-/

namespace LedgerUri.Uri

/-- The text of a URI up to the digits of its id. -/
def stem (kind : ResourceKind) : List Char :=
  (pathStart ++ kind.segment ++ "/").toList

/-- The URI is a path of a segment and digits, and after it comes nothing or a query. -/
structure Located (uri : List Char) (kind : ResourceKind) (digits tail : List Char) : Prop where
  /-- path and query are all there is -/
  eq : uri = stem kind ++ (digits ++ tail)
  /-- there is an id -/
  ne : digits ≠ []
  /-- the id is written in digits -/
  digits : ∀ c ∈ digits, c.isDigit = true
  /-- what follows starts a query -/
  tail : ∀ c ∈ tail.head?, c = '?'

variable {uri digits tail : List Char} {kind : ResourceKind}

theorem isDigit_ne {c d : Char} (hc : c.isDigit = true) (hd : d.isDigit = false) : c ≠ d := by
  rintro rfl
  rw [hc] at hd
  cases hd

/-- Digits in front of anything that starts a query are the longest run of them. -/
theorem takeWhile_isDigit_append (hdigits : ∀ c ∈ digits, c.isDigit = true)
    (htail : ∀ c ∈ tail.head?, c = '?') : (digits ++ tail).takeWhile Char.isDigit = digits := by
  have hstop : tail.takeWhile Char.isDigit = [] := by
    rcases tail with _ | ⟨c, cs⟩
    · rfl
    · rw [htail c rfl]
      rfl
  rw [List.takeWhile_append_of_pos hdigits, hstop, List.append_nil]

namespace Located

theorem not_mem_digits (h : Located uri kind digits tail) {d : Char} (hd : d.isDigit = false) :
    d ∉ digits :=
  fun hmem => isDigit_ne (h.digits d hmem) hd rfl

/-- There is no `?` before the query. -/
theorem question_not_mem (h : Located uri kind digits tail) : '?' ∉ stem kind ++ digits := by
  have hstem : '?' ∉ stem kind := by cases kind <;> decide
  rw [List.mem_append]
  exact fun hmem => hmem.elim hstem (h.not_mem_digits rfl)

theorem queryPart_eq (h : Located uri kind digits tail) : queryPart uri = queryPart tail := by
  rw [h.eq, ← List.append_assoc, queryPart_append h.question_not_mem]

end Located

/-! ## Markers -/

theorem afterFirst?_marker_slash {kind : ResourceKind} {rest : List Char} (h : '/' ∉ rest) :
    Text.afterFirst? kind.marker.toList ('/' :: rest) = none := by
  have hnone : Text.afterFirst? kind.marker.toList rest = none := by
    cases kind <;> exact Text.afterFirst?_eq_none h
  have hhere : Text.after? kind.marker.toList ('/' :: rest) = none := by
    rcases rest with _ | ⟨c, cs⟩
    · cases kind <;> rfl
    · obtain ⟨hc, -⟩ := List.ne_and_not_mem_of_not_mem_cons h
      cases kind <;> simp [ResourceKind.marker, Text.after?, hc]
  rw [Text.afterFirst?, hhere]
  exact hnone

/-- A token's URI without a `/` in its query has no marker of an application. -/
theorem Located.application_marker_absent (h : Located uri .token digits tail)
    (hslash : '/' ∉ tail) :
    ¬ ResourceKind.application.marker.toList <:+: uri := by
  have hrest : '/' ∉ digits ++ tail := by
    rw [List.mem_append]
    exact fun hmem => hmem.elim (h.not_mem_digits rfl) hslash
  -- past the stem's slashes the search is left with the text after its last one
  have hnone : Text.afterFirst? ResourceKind.application.marker.toList
      (stem .token ++ (digits ++ tail)) = none := afterFirst?_marker_slash hrest
  rw [h.eq]
  exact Text.afterFirst?_eq_none_iff.1 hnone

/-- The path's own marker is the first one, unless an application's marker stands behind a
token's. -/
theorem resource?_stem {rest : List Char}
    (h : kind = .token → ¬ ResourceKind.application.marker.toList <:+: stem kind ++ rest) :
    resource? (stem kind ++ rest) = some (kind, rest) := by
  cases kind with
  | application => rfl
  | token =>
    have happ := Text.afterFirst?_eq_none_iff.2 (h rfl)
    simp only [resource?, ResourceKind.all, List.findSome?, happ]
    rfl

/-! ## Path and query -/

/-- The path and the query of a URI. The path follows the scheme and has no `?`. -/
inductive Parts : (uri path query : List Char) → Prop
  /-- nothing follows the path -/
  | path {path : List Char} (h : '?' ∉ path) : Parts (pathStart.toList ++ path) path []
  /-- a query follows the path -/
  | query {path query : List Char} (h : '?' ∉ path) :
      Parts (pathStart.toList ++ (path ++ '?' :: query)) path query

/-- Every text that starts as a URI has a path and a query. -/
theorem exists_parts (h : pathStart.toList <+: uri) : ∃ path query, Parts uri path query := by
  obtain ⟨rest, rfl⟩ := h
  rcases hcut : Text.cutFirst? '?' rest with _ | ⟨path, query⟩
  · exact ⟨rest, [], .path (Text.cutFirst?_eq_none_iff.1 hcut)⟩
  · obtain ⟨hpath, rfl⟩ := Text.cutFirst?_eq_some_iff.1 hcut
    exact ⟨path, query, .query hpath⟩

/-- A text that does not start as a URI is not checked any further. -/
theorem checkUri_of_foreign (hne : uri ≠ []) (hstart : ¬ pathStart.toList <+: uri) :
    Grammar.checkUri uri = .error (.foreignScheme (foundScheme? uri)) := by
  rw [Grammar.checkUri, Text.after?_eq_none_iff.2 hstart, if_neg (by simpa using hne)]

/-- With a path and a query, a URI is checked in three stages. -/
theorem Parts.checkUri_eq {path query : List Char} (h : Parts uri path query) :
    Grammar.checkUri uri =
      Grammar.checkPath path >>= fun kind => readEntries query >>= Grammar.checkEntries kind := by
  cases h with
  | path h =>
    simp only [Grammar.checkUri, Text.after?_append, Text.cutFirst?_eq_none_iff.2 h]
    rfl
  | query h =>
    simp only [Grammar.checkUri, Text.after?_append, Text.cutFirst?_append h]
    rfl

/-- A URI that the grammar accepts has passed all three. -/
theorem exists_parts_of_checkUri (h : Grammar.checkUri uri = .ok ()) :
    ∃ path query kind entries, Parts uri path query ∧ Grammar.checkPath path = .ok kind ∧
      readEntries query = .ok entries ∧ Grammar.checkEntries kind entries = .ok () := by
  rcases eq_or_ne uri [] with rfl | hne
  · cases h
  by_cases hstart : pathStart.toList <+: uri
  · obtain ⟨path, query, hparts⟩ := exists_parts hstart
    rw [hparts.checkUri_eq] at h
    obtain ⟨kind, hkind, hquery⟩ := bind_eq_ok_iff.1 h
    obtain ⟨entries, hentries, hcheck⟩ := bind_eq_ok_iff.1 hquery
    exact ⟨path, query, kind, entries, hparts, hkind, hentries, hcheck⟩
  · rw [checkUri_of_foreign hne hstart] at h
    cases h

theorem kindOfSegment?_eq_some_iff {segment : String} :
    Grammar.kindOfSegment? segment = some kind ↔ segment = kind.segment := by
  refine ⟨fun h => ?_, ?_⟩
  · have hfound := List.find?_some h
    exact (of_decide_eq_true hfound).symm
  · rintro rfl
    cases kind <;> rfl

/-- The grammar takes a path apart into a segment and an id. -/
theorem checkPath_eq_ok_iff {path : List Char} :
    Grammar.checkPath path = .ok kind ↔
      ∃ digits id, path = kind.segment.toList ++ '/' :: digits ∧
        ResourceId.parse (String.ofList digits) = .ok id := by
  rw [Grammar.checkPath]
  refine ⟨fun h => ?_, ?_⟩
  · split at h
    · cases h
    · next segment digits hcut =>
      split at h
      · cases h
      · next found hkind =>
        split at h
        · next id hid =>
          cases h
          obtain ⟨-, hpath⟩ := Text.cutFirst?_eq_some_iff.1 hcut
          have hsegment : segment = kind.segment.toList := by
            rw [← kindOfSegment?_eq_some_iff.1 hkind, String.toList_ofList]
          exact ⟨digits, id, hsegment ▸ hpath, hid⟩
        · cases h
  · rintro ⟨digits, id, rfl, hid⟩
    have hsegment : '/' ∉ kind.segment.toList := by cases kind <;> decide
    have hkind : Grammar.kindOfSegment? (String.ofList kind.segment.toList) = some kind := by
      rw [String.ofList_toList, kindOfSegment?_eq_some_iff]
    simp only [Text.cutFirst?_append hsegment, hkind, hid]

/-! ## Reading and checking -/

theorem stem_append (kind : ResourceKind) (rest : List Char) :
    stem kind ++ rest = pathStart.toList ++ (kind.segment.toList ++ '/' :: rest) := by
  rw [stem, String.toList_append, String.toList_append]
  simp

variable {id : ResourceId} {entries : List Entry}

/-- The path of a located URI is its segment and its digits. -/
theorem Located.parts (h : Located uri kind digits tail) :
    Parts uri (kind.segment.toList ++ '/' :: digits) (queryPart uri) := by
  have hpath : '?' ∉ kind.segment.toList ++ '/' :: digits := by
    have hsegment : '?' ∉ kind.segment.toList := by cases kind <;> decide
    have hdigits : '?' ∉ digits := h.not_mem_digits rfl
    simp [hsegment, hdigits]
  rw [h.queryPart_eq, h.eq, stem_append]
  rcases tail with _ | ⟨c, query⟩
  · rw [List.append_nil]
    exact .path hpath
  · obtain rfl := h.tail c rfl
    have hquery : queryPart ('?' :: query) = query := rfl
    simpa only [hquery, List.append_assoc, List.cons_append] using Parts.query hpath

/-- A located URI is its path, and then nothing or the query. -/
theorem exists_located_iff {query : List Char} :
    (∃ tail, Located uri kind digits tail ∧ queryPart uri = query) ↔
      (uri = stem kind ++ digits ∧ query = [] ∨ uri = stem kind ++ digits ++ '?' :: query) ∧
        digits ≠ [] ∧ ∀ c ∈ digits, c.isDigit = true := by
  refine ⟨?_, ?_⟩
  · rintro ⟨tail, hlocated, rfl⟩
    refine ⟨?_, hlocated.ne, hlocated.digits⟩
    rw [hlocated.queryPart_eq, hlocated.eq, ← List.append_assoc]
    rcases tail with _ | ⟨c, query⟩
    · exact .inl ⟨List.append_nil _, rfl⟩
    · obtain rfl := hlocated.tail c rfl
      exact .inr rfl
  · rintro ⟨⟨rfl, rfl⟩ | rfl, hne, hdigits⟩
    · have hlocated : Located (stem kind ++ digits) kind digits [] :=
        ⟨by rw [List.append_nil], hne, hdigits, fun c hc => (by cases hc)⟩
      exact ⟨[], hlocated, hlocated.queryPart_eq⟩
    · have hlocated : Located (stem kind ++ digits ++ '?' :: query) kind digits ('?' :: query) :=
        ⟨List.append_assoc _ _ _, hne, hdigits, fun c hc => (Option.some.inj hc).symm⟩
      exact ⟨_, hlocated, hlocated.queryPart_eq⟩

/-- A URI is located when its path is a segment and digits. -/
theorem Parts.exists_located {query : List Char}
    (h : Parts uri (kind.segment.toList ++ '/' :: digits) query) (hne : digits ≠ [])
    (hdigits : ∀ c ∈ digits, c.isDigit = true) :
    ∃ tail, Located uri kind digits tail ∧ queryPart uri = query := by
  refine exists_located_iff.2 ⟨?_, hne, hdigits⟩
  cases h with
  | path => exact .inl ⟨(stem_append kind digits).symm, rfl⟩
  | query =>
    refine .inr ?_
    rw [List.append_assoc (stem kind), stem_append, List.append_assoc, List.cons_append]

theorem exists_located_of_checkUri (h : Grammar.checkUri uri = .ok ()) :
    ∃ kind digits tail, ∃ (id : ResourceId) (entries : List Entry),
      Located uri kind digits tail ∧ Decimal.value digits = id.toNat ∧
        readEntries (queryPart uri) = .ok entries ∧ Grammar.checkEntries kind entries = .ok () := by
  obtain ⟨path, query, kind, entries, hparts, hkind, hentries, hcheck⟩ := exists_parts_of_checkUri h
  obtain ⟨digits, id, rfl, hid⟩ := checkPath_eq_ok_iff.1 hkind
  rw [ResourceId.parse_eq_ok_iff, String.toList_ofList] at hid
  obtain ⟨hne, hdigits, hvalue⟩ := hid
  obtain ⟨tail, hlocated, rfl⟩ := hparts.exists_located hne hdigits
  exact ⟨kind, digits, tail, id, entries, hlocated, hvalue, hentries, hcheck⟩

theorem checkUri_of_located (h : Located uri kind digits tail)
    (hid : Decimal.value digits = id.toNat) (hentries : readEntries (queryPart uri) = .ok entries)
    (hcheck : Grammar.checkEntries kind entries = .ok ()) : Grammar.checkUri uri = .ok () := by
  have hparse : ResourceId.parse (String.ofList digits) = .ok id := by
    rw [ResourceId.parse_eq_ok_iff, String.toList_ofList]
    exact ⟨h.ne, h.digits, hid⟩
  have hkind : Grammar.checkPath (kind.segment.toList ++ '/' :: digits) = .ok kind :=
    checkPath_eq_ok_iff.2 ⟨digits, id, rfl, hparse⟩
  rw [h.parts.checkUri_eq]
  exact bind_eq_ok_iff.2 ⟨kind, hkind, bind_eq_ok_iff.2 ⟨entries, hentries, hcheck⟩⟩

/-- The grammar accepts located URIs whose entries pass, and no others. -/
theorem checkUri_eq_ok_iff :
    Grammar.checkUri uri = .ok () ↔
      ∃ kind digits tail, ∃ (id : ResourceId) (entries : List Entry),
        Located uri kind digits tail ∧ Decimal.value digits = id.toNat ∧
          readEntries (queryPart uri) = .ok entries ∧
          Grammar.checkEntries kind entries = .ok () := by
  refine ⟨exists_located_of_checkUri, ?_⟩
  rintro ⟨kind, digits, tail, id, entries, hlocated, hid, hentries, hcheck⟩
  exact checkUri_of_located hlocated hid hentries hcheck

/-- Of a located URI, reading is left with the query. -/
theorem Located.read_eq (h : Located uri kind digits tail)
    (hfirst : kind = .token → ¬ ResourceKind.application.marker.toList <:+: uri)
    (hid : Decimal.value digits = id.toNat) (hentries : readEntries (queryPart uri) = .ok entries)
    (pairing : Pairing) :
    read pairing uri = (readRequest kind pairing entries).map fun request => (id, request) := by
  have hscheme : schemeStart.toList <+: uri := by
    rw [h.eq]
    cases kind <;> exact ⟨_, rfl⟩
  have hresource : resource? uri = some (kind, digits ++ tail) := by
    rw [h.eq]
    exact resource?_stem fun hk => h.eq ▸ hfirst hk
  obtain ⟨⟨front, hplace⟩, -⟩ := resource?_eq_some_iff.1 hresource
  have houtline : Outline uri kind digits entries :=
    ⟨hscheme, ⟨front, _, hplace, takeWhile_isDigit_append h.digits h.tail⟩, hfirst,
      hasEntries_iff.2 hentries⟩
  exact houtline.read_eq ⟨h.ne, hid⟩ pairing

end LedgerUri.Uri
