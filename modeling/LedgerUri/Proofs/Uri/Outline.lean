import LedgerUri.Proofs.Resource.Id
import LedgerUri.Proofs.Uri.Query
import LedgerUri.Proofs.Uri.Spelling

/-!
# Outlines of URIs

Reading looks at four things in a URI: the scheme, the first marker of a resource, the digits right
after it, and the entries of the query. They are its *outline*, and each of them can be pointed at
in the text. Two readings of one text differ in nothing but what they ask of the entries.

* `resource?_eq_some_iff`, `leadingId_eq_ok_iff` — the marker and the id;
* `read_eq_ok_iff_outline` — a URI is read when it has an outline with an id, and its entries ask
  for something;
* `Outline.read_eq` — what is left of reading when the outline is known.
-/

namespace LedgerUri.Uri

variable {uri rest digits : List Char} {kind : ResourceKind} {entries : List Entry}
  {id : ResourceId} {pairing : Pairing} {request : Request}

/-- What reading looks at in a URI. -/
structure Outline (uri : List Char) (kind : ResourceKind) (digits : List Char)
    (entries : List Entry) : Prop where
  /-- the scheme starts the URI -/
  scheme : schemeStart.toList <+: uri
  /-- the digits are the longest run of them right after the first marker of the kind -/
  marker : ∃ front rest, Text.FirstPlace kind.marker.toList uri front rest ∧
    rest.takeWhile Char.isDigit = digits
  /-- a token is named only when no application is -/
  first : kind = .token → ¬ ResourceKind.application.marker.toList <:+: uri
  /-- the entries are those of the query -/
  query : HasEntries uri entries

/-- The resource is what follows the first marker; a token's counts when there is no marker of an
application anywhere. -/
theorem resource?_eq_some_iff :
    resource? uri = some (kind, rest) ↔
      (∃ front, Text.FirstPlace kind.marker.toList uri front rest) ∧
        (kind = .token → ¬ ResourceKind.application.marker.toList <:+: uri) := by
  rw [← Text.afterFirst?_eq_some_iff, ← Text.afterFirst?_eq_none_iff]
  simp only [resource?, ResourceKind.all, List.findSome?]
  rcases happ : Text.afterFirst? ResourceKind.application.marker.toList uri with _ | found
  · rcases htoken : Text.afterFirst? ResourceKind.token.marker.toList uri with _ | found <;>
      cases kind <;> simp [happ, htoken]
  · cases kind <;> simp [happ]

theorem isDigit_of_mem_takeWhile {c : Char} (h : c ∈ rest.takeWhile Char.isDigit) :
    c.isDigit = true :=
  List.mem_takeWhile_imp h

/-- A run of digits at the start is read as the number that it spells. -/
theorem leadingId_eq_ok_iff :
    leadingId rest = .ok id ↔
      rest.takeWhile Char.isDigit ≠ [] ∧
        Decimal.value (rest.takeWhile Char.isDigit) = id.toNat := by
  rw [leadingId, mapError_eq_ok_iff, ResourceId.parse_eq_ok_iff, String.toList_ofList]
  exact and_congr_right fun _ => and_iff_right fun c hc => isDigit_of_mem_takeWhile hc

/-- **A URI is read by its outline.** -/
theorem read_eq_ok_iff_outline :
    read pairing uri = .ok (id, request) ↔
      ∃ kind digits entries, Outline uri kind digits entries ∧
        (digits ≠ [] ∧ Decimal.value digits = id.toNat) ∧
        readRequest kind pairing entries = .ok request := by
  rw [read_eq_ok_iff]
  simp only [resource?_eq_some_iff, leadingId_eq_ok_iff, ← hasEntries_iff, Text.after?_eq_some_iff]
  refine ⟨?_, ?_⟩
  · rintro ⟨⟨after, hscheme⟩, kind, rest, entries, ⟨⟨front, hplace⟩, hfirst⟩, hid, hentries,
      hrequest⟩
    exact ⟨kind, _, entries,
      ⟨⟨after, hscheme.symm⟩, ⟨front, rest, hplace, rfl⟩, hfirst, hentries⟩, hid, hrequest⟩
  · rintro ⟨kind, _, entries, ⟨⟨after, hscheme⟩, ⟨front, rest, hplace, rfl⟩, hfirst, hentries⟩, hid,
      hrequest⟩
    exact ⟨⟨after, hscheme.symm⟩, kind, rest, entries, ⟨⟨front, hplace⟩, hfirst⟩, hid, hentries,
      hrequest⟩

/-- Once the outline is known, reading comes down to the request, and fails only with it. -/
theorem Outline.read_eq (h : Outline uri kind digits entries)
    (hid : digits ≠ [] ∧ Decimal.value digits = id.toNat) (pairing : Pairing) :
    read pairing uri = (readRequest kind pairing entries).map fun request => (id, request) := by
  obtain ⟨⟨after, hscheme⟩, ⟨front, rest, hplace, rfl⟩, hfirst, hentries⟩ := h
  have hresource := resource?_eq_some_iff.2 ⟨⟨front, hplace⟩, hfirst⟩
  have hne : uri.isEmpty = false := by
    rw [← hscheme]
    rfl
  rw [read, hne, Text.after?_eq_some_iff.2 hscheme.symm, hresource]
  simp only [Option.isNone_some, Bool.false_eq_true, if_false, leadingId_eq_ok_iff.2 hid,
    hasEntries_iff.1 hentries]
  change (readRequest kind pairing entries >>= fun request => pure (id, request)) = _
  rcases readRequest kind pairing entries with cause | request <;> rfl

end LedgerUri.Uri
