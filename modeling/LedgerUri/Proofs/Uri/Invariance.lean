import LedgerUri.Proofs.Uri.Canonical

/-!
# What reading depends on

Of a URI that starts with a path, reading takes the resource from the path and everything else from
the entries of the query. Of an application's entries it takes the keys under each key parameter,
the addresses, and whether programs are mentioned; strict pairing also asks that they are paired.
So two queries on one path are read as the same request when they agree in that much.

* `exists_located_of_read` — on a path, reading is left with the entries;
* `ofPieces` — a path and joined pieces, whose entries are those that the pieces spell;
* `SameValues` — entries of an application that agree in what is taken from them;
* `SameValues.readRequest_eq` — they are read as the same request;
* `read_of_sameValues` — and so are URIs with one id that spell them.
-/

namespace LedgerUri.Uri

variable {uri digits tail other tail' : List Char} {kind : ResourceKind} {id : ResourceId}
  {entries others : List Entry} {pairing : Pairing} {request : Request}

/-! ## On a path -/

/-- What is read of a URI that starts with a path is the path's resource and what the entries ask
of it. -/
theorem exists_located_of_read (huri : uri = stem kind ++ (digits ++ tail))
    (hdigits : ∀ c ∈ digits, c.isDigit = true) (htail : ∀ c ∈ tail.head?, c = '?')
    (hfirst : kind = .token → ¬ ResourceKind.application.marker.toList <:+: uri)
    (h : read pairing uri = .ok (id, request)) :
    Located uri kind digits tail ∧ Decimal.value digits = id.toNat ∧
      ∃ entries, readEntries (queryPart uri) = .ok entries ∧
        readRequest kind pairing entries = .ok request := by
  obtain ⟨-, found, rest, entries, hresource, hid, hentries, hrequest⟩ := read_eq_ok_iff.1 h
  have hstem : resource? uri = some (kind, digits ++ tail) := by
    rw [huri]
    exact resource?_stem fun hk => huri ▸ hfirst hk
  rw [hstem] at hresource
  cases hresource
  obtain ⟨hne, hvalue⟩ := leadingId_eq_ok_iff.1 hid
  rw [takeWhile_isDigit_append hdigits htail] at hne hvalue
  exact ⟨⟨huri, hne, hdigits, htail⟩, hvalue, entries, hentries, hrequest⟩

/-- The first `?` of a located URI ends its path. -/
theorem Located.eq_of_query {path query : List Char} (h : Located uri kind digits tail)
    (hpath : '?' ∉ path) (huri : uri = path ++ '?' :: query) :
    path = stem kind ++ digits ∧ tail = '?' :: query := by
  have hfront : '?' ∉ stem kind ++ digits := by
    have hstem : '?' ∉ stem kind := by cases kind <;> decide
    rw [List.mem_append]
    exact fun hmem => hmem.elim hstem (h.not_mem_digits rfl)
  have hcut : Text.cutFirst? '?' uri = some (path, query) := by
    rw [huri, Text.cutFirst?_append hpath]
  rw [h.eq, ← List.append_assoc] at hcut
  have htail := h.tail
  rcases tail with _ | ⟨c, cs⟩
  · rw [List.append_nil, Text.cutFirst?_eq_none_iff.2 hfront] at hcut
    cases hcut
  · obtain rfl := htail c rfl
    rw [Text.cutFirst?_append hfront] at hcut
    cases hcut
    exact ⟨rfl, rfl⟩

/-- Reading a text with the same outcome as another text changes nothing but the text. -/
theorem parse_eq_ok_of_read {u v : String} {q : Query} (h : Query.parse pairing u = .ok q)
    (hread : ∀ id request, read pairing u.toList = .ok (id, request) →
      read pairing v.toList = .ok (id, request)) :
    Query.parse pairing v = .ok { q with text := v } := by
  obtain ⟨hu, -⟩ := Query.parse_eq_ok_iff.1 h
  exact Query.parse_eq_ok_iff.2 ⟨hread q.id q.request hu, rfl⟩

/-- A URI of a path and pieces, joined by `&`. -/
def ofPieces (kind : ResourceKind) (digits : List Char) (pieces : List (List Char)) : List Char :=
  stem kind ++ (digits ++ '?' :: List.intercalate ['&'] pieces)

theorem eq_of_mem_head?_query (query : List Char) : ∀ c ∈ ('?' :: query).head?, c = '?' :=
  fun _ hc => (Option.some.inj hc).symm

theorem located_ofPieces {pieces : List (List Char)} (hne : digits ≠ [])
    (hdigits : ∀ c ∈ digits, c.isDigit = true) :
    Located (ofPieces kind digits pieces) kind digits
      ('?' :: List.intercalate ['&'] pieces) :=
  ⟨rfl, hne, hdigits, eq_of_mem_head?_query _⟩

theorem queryPieces_intercalate {pieces : List (List Char)}
    (hwhole : ∀ piece ∈ pieces, piece ≠ [] ∧ ∀ c ∈ piece, isSeparator c = false) :
    queryPieces (List.intercalate ['&'] pieces) = pieces := by
  rw [← pieces_eq_queryPieces]
  exact Text.pieces_intercalate rfl (fun piece hpiece => (hwhole piece hpiece).1)
    fun piece hpiece => (hwhole piece hpiece).2

/-- The entries of joined pieces are those that the pieces spell. -/
theorem Located.hasEntries_iff_of_pieces {pieces : List (List Char)}
    (h : Located uri kind digits ('?' :: List.intercalate ['&'] pieces))
    (hwhole : ∀ piece ∈ pieces, piece ≠ [] ∧ ∀ c ∈ piece, isSeparator c = false) :
    HasEntries uri entries ↔ List.Forall₂ SpellsEntry pieces entries := by
  rw [hasEntries_iff, h.queryPart_eq]
  change readEntries (List.intercalate ['&'] pieces) = _ ↔ _
  rw [readEntries_eq_ok_iff, queryPieces_intercalate hwhole]

/-! ## In the entries of an application -/

/-- Two lists of entries from which the same is taken for an application. -/
structure SameValues (entries others : List Entry) : Prop where
  /-- the same keys, apart from padding -/
  keys : ∀ p : KeyParam, keysOf p others = keysOf p entries
  /-- the same addresses -/
  addresses : valuesOf addressParam others = valuesOf addressParam entries
  /-- programs are mentioned in both or in none -/
  programs : mentions programParam others = mentions programParam entries

namespace SameValues

theorem usable (h : SameValues entries others) (husable : Usable entries) : Usable others := by
  refine ⟨?_, ?_, ?_⟩
  · intro p e he hname
    have hkey : unpadded e.valueText ∈ keysOf p others :=
      List.mem_map_of_mem (mem_valuesOf.2 ⟨e, he, hname, rfl⟩)
    rw [h.keys p] at hkey
    exact isKey_iff.1 (husable.isKey p _ hkey)
  · intro e he hname
    have hvalue : e.valueText ∈ valuesOf addressParam others :=
      mem_valuesOf.2 ⟨e, he, hname, rfl⟩
    rw [h.addresses] at hvalue
    obtain ⟨a, ha, haddress, htext⟩ := mem_valuesOf.1 hvalue
    exact htext ▸ husable.addresses a ha haddress
  · intro hlocal
    have hname : KeyParam.localKey.name = KeyParam.name .localKey := rfl
    rw [hname, ← keysOf_ne_nil_iff, h.keys, keysOf_ne_nil_iff] at hlocal
    rw [← valuesOf_ne_nil_iff, h.addresses, valuesOf_ne_nil_iff]
    exact husable.address hlocal

theorem collects {r : ApplicationRequest} (h : SameValues entries others)
    (hcollects : Collects entries r) : Collects others r := by
  refine ⟨?_, ?_, ?_, ?_⟩
  · rw [h.keys, hcollects.boxKeys]
  · rw [h.keys, hcollects.globalKeys]
  · rw [h.keys, hcollects.localKeys]
  · rw [h.programs, hcollects.programs]

theorem chooses {locals : List LocalRequest} (h : SameValues entries others)
    (hpaired : pairing = .strict → Paired entries → Paired others)
    (hchooses : Chooses pairing entries locals) : Chooses pairing others locals := by
  cases pairing with
  | firstAddress =>
    intro l hl
    rw [h.addresses]
    exact hchooses l hl
  | strict =>
    intro hne
    obtain ⟨hp, htexts⟩ := hchooses hne
    exact ⟨hpaired rfl hp, htexts.trans h.addresses.symm⟩

/-- **Only the values count.** Entries from which the same is taken are read as the same request,
with strict pairing if they are paired as well. -/
theorem readRequest_eq (h : SameValues entries others)
    (hpaired : pairing = .strict → Paired entries → Paired others)
    (hread : readRequest .application pairing entries = .ok request) :
    readRequest .application pairing others = .ok request := by
  obtain ⟨r, hr, rfl⟩ := map_eq_ok_iff.1 hread
  obtain ⟨husable, hcollects, hchooses⟩ := readApplication_eq_ok_iff_collects.1 hr
  have hothers : readApplication pairing others = .ok r := by
    apply readApplication_eq_ok_iff_collects.2
    exact ⟨h.usable husable, h.collects hcollects, h.chooses hpaired hchooses⟩
  exact map_eq_ok_iff.2 ⟨r, hothers, rfl⟩

end SameValues

/-- A URI of an application is read like another one with the same id, when the same is taken from
the entries of both. -/
theorem read_of_sameValues (hu : Located uri .application digits tail)
    (ho : Located other .application digits tail') (hentries : HasEntries uri entries)
    (hothers : HasEntries other others) (hsame : SameValues entries others)
    (hpaired : pairing = .strict → Paired entries → Paired others)
    (h : read pairing uri = .ok (id, request)) : read pairing other = .ok (id, request) := by
  obtain ⟨-, hid, found, hfound, hrequest⟩ :=
    exists_located_of_read hu.eq hu.digits hu.tail (by rintro ⟨⟩) h
  obtain rfl := hentries.unique (hasEntries_iff.2 hfound)
  rw [ho.read_eq (by rintro ⟨⟩) hid (hasEntries_iff.1 hothers),
    hsame.readRequest_eq hpaired hrequest]
  rfl

end LedgerUri.Uri
