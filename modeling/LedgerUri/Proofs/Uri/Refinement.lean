import LedgerUri.Proofs.Uri.Path
import LedgerUri.Proofs.Uri.Request

/-!
# The strict grammar refines reading

Whatever the grammar accepts, reading accepts in both pairings and understands as the grammar does:
the resource is the one of the path, and local keys and addresses are paired off as neighbours. The
one way in which the two could part is a marker hidden in a query. An application's own marker comes
first, and a token's query cannot hold a `/`, because its decoded names have none.

* `slash_not_mem_of_checkToken` — no marker hides in an accepted token query;
* `read_of_checkEntries` — what is read of a located URI whose entries pass;
* `Grammar.agreement_of_check` — the grammar refines reading.
-/

namespace LedgerUri

namespace Uri

open Grammar

/-! ## No hidden marker -/

theorem slash_not_mem_utf8_key (f : TokenField) : (47 : UInt8) ∉ Text.utf8 f.key := by
  cases f <;> decide

/-- The query of an accepted token has no `/`, so no marker hides in it. -/
theorem slash_not_mem_of_checkToken {tail : List Char} (htail : ∀ c ∈ tail.head?, c = '?')
    {entries : List Entry} (hentries : readEntries (queryPart tail) = .ok entries)
    (hcheck : checkToken entries = .ok ()) : '/' ∉ tail := by
  rcases tail with _ | ⟨c, query⟩
  · exact List.not_mem_nil
  · obtain rfl := htail c rfl
    intro hmem
    have hquery : '/' ∈ query := List.mem_of_ne_of_mem (by decide) hmem
    have hsep : isSeparator '/' = false := rfl
    obtain ⟨piece, hpiece, hslash⟩ := Text.exists_mem_pieces hquery hsep
    obtain ⟨e, he, hread⟩ := exists_mem_of_mem_mapM_eq_ok hentries hpiece
    obtain ⟨⟨f, hname⟩, hvalue⟩ := checkToken_eq_ok_iff.1 hcheck e he
    obtain ⟨-, hspells⟩ := (readEntry_eq_ok_iff.1 hread).bare_of_value_eq_none hvalue
    -- the slash would survive in the decoded name, and no field's key has one
    have hbyte : (47 : UInt8) ∈ Text.unescape piece :=
      Text.mem_unescape hslash (by decide) (by decide) (by decide)
    rw [hspells, hname] at hbyte
    exact slash_not_mem_utf8_key f hbyte

/-! ## Reading what the grammar accepts -/

/-- A located URI whose entries pass is read as what they ask of the path's resource. -/
theorem read_of_checkEntries {uri digits tail : List Char} {request : Request}
    (hlocated : Located uri request.kind digits tail) {id : ResourceId}
    (hid : Decimal.value digits = id.toNat) {entries : List Entry}
    (hentries : readEntries (queryPart uri) = .ok entries)
    (hcheck : checkEntries request.kind entries = .ok ()) (hasks : AsksRequest entries request) :
    read .strict uri = .ok (id, request) ∧
      read .firstAddress uri = .ok (id, request.atFirst) := by
  -- an application's own marker comes first; a token needs that no other follows
  have hmarker : request.kind = .token →
      ¬ ResourceKind.application.marker.toList <:+: uri := by
    intro hk
    rw [hlocated.queryPart_eq] at hentries
    rw [hk] at hcheck hlocated
    exact hlocated.application_marker_absent
      (slash_not_mem_of_checkToken hlocated.tail hentries hcheck)
  obtain ⟨hstrict, hfirst⟩ := readRequest_of_asksRequest hcheck hasks
  rw [hlocated.read_eq hmarker hid hentries, hlocated.read_eq hmarker hid hentries, hstrict, hfirst]
  exact ⟨rfl, rfl⟩

end Uri

namespace Grammar

open Uri

/-- What the grammar and both ways of reading agree on about a URI: its path, its entries, and the
two queries that are read from it. -/
structure Agreement (text : String) (kind : ResourceKind) (digits tail : List Char)
    (entries : List Entry) (first strict : Query) : Prop where
  /-- the path right after the scheme is a segment and the digits of an id -/
  located : Located text.toList kind digits tail
  /-- the entries of the query -/
  entries_eq : readEntries (queryPart text.toList) = .ok entries
  /-- what is read with first-address pairing -/
  first_eq : Query.parse .firstAddress text = .ok first
  /-- what is read with strict pairing -/
  strict_eq : Query.parse .strict text = .ok strict
  /-- the kind is that of the path's segment -/
  kinds : first.kind = kind ∧ strict.kind = kind
  /-- the id is the number of the path's digits -/
  ids : first.id.toNat = Decimal.value digits ∧ strict.id.toNat = Decimal.value digits
  /-- a token is asked for the same fields -/
  tokens : ∀ fields, strict.request = .token fields → first.request = .token fields
  /-- an application is asked for the same keys -/
  applications : ∀ s, strict.request = .application s →
    ∃ f, first.request = .application f ∧ f.SameKeys s
  /-- strict local reads are the local values with the address values directly after them -/
  pairs : ∀ s, strict.request = .application s →
    (s.localReads.map fun l => (l.key, l.address.text)) = adjacentPairs entries
  /-- no local entry and no address entry is left out -/
  complete : ∀ s, strict.request = .application s →
    s.localReads.map LocalRequest.key = valuesOf KeyParam.localKey.name entries ∧
      (s.localReads.map fun l => l.address.text) = valuesOf addressParam entries

theorem check_eq_ok_iff {text : String} : check text = .ok () ↔ checkUri text.toList = .ok () :=
  mapError_eq_ok_iff

/-- **The grammar refines reading**: what it accepts is read with either pairing, as the resource of
the path and with neighbouring local and address entries. -/
theorem agreement_of_check {text : String} (h : check text = .ok ()) :
    ∃ kind digits tail entries first strict,
      Agreement text kind digits tail entries first strict := by
  obtain ⟨kind, digits, tail, id, entries, hlocated, hid, hentries, hcheck⟩ :=
    checkUri_eq_ok_iff.1 (check_eq_ok_iff.1 h)
  obtain ⟨request, rfl, hasks⟩ := exists_asksRequest hcheck
  obtain ⟨hstrict, hfirst⟩ := read_of_checkEntries hlocated hid hentries hcheck hasks
  refine ⟨request.kind, digits, tail, entries, ⟨id, request.atFirst, text⟩, ⟨id, request, text⟩,
    hlocated, hentries, Query.parse_eq_ok_iff.2 ⟨hfirst, rfl⟩,
    Query.parse_eq_ok_iff.2 ⟨hstrict, rfl⟩,
    ⟨request.kind_atFirst, rfl⟩, ⟨hid.symm, hid.symm⟩, ?_, ?_, ?_, ?_⟩
  · rintro fields rfl
    rfl
  · rintro s rfl
    exact ⟨s.atFirst, rfl, s.sameKeys_atFirst⟩
  · rintro s rfl
    have hpaired := (checkApplication_eq_ok_iff.1 hcheck).paired
    exact (Asks.adjacentPairs_eq hasks hpaired).symm
  · rintro s rfl
    exact ⟨Asks.localKeys hasks, Asks.addresses hasks⟩

/-- A URI with leading zeros, empty entries, an escaped name and mixed separators. -/
def disguised : String :=
  "algorand://app/007?&lo%63al=YQ?algorandaddress=" ++
    "ZZAF5ARA4MEC5PVDOP64JM5O5MQST63Q2KOY2FLYFLXXD3PFSNJJBYAFZM&&box&tealcode"

set_option maxRecDepth 20000 in
/-- None of these disguises makes the readings part. -/
theorem agreement_disguised :
    check disguised = .ok () ∧
      ∃ kind digits tail entries first strict,
        Agreement disguised kind digits tail entries first strict :=
  ⟨rfl, agreement_of_check rfl⟩

end Grammar

end LedgerUri
