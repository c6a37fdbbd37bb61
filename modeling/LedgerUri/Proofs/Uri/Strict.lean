import LedgerUri.Proofs.Uri.Collecting
import LedgerUri.Proofs.Uri.Outline
import LedgerUri.Proofs.Uri.RoundTrip

/-!
# Strict pairing refines first-address pairing

The two pairings read one URI with the same checks up to the choice of addresses. So strict pairing
reads no more than first-address pairing does, and what it reads differs in nothing but the
addresses, of which each local key has its own. What it refuses beyond first-address pairing are
local keys and addresses that do not alternate, and then it counts both.

* `PairedOff` — what strict pairing asks in addition;
* `Refines` — how the two queries that are read from one URI compare;
* `parse_strict_refines` — what strict pairing accepts, reads and refuses, next to first-address
  pairing.
-/

namespace LedgerUri

namespace Uri

variable {entries : List Entry} {locals : List LocalRequest} {r : ApplicationRequest}
  {kind : ResourceKind} {request : Request}

/-- What strict pairing asks of an application's entries in addition: if any of them is local, then
local entries and addresses alternate. -/
def PairedOff (entries : List Entry) : Prop :=
  (∃ e ∈ entries, e.name = KeyParam.localKey.name) → Alternating entries

/-! ## When strict pairing succeeds -/

theorem Collects.exists_local_iff (h : Collects entries r) :
    (∃ e ∈ entries, e.name = KeyParam.localKey.name) ↔ r.localReads ≠ [] := by
  have hname : KeyParam.localKey.name = KeyParam.name .localKey := rfl
  rw [hname, ← keysOf_ne_nil_iff, ← h.localKeys, ne_eq, List.map_eq_nil_iff]

theorem pairedOff_of_readApplication (h : readApplication .strict entries = .ok r) :
    PairedOff entries := by
  obtain ⟨-, hcollects, hchooses⟩ := readApplication_eq_ok_iff_collects.1 h
  intro hlocal
  exact (hchooses (hcollects.exists_local_iff.1 hlocal)).1.alternating

/-- Usable entries that are paired off are read. -/
theorem Usable.exists_readApplication_strict (h : Usable entries) (hpaired : PairedOff entries) :
    ∃ r, readApplication .strict entries = .ok r := by
  obtain ⟨addresses, haddresses, -, hread⟩ := h.exists_readApplication_eq
  by_cases hkeys : keysOf .localKey entries = []
  · exact ⟨_, by rw [hread, hkeys]; rfl⟩
  · obtain ⟨locals, hlocals, -⟩ := exists_pairLocals_strict
      (hpaired (keysOf_ne_nil_iff.1 hkeys)).paired haddresses (length_keysOf .localKey entries)
    exact ⟨_, by rw [hread, hlocals]; rfl⟩

/-- Usable entries that are not paired off are counted. -/
theorem Usable.readApplication_strict_eq_error (h : Usable entries)
    (hpaired : ¬ PairedOff entries) :
    readApplication .strict entries = .error
      (.unpaired (countOf KeyParam.localKey.name entries) (countOf addressParam entries)) := by
  obtain ⟨addresses, haddresses, hne, hread⟩ := h.exists_readApplication_eq
  obtain ⟨hlocal, halternating⟩ := Classical.not_imp.1 hpaired
  have hkeys : keysOf .localKey entries ≠ [] := keysOf_ne_nil_iff.2 hlocal
  have hlength := length_keysOf .localKey entries
  have herror := pairLocals_strict_of_not_paired (fun hp => halternating hp.alternating)
    haddresses hlength hkeys (hne hkeys)
  rw [hread, herror, hlength, length_addresses haddresses]
  rfl

/-! ## Each local key at its own address -/

/-- The local read that strict pairing makes of a local entry and the address after it. -/
theorem exists_localRead {front rest : List Entry} {l a : Entry}
    (hcollects : Collects (front ++ l :: a :: rest) r)
    (hchooses : Chooses .strict (front ++ l :: a :: rest) r.localReads)
    (hl : l.name = KeyParam.localKey.name) (ha : a.name = addressParam) :
    ∃ m ∈ r.localReads[countOf KeyParam.localKey.name front]?,
      m.key = unpadded l.valueText ∧ m.address.text = a.valueText := by
  have hlocal : ∃ e ∈ front ++ l :: a :: rest, e.name = KeyParam.localKey.name :=
    ⟨l, List.mem_append_right front List.mem_cons_self, hl⟩
  obtain ⟨hpaired, haddresses⟩ := hchooses (hcollects.exists_local_iff.1 hlocal)
  have hkey : (r.localReads.map LocalRequest.key)[countOf KeyParam.localKey.name front]? =
      some (unpadded l.valueText) := by
    rw [hcollects.localKeys, keysOf, List.getElem?_map]
    exact congrArg (Option.map unpadded) (getElem?_valuesOf_append hl)
  have haddress : (r.localReads.map fun m => m.address.text)[countOf
      KeyParam.localKey.name front]? = some a.valueText := by
    -- in front of the address there is one more entry, and it is no address
    have hfront : countOf addressParam (front ++ [l]) = countOf KeyParam.localKey.name front := by
      rw [countOf_concat_of_ne (hl ▸ addressParam_ne_localKey.symm)]
      exact countOf_addressParam_front hpaired hl
    have hplace : (valuesOf addressParam ((front ++ [l]) ++ a :: rest))[countOf addressParam
        (front ++ [l])]? = some a.valueText := getElem?_valuesOf_append ha
    rwa [hfront, List.append_assoc, List.singleton_append, ← haddresses] at hplace
  rw [List.getElem?_map, Option.map_eq_some_iff] at hkey haddress
  obtain ⟨m, hm, hmkey⟩ := hkey
  obtain ⟨n, hn, hnaddress⟩ := haddress
  obtain rfl := Option.some.inj (hm.symm.trans hn)
  exact ⟨m, hm, hmkey, hnaddress⟩

/-- How a query that was read strictly compares with the one that first-address pairing reads from
the same entries. -/
structure Refines (entries : List Entry) (strict first : Query) : Prop where
  /-- the same text -/
  text_eq : strict.text = first.text
  /-- the same kind of resource -/
  kind_eq : strict.kind = first.kind
  /-- the same id -/
  id_eq : strict.id = first.id
  /-- a token is asked for the same fields -/
  token : ∀ fields, strict.request = .token fields → first.request = .token fields
  /-- an application is asked for the same keys, in the same order -/
  application : ∀ s, strict.request = .application s →
    ∃ f, first.request = .application f ∧ f.SameKeys s
  /-- there is a local read for every local entry -/
  length : ∀ s, strict.request = .application s →
    s.localReads.length = countOf KeyParam.localKey.name entries
  /-- it has the address of the entry right after the local one -/
  own : ∀ s, strict.request = .application s → ∀ front l rest, entries = front ++ l :: rest →
    l.name = KeyParam.localKey.name → ∃ a ∈ rest.head?, a.name = addressParam ∧
      ∃ m ∈ s.localReads[countOf KeyParam.localKey.name front]?,
        m.key = unpadded l.valueText ∧ m.address.text = a.valueText
  /-- if any entry is local, every address is used once and in its turn -/
  once : ∀ s, strict.request = .application s →
    (∃ e ∈ entries, e.name = KeyParam.localKey.name) →
      (s.localReads.map fun l => l.address.text) = valuesOf addressParam entries

theorem kind_of_readRequest {pairing : Pairing}
    (h : readRequest kind pairing entries = .ok request) : request.kind = kind := by
  cases kind with
  | application =>
    obtain ⟨r, -, rfl⟩ := map_eq_ok_iff.1 h
    rfl
  | token =>
    obtain rfl := Except.ok.inj h
    rfl

/-- The two readings of one text compare in this way. -/
theorem refines_of_readRequest {q : Query}
    (hrequest : readRequest kind .strict entries = .ok q.request) :
    Refines entries q { q with request := q.request.atFirst } := by
  have hkind : q.request.kind = kind := kind_of_readRequest hrequest
  obtain ⟨id, request, text⟩ := q
  refine ⟨rfl, request.kind_atFirst.symm, rfl, ?_, ?_, ?_, ?_, ?_⟩
  · rintro fields ⟨⟩
    rfl
  all_goals
    rintro s ⟨⟩
    obtain rfl : ResourceKind.application = kind := hkind
    obtain ⟨r, hr, ⟨⟩⟩ := map_eq_ok_iff.1 hrequest
    obtain ⟨-, hcollects, hchooses⟩ := readApplication_eq_ok_iff_collects.1 hr
  · exact ⟨s.atFirst, rfl, s.sameKeys_atFirst⟩
  · rw [← length_keysOf, ← hcollects.localKeys, List.length_map]
  · rintro front l rest rfl hl
    have hpaired := pairedOff_of_readApplication hr
    obtain ⟨a, ha, haddress⟩ := (hpaired ⟨l, by simp, hl⟩).followed front l rest rfl hl
    obtain ⟨rest, rfl⟩ := List.head?_eq_some_iff.1 ha
    exact ⟨a, rfl, haddress, exists_localRead hcollects hchooses hl haddress⟩
  · exact fun hlocal => (hchooses (hcollects.exists_local_iff.1 hlocal)).2

end Uri

namespace Query

open Uri

variable {text : String} {q f : Query}

/-- What strict pairing reads, first-address pairing reads too, with all local keys at the first
address. -/
theorem parse_firstAddress_of_strict (h : parse .strict text = .ok q) :
    parse .firstAddress text = .ok { q with request := q.request.atFirst } := by
  obtain ⟨hread, htext⟩ := parse_eq_ok_iff.1 h
  obtain ⟨hscheme, kind, rest, entries, hresource, hid, hentries, hrequest⟩ :=
    read_eq_ok_iff.1 hread
  refine parse_eq_ok_iff.2 ⟨?_, htext⟩
  exact read_eq_ok_iff.2 ⟨hscheme, kind, rest, entries, hresource, hid, hentries,
    readRequest_atFirst hrequest⟩

/-- What first-address pairing reads, strict pairing reads as well if the entries of an application
are paired off, and otherwise counts. -/
theorem parse_strict_of_firstAddress (h : parse .firstAddress text = .ok f) :
    ∃ entries, HasEntries text.toList entries ∧
      ((f.kind = .application → PairedOff entries) → ∃ q, parse .strict text = .ok q) ∧
      (¬ (f.kind = .application → PairedOff entries) → parse .strict text = .error ⟨text, .unpaired
        (countOf KeyParam.localKey.name entries) (countOf addressParam entries)⟩) := by
  obtain ⟨hread, rfl⟩ := parse_eq_ok_iff.1 h
  obtain ⟨kind, digits, entries, houtline, hid, hrequest⟩ := read_eq_ok_iff_outline.1 hread
  have hstrict := houtline.read_eq hid .strict
  obtain ⟨id, request, text⟩ := f
  refine ⟨entries, houtline.query, ?_⟩
  cases kind with
  | token =>
    obtain rfl := Except.ok.inj hrequest
    refine ⟨fun _ => ⟨_, parse_eq_ok_iff.2 ⟨hstrict, rfl⟩⟩, fun hnot => ?_⟩
    exact absurd (fun hkind => (by cases hkind)) hnot
  | application =>
    obtain ⟨r, hr, rfl⟩ := map_eq_ok_iff.1 hrequest
    obtain ⟨husable, -⟩ := readApplication_eq_ok_iff_collects.1 hr
    refine ⟨fun hpaired => ?_, fun hnot => ?_⟩
    · obtain ⟨s, hs⟩ := husable.exists_readApplication_strict (hpaired rfl)
      rw [readRequest, hs] at hstrict
      exact ⟨⟨id, .application s, text⟩, parse_eq_ok_iff.2 ⟨hstrict, rfl⟩⟩
    · have herror := husable.readApplication_strict_eq_error fun hpaired => hnot fun _ => hpaired
      rw [readRequest, herror] at hstrict
      rw [parse, hstrict]
      rfl

/-- **Strict pairing refines first-address pairing.** It reads a URI exactly when first-address
pairing does and the entries of an application are paired off. It then reads the same, with each
local key at the address right after it; so where there are local keys no address is lost, shared
or shifted. Whatever else first-address pairing reads, it refuses with the numbers of local entries
and of addresses. -/
theorem parse_strict_refines (text : String) :
    ((∃ q, parse .strict text = .ok q) ↔ ∃ f entries, parse .firstAddress text = .ok f ∧
      HasEntries text.toList entries ∧ (f.kind = .application → PairedOff entries)) ∧
    (∀ q f, parse .strict text = .ok q → parse .firstAddress text = .ok f →
      ∃ entries, HasEntries text.toList entries ∧ Refines entries q f) ∧
    ∀ f error, parse .firstAddress text = .ok f → parse .strict text = .error error →
      ∃ entries, HasEntries text.toList entries ∧ error = ⟨text, .unpaired
        (countOf KeyParam.localKey.name entries) (countOf addressParam entries)⟩ := by
  refine ⟨⟨fun ⟨q, hq⟩ => ?_, fun ⟨f, entries, hf, hentries, hpaired⟩ => ?_⟩,
    fun q f hq hf => ?_, fun f error hf herror => ?_⟩
  · obtain ⟨entries, hentries, -, herror⟩ :=
      parse_strict_of_firstAddress (parse_firstAddress_of_strict hq)
    refine ⟨_, entries, parse_firstAddress_of_strict hq, hentries, ?_⟩
    by_contra hnot
    rw [herror hnot] at hq
    cases hq
  · obtain ⟨found, hfound, hok, -⟩ := parse_strict_of_firstAddress hf
    obtain rfl := hfound.unique hentries
    exact hok hpaired
  · obtain ⟨kind, digits, entries, houtline, -, hrequest⟩ :=
      read_eq_ok_iff_outline.1 (parse_eq_ok_iff.1 hq).1
    rw [parse_firstAddress_of_strict hq] at hf
    obtain rfl := Except.ok.inj hf
    exact ⟨entries, houtline.query, refines_of_readRequest hrequest⟩
  · obtain ⟨entries, hentries, hok, hcounts⟩ := parse_strict_of_firstAddress hf
    refine ⟨entries, hentries, ?_⟩
    by_cases hpaired : f.kind = .application → PairedOff entries
    · obtain ⟨q, hq⟩ := hok hpaired
      rw [hq] at herror
      cases herror
    · rw [hcounts hpaired] at herror
      exact (Except.error.inj herror).symm

/-- A URI with an address in front of its only local key. -/
def shifted : String :=
  "algorand://app/7?algorandaddress=" ++ Address.allA.text ++ "&local=YQ"

/-- A request for two accounts is refined, and an address in the wrong place is counted. -/
theorem parse_strict_refines_shifted :
    (∃ u q f entries, parse .strict u = .ok q ∧ parse .firstAddress u = .ok f ∧
      HasEntries u.toList entries ∧ Refines entries q f ∧ q ≠ f) ∧
    ∃ f error entries, parse .firstAddress shifted = .ok f ∧ parse .strict shifted = .error error ∧
      HasEntries shifted.toList entries ∧ error = ⟨shifted, .unpaired
        (countOf KeyParam.localKey.name entries) (countOf addressParam entries)⟩ := by
  refine ⟨?_, ?_⟩
  · obtain ⟨hq, hf⟩ := parse_write writable_twoAccounts ⟨7⟩
    obtain ⟨entries, hentries, hrefines⟩ := (parse_strict_refines _).2.1 _ _ hq hf
    exact ⟨_, _, _, entries, hq, hf, hentries, hrefines, by decide +kernel⟩
  · have hf : parse .firstAddress shifted =
        .ok ⟨⟨7⟩, .application ⟨[], [], [⟨"YQ", .allA⟩], false⟩, shifted⟩ := by decide +kernel
    have herror : parse .strict shifted = .error ⟨shifted, .unpaired 1 1⟩ := by decide +kernel
    obtain ⟨entries, hentries, hcounts⟩ := (parse_strict_refines shifted).2.2 _ _ hf herror
    exact ⟨_, _, entries, hf, herror, hentries, hcounts⟩

/-- A URI that gives an address and wants none. -/
def unwanted : String :=
  "algorand://app/7?algorandaddress=" ++ Address.allA.text

theorem hasEntries_unwanted :
    HasEntries unwanted.toList [⟨addressParam, some Address.allA.text⟩] := by
  rw [hasEntries_iff]
  decide +kernel

theorem parse_strict_eq_unwanted :
    parse .strict unwanted = .ok ⟨⟨7⟩, .application ∅, unwanted⟩ := by
  decide +kernel

/-- Without a local key both pairings read the URI, and strict pairing loses its address. -/
theorem parse_strict_loses_address :
    ∃ q f s entries, parse .strict unwanted = .ok q ∧ parse .firstAddress unwanted = .ok f ∧
      q.request = .application s ∧ HasEntries unwanted.toList entries ∧
      valuesOf addressParam entries = [Address.allA.text] ∧
      (s.localReads.map fun l => l.address.text) ≠ valuesOf addressParam entries := by
  refine ⟨_, _, _, _, parse_strict_eq_unwanted,
    parse_firstAddress_of_strict parse_strict_eq_unwanted, rfl, hasEntries_unwanted, rfl, ?_⟩
  exact (List.cons_ne_nil _ _).symm

end Query

end LedgerUri
