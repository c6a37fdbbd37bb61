import LedgerUri.Proofs.Outcome
import LedgerUri.Uri.Query

/-!
# Reading in steps

Reading succeeds exactly when each of its steps does. These inversions say which steps there are
and what is handed on, so that nothing else has to look inside the readers.

* `readApplication_eq_ok_iff` — the steps of reading what is asked of an application;
* `read_eq_ok_iff` — the steps of reading a URI;
* `Query.parse_eq_ok_iff` — the query that is made of them.
-/

namespace LedgerUri

namespace Uri

variable {pairing : Pairing}

theorem readApplication_eq_ok_iff {entries : List Entry} {r : ApplicationRequest} :
    readApplication pairing entries = .ok r ↔
      readKeys .boxKey entries = .ok r.boxKeys ∧ readKeys .globalKey entries = .ok r.globalKeys ∧
        (∃ keys addresses, readKeys .localKey entries = .ok keys ∧
          readAddresses entries = .ok addresses ∧
          pairLocals pairing entries keys addresses = .ok r.localReads) ∧
        r.programs = mentions programParam entries := by
  refine ⟨fun h => ?_, ?_⟩
  · obtain ⟨boxKeys, hbox, h₁⟩ := bind_eq_ok_iff.1 h
    obtain ⟨globalKeys, hglobal, h₂⟩ := bind_eq_ok_iff.1 h₁
    obtain ⟨keys, hkeys, h₃⟩ := bind_eq_ok_iff.1 h₂
    obtain ⟨addresses, haddresses, h₄⟩ := bind_eq_ok_iff.1 h₃
    obtain ⟨locals, hlocals, h₅⟩ := bind_eq_ok_iff.1 h₄
    obtain rfl := Except.ok.inj h₅
    exact ⟨hbox, hglobal, ⟨keys, addresses, hkeys, haddresses, hlocals⟩, rfl⟩
  · obtain ⟨boxKeys, globalKeys, locals, programs⟩ := r
    rintro ⟨hbox, hglobal, ⟨keys, addresses, hkeys, haddresses, hlocals⟩, rfl⟩
    refine bind_eq_ok_iff.2 ⟨boxKeys, hbox, bind_eq_ok_iff.2 ⟨globalKeys, hglobal, ?_⟩⟩
    refine bind_eq_ok_iff.2 ⟨keys, hkeys, bind_eq_ok_iff.2 ⟨addresses, haddresses, ?_⟩⟩
    exact bind_eq_ok_iff.2 ⟨locals, hlocals, rfl⟩

/-- A URI is read when it has the scheme, a resource with an id, entries, and a request in them. -/
theorem read_eq_ok_iff {uri : List Char} {id : ResourceId} {request : Request} :
    read pairing uri = .ok (id, request) ↔
      (∃ rest, Text.after? schemeStart.toList uri = some rest) ∧
        ∃ kind rest entries, resource? uri = some (kind, rest) ∧ leadingId rest = .ok id ∧
          readEntries (queryPart uri) = .ok entries ∧
          readRequest kind pairing entries = .ok request := by
  refine ⟨fun h => ?_, ?_⟩
  · rw [read] at h
    split at h
    · cases h
    · split at h
      · cases h
      · next hscheme =>
        split at h
        · cases h
        · next kind rest hresource =>
          obtain ⟨id', hid, h₁⟩ := bind_eq_ok_iff.1 h
          obtain ⟨entries, hentries, h₂⟩ := bind_eq_ok_iff.1 h₁
          obtain ⟨request', hrequest, h₃⟩ := bind_eq_ok_iff.1 h₂
          cases h₃
          refine ⟨?_, kind, rest, entries, hresource, hid, hentries, hrequest⟩
          rw [Option.isNone_iff_eq_none] at hscheme
          exact Option.ne_none_iff_exists'.1 hscheme
  · rintro ⟨⟨_, hscheme⟩, kind, rest, entries, hresource, hid, hentries, hrequest⟩
    have hne : uri.isEmpty = false := by
      rcases uri with _ | ⟨c, cs⟩
      · cases hscheme
      · rfl
    rw [read, hne, hscheme, hresource]
    refine bind_eq_ok_iff.2 ⟨id, hid, bind_eq_ok_iff.2 ⟨entries, hentries, ?_⟩⟩
    exact bind_eq_ok_iff.2 ⟨request, hrequest, rfl⟩

end Uri

/-- A query is what was read, with the text that it was read from. -/
theorem Query.parse_eq_ok_iff {pairing : Pairing} {text : String} {q : Query} :
    Query.parse pairing text = .ok q ↔
      Uri.read pairing text.toList = .ok (q.id, q.request) ∧ q.text = text := by
  rw [Query.parse]
  refine ⟨fun h => ?_, ?_⟩
  · split at h
    · next hread =>
      cases h
      exact ⟨hread, rfl⟩
    · cases h
  · rintro ⟨hread, rfl⟩
    rw [hread]

end LedgerUri
