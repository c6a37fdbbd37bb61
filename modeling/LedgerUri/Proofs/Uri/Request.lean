import LedgerUri.Proofs.Uri.Collecting
import LedgerUri.Proofs.Uri.Grammar

/-!
# What entries ask for

`Asks entries r` says that a request collects the values of the entries, name by name, each local
key with the address at the same place. Accepted entries ask for a request, and both ways of pairing
read it: strict pairing as it is, first-address pairing with every key at the first address.

* `exists_asks`, `exists_asksRequest` — accepted entries ask for something;
* `readApplication_strict` — strict pairing reads it;
* `readRequest_atFirst` — first-address pairing reads whatever strict pairing does;
* `readRequest_of_asksRequest` — both readings of a request of either kind;
* `Asks.adjacentPairs_eq` — its local reads are the neighbouring local and address values.
-/

namespace LedgerUri

/-- The same keys, all read from the address of the first. -/
def LocalRequest.atFirst : List LocalRequest → List LocalRequest
  | [] => []
  | first :: rest => (first :: rest).map fun l => ⟨l.key, first.address⟩

/-- The same request with every local key read from the first address. -/
def ApplicationRequest.atFirst (r : ApplicationRequest) : ApplicationRequest :=
  { r with localReads := LocalRequest.atFirst r.localReads }

/-- The same request with every local key, if there are any, read from the first address. -/
def Request.atFirst : Request → Request
  | .application r => .application r.atFirst
  | .token fields => .token fields

/-- Two application requests that ask for the same keys, whichever addresses the local ones are read
from. -/
structure ApplicationRequest.SameKeys (r s : ApplicationRequest) : Prop where
  /-- the same boxes -/
  boxKeys : r.boxKeys = s.boxKeys
  /-- the same global state -/
  globalKeys : r.globalKeys = s.globalKeys
  /-- the same keys of local state -/
  localKeys : r.localReads.map LocalRequest.key = s.localReads.map LocalRequest.key
  /-- the programs, or not -/
  programs : r.programs = s.programs

theorem LocalRequest.map_key_atFirst (locals : List LocalRequest) :
    (atFirst locals).map key = locals.map key := by
  rcases locals with _ | ⟨l, ls⟩
  · rfl
  · simp [atFirst]

theorem LocalRequest.address_of_mem_atFirst {locals : List LocalRequest} {l first : LocalRequest}
    (hl : l ∈ atFirst locals) (hfirst : first ∈ locals.head?) : l.address = first.address := by
  rcases locals with _ | ⟨m, ms⟩
  · cases hfirst
  · obtain rfl := Option.some.inj hfirst
    obtain ⟨k, -, rfl⟩ := List.mem_map.1 hl
    rfl

/-- Reading from the first address asks for the same keys. -/
theorem ApplicationRequest.sameKeys_atFirst (r : ApplicationRequest) : r.atFirst.SameKeys r :=
  ⟨rfl, rfl, LocalRequest.map_key_atFirst r.localReads, rfl⟩

theorem Request.kind_atFirst (request : Request) : request.atFirst.kind = request.kind := by
  cases request <;> rfl

namespace Uri

open Grammar

/-- The request collects the values of the entries, name by name and in order. -/
structure Asks (entries : List Entry) (r : ApplicationRequest) : Prop where
  /-- box keys are the values of box entries -/
  boxKeys : r.boxKeys = valuesOf KeyParam.boxKey.name entries
  /-- keys of global state are the values of global entries -/
  globalKeys : r.globalKeys = valuesOf KeyParam.globalKey.name entries
  /-- local keys are the values of local entries -/
  localKeys : r.localReads.map LocalRequest.key = valuesOf KeyParam.localKey.name entries
  /-- the n-th local key goes with the n-th address -/
  addresses : (r.localReads.map fun l => l.address.text) = valuesOf addressParam entries
  /-- programs are wanted when there is an entry for them -/
  programs : r.programs = mentions programParam entries

/-- In a paired query the local reads are the neighbouring local and address values. -/
theorem Asks.adjacentPairs_eq {entries : List Entry} {r : ApplicationRequest}
    (h : Asks entries r) (hpaired : Paired entries) :
    adjacentPairs entries = r.localReads.map fun l => (l.key, l.address.text) := by
  rw [adjacentPairs_of_paired hpaired, ← h.localKeys, ← h.addresses, List.zip_map']

/-- Accepted entries ask for something. -/
theorem exists_asks {entries : List Entry} (h : Accepted entries) :
    ∃ r : ApplicationRequest, Asks entries r := by
  have htexts : ∀ v ∈ valuesOf addressParam entries, ∃ a : Address, v = a.text := by
    intro v hv
    obtain ⟨e, he, hname, rfl⟩ := mem_valuesOf.1 hv
    exact (h.own e he).exists_address hname
  obtain ⟨addresses, haddresses⟩ := exists_map_text_eq htexts
  have hlength : (valuesOf KeyParam.localKey.name entries).length = addresses.length := by
    rw [length_valuesOf_of_paired h.paired, ← haddresses, List.length_map]
  -- there are as many keys as addresses, so pairing them loses neither
  obtain ⟨locals, hkeys, hlocals⟩ := exists_locals hlength
  refine ⟨⟨_, _, locals, _⟩, rfl, rfl, hkeys, ?_, rfl⟩
  rw [← haddresses, ← hlocals, List.map_map]
  rfl

/-! ## Reading what is asked -/

theorem keysOf_of_accepted {entries : List Entry} (h : Accepted entries) (p : KeyParam) :
    keysOf p entries = valuesOf p.name entries := by
  have hkeys : ∀ value ∈ valuesOf p.name entries, unpadded value = id value := by
    intro value hvalue
    obtain ⟨e, he, hname, rfl⟩ := mem_valuesOf.1 hvalue
    exact unpadded_of_isKey ((h.own e he).isKey hname)
  rw [keysOf, List.map_congr_left hkeys, List.map_id]

/-- Entries that the grammar accepts can be used. -/
theorem usable_of_accepted {entries : List Entry} (h : Accepted entries) : Usable entries := by
  refine ⟨fun p e he hname => ?_, fun e he hname => ?_, fun hlocal => ?_⟩
  · have hkey := (h.own e he).isKey hname
    rw [unpadded_of_isKey hkey]
    exact isKey_iff.1 hkey
  · exact exists_address_iff.1 ((h.own e he).exists_address hname)
  · have hlength := length_valuesOf_of_paired h.paired
    rw [← valuesOf_ne_nil_iff, ← List.length_pos_iff] at hlocal ⊢
    rwa [← hlength]

theorem collects_of_asks {entries : List Entry} {r : ApplicationRequest}
    (haccepted : Accepted entries) (h : Asks entries r) : Collects entries r := by
  have hkeys := keysOf_of_accepted haccepted
  exact ⟨h.boxKeys.trans (hkeys _).symm, h.globalKeys.trans (hkeys _).symm,
    h.localKeys.trans (hkeys _).symm, h.programs⟩

/-- Strict pairing reads what accepted entries ask for. -/
theorem readApplication_strict {entries : List Entry} {r : ApplicationRequest}
    (haccepted : Accepted entries) (h : Asks entries r) :
    readApplication .strict entries = .ok r :=
  readApplication_eq_ok_iff_collects.2 ⟨usable_of_accepted haccepted,
    collects_of_asks haccepted h, fun _ => ⟨haccepted.paired, h.addresses⟩⟩

/-! ## From the first address -/

theorem Collects.atFirst {entries : List Entry} {r : ApplicationRequest}
    (h : Collects entries r) : Collects entries r.atFirst :=
  ⟨h.boxKeys, h.globalKeys, (LocalRequest.map_key_atFirst _).trans h.localKeys, h.programs⟩

/-- The first address that strict pairing chooses is the one of first-address pairing. -/
theorem Chooses.atFirst {entries : List Entry} {locals : List LocalRequest}
    (h : Chooses .strict entries locals) :
    Chooses .firstAddress entries (LocalRequest.atFirst locals) := by
  rcases locals with _ | ⟨first, rest⟩
  · exact fun l hl => absurd hl List.not_mem_nil
  · obtain ⟨-, htexts⟩ := h (List.cons_ne_nil first rest)
    intro l hl
    rw [← htexts, LocalRequest.address_of_mem_atFirst hl rfl]
    rfl

/-- What strict pairing reads, first-address pairing reads too, with every local key at the first
address. -/
theorem readRequest_atFirst {kind : ResourceKind} {entries : List Entry} {request : Request}
    (h : readRequest kind .strict entries = .ok request) :
    readRequest kind .firstAddress entries = .ok request.atFirst := by
  cases kind with
  | application =>
    obtain ⟨r, hr, rfl⟩ := map_eq_ok_iff.1 h
    obtain ⟨husable, hcollects, hchooses⟩ := readApplication_eq_ok_iff_collects.1 hr
    exact map_eq_ok_iff.2 ⟨r.atFirst,
      readApplication_eq_ok_iff_collects.2 ⟨husable, hcollects.atFirst, hchooses.atFirst⟩, rfl⟩
  | token =>
    obtain rfl := Except.ok.inj h
    exact h

/-! ## Requests of either kind -/

/-- The request is what the entries ask of a resource of its kind. -/
def AsksRequest (entries : List Entry) : Request → Prop
  | .application r => Asks entries r
  | .token fields => fields = readToken entries

theorem exists_asksRequest {kind : ResourceKind} {entries : List Entry}
    (h : checkEntries kind entries = .ok ()) :
    ∃ request : Request, request.kind = kind ∧ AsksRequest entries request := by
  cases kind with
  | application =>
    obtain ⟨r, hr⟩ := exists_asks (checkApplication_eq_ok_iff.1 h)
    exact ⟨.application r, rfl, hr⟩
  | token => exact ⟨.token (readToken entries), rfl, rfl⟩

/-- Both pairings read what the entries of an accepted query ask for. -/
theorem readRequest_of_asksRequest {entries : List Entry} {request : Request}
    (hcheck : checkEntries request.kind entries = .ok ()) (h : AsksRequest entries request) :
    readRequest request.kind .strict entries = .ok request ∧
      readRequest request.kind .firstAddress entries = .ok request.atFirst := by
  have hstrict : readRequest request.kind .strict entries = .ok request := by
    cases request with
    | application r =>
      have haccepted := checkApplication_eq_ok_iff.1 hcheck
      exact map_eq_ok_iff.2 ⟨r, readApplication_strict haccepted h, rfl⟩
    | token fields =>
      have hfields : fields = readToken entries := h
      rw [hfields]
      rfl
  exact ⟨hstrict, readRequest_atFirst hstrict⟩

end Uri

end LedgerUri
