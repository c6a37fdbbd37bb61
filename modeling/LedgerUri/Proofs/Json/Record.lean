import LedgerUri.Json.Ledger
import LedgerUri.Proofs.Uri.Collecting

/-!
# Records carried as JSON

Ledger records and requests survive being written as JSON: reading gives the very value back, so no
two values are written alike. What is read from any JSON value at all holds well-formed addresses
only, since each of them is a string of that value which passed the check.

* `Json.Faithful` — a way to write values and to read them back;
* `Address.SpelledBy` — an address and the JSON value that it was read from;
* `records_faithful` — both, for every type of record.
-/

namespace LedgerUri

namespace Json

variable {α : Type}

/-- Values are written so that they can be read back, and no two alike. -/
structure Faithful (write : α → Json) (read : Json → Option α) : Prop where
  /-- a value is read back -/
  read_write : ∀ value, read (write value) = some value
  /-- what is written tells values apart -/
  injective : Function.Injective write

/-- What is read back is told apart. -/
theorem Faithful.of_read_write {write : α → Json} {read : Json → Option α}
    (h : ∀ value, read (write value) = some value) : Faithful write read := by
  refine ⟨h, fun a b hab => ?_⟩
  have hread := h a
  rw [hab, h b] at hread
  exact (Option.some.inj hread).symm

/-! ## Parts of records -/

theorem required?_some (f : Json → Option α) (j : Json) : required? f (some j) = f j := rfl

theorem uint8?_nat (n : UInt8) : (nat n.toNat).uint8? = some n := by
  rw [uint8?, natBelow?, if_pos n.toNat_lt_size, Option.map_some, UInt8.ofNat_toNat]

theorem uint32?_nat (n : UInt32) : (nat n.toNat).uint32? = some n := by
  rw [uint32?, natBelow?, if_pos n.toNat_lt_size, Option.map_some, UInt32.ofNat_toNat]

theorem uint64?_nat (n : UInt64) : (nat n.toNat).uint64? = some n := by
  rw [uint64?, natBelow?, if_pos n.toNat_lt_size, Option.map_some, UInt64.ofNat_toNat]

/-- A list is read back when its items are. -/
theorem list?_of_read_write {write : α → Json} {read : Json → Option α}
    (h : ∀ value, read (write value) = some value) (values : List α) :
    (arr (values.map write)).list? read = some values :=
  list?_map fun value _ => h value

theorem bytes?_ofBytes (bytes : List UInt8) : (ofBytes bytes).bytes? = some bytes :=
  list?_of_read_write uint8?_nat bytes

/-- An optional part is read back, when none that is there is written like one that is not. -/
theorem optional?_ofOption (f : Json → Option α) (g : α → Json) (hread : ∀ a, f (g a) = some a)
    (hnull : ∀ a, g a ≠ null) (value : Option α) :
    optional? f (some (ofOption g value)) = some value := by
  cases value with
  | none => rfl
  | some a =>
    rw [ofOption, optional?, hread]
    · rfl
    · exact hnull a

theorem optional?_str (text : Option String) :
    optional? str? (some (ofOption str text)) = some text :=
  optional?_ofOption str? str (fun _ => rfl) nofun text

theorem optional?_bytes (bytes : Option (List UInt8)) :
    optional? bytes? (some (ofOption ofBytes bytes)) = some bytes :=
  optional?_ofOption bytes? ofBytes bytes?_ofBytes nofun bytes

end Json

/-! ## Records read back -/

theorem ResourceId.ofJson?_toJson (id : ResourceId) : ofJson? id.toJson = some id := by
  rw [ofJson?, toJson, toNat, Json.uint64?_nat]
  rfl

/-- An address is read from the string that is its text, and from nothing else. -/
theorem Address.ofJson?_eq_some_iff {j : Json} {a : Address} :
    ofJson? j = some a ↔ j = .str a.text := by
  rw [ofJson?]
  constructor
  · intro h
    rcases hread : fromJson j with reason | b
    · rw [hread] at h
      cases h
    · rw [hread] at h
      obtain rfl := Option.some.inj h
      cases j with
      | str text => rw [Address.parse_eq_ok_iff.1 (mapError_eq_ok_iff.1 hread)]
      | _ => cases hread
  · rintro rfl
    have hread : fromJson (.str a.text) = .ok a :=
      mapError_eq_ok_iff.2 (Address.parse_eq_ok_iff.2 rfl)
    rw [hread]
    rfl

theorem Address.ofJson?_toJson (a : Address) : ofJson? a.toJson = some a :=
  ofJson?_eq_some_iff.2 rfl

theorem StateValue.ofJson?_toJson (v : StateValue) : ofJson? v.toJson = some v := by
  cases v with
  | bytes value =>
    change (Json.ofBytes value).bytes?.map bytes = _
    rw [Json.bytes?_ofBytes, Option.map_some]
  | uint value =>
    change (Json.nat value.toNat).uint64?.map uint = _
    rw [Json.uint64?_nat, Option.map_some]

theorem StateCell.ofJson?_toJson (e : StateCell) : ofJson? e.toJson = some e := by
  have hmembers : e.toJson.members? ["key", "value"] =
      some [some (Json.ofBytes e.key), some e.value.toJson] := rfl
  rw [ofJson?, hmembers]
  simp [Json.required?, Json.bytes?_ofBytes, StateValue.ofJson?_toJson]

theorem ApplicationRecord.ofJson?_toJson (r : ApplicationRecord) : ofJson? r.toJson = some r := by
  have hmembers : r.toJson.members? ["id", "global_state", "approval_program", "clear_program"] =
      some [some r.id.toJson, some (.arr (r.globalState.map StateCell.toJson)),
        some (Json.ofBytes r.approvalProgram), some (Json.ofBytes r.clearProgram)] := rfl
  have hstate := Json.list?_of_read_write StateCell.ofJson?_toJson r.globalState
  rw [ofJson?, hmembers]
  simp [Json.required?, Json.bytes?_ofBytes, ResourceId.ofJson?_toJson, hstate]

theorem OptIn.ofJson?_toJson (s : OptIn) : ofJson? s.toJson = some s := by
  have hmembers : s.toJson.members? ["app_id", "key_value"] =
      some [some s.application.toJson, some (.arr (s.entries.map StateCell.toJson))] := rfl
  have hentries := Json.list?_of_read_write StateCell.ofJson?_toJson s.entries
  rw [ofJson?, hmembers]
  simp [Json.required?, ResourceId.ofJson?_toJson, hentries]

theorem AccountRecord.ofJson?_toJson (a : AccountRecord) : ofJson? a.toJson = some a := by
  have hmembers : a.toJson.members? ["address", "apps_local_state"] =
      some [some a.address.toJson, some (.arr (a.localStates.map OptIn.toJson))] := rfl
  have hstates := Json.list?_of_read_write OptIn.ofJson?_toJson a.localStates
  rw [ofJson?, hmembers]
  simp [Json.required?, Address.ofJson?_toJson, hstates]

theorem TokenRecord.ofJson?_toJson (t : TokenRecord) : ofJson? t.toJson = some t := by
  have hmembers : t.toJson.members? memberNames =
      some ([t.id.toJson, .nat t.total.toNat, .nat t.decimals.toNat, .bool t.defaultFrozen,
        Json.ofOption .str t.unitName, Json.ofOption .str t.name, Json.ofOption .str t.url,
        Json.ofOption Json.ofBytes t.metadataHash, Json.ofOption .str t.manager,
        Json.ofOption .str t.reserve, Json.ofOption .str t.freeze,
        Json.ofOption .str t.clawback].map some) := rfl
  rw [ofJson?, hmembers, Option.bind_eq_bind, Option.bind_some]
  -- only the parts: with the chain between them, each part would be visited twice as often as the
  -- one in front of it
  simp only [List.map_cons, List.map_nil, Json.required?_some, ResourceId.ofJson?_toJson,
    Json.uint64?_nat, Json.uint32?_nat, Json.optional?_str, Json.optional?_bytes]
  rfl

theorem LocalRequest.ofJson?_toJson (l : LocalRequest) : ofJson? l.toJson = some l := by
  have hmembers : l.toJson.members? ["key", "address"] =
      some [some (.str l.key), some l.address.toJson] := rfl
  rw [ofJson?, hmembers]
  simp [Json.required?, Json.str?, Address.ofJson?_toJson]

theorem ApplicationRequest.ofJson?_toJson (r : ApplicationRequest) : ofJson? r.toJson = some r := by
  have hmembers : r.toJson.members? ["boxes", "global", "local", "program_code"] =
      some [some (.arr (r.boxKeys.map .str)), some (.arr (r.globalKeys.map .str)),
        some (.arr (r.localReads.map LocalRequest.toJson)), some (.bool r.programs)] := rfl
  have hkey : ∀ key : String, (Json.str key).str? = some key := fun _ => rfl
  have hkeys := Json.list?_of_read_write hkey
  have hlocals := Json.list?_of_read_write LocalRequest.ofJson?_toJson r.localReads
  rw [ofJson?, hmembers]
  simp [Json.required?, Json.bool?, hkeys, hlocals]

/-! ## Addresses in records -/

/-- An address that the check accepts. -/
structure Address.Sound (a : Address) : Prop where
  /-- it has 58 characters, all of them upper-case letters or digits from `2` to `7` -/
  shape : Uri.AddressText a.text
  /-- it is read from its own text -/
  accepted : parse a.text = .ok a

/-- The JSON value is the text of the address, and the check accepts it. -/
structure Address.SpelledBy (a : Address) (j : Json) : Prop extends a.Sound where
  /-- the value is a string -/
  eq : j = .str a.text

/-- The member for the address of a request for local state spells the request's address. -/
def LocalRequest.SpelledIn (l : LocalRequest) (j : Json) : Prop :=
  ∃ key address, j.members? ["key", "address"] = some [key, some address] ∧
    l.address.SpelledBy address

/-- The members of the list of an application request spell its addresses, one by one. -/
def ApplicationRequest.SpelledIn (r : ApplicationRequest) (j : Json) : Prop :=
  ∃ boxes global items programs,
    j.members? ["boxes", "global", "local", "program_code"] =
      some [boxes, global, some (.arr items), programs] ∧
    List.Forall₂ LocalRequest.SpelledIn r.localReads items

/-- The member for the address of an account spells the account's address. -/
def AccountRecord.SpelledIn (a : AccountRecord) (j : Json) : Prop :=
  ∃ address states, j.members? ["address", "apps_local_state"] = some [some address, states] ∧
    a.address.SpelledBy address

/-- The URI that the JSON value is has the addresses of a query among its parameters. -/
def Query.SpelledIn (q : Query) (j : Json) : Prop :=
  ∃ uri entries, j = .str uri ∧ Uri.HasEntries uri.toList entries ∧
    ∀ r, q.request = .application r → ∀ l ∈ r.localReads,
      l.address.text ∈ Uri.valuesOf Uri.addressParam entries ∧ l.address.Sound

theorem Address.sound (a : Address) : a.Sound :=
  ⟨Uri.exists_address_iff.1 ⟨a, rfl⟩, parse_eq_ok_iff.2 rfl⟩

theorem Address.spelledBy_of_ofJson? {j : Json} {a : Address} (h : ofJson? j = some a) :
    a.SpelledBy j :=
  ⟨a.sound, ofJson?_eq_some_iff.1 h⟩

theorem Json.required?_eq_some_iff {α : Type} {f : Json → Option α} {member : Option Json} {a : α} :
    required? f member = some a ↔ ∃ j, member = some j ∧ f j = some a :=
  Option.bind_eq_some_iff

theorem LocalRequest.spelledIn_of_ofJson? {j : Json} {l : LocalRequest} (h : ofJson? j = some l) :
    l.SpelledIn j := by
  obtain ⟨members, hmembers, h⟩ := Option.bind_eq_some_iff.1 h
  split at h
  · next key address =>
    obtain ⟨k, hkey, h⟩ := Option.bind_eq_some_iff.1 h
    obtain ⟨a, haddress, h⟩ := Option.bind_eq_some_iff.1 h
    cases h
    obtain ⟨j', rfl, hj'⟩ := Json.required?_eq_some_iff.1 haddress
    exact ⟨key, j', hmembers, Address.spelledBy_of_ofJson? hj'⟩
  · cases h

/-- A list is read from an array, item by item. -/
theorem Json.forall₂_of_list? {α : Type} {f : Json → Option α} {j : Json} {xs : List α}
    (h : j.list? f = some xs) :
    ∃ items, j = .arr items ∧ List.Forall₂ (fun x item => f item = some x) xs items := by
  cases j with
  | arr items =>
    refine ⟨items, rfl, ?_⟩
    rw [Json.list?] at h
    induction items generalizing xs with
    | nil =>
      obtain rfl := Option.some.inj h
      exact .nil
    | cons item items ih =>
      rw [List.mapM_cons] at h
      obtain ⟨x, hx, h⟩ := Option.bind_eq_some_iff.1 h
      obtain ⟨xs, hxs, h⟩ := Option.bind_eq_some_iff.1 h
      obtain rfl := Option.some.inj h
      exact .cons hx (ih hxs)
  | _ => cases h

theorem ApplicationRequest.spelledIn_of_ofJson? {j : Json} {r : ApplicationRequest}
    (h : ofJson? j = some r) : r.SpelledIn j := by
  obtain ⟨members, hmembers, h⟩ := Option.bind_eq_some_iff.1 h
  split at h
  · next boxes global locals programs =>
    obtain ⟨_, -, h⟩ := Option.bind_eq_some_iff.1 h
    obtain ⟨_, -, h⟩ := Option.bind_eq_some_iff.1 h
    obtain ⟨reads, hreads, h⟩ := Option.bind_eq_some_iff.1 h
    obtain ⟨_, -, h⟩ := Option.bind_eq_some_iff.1 h
    cases h
    obtain ⟨j', rfl, hj'⟩ := Json.required?_eq_some_iff.1 hreads
    obtain ⟨items, rfl, hitems⟩ := Json.forall₂_of_list? hj'
    refine ⟨boxes, global, items, programs, hmembers, hitems.imp ?_⟩
    exact fun l item => LocalRequest.spelledIn_of_ofJson?
  · cases h

theorem AccountRecord.spelledIn_of_ofJson? {j : Json} {a : AccountRecord}
    (h : ofJson? j = some a) : a.SpelledIn j := by
  obtain ⟨members, hmembers, h⟩ := Option.bind_eq_some_iff.1 h
  split at h
  · next address states =>
    obtain ⟨_, haddress, h⟩ := Option.bind_eq_some_iff.1 h
    obtain ⟨_, -, h⟩ := Option.bind_eq_some_iff.1 h
    cases h
    obtain ⟨j', rfl, hj'⟩ := Json.required?_eq_some_iff.1 haddress
    exact ⟨j', states, hmembers, Address.spelledBy_of_ofJson? hj'⟩
  · cases h

theorem Query.spelledIn_of_fromJson {j : Json} {q : Query} (h : fromJson j = .ok q) :
    q.SpelledIn j := by
  cases j with
  | str uri =>
    obtain ⟨hread, -⟩ := Query.parse_eq_ok_iff.1 (mapError_eq_ok_iff.1 h)
    obtain ⟨-, kind, rest, entries, -, -, hentries, hrequest⟩ := Uri.read_eq_ok_iff.1 hread
    refine ⟨uri, entries, rfl, Uri.hasEntries_iff.2 hentries, fun r hr l hl => ?_⟩
    refine ⟨?_, l.address.sound⟩
    rw [hr] at hrequest
    cases kind with
    | application =>
      obtain ⟨found, hfound, hsame⟩ := map_eq_ok_iff.1 hrequest
      obtain rfl := Request.application.inj hsame
      obtain ⟨-, -, hchooses⟩ := Uri.readApplication_eq_ok_iff_collects.1 hfound
      exact List.mem_of_mem_head? (hchooses l hl)
    | token => cases hrequest
  | _ => cases h

/-! ## All of it -/

/-- **Records survive as JSON, and addresses in them are always well formed.** Every ledger record
and every request is read back from what is written for it, and is told apart by that from every
other. And from whatever JSON value an address, a request for local state, an application request,
an account or a query is read, each address in it stands in its own place in that value, is made of
58 letters and digits, and is accepted as an address. -/
theorem records_faithful :
    (Json.Faithful StateValue.toJson StateValue.ofJson? ∧
      Json.Faithful StateCell.toJson StateCell.ofJson? ∧
      Json.Faithful ApplicationRecord.toJson ApplicationRecord.ofJson? ∧
      Json.Faithful OptIn.toJson OptIn.ofJson? ∧
      Json.Faithful AccountRecord.toJson AccountRecord.ofJson? ∧
      Json.Faithful TokenRecord.toJson TokenRecord.ofJson? ∧
      Json.Faithful LocalRequest.toJson LocalRequest.ofJson? ∧
      Json.Faithful ApplicationRequest.toJson ApplicationRequest.ofJson?) ∧
    ∀ j : Json,
      (∀ a, Address.ofJson? j = some a → a.SpelledBy j) ∧
      (∀ l, LocalRequest.ofJson? j = some l → l.SpelledIn j) ∧
      (∀ r, ApplicationRequest.ofJson? j = some r → r.SpelledIn j) ∧
      (∀ a, AccountRecord.ofJson? j = some a → a.SpelledIn j) ∧
      ∀ q, Query.fromJson j = .ok q → q.SpelledIn j := by
  refine ⟨⟨?_, ?_, ?_, ?_, ?_, ?_, ?_, ?_⟩, fun j => ?_⟩
  · exact .of_read_write StateValue.ofJson?_toJson
  · exact .of_read_write StateCell.ofJson?_toJson
  · exact .of_read_write ApplicationRecord.ofJson?_toJson
  · exact .of_read_write OptIn.ofJson?_toJson
  · exact .of_read_write AccountRecord.ofJson?_toJson
  · exact .of_read_write TokenRecord.ofJson?_toJson
  · exact .of_read_write LocalRequest.ofJson?_toJson
  · exact .of_read_write ApplicationRequest.ofJson?_toJson
  · exact ⟨fun a => Address.spelledBy_of_ofJson?, fun l => LocalRequest.spelledIn_of_ofJson?,
      fun r => ApplicationRequest.spelledIn_of_ofJson?, fun a => AccountRecord.spelledIn_of_ofJson?,
      fun q => Query.spelledIn_of_fromJson⟩

/-- An account with state under the greatest id. -/
def fullAccount : AccountRecord :=
  ⟨.allA, [⟨⟨18446744073709551615⟩, [⟨[0, 255], .uint 18446744073709551615⟩, ⟨[], .bytes []⟩]⟩]⟩

/-- Numbers of 64 bits come back whole. An account may also be given as an array, and then its first
item spells the address; a string that is no address leaves nothing to read. -/
theorem records_faithful_fullAccount :
    AccountRecord.ofJson? fullAccount.toJson = some fullAccount ∧
    AccountRecord.ofJson? (.arr [.str Address.allA.text, .arr []]) = some ⟨.allA, []⟩ ∧
    AccountRecord.SpelledIn ⟨.allA, []⟩ (.arr [.str Address.allA.text, .arr []]) ∧
    ∀ l, LocalRequest.ofJson? (.arr [.str "YQ", .str "A"]) ≠ some l := by
  obtain ⟨⟨-, -, -, -, haccount, -⟩, hspelled⟩ := records_faithful
  have harray : AccountRecord.ofJson? (.arr [.str Address.allA.text, .arr []]) =
      some ⟨.allA, []⟩ := by
    have haddress : Address.ofJson? (.str Address.allA.text) = some .allA :=
      Address.allA.ofJson?_toJson
    simp [AccountRecord.ofJson?, Json.members?, Json.required?, Json.list?, haddress]
  refine ⟨haccount.read_write fullAccount, harray, (hspelled _).2.2.2.1 _ harray, ?_⟩
  intro l h
  obtain ⟨key, address, hmembers, hspells⟩ := (hspelled _).2.1 l h
  obtain ⟨-, rfl⟩ : some (Json.str "YQ") = key ∧ Json.str "A" = address := by
    simpa [Json.members?] using hmembers
  have hlength := hspells.shape.length
  rw [← Json.str.inj hspells.eq] at hlength
  cases hlength

end LedgerUri
