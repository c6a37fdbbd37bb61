import LedgerUri.Proofs.Token.FieldSet
import LedgerUri.Proofs.Uri.Refinement
import LedgerUri.Uri.Writing

/-!
# Written requests

A request is *writable* when its keys are keys. The entries that it is written with are plain, pass
the grammar, and ask for the request again; the URI around them is located. Everything that is true
of written URIs follows from these facts.

* `buildApplication_eq_ok_iff` — a URI is built exactly of writable requests;
* `plain_of_mem_entries`, `checkEntries_entries`, `asksRequest_entries` — the entries;
* `located_write` — the URI.
-/

namespace LedgerUri

/-- A request whose keys are keys. -/
structure ApplicationRequest.Writable (r : ApplicationRequest) : Prop where
  /-- box keys are keys -/
  boxKeys : ∀ key ∈ r.boxKeys, Uri.IsKey key
  /-- keys of global state are keys -/
  globalKeys : ∀ key ∈ r.globalKeys, Uri.IsKey key
  /-- local keys are keys -/
  localKeys : ∀ l ∈ r.localReads, Uri.IsKey l.key

/-- Requests that can be written. Every set of fields can. -/
def Request.Writable : Request → Prop
  | .application r => r.Writable
  | .token _ => True

/-- The entries that a request is written with. -/
def Request.entries : Request → List Uri.Entry
  | .application r => Uri.applicationEntries r
  | .token fields => Uri.tokenEntries fields

namespace Uri

open Grammar

/-! ## Building -/

/-- Checking keys is checking one after the other. -/
theorem checkKeys_eq_forM (uri : String) (p : KeyParam) (keys : List String) :
    checkKeys uri p keys = forM keys (checkKey uri p) := by
  induction keys with
  | nil => rfl
  | cons key keys ih => rw [checkKeys, List.forM_cons, ih]

theorem checkKeys_eq_ok_iff {uri : String} {p : KeyParam} {keys : List String} :
    checkKeys uri p keys = .ok () ↔ ∀ key ∈ keys, IsKey key := by
  rw [checkKeys_eq_forM, forM_eq_ok_iff]
  exact forall₂_congr fun key _ => mapError_eq_ok_iff

/-- A URI is built of a good id and a writable request, and is what is written of them. -/
theorem buildApplication_eq_ok_iff {source : IdSource} {r : ApplicationRequest} {u : String} :
    buildApplication source r = .ok u ↔
      ∃ id, source.resolve = .ok id ∧ r.Writable ∧
        u = write .application id (Request.application r).entries := by
  refine ⟨fun h => ?_, ?_⟩
  · obtain ⟨id, hid, h₁⟩ := bind_eq_ok_iff.1 h
    obtain ⟨_, hbox, h₂⟩ := bind_eq_ok_iff.1 h₁
    obtain ⟨_, hglobal, h₃⟩ := bind_eq_ok_iff.1 h₂
    obtain ⟨_, hlocal, h₄⟩ := bind_eq_ok_iff.1 h₃
    refine ⟨id, hid, ⟨checkKeys_eq_ok_iff.1 hbox, checkKeys_eq_ok_iff.1 hglobal, ?_⟩,
      (Except.ok.inj h₄).symm⟩
    exact fun l hl => checkKeys_eq_ok_iff.1 hlocal _ (List.mem_map_of_mem hl)
  · rintro ⟨id, hid, hwritable, rfl⟩
    refine bind_eq_ok_iff.2 ⟨id, hid, bind_eq_ok_iff.2 ⟨(), ?_, bind_eq_ok_iff.2 ⟨(), ?_,
      bind_eq_ok_iff.2 ⟨(), ?_, rfl⟩⟩⟩⟩
    · exact checkKeys_eq_ok_iff.2 hwritable.boxKeys
    · exact checkKeys_eq_ok_iff.2 hwritable.globalKeys
    · exact checkKeys_eq_ok_iff.2 (List.forall_mem_map.2 hwritable.localKeys)

/-! ## Written entries are plain -/

/-- What holds of every key, of every address and of the request for programs holds of all entries
that an application request is written with. -/
theorem forall_mem_applicationEntries {P : Entry → Prop} {r : ApplicationRequest} (h : r.Writable)
    (hkey : ∀ p key, IsKey key → P (keyEntry p key))
    (haddress : ∀ a : Address, P ⟨addressParam, some a.text⟩) (hprograms : P ⟨programParam, none⟩) :
    ∀ e ∈ applicationEntries r, P e := by
  intro e he
  simp only [applicationEntries, List.mem_append, List.mem_map, List.mem_flatMap] at he
  rcases he with ((⟨key, hmem, rfl⟩ | ⟨key, hmem, rfl⟩) | ⟨l, hmem, he⟩) | he
  · exact hkey .boxKey key (h.boxKeys key hmem)
  · exact hkey .globalKey key (h.globalKeys key hmem)
  · rcases List.mem_pair.1 he with rfl | rfl
    · exact hkey .localKey l.key (h.localKeys l hmem)
    · exact haddress l.address
  · split at he
    · obtain rfl := List.mem_singleton.1 he
      exact hprograms
    · cases he

theorem plain_valueEntry {name value : String} (hne : name.toList ≠ []) (hname : Plain name)
    (hvalue : Plain value) : (Entry.mk name (some value)).Plain := by
  refine ⟨hne, hname, ?_⟩
  intro v hv
  obtain rfl := Option.some.inj hv
  exact hvalue

theorem plain_keyEntry {p : KeyParam} {key : String} (h : IsKey key) : (keyEntry p key).Plain :=
  plain_valueEntry (by cases p <;> decide) (by cases p <;> decide) h.plain

theorem plain_addressEntry (a : Address) : (Entry.mk addressParam (some a.text)).Plain :=
  plain_valueEntry (by decide) (by decide) (plain_address a)

theorem plain_bareEntry {name : String} (hne : name.toList ≠ []) (h : Plain name) :
    (Entry.mk name none).Plain :=
  ⟨hne, h, fun v hv => by cases hv⟩

theorem plain_of_mem_entries {request : Request} (h : request.Writable) :
    ∀ e ∈ request.entries, e.Plain := by
  cases request with
  | application r =>
    exact forall_mem_applicationEntries h (fun _ _ hkey => plain_keyEntry hkey) plain_addressEntry
      (plain_bareEntry (by decide) (by decide))
  | token fields =>
    intro e he
    obtain ⟨f, -, rfl⟩ := List.mem_map.1 he
    exact plain_bareEntry (by cases f <;> decide) (by cases f <;> decide)

/-! ## Written entries pass the grammar -/

theorem ownRule_of_mem_applicationEntries {r : ApplicationRequest} (h : r.Writable) :
    ∀ e ∈ applicationEntries r, OwnRule e :=
  forall_mem_applicationEntries h (fun p _ hkey => .key p rfl hkey) (fun a => .address rfl a rfl)
    (.programs rfl rfl)

theorem paired_map_keyEntry {p : KeyParam} (hp : p ≠ .localKey) (keys : List String) :
    Paired (keys.map (keyEntry p)) := by
  refine .of_forall fun e he => ?_
  obtain ⟨key, -, rfl⟩ := List.mem_map.1 he
  exact ⟨fun hname => hp (KeyParam.name_inj.1 hname), p.name_ne_addressParam⟩

theorem paired_flatMap_localEntries (locals : List LocalRequest) :
    Paired (locals.flatMap localEntries) := by
  induction locals with
  | nil => exact .nil
  | cons l ls ih => exact .pair rfl rfl ih

theorem paired_applicationEntries (r : ApplicationRequest) : Paired (applicationEntries r) := by
  have hprograms : Paired (if r.programs then [⟨programParam, none⟩] else []) := by
    split
    · exact .other (by decide) (by decide) .nil
    · exact .nil
  exact (((paired_map_keyEntry (by decide) _).append (paired_map_keyEntry (by decide) _)).append
    (paired_flatMap_localEntries _)).append hprograms

/-- Written entries pass the grammar. -/
theorem checkEntries_entries {request : Request} (h : request.Writable) :
    checkEntries request.kind request.entries = .ok () := by
  cases request with
  | application r =>
    exact checkApplication_eq_ok_iff.2
      ⟨ownRule_of_mem_applicationEntries h, paired_applicationEntries r⟩
  | token fields =>
    refine checkToken_eq_ok_iff.2 fun e he => ?_
    obtain ⟨f, -, rfl⟩ := List.mem_map.1 he
    exact ⟨⟨f, rfl⟩, rfl⟩

/-! ## Written entries ask for the request -/

theorem valuesOf_map_keyEntry (p : KeyParam) (keys : List String) :
    valuesOf p.name (keys.map (keyEntry p)) = keys := by
  induction keys with
  | nil => rfl
  | cons key keys ih =>
    have hname : (keyEntry p key).name = p.name := rfl
    rw [List.map_cons, valuesOf_cons_of_eq hname, ih]
    rfl

theorem valuesOf_eq_nil {name : String} {entries : List Entry} (h : ∀ e ∈ entries, e.name ≠ name) :
    valuesOf name entries = [] := by
  rw [valuesOf, List.filter_eq_nil_iff.2, List.map_nil]
  exact fun e he hname => h e he (of_decide_eq_true hname)

theorem valuesOf_map_keyEntry_of_ne {name : String} {p : KeyParam} (h : p.name ≠ name)
    (keys : List String) : valuesOf name (keys.map (keyEntry p)) = [] := by
  refine valuesOf_eq_nil fun e he => ?_
  obtain ⟨key, -, rfl⟩ := List.mem_map.1 he
  exact h

theorem valuesOf_flatMap_localEntries_of_ne {name : String}
    (hlocal : KeyParam.localKey.name ≠ name) (haddress : addressParam ≠ name)
    (locals : List LocalRequest) : valuesOf name (locals.flatMap localEntries) = [] := by
  refine valuesOf_eq_nil fun e he => ?_
  obtain ⟨l, -, he⟩ := List.mem_flatMap.1 he
  rcases List.mem_pair.1 he with rfl | rfl
  · exact hlocal
  · exact haddress

theorem valuesOf_localKey_flatMap (locals : List LocalRequest) :
    valuesOf KeyParam.localKey.name (locals.flatMap localEntries) =
      locals.map LocalRequest.key := by
  induction locals with
  | nil => rfl
  | cons l ls ih =>
    rw [List.flatMap_cons, List.map_cons, ← ih]
    exact valuesOf_localKey_pair rfl rfl

theorem valuesOf_addressParam_flatMap (locals : List LocalRequest) :
    valuesOf addressParam (locals.flatMap localEntries) =
      locals.map fun l => l.address.text := by
  induction locals with
  | nil => rfl
  | cons l ls ih =>
    rw [List.flatMap_cons, List.map_cons, ← ih]
    exact valuesOf_addressParam_pair rfl rfl

theorem valuesOf_programs {name : String} (h : programParam ≠ name) (programs : Bool) :
    valuesOf name (if programs then [⟨programParam, none⟩] else []) = [] := by
  split
  · exact valuesOf_cons_of_ne h
  · rfl

theorem mentions_programParam (r : ApplicationRequest) :
    mentions programParam (applicationEntries r) = r.programs := by
  have hkeys : ∀ (p : KeyParam) (keys : List String),
      mentions programParam (keys.map (keyEntry p)) = false := by
    intro p keys
    simp [mentions, keyEntry, p.name_ne_programParam]
  have hlocals : mentions programParam (r.localReads.flatMap localEntries) = false := by
    simp [mentions, localEntries, keyEntry, KeyParam.localKey.name_ne_programParam,
      addressParam_ne_programParam]
  simp only [mentions] at hkeys hlocals ⊢
  rw [applicationEntries, List.any_append, List.any_append, List.any_append, hkeys, hkeys, hlocals]
  cases r.programs <;> simp

/-- Written entries ask for what was written. -/
theorem asks_applicationEntries (r : ApplicationRequest) : Asks (applicationEntries r) r := by
  have hvalues : ∀ name, valuesOf name (applicationEntries r) =
      valuesOf name (r.boxKeys.map (keyEntry .boxKey)) ++
        valuesOf name (r.globalKeys.map (keyEntry .globalKey)) ++
          valuesOf name (r.localReads.flatMap localEntries) ++
            valuesOf name (if r.programs then [⟨programParam, none⟩] else []) := by
    intro name
    rw [applicationEntries, valuesOf_append, valuesOf_append, valuesOf_append]
  have hprograms : ∀ p : KeyParam, programParam ≠ p.name := fun p => p.name_ne_programParam.symm
  have haddress : ∀ p : KeyParam, addressParam ≠ p.name := fun p => p.name_ne_addressParam.symm
  refine ⟨?_, ?_, ?_, ?_, (mentions_programParam r).symm⟩
  · rw [hvalues, valuesOf_map_keyEntry, valuesOf_map_keyEntry_of_ne (by decide),
      valuesOf_flatMap_localEntries_of_ne (by decide) (haddress _),
      valuesOf_programs (hprograms _)]
    simp
  · rw [hvalues, valuesOf_map_keyEntry_of_ne (by decide), valuesOf_map_keyEntry,
      valuesOf_flatMap_localEntries_of_ne (by decide) (haddress _),
      valuesOf_programs (hprograms _)]
    simp
  · rw [hvalues, valuesOf_map_keyEntry_of_ne (by decide),
      valuesOf_map_keyEntry_of_ne (by decide), valuesOf_localKey_flatMap,
      valuesOf_programs (hprograms _)]
    simp
  · rw [hvalues, valuesOf_map_keyEntry_of_ne (KeyParam.name_ne_addressParam _),
      valuesOf_map_keyEntry_of_ne (KeyParam.name_ne_addressParam _),
      valuesOf_addressParam_flatMap, valuesOf_programs addressParam_ne_programParam.symm]
    simp

/-- A set of fields is read back from its keys. -/
theorem readToken_tokenEntries (fields : TokenFieldSet) :
    readToken (tokenEntries fields) = fields := by
  refine TokenFieldSet.ext fun f => ?_
  have hmentions : mentions f.key (tokenEntries fields) = fields.contains f := by
    rw [Bool.eq_iff_iff, ← TokenFieldSet.mem_toList]
    simp [mentions, tokenEntries, TokenField.key_inj]
  rw [readToken, TokenFieldSet.contains_ofList, ← hmentions]
  simp [f.mem_all]

theorem asksRequest_entries (request : Request) : AsksRequest request.entries request := by
  cases request with
  | application r => exact asks_applicationEntries r
  | token fields => exact (readToken_tokenEntries fields).symm

/-! ## Written URIs -/

/-- A written URI is a path and the written query. -/
theorem located_write (kind : ResourceKind) (id : ResourceId) (entries : List Entry) :
    Located (write kind id entries).toList kind (Decimal.digits id.toNat) (writeQuery entries) := by
  refine ⟨?_, Decimal.digits_ne_nil _, fun c hc => Decimal.isDigit_of_mem_digits hc,
    head?_writeQuery⟩
  rw [write, base, ResourceId.text, Decimal.numeral, stem]
  simp only [String.toList_append, String.toList_ofList, List.append_assoc]

variable {request : Request}

theorem readEntries_write (h : request.Writable) (id : ResourceId) :
    readEntries (queryPart (write request.kind id request.entries).toList) =
      .ok request.entries := by
  rw [(located_write request.kind id request.entries).queryPart_eq]
  exact readEntries_writeQuery (plain_of_mem_entries h)

/-- Written URIs follow the strict grammar. -/
theorem check_write (h : request.Writable) (id : ResourceId) :
    check (write request.kind id request.entries) = .ok () :=
  check_eq_ok_iff.2 (checkUri_eq_ok_iff.2 ⟨request.kind, _, _, id, _, located_write _ id _,
    Decimal.value_digits _, readEntries_write h id, checkEntries_entries h⟩)

/-- A written URI is read as the request, and with first-address pairing as the request with every
local key at the first address. -/
theorem parse_write (h : request.Writable) (id : ResourceId) :
    let u := write request.kind id request.entries
    Query.parse .strict u = .ok ⟨id, request, u⟩ ∧
      Query.parse .firstAddress u = .ok ⟨id, request.atFirst, u⟩ := by
  obtain ⟨hstrict, hfirst⟩ := read_of_checkEntries (located_write request.kind id request.entries)
    (Decimal.value_digits _) (readEntries_write h id) (checkEntries_entries h)
    (asksRequest_entries request)
  exact ⟨Query.parse_eq_ok_iff.2 ⟨hstrict, rfl⟩, Query.parse_eq_ok_iff.2 ⟨hfirst, rfl⟩⟩

/-- The canonical text of a query whose request is writable is what is written of it. -/
theorem canonical_of_writable {q : Query} (h : q.request.Writable) :
    q.canonical = write q.kind q.id q.request.entries := by
  obtain ⟨id, request, text⟩ := q
  cases request with
  | application r =>
    have hbuild : buildApplication (.id id) r =
        .ok (write .application id (Request.application r).entries) :=
      buildApplication_eq_ok_iff.2 ⟨id, rfl, h, rfl⟩
    simp only [Query.canonical, Query.build, hbuild]
    rfl
  | token fields => rfl

end Uri

end LedgerUri
