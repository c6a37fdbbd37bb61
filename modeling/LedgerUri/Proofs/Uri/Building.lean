import LedgerUri.Proofs.Resource.Source
import LedgerUri.Proofs.Uri.Written

/-!
# Building the URI of an application

Three lists of keys are checked one after the other, and the first key that cannot be decoded ends
the building. What is reported of it, and that nothing is looked at before the id is there, can be
said over one list: all keys in the order in which they are checked. If nothing is wrong with them,
the URI is put together of one piece for each key, one for each address and one for the programs.

* `ApplicationRequest.namedKeys`, `ApplicationRequest.FirstUndecodable` — what is checked, and what
  the check finds;
* `ApplicationRequest.pieces`, `queryText` — what is written;
* `buildApplication_outcome` — both, for every id and every request.
-/

namespace LedgerUri

open Base64.UrlSafe (decode)

namespace ApplicationRequest

/-- All keys with their parameters, in the order in which they are checked. -/
def namedKeys (r : ApplicationRequest) : List (KeyParam × String) :=
  r.boxKeys.map (Prod.mk .boxKey) ++ r.globalKeys.map (Prod.mk .globalKey) ++
    r.localReads.map fun l => (.localKey, l.key)

/-- The first key that cannot be decoded belongs to the parameter and is refused for the reason. -/
def FirstUndecodable (r : ApplicationRequest) (param : KeyParam) (reason : Base64Error) : Prop :=
  ∃ before key after, r.namedKeys = before ++ (param, key) :: after ∧
    (∀ k ∈ before, ∃ bytes, decode k.2 = .ok bytes) ∧ decode key = .error reason

/-- The pieces of the query that a request is written with. -/
def pieces (r : ApplicationRequest) : List String :=
  r.boxKeys.map (fun key => "box=" ++ key) ++ r.globalKeys.map (fun key => "global=" ++ key) ++
    r.localReads.flatMap (fun l => ["local=" ++ l.key, "algorandaddress=" ++ l.address.text]) ++
    if r.programs then ["tealcode"] else []

end ApplicationRequest

namespace Uri

variable {source : IdSource} {id : ResourceId} {r : ApplicationRequest}

/-- Joined pieces behind a `?`, and nothing if there are no pieces. -/
def queryText (pieces : List String) : String :=
  if pieces = [] then "" else "?" ++ "&".intercalate pieces

/-! ## Checking -/

theorem checkKey_eq_ok_iff {uri key : String} {p : KeyParam} :
    checkKey uri p key = .ok () ↔ ∃ bytes, decode key = .ok bytes := by
  rw [checkKey, mapError_eq_ok_iff, ← isKey_iff_exists_decode, IsKey]

theorem checkKey_eq_error_iff {uri key : String} {p : KeyParam} {error : UriError} :
    checkKey uri p key = .error error ↔
      ∃ reason, decode key = .error reason ∧ error = ⟨uri, .badKey p reason⟩ := by
  simp only [checkKey, mapError_eq_error_iff, Base64.UrlSafe.check_eq_error_iff,
    eq_comm (a := error)]

/-- With an id, building checks all keys in one go and then writes. -/
theorem buildApplication_of_convert (hid : source.convert = .ok id) :
    buildApplication source r =
      (forM r.namedKeys fun k => checkKey (base .application id) k.1 k.2) >>= fun _ =>
        .ok (write .application id (applicationEntries r)) := by
  have hresolve : source.resolve = .ok id := mapError_eq_ok_iff.2 hid
  rw [buildApplication, hresolve]
  simp only [checkKeys_eq_forM, ApplicationRequest.namedKeys, List.forM_append, List.forM_map,
    bind_assoc]
  rfl

/-- With an id, building fails as the first key that cannot be decoded. -/
theorem buildApplication_eq_error_iff (hid : source.convert = .ok id) {error : UriError} :
    buildApplication source r = .error error ↔ ∃ param reason,
      r.FirstUndecodable param reason ∧ error = ⟨base .application id, .badKey param reason⟩ := by
  rw [buildApplication_of_convert hid, bind_eq_error_iff, or_iff_left (by simp), forM_eq_error_iff]
  constructor
  · rintro ⟨before, ⟨param, key⟩, after, heq, hbefore, hkey⟩
    obtain ⟨reason, hreason, herror⟩ := checkKey_eq_error_iff.1 hkey
    refine ⟨param, reason, ⟨before, key, after, heq, ?_, hreason⟩, herror⟩
    exact fun k hk => checkKey_eq_ok_iff.1 (hbefore k hk)
  · rintro ⟨param, reason, ⟨before, key, after, heq, hbefore, hreason⟩, herror⟩
    refine ⟨before, (param, key), after, heq, ?_, checkKey_eq_error_iff.2 ⟨reason, hreason, herror⟩⟩
    exact fun k hk => checkKey_eq_ok_iff.2 (hbefore k hk)

/-- A request is writable when all of its keys can be decoded. -/
theorem writable_iff_decodes :
    r.Writable ↔ ∀ k ∈ r.namedKeys, ∃ bytes, decode k.2 = .ok bytes := by
  simp only [ApplicationRequest.namedKeys, List.forall_mem_append, List.forall_mem_map,
    ← isKey_iff_exists_decode]
  exact ⟨fun h => ⟨⟨h.boxKeys, h.globalKeys⟩, h.localKeys⟩, fun h => ⟨h.1.1, h.1.2, h.2⟩⟩

/-! ## Writing -/

/-- Entries are written as pieces. -/
theorem map_write_applicationEntries (r : ApplicationRequest) :
    (applicationEntries r).map Entry.write = r.pieces.map String.toList := by
  have hlocals : r.localReads.flatMap (fun l => (localEntries l).map Entry.write) =
      r.localReads.flatMap fun l =>
        ["local=" ++ l.key, "algorandaddress=" ++ l.address.text].map String.toList := by
    simp [localEntries, keyEntry, Entry.write, KeyParam.name, addressParam]
  simp only [applicationEntries, ApplicationRequest.pieces, List.map_append, List.map_map,
    List.map_flatMap, hlocals]
  cases r.programs <;> simp [Function.comp_def, keyEntry, Entry.write, KeyParam.name, programParam]

theorem pieces_eq_nil_iff : r.pieces = [] ↔ r.isEmpty = true := by
  obtain ⟨boxKeys, globalKeys, localReads, programs⟩ := r
  cases localReads <;> simp [ApplicationRequest.pieces, ApplicationRequest.isEmpty, and_assoc]

theorem applicationEntries_eq_nil_iff : applicationEntries r = [] ↔ r.pieces = [] := by
  rw [← List.map_eq_nil_iff (f := Entry.write), map_write_applicationEntries, List.map_eq_nil_iff]

theorem ofList_writeQuery (r : ApplicationRequest) :
    String.ofList (writeQuery (applicationEntries r)) = queryText r.pieces := by
  simp only [writeQuery, queryText, List.isEmpty_iff, applicationEntries_eq_nil_iff,
    map_write_applicationEntries]
  split
  · rfl
  · rw [← String.toList_inj, String.toList_ofList, String.toList_append, String.toList_intercalate]
    rfl

/-- The URI of an application is its path and the joined pieces. -/
theorem write_applicationEntries (id : ResourceId) (r : ApplicationRequest) :
    write .application id (applicationEntries r) =
      "algorand://app/" ++ id.text ++ queryText r.pieces := by
  rw [write, ofList_writeQuery]
  rfl

/-- A written URI has a `?` when there are entries to write. -/
theorem question_not_mem_write_iff {kind : ResourceKind} {entries : List Entry} :
    '?' ∉ (write kind id entries).toList ↔ entries = [] := by
  have hlocated := located_write kind id entries
  rw [hlocated.eq, ← List.append_assoc, List.mem_append, or_iff_right hlocated.question_not_mem,
    writeQuery]
  cases entries <;> simp

/-! ## Building -/

/-- **Building succeeds on good ids and keys, and else reports the first thing that is wrong.** An
id is good when what it is given as stands for a number of 64 bits, and it is that number. The id
comes before the keys and the keys come list by list; what is reported of a key names its parameter,
what is wrong with it, and the URI without a query. What is built is the path with one piece for
each box key, each key of global state, each local key with its address right after it, and at last
the programs. -/
theorem buildApplication_outcome (source : IdSource) (r : ApplicationRequest) :
    (∀ id, source.convert = .ok id ↔ source.Denotes id.toNat) ∧
    (∀ error, source.convert = .error error ↔ source.Refused error) ∧
    ((∃ uri, buildApplication source r = .ok uri) ↔
      (∃ id, source.convert = .ok id) ∧ ∀ k ∈ r.namedKeys, ∃ bytes, decode k.2 = .ok bytes) ∧
    (∀ error, source.convert = .error error →
      buildApplication source r = .error ⟨source.printed, .badId error⟩) ∧
    ∀ id, source.convert = .ok id →
      (∀ error, buildApplication source r = .error error ↔ ∃ param reason,
        r.FirstUndecodable param reason ∧
          error = ⟨"algorand://app/" ++ id.text, .badKey param reason⟩) ∧
      ∀ uri, buildApplication source r = .ok uri →
        uri = "algorand://app/" ++ id.text ++ queryText r.pieces ∧
          ('?' ∉ uri.toList ↔ r.isEmpty = true) := by
  refine ⟨fun id => IdSource.convert_eq_ok_iff, fun error => IdSource.convert_eq_error_iff,
    ?_, ?_, ?_⟩
  · rw [← writable_iff_decodes]
    constructor
    · rintro ⟨uri, h⟩
      obtain ⟨id, hid, hwritable, -⟩ := buildApplication_eq_ok_iff.1 h
      exact ⟨⟨id, mapError_eq_ok_iff.1 hid⟩, hwritable⟩
    · rintro ⟨⟨id, hid⟩, hwritable⟩
      exact ⟨_, buildApplication_eq_ok_iff.2 ⟨id, mapError_eq_ok_iff.2 hid, hwritable, rfl⟩⟩
  · intro error herror
    have hresolve : source.resolve = .error ⟨source.printed, .badId error⟩ :=
      mapError_eq_error_iff.2 ⟨error, herror, rfl⟩
    exact bind_eq_error_iff.2 (.inl hresolve)
  · intro id hid
    refine ⟨fun error => buildApplication_eq_error_iff hid, ?_⟩
    intro uri h
    obtain ⟨found, hfound, -, rfl⟩ := buildApplication_eq_ok_iff.1 h
    obtain rfl : id = found := Except.ok.inj (hid.symm.trans (mapError_eq_ok_iff.1 hfound))
    refine ⟨write_applicationEntries id r, ?_⟩
    exact question_not_mem_write_iff.trans
      (applicationEntries_eq_nil_iff.trans pieces_eq_nil_iff)

/-- A request whose second key of global state and whose local key cannot be decoded. -/
def twoFaults : ApplicationRequest :=
  ⟨["YQ"], ["", "a!"], [⟨"Y", .allA⟩], true⟩

/-- A request for a box and a local key, and for the programs. -/
def soundKeys : ApplicationRequest :=
  ⟨["YQ"], [], [⟨"", .allA⟩], true⟩

/-- A bad id hides both bad keys, and the key of global state hides the local one. With good keys
the URI is written. -/
theorem buildApplication_outcome_twoFaults :
    buildApplication (.int64 (-5)) twoFaults = .error ⟨"-5", .badId (.negative "-5")⟩ ∧
    buildApplication (.text "007") twoFaults =
      .error ⟨"algorand://app/7", .badKey .globalKey (.foreignChar '!' 1)⟩ ∧
    ∃ uri, buildApplication (.text "007") soundKeys = .ok uri ∧
      uri = "algorand://app/7?box=YQ&local=&algorandaddress=" ++ Address.allA.text ++ "&tealcode" ∧
      '?' ∈ uri.toList := by
  have hseven : (IdSource.text "007").convert = .ok ⟨7⟩ := rfl
  obtain ⟨-, hrefused, -, hreported, -⟩ := buildApplication_outcome (.int64 (-5)) twoFaults
  have hnegative : (IdSource.int64 (-5)).convert = .error (.negative "-5") :=
    (hrefused _).2 (.int64 (by decide))
  refine ⟨hreported _ hnegative, ?_, ?_⟩
  · obtain ⟨-, -, -, -, hkeys⟩ := buildApplication_outcome (.text "007") twoFaults
    obtain ⟨hfirst, -⟩ := hkeys _ hseven
    refine (hfirst _).2 ⟨_, _, ?_, rfl⟩
    refine ⟨[(.boxKey, "YQ"), (.globalKey, "")], "a!", [(.localKey, "Y")], rfl, ?_, rfl⟩
    intro k hk
    rcases List.mem_pair.1 hk with rfl | rfl
    · exact ⟨[97], rfl⟩
    · exact ⟨[], rfl⟩
  · obtain ⟨-, -, hbuilt, -, htext⟩ := buildApplication_outcome (.text "007") soundKeys
    obtain ⟨uri, huri⟩ : ∃ uri, buildApplication (.text "007") soundKeys = .ok uri := by
      refine hbuilt.2 ⟨⟨_, hseven⟩, ?_⟩
      intro k hk
      rcases List.mem_pair.1 hk with rfl | rfl
      · exact ⟨[97], rfl⟩
      · exact ⟨[], rfl⟩
    obtain ⟨heq, hquestion⟩ := (htext _ hseven).2 uri huri
    refine ⟨uri, huri, heq.trans rfl, ?_⟩
    by_contra hnone
    cases hquestion.1 hnone

end Uri

end LedgerUri
