import LedgerUri.Proofs.Answer.Consistency
import LedgerUri.Proofs.Answer.Report
import LedgerUri.Proofs.Ledger.History

/-!
# Reading back what was stored

A URI carries keys as text. The text is written from bytes, put into the URI, read from it, decoded
for the read of a box, and written again for an index of state. None of this loses or confuses a
key: whatever bytes they are, what was stored under them last is found under them.

* `ApplicationRequest.ofBytes` — the request for keys given by their bytes;
* `StoredBox`, `StoredLocal` — what an item says about a history of inserts;
* `resolveUriWith_readsBack` — building a URI and resolving it on a store.
-/

namespace LedgerUri

open Base64.UrlSafe (encode)

/-! ## Statements -/

/-- The request for the boxes, global keys and local keys with the given bytes. -/
def ApplicationRequest.ofBytes (boxes globals : List (List UInt8))
    (locals : List (List UInt8 × Address)) (programs : Bool) : ApplicationRequest where
  boxKeys := boxes.map encode
  globalKeys := globals.map encode
  localReads := locals.map fun l => ⟨encode l.1, l.2⟩
  programs := programs

/-- An item tells what was put last into the box under a key. -/
structure StoredBox (history : List Insert) (id : ResourceId) (key : List UInt8)
    (item : Except ItemFailure FoundBox) : Prop where
  /-- a value is the one that was put last -/
  found : ∀ value, item = .ok ⟨encode key, value⟩ ↔ LastPut (Insert.box? id key) history value
  /-- the key is absent when no value was put -/
  absent : item = .error (.absent (encode key)) ↔ ∀ i ∈ history, i.box? id key = none

/-- An item tells what the account that was put last under an address holds under a key. -/
structure StoredLocal (history : List Insert) (id : ResourceId) (key : List UInt8)
    (address : Address) (item : Except ItemFailure FoundLocal) : Prop where
  /-- a value is that of the first entry in the account's first record for the application, with its
  text if it is text -/
  found : ∀ value, item = .ok ⟨encode key, address, value, value.text?⟩ ↔
    ∃ account s, LastPut (Insert.account? address) history account ∧
      IsFirst (fun s => s.application = id) account.localStates s ∧ FirstUnder key s.entries value
  /-- the account never opted in when no account was put, or one without a record -/
  notOptedIn : item = .error (.notOptedIn address) ↔
    (∀ i ∈ history, i.account? address = none) ∨
      ∃ account, LastPut (Insert.account? address) history account ∧
        ∀ s ∈ account.localStates, s.application ≠ id
  /-- the key is absent when the record has no entry under it -/
  absent : item = .error (.absent (encode key)) ↔
    ∃ account s, LastPut (Insert.account? address) history account ∧
      IsFirst (fun s => s.application = id) account.localStates s ∧
      ∀ e ∈ s.entries, e.key ≠ key

/-- An answer gives back what was stored under the bytes of the requested keys. -/
structure ApplicationAnswer.ReadsBack (history : List Insert) (id : ResourceId)
    (record : ApplicationRecord) (boxes globals : List (List UInt8))
    (locals : List (List UInt8 × Address)) (programs : Bool) (o : ApplicationAnswer) : Prop where
  /-- it is about the application -/
  id_eq : o.id = id
  /-- the application is there -/
  present : o.present = true
  /-- the query went through -/
  complete : o.complete = true
  /-- each box has its item -/
  boxes : List.Forall₂ (StoredBox history id) boxes o.boxes
  /-- each key of global state has its item -/
  global : List.Forall₂ (fun key => GlobalReport (encode key) key record.globalState)
    globals o.global
  /-- each key of local state has its item -/
  locals : List.Forall₂ (fun l => StoredLocal history id l.1 l.2) locals o.locals
  /-- as many items were found as there are values -/
  foundSize : o.foundSize = (o.boxes.filterMap Except.toOption).length +
    (o.global.filterMap Except.toOption).length + (o.locals.filterMap Except.toOption).length
  /-- the programs are those of the record, if they were asked for -/
  programs : o.programs =
    if programs then some ⟨record.approvalProgram, record.clearProgram⟩ else none

/-! ## Keys of any bytes -/

theorem Uri.isKey_encode (bytes : List UInt8) : IsKey (encode bytes) :=
  map_eq_ok_iff.2 ⟨bytes, Base64.UrlSafe.decode_encode bytes, rfl⟩

theorem ApplicationRequest.writable_ofBytes (boxes globals : List (List UInt8))
    (locals : List (List UInt8 × Address)) (programs : Bool) :
    (ofBytes boxes globals locals programs).Writable where
  boxKeys := List.forall_mem_map.2 fun bytes _ => Uri.isKey_encode bytes
  globalKeys := List.forall_mem_map.2 fun bytes _ => Uri.isKey_encode bytes
  localKeys := List.forall_mem_map.2 fun l _ => Uri.isKey_encode l.1

/-- Counting what was found is counting values. -/
theorem ApplicationAnswer.foundSize_eq (o : ApplicationAnswer) :
    o.foundSize = (o.boxes.filterMap Except.toOption).length +
      (o.global.filterMap Except.toOption).length +
        (o.locals.filterMap Except.toOption).length := by
  have hcount : ∀ {α : Type} (items : List (Except ItemFailure α)),
      items.countP Except.isOk = (items.filterMap Except.toOption).length := by
    intro α items
    rw [List.length_filterMap_eq_countP]
    exact List.countP_congr fun item _ => by cases item <;> rfl
  rw [foundSize, hcount, hcount, hcount]

/-! ## Items on a store -/

namespace Resolve

open Store

theorem boxResult_stored (history : List Insert) (id : ResourceId) (key : List UInt8) :
    StoredBox history id key (boxResult (ofHistory history).client id (encode key)) := by
  rw [boxResult_of_decode (Base64.UrlSafe.decode_encode key)]
  have hreport := boxItem_report (encode key) ((ofHistory history).client.box id key)
  exact ⟨fun value => (hreport.found value).trans box_ofHistory_eq_ok_iff,
    hreport.absent.trans box_ofHistory_eq_missing_iff⟩

theorem localResult_encode (client : Client) (id : ResourceId) (key : List UInt8)
    (address : Address) :
    localResult client id ⟨encode key, address⟩ =
      localItem id ⟨encode key, address⟩ (encode key) (client.account address) := by
  have hdecode : Base64.UrlSafe.decode (LocalRequest.mk (encode key) address).key = .ok key :=
    Base64.UrlSafe.decode_encode key
  exact localResult_of_decode hdecode

theorem localResult_stored (history : List Insert) (id : ResourceId) (key : List UInt8)
    (address : Address) :
    StoredLocal history id key address
      (localResult (ofHistory history).client id ⟨encode key, address⟩) := by
  rw [localResult_encode]
  have hreport : LocalReport id ⟨encode key, address⟩ key
      ((ofHistory history).client.account address) _ := localItem_report _ key _
  refine ⟨fun value => ?_, ?_, ?_⟩
  · simpa only [account_ofHistory_eq_ok_iff] using hreport.found value
  · simpa only [account_ofHistory_eq_ok_iff, account_ofHistory_eq_missing_iff]
      using hreport.notOptedIn
  · simpa only [account_ofHistory_eq_ok_iff] using hreport.absent

/-- Only a read that fails for another reason than a miss is fatal. -/
theorem isFatal_localItem {id : ResourceId} {request : LocalRequest} {canonical : String}
    {answer : Except ReadError AccountRecord}
    (h : ∀ error, answer = .error error → error.isMissing = true) :
    isFatal (localItem id request canonical answer) = false := by
  cases answer with
  | ok account =>
    rw [localItem]
    split
    · rfl
    · split <;> rfl
  | error error =>
    rw [localItem, if_pos (h error rfl)]
    rfl

/-- A store misses records, but it does not fail otherwise. -/
theorem isFatal_localResult_client (s : Store) (id : ResourceId) (key : List UInt8)
    (address : Address) :
    isFatal (localResult s.client id ⟨encode key, address⟩) = false := by
  rw [localResult_encode]
  exact isFatal_localItem fun error herror => isMissing_of_orMissing herror

/-! ## Answers of a store -/

/-- Items that are made of written keys tell about the bytes behind them. -/
theorem forall₂_map_map {κ τ ι : Type} {P : κ → ι → Prop} {written : κ → τ} {item : τ → ι}
    {keys : List κ} (h : ∀ k, P k (item (written k))) :
    List.Forall₂ P keys ((keys.map written).map item) := by
  rw [List.map_map]
  exact forall₂_map_of_forall_mem fun k _ => h k

/-- **An answer of a store gives back what was stored.** -/
theorem answerItems_readsBack (history : List Insert) (id : ResourceId)
    (record : ApplicationRecord) (boxes globals : List (List UInt8))
    (locals : List (List UInt8 × Address)) (programs : Bool) :
    (answerItems (ofHistory history).client id (.ofBytes boxes globals locals programs)
      record).ReadsBack history id record boxes globals locals programs := by
  let r : ApplicationRequest := .ofBytes boxes globals locals programs
  have hfatal : ∀ item ∈ r.localReads.map (localResult (ofHistory history).client id),
      isFatal item = false :=
    List.forall_mem_map.2 <| List.forall_mem_map.2 fun l _ =>
      isFatal_localResult_client (ofHistory history) id l.1 l.2
  rw [answerItems, answerOf_of_not_fatal hfatal]
  refine ⟨rfl, rfl, rfl, ?_, ?_, ?_, ApplicationAnswer.foundSize_eq _, rfl⟩
  · exact forall₂_map_map fun key => boxResult_stored history id key
  · exact forall₂_map_map fun key =>
      globalItem_report (Base64.UrlSafe.decode_encode key) record.globalState
  · exact forall₂_map_map fun l => localResult_stored history id l.1 l.2

end Resolve

/-- **Anything stored can be read back through a URI.** Whatever was inserted, and in whatever
order, a URI can be built for any byte strings as keys of an application that was inserted, and
resolving it succeeds and finds under each key what was stored there last. -/
theorem resolveUriWith_readsBack {buffered : Buffering Read} (hb : IsBuffering buffered)
    (maxReads : ℕ) {history : List Insert} {first : ApplicationRecord}
    (hinserted : .application first ∈ history) {source : IdSource}
    (hsource : source.resolve = .ok first.id) (boxes globals : List (List UInt8))
    (locals : List (List UInt8 × Address)) (programs : Bool) :
    ∃ u record o,
      Uri.buildApplication source (.ofBytes boxes globals locals programs) = .ok u ∧
      LastPut (Insert.application? first.id) history record ∧
      (resolveUriWith buffered ⟨.strict, maxReads⟩ (Store.ofHistory history).client u).answer =
        .ok (.application o) ∧
      o.ReadsBack history first.id record boxes globals locals programs := by
  let r : ApplicationRequest := .ofBytes boxes globals locals programs
  have hw : (Request.application r).Writable :=
    ApplicationRequest.writable_ofBytes boxes globals locals programs
  -- the application may have been replaced since, but it is still there
  obtain ⟨record, hrecord⟩ := (Shows.application first.id).exists_lastPut_of_mem hinserted
    (if_pos rfl)
  have hread : (Store.ofHistory history).client.application first.id = .ok record :=
    Store.application_ofHistory_eq_ok_iff.2 hrecord
  refine ⟨_, record, _, Uri.buildApplication_eq_ok_iff.2 ⟨first.id, hsource, hw, rfl⟩, hrecord,
    resolveUriWith_of_application (Uri.parse_write hw first.id).1 rfl ?_,
    Resolve.answerItems_readsBack history first.id record boxes globals locals programs⟩
  rw [resolveApplicationWith_answer hb]
  exact answerApplication_of_ok rfl hread

/-- A history in which records are replaced, and boxes of two applications have the same key. -/
def replacements : List Insert :=
  [.box ⟨7⟩ [] [1], .application ⟨⟨7⟩, [⟨[255], .uint 1⟩], [1], [2]⟩, .account ⟨.allA, []⟩,
    .box ⟨7⟩ [] [2], .application ⟨⟨7⟩, [⟨[255], .uint 2⟩, ⟨[255], .uint 3⟩], [3], [4]⟩,
    .account ⟨.allA, [⟨⟨7⟩, [⟨[], .uint 5⟩]⟩]⟩, .box ⟨8⟩ [] [9]]

/-- What was put last is found, under the empty key and under one that is no text. -/
theorem resolveUriWith_readsBack_replacements :
    .application ⟨⟨7⟩, [⟨[255], .uint 1⟩], [1], [2]⟩ ∈ replacements ∧
    ∃ u o, Uri.buildApplication (.word64 7)
        (.ofBytes [[], [255]] [[255]] [([], .allA), ([], .allB)] true) = .ok u ∧
      (resolveUriWith Task.trace ⟨.strict, 4⟩ (Store.ofHistory replacements).client u).answer =
        .ok (.application o) ∧
      o.boxes = [.ok ⟨"", [2]⟩, .error (.absent "_w")] ∧ o.global = [.ok ⟨"_w", .uint 2, none⟩] ∧
      o.locals = [.ok ⟨"", .allA, .uint 5, none⟩, .error (.notOptedIn .allB)] ∧ o.foundSize = 3 ∧
      o.programs = some ⟨[3], [4]⟩ := by
  have hinserted : .application ⟨⟨7⟩, [⟨[255], .uint 1⟩], [1], [2]⟩ ∈ replacements :=
    List.mem_cons_of_mem _ List.mem_cons_self
  obtain ⟨u, record, o, hbuild, hrecord, hanswer, hback⟩ := resolveUriWith_readsBack
    isBuffering_trace 4 hinserted (show IdSource.resolve (.word64 7) = _ from rfl) [[], [255]]
    [[255]] [([], .allA), ([], .allB)] true
  have hlast : LastPut (Insert.application? ⟨7⟩) replacements
      ⟨⟨7⟩, [⟨[255], .uint 2⟩, ⟨[255], .uint 3⟩], [3], [4]⟩ :=
    ⟨replacements.take 4, _, replacements.drop 5, rfl, rfl, by decide⟩
  obtain rfl := hrecord.eq hlast
  have hempty : encode [] = "" := rfl
  have htext : encode [255] = "_w" := by decide
  have hboxes : o.boxes = [.ok ⟨"", [2]⟩, .error (.absent "_w")] := by
    obtain ⟨first, rest, hfirst, hrest, heq⟩ := List.forall₂_cons_left_iff.1 hback.boxes
    obtain ⟨second, last, hsecond, hlast, rfl⟩ := List.forall₂_cons_left_iff.1 hrest
    obtain rfl := List.forall₂_nil_left_iff.1 hlast
    have hput : LastPut (Insert.box? ⟨7⟩ []) replacements [2] :=
      ⟨replacements.take 3, _, replacements.drop 4, rfl, rfl, by decide⟩
    rw [heq, (hfirst.found [2]).2 hput, hsecond.absent.2 (by decide), hempty, htext]
  have hglobal : o.global = [.ok ⟨"_w", .uint 2, none⟩] := by
    obtain ⟨item, rest, hitem, hrest, heq⟩ := List.forall₂_cons_left_iff.1 hback.global
    obtain rfl := List.forall₂_nil_left_iff.1 hrest
    rw [heq, (hitem.found (.uint 2)).2 ⟨[], _, rfl, List.forall_mem_nil _, rfl⟩, htext]
    rfl
  have hlocals : o.locals = [.ok ⟨"", .allA, .uint 5, none⟩, .error (.notOptedIn .allB)] := by
    obtain ⟨first, rest, hfirst, hrest, heq⟩ := List.forall₂_cons_left_iff.1 hback.locals
    obtain ⟨second, last, hsecond, hlast, rfl⟩ := List.forall₂_cons_left_iff.1 hrest
    obtain rfl := List.forall₂_nil_left_iff.1 hlast
    have hput : LastPut (Insert.account? .allA) replacements
        ⟨.allA, [⟨⟨7⟩, [⟨[], .uint 5⟩]⟩]⟩ :=
      ⟨replacements.take 5, _, replacements.drop 6, rfl, rfl, by decide⟩
    rw [heq, (hfirst.found (.uint 5)).2 ⟨_, _, hput, ⟨[], _, rfl, List.forall_mem_nil _, rfl⟩,
      [], _, rfl, List.forall_mem_nil _, rfl⟩, hsecond.notOptedIn.2 (.inl (by decide)), hempty]
    rfl
  refine ⟨hinserted, u, o, hbuild, hanswer, hboxes, hglobal, hlocals, ?_, hback.programs⟩
  rw [hback.foundSize, hboxes, hglobal, hlocals]
  rfl

end LedgerUri
