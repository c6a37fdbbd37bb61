import LedgerUri.Proofs.Answer.Application
import LedgerUri.Proofs.Ledger.State
import LedgerUri.Proofs.Uri.Canonical

/-!
# What items report

An item echoes its key as it was requested and reports what the ledger holds under the bytes that
the key stands for. How the key is spelled, and that state is looked up by text, cannot be told from
what was found.

* `BoxReport`, `GlobalReport`, `LocalReport` — what an item says, in both directions;
* `Resolve.answerItems_reports` — every item of an answer reports;
* `resolveApplicationWith_reports` — so does every item of every application query.
-/

namespace LedgerUri

/-- An item tells how the ledger answered the read of a box. -/
structure BoxReport (key : String) (answer : Except ReadError (List UInt8))
    (item : Except ItemFailure FoundBox) : Prop where
  /-- contents are those of the box -/
  found : ∀ value, item = .ok ⟨key, value⟩ ↔ answer = .ok value
  /-- the key is absent when there is no such box -/
  absent : item = .error (.absent key) ↔ ∃ resource, answer = .error (.missing resource)
  /-- any other failure of the read is passed on -/
  failed : ∀ error, error.isMissing = false →
    (item = .error (.ledger error) ↔ answer = .error error)

/-- An item tells what a state holds under a key. -/
structure GlobalReport (key : String) (bytes : List UInt8) (entries : List StateCell)
    (item : Except ItemFailure FoundGlobal) : Prop where
  /-- a value is that of the first entry under the key, with its text if it is text -/
  found : ∀ value, item = .ok ⟨key, value, value.text?⟩ ↔ FirstUnder bytes entries value
  /-- the key is absent when there is no entry under it -/
  absent : item = .error (.absent key) ↔ ∀ e ∈ entries, e.key ≠ bytes

/-- An item tells what an account holds under a key in its first record for an application. -/
structure LocalReport (id : ResourceId) (request : LocalRequest) (bytes : List UInt8)
    (answer : Except ReadError AccountRecord) (item : Except ItemFailure FoundLocal) : Prop where
  /-- the account never opted in when there is no account or no record -/
  notOptedIn : item = .error (.notOptedIn request.address) ↔
    (∃ resource, answer = .error (.missing resource)) ∨
      ∃ account, answer = .ok account ∧ ∀ s ∈ account.localStates, s.application ≠ id
  /-- a value is that of the first entry under the key, with its text if it is text -/
  found : ∀ value, item = .ok ⟨request.key, request.address, value, value.text?⟩ ↔
    ∃ account s, answer = .ok account ∧
      IsFirst (fun s => s.application = id) account.localStates s ∧
      FirstUnder bytes s.entries value
  /-- the key is absent when the record has no entry under it -/
  absent : item = .error (.absent request.key) ↔
    ∃ account s, answer = .ok account ∧
      IsFirst (fun s => s.application = id) account.localStates s ∧
      ∀ e ∈ s.entries, e.key ≠ bytes
  /-- any other failure of the read is passed on -/
  failed : ∀ error, error.isMissing = false →
    (item = .error (.ledger error) ↔ answer = .error error)

/-- Every item of an answer reports what the ledger holds under the bytes of its key. -/
structure ApplicationAnswer.Reports (client : Client) (id : ResourceId) (r : ApplicationRequest)
    (record : ApplicationRecord) (o : ApplicationAnswer) : Prop where
  /-- each requested box has its item -/
  boxes : List.Forall₂ (fun key item => ∃ bytes, Base64.UrlSafe.decode key = .ok bytes ∧
    BoxReport key (client.box id bytes) item) r.boxKeys o.boxes
  /-- each requested key of global state has its item -/
  global : List.Forall₂ (fun key item => ∃ bytes, Base64.UrlSafe.decode key = .ok bytes ∧
    GlobalReport key bytes record.globalState item) r.globalKeys o.global
  /-- as many requested keys of local state as there are items have theirs -/
  locals : List.Forall₂ (fun request item => ∃ bytes,
    Base64.UrlSafe.decode request.key = .ok bytes ∧
      LocalReport id request bytes (client.account request.address) item)
    (r.localReads.take o.locals.length) o.locals

theorem ReadError.isMissing_eq_true_iff {error : ReadError} :
    error.isMissing = true ↔ ∃ resource, error = .missing resource := by
  cases error <;> simp [isMissing]

theorem ReadError.missing_ne_of_isMissing_eq_false {error : ReadError}
    (h : error.isMissing = false) (resource : String) : .missing resource ≠ error := by
  rintro rfl
  cases h

/-- Equal values have equal texts. -/
theorem StateValue.and_text?_eq_iff {v w : StateValue} : v = w ∧ v.text? = w.text? ↔ v = w :=
  and_iff_left_of_imp (congrArg text?)

namespace Resolve

variable {client : Client} {id : ResourceId} {key : String} {bytes : List UInt8}

/-! ## Items of decoded keys -/

theorem exists_decode_of_isKey (h : Uri.IsKey key) :
    ∃ bytes, Base64.UrlSafe.decode key = .ok bytes :=
  Uri.isKey_iff_exists_decode.1 h

theorem keyBytes_of_decode (h : Base64.UrlSafe.decode key = .ok bytes) :
    keyBytes key = .ok bytes :=
  mapError_eq_ok_iff.2 h

theorem indexKey_of_decode (h : Base64.UrlSafe.decode key = .ok bytes) :
    indexKey key = .ok (Base64.UrlSafe.encode bytes) :=
  map_eq_ok_iff.2 ⟨bytes, keyBytes_of_decode h, rfl⟩

theorem boxResult_of_decode (h : Base64.UrlSafe.decode key = .ok bytes) :
    boxResult client id key = boxItem key (client.box id bytes) := by
  rw [boxResult, keyBytes_of_decode h]
  rfl

theorem globalItem_of_decode (h : Base64.UrlSafe.decode key = .ok bytes) (index : KeyedState) :
    globalItem index key =
      match index.get? (Base64.UrlSafe.encode bytes) with
      | some value => .ok ⟨key, value, value.text?⟩
      | none => .error (.absent key) := by
  rw [globalItem, indexKey_of_decode h]
  rfl

theorem localResult_of_decode {request : LocalRequest}
    (h : Base64.UrlSafe.decode request.key = .ok bytes) :
    localResult client id request =
      localItem id request (Base64.UrlSafe.encode bytes) (client.account request.address) := by
  rw [localResult, indexKey_of_decode h]
  rfl

/-! ## Reports -/

theorem boxItem_report (key : String) (answer : Except ReadError (List UInt8)) :
    BoxReport key answer (boxItem key answer) := by
  cases answer with
  | ok value =>
    have hitem : boxItem key (.ok value) = .ok ⟨key, value⟩ := rfl
    rw [hitem]
    constructor <;> simp
  | error error =>
    cases hmissing : error.isMissing with
    | true =>
      obtain ⟨resource, rfl⟩ := ReadError.isMissing_eq_true_iff.1 hmissing
      have hitem : boxItem key (.error (.missing resource)) = .error (.absent key) := rfl
      rw [hitem]
      refine ⟨by simp, by simp, fun other hother => ?_⟩
      simp [ReadError.missing_ne_of_isMissing_eq_false hother]
    | false =>
      have hitem : boxItem key (.error error) = .error (.ledger error) := by
        rw [boxItem, hmissing]
        rfl
      have hne := fun resource =>
        (ReadError.missing_ne_of_isMissing_eq_false hmissing resource).symm
      rw [hitem]
      exact ⟨by simp, by simp [hne], by simp⟩

theorem globalItem_report (h : Base64.UrlSafe.decode key = .ok bytes)
    (entries : List StateCell) :
    GlobalReport key bytes entries (globalItem (KeyedState.ofEntries entries) key) := by
  rw [globalItem_of_decode h]
  refine ⟨fun value => ?_, ?_⟩
  · rw [← KeyedState.get?_eq_some_iff]
    cases (KeyedState.ofEntries entries).get? (Base64.UrlSafe.encode bytes) <;>
      simp [StateValue.and_text?_eq_iff]
  · rw [← KeyedState.get?_eq_none_iff]
    cases (KeyedState.ofEntries entries).get? (Base64.UrlSafe.encode bytes) <;> simp

/-- Of an account without a record for the application there is no more to tell. -/
theorem localItem_report_of_none {request : LocalRequest} {account : AccountRecord}
    (hstate : account.localState? id = none) :
    LocalReport id request bytes (.ok account)
      (localItem id request (Base64.UrlSafe.encode bytes) (.ok account)) := by
  have hitem : localItem id request (Base64.UrlSafe.encode bytes) (.ok account) =
      .error (.notOptedIn request.address) := by
    simp only [localItem, hstate]
  have hnone := AccountRecord.localState?_eq_none_iff.1 hstate
  have hfirst : ∀ s, ¬ IsFirst (fun s => s.application = id) account.localStates s := by
    intro s hs
    rw [← AccountRecord.localState?_eq_some_iff, hstate] at hs
    cases hs
  rw [hitem]
  refine ⟨?_, by simp [hfirst], by simp [hfirst], by simp⟩
  simpa using hnone

/-- The one record that counts is looked up. -/
theorem localItem_report_of_some {request : LocalRequest} {account : AccountRecord} {s : OptIn}
    (hstate : account.localState? id = some s) :
    LocalReport id request bytes (.ok account)
      (localItem id request (Base64.UrlSafe.encode bytes) (.ok account)) := by
  have hopted : ¬ ∀ s ∈ account.localStates, s.application ≠ id := by
    rw [← AccountRecord.localState?_eq_none_iff, hstate]
    exact Option.some_ne_none s
  have hread : ∀ P : OptIn → Prop,
      (∃ a t, (Except.ok account : Except ReadError AccountRecord) = .ok a ∧
        IsFirst (fun s => s.application = id) a.localStates t ∧ P t) ↔ P s := by
    intro P
    simp [← AccountRecord.localState?_eq_some_iff, hstate]
  simp only [localItem, hstate]
  refine ⟨?_, fun value => ?_, ?_, ?_⟩
  · cases (KeyedState.ofEntries s.entries).get? (Base64.UrlSafe.encode bytes) <;>
      simpa using hopted
  · rw [hread, ← KeyedState.get?_eq_some_iff]
    cases (KeyedState.ofEntries s.entries).get? (Base64.UrlSafe.encode bytes) <;>
      simp [StateValue.and_text?_eq_iff]
  · rw [hread, ← KeyedState.get?_eq_none_iff]
    cases (KeyedState.ofEntries s.entries).get? (Base64.UrlSafe.encode bytes) <;> simp
  · cases (KeyedState.ofEntries s.entries).get? (Base64.UrlSafe.encode bytes) <;> simp

theorem localItem_report (request : LocalRequest) (bytes : List UInt8)
    (answer : Except ReadError AccountRecord) :
    LocalReport id request bytes answer
      (localItem id request (Base64.UrlSafe.encode bytes) answer) := by
  cases answer with
  | ok account =>
    cases hstate : account.localState? id with
    | none => exact localItem_report_of_none hstate
    | some s => exact localItem_report_of_some hstate
  | error error =>
    cases hmissing : error.isMissing with
    | true =>
      obtain ⟨resource, rfl⟩ := ReadError.isMissing_eq_true_iff.1 hmissing
      have hitem : localItem id request (Base64.UrlSafe.encode bytes)
          (.error (.missing resource)) = .error (.notOptedIn request.address) := rfl
      rw [hitem]
      refine ⟨by simp, by simp, by simp, fun other hother => ?_⟩
      simp [ReadError.missing_ne_of_isMissing_eq_false hother]
    | false =>
      have hitem : localItem id request (Base64.UrlSafe.encode bytes) (.error error) =
          .error (.ledger error) := by
        rw [localItem, hmissing]
        rfl
      have hne := fun resource =>
        (ReadError.missing_ne_of_isMissing_eq_false hmissing resource).symm
      rw [hitem]
      exact ⟨by simp [hne], by simp, by simp, by simp⟩

/-! ## Answers -/

/-- Items that are made of keys one by one report when the item of each key does. -/
theorem forall₂_map_of_forall_mem {κ ι : Type} {P : κ → ι → Prop} {item : κ → ι} {keys : List κ}
    (h : ∀ k ∈ keys, P k (item k)) : List.Forall₂ P keys (keys.map item) :=
  List.forall₂_map_right_iff.2 (List.forall₂_same.2 h)

/-- **Every item of an answer reports what the ledger holds.** -/
theorem answerItems_reports {r : ApplicationRequest} (hw : r.Writable) (client : Client)
    (id : ResourceId) (record : ApplicationRecord) :
    (answerItems client id r record).Reports client id r record := by
  refine ⟨?_, ?_, ?_⟩
  · refine forall₂_map_of_forall_mem fun key hkey => ?_
    obtain ⟨bytes, hbytes⟩ := exists_decode_of_isKey (hw.boxKeys key hkey)
    refine ⟨bytes, hbytes, ?_⟩
    rw [boxResult_of_decode hbytes]
    exact boxItem_report key (client.box id bytes)
  · refine forall₂_map_of_forall_mem fun key hkey => ?_
    obtain ⟨bytes, hbytes⟩ := exists_decode_of_isKey (hw.globalKeys key hkey)
    exact ⟨bytes, hbytes, globalItem_report hbytes record.globalState⟩
  · -- there may be fewer items than requests, but they are those of the first requests
    let locals := (answerItems client id r record).locals
    have hprefix : locals <+: r.localReads.map (localResult client id) := upTo_prefix isFatal _
    have hitems := List.prefix_iff_eq_take.1 hprefix
    rw [← List.map_take] at hitems
    have hreports : List.Forall₂ (fun request item => ∃ bytes,
        Base64.UrlSafe.decode request.key = .ok bytes ∧
          LocalReport id request bytes (client.account request.address) item)
        (r.localReads.take locals.length)
        ((r.localReads.take locals.length).map (localResult client id)) := by
      refine forall₂_map_of_forall_mem fun request hrequest => ?_
      have hkey := hw.localKeys request (List.mem_of_mem_take hrequest)
      obtain ⟨bytes, hbytes⟩ := exists_decode_of_isKey hkey
      refine ⟨bytes, hbytes, ?_⟩
      rw [localResult_of_decode hbytes]
      exact localItem_report request bytes (client.account request.address)
    rw [← hitems] at hreports
    exact hreports

end Resolve

/-- **Every item of an application query reports what the ledger holds** under the bytes that its
key stands for, whichever way the key is spelled and however the reads are worked off. -/
theorem resolveApplicationWith_reports {buffered : Buffering Read} (hb : IsBuffering buffered)
    (config : Config) (client : Client) {pairing : Pairing} {text : String} {q : Query}
    {r : ApplicationRequest} {record : ApplicationRecord}
    (hparse : Query.parse pairing text = .ok q) (hrequest : q.request = .application r)
    (hrecord : client.application q.id = .ok record) :
    ∃ o, (resolveApplicationWith buffered config client q).answer = .ok o ∧
      o.Reports client q.id r record := by
  have hw : q.request.Writable := Query.writable_of_parse hparse
  rw [hrequest] at hw
  rw [resolveApplicationWith_answer hb, answerApplication_of_ok hrequest hrecord]
  exact ⟨_, rfl, Resolve.answerItems_reports hw client q.id record⟩

/-- A ledger on which state holds a key twice, and an account has two records for an application. -/
def twofold : Client where
  application id := .ok ⟨id, [⟨[97], .uint 1⟩, ⟨[97], .uint 2⟩], [], []⟩
  box _ key := if key = [97] then .ok [1] else .error (.missing "box")
  account a := .ok ⟨a, [⟨⟨7⟩, [⟨[97], .uint 3⟩]⟩, ⟨⟨7⟩, [⟨[97], .uint 4⟩]⟩]⟩
  token _ := .error (.missing "token")
  polls _ _ := 0

/-- A request in which the byte 97 is spelled otherwise than it is written. -/
def oddSpelling : ApplicationRequest :=
  ⟨["YR", "Yg"], ["YR"], [⟨"YR", .allA⟩], false⟩

/-- The first entries are found, under a key that is not spelled as the index writes it. -/
theorem resolveApplicationWith_reports_twofold :
    ∃ q o, Query.parse .strict q.text = .ok q ∧ q.request = .application oddSpelling ∧
      (resolveApplicationWith Task.trace .default twofold q).answer = .ok o ∧
      o.boxes = [.ok ⟨"YR", [1]⟩, .error (.absent "Yg")] ∧ o.global = [.ok ⟨"YR", .uint 1, none⟩] ∧
      o.locals = [.ok ⟨"YR", .allA, .uint 3, none⟩] := by
  have hkeys : ∀ key ∈ ["YR", "Yg"], Uri.IsKey key := by
    intro key hkey
    rcases List.mem_pair.1 hkey with rfl | rfl <;> rfl
  have hw : (Request.application oddSpelling).Writable :=
    ⟨hkeys, fun key hkey => hkeys key (by simp_all [oddSpelling]),
      fun l hl => hkeys l.key (by simp_all [oddSpelling])⟩
  let q : Query := ⟨⟨7⟩, .application oddSpelling,
    Uri.write .application ⟨7⟩ (Request.application oddSpelling).entries⟩
  have hparse : Query.parse .strict q.text = .ok q := (Uri.parse_write hw ⟨7⟩).1
  obtain ⟨o, ho, hboxes, hglobal, hlocals⟩ := resolveApplicationWith_reports isBuffering_trace
    .default twofold hparse rfl rfl
  have hlength : o.locals.length = 1 := by
    rw [resolveApplicationWith_answer isBuffering_trace] at ho
    obtain rfl := Except.ok.inj ho
    simp [Resolve.answerItems, Resolve.answerOf, oddSpelling, upTo]
  refine ⟨q, o, hparse, rfl, ho, ?_, ?_, ?_⟩
  · obtain ⟨first, rest, ⟨_, hfirst, hbox⟩, hrest, heq⟩ := List.forall₂_cons_left_iff.1 hboxes
    obtain ⟨second, last, ⟨_, hsecond, hnone⟩, hlast, rfl⟩ := List.forall₂_cons_left_iff.1 hrest
    obtain rfl := List.forall₂_nil_left_iff.1 hlast
    cases hfirst
    cases hsecond
    rw [heq, (hbox.found [1]).2 rfl, hnone.absent.2 ⟨"box", rfl⟩]
  · obtain ⟨item, rest, ⟨_, hdecode, hstate⟩, hrest, heq⟩ := List.forall₂_cons_left_iff.1 hglobal
    obtain rfl := List.forall₂_nil_left_iff.1 hrest
    cases hdecode
    rw [heq, (hstate.found (.uint 1)).2 ⟨[], _, rfl, by simp, rfl⟩]
    rfl
  · obtain ⟨item, hitem⟩ := List.length_eq_one_iff.1 hlength
    rw [hitem] at hlocals
    obtain ⟨⟨_, hdecode, hstate⟩, -⟩ := List.forall₂_cons.1 hlocals
    cases hdecode
    rw [hitem, (hstate.found (.uint 3)).2 ⟨_, _, rfl, ⟨[], _, rfl, by simp, rfl⟩,
      ⟨[], _, rfl, by simp, rfl⟩⟩]
    rfl

end LedgerUri
