import LedgerUri.Proofs.Answer.Consistency
import LedgerUri.Proofs.Answer.Report
import LedgerUri.Proofs.Uri.Alternation

/-!
# What was checked is not refused again

Keys and addresses are checked when a URI is read. Several places check them once more, each in its
own way, and would fall back on something if the check failed: the canonical form on the text that
was read, an item on a complaint about its key, the scan for paired addresses on an error, and the
decoder of keys on another error. None of these fallbacks is ever taken, because all checks accept
the same texts.

* `Request.Checked` — what reading guarantees, by characters and lengths;
* `Query.build_eq_ok_of_writable` — the canonical form is built;
* `Resolve.keysTaken_of_answerOver` — no item complains about its key;
* `fallbacks_unreachable` — no fallback is taken.
-/

namespace LedgerUri

/-- A request whose keys and addresses are what they should be, by their characters and lengths. -/
def Request.Checked : Request → Prop
  | .application r =>
    (∀ key ∈ r.boxKeys, Uri.KeyText key) ∧ (∀ key ∈ r.globalKeys, Uri.KeyText key) ∧
      ∀ l ∈ r.localReads, Uri.KeyText l.key ∧ Uri.AddressText l.address.text
  | .token _ => True

/-- An item that complains about its key. -/
def KeyRefused {α : Type} (item : Except ItemFailure α) : Prop :=
  ∃ key reason, item = .error (.badKey key reason)

/-- No item of the answer complains about its key. -/
structure ApplicationAnswer.KeysTaken (o : ApplicationAnswer) : Prop where
  /-- no box does -/
  boxes : ∀ item ∈ o.boxes, ¬ KeyRefused item
  /-- no entry of global state does -/
  global : ∀ item ∈ o.global, ¬ KeyRefused item
  /-- no entry of local state does -/
  locals : ∀ item ∈ o.locals, ¬ KeyRefused item

/-! ## Queries -/

theorem Request.Writable.checked {request : Request} (h : request.Writable) : request.Checked := by
  cases request with
  | application r =>
    have hr : r.Writable := h
    refine ⟨fun key hkey => Uri.isKey_iff.1 (hr.boxKeys key hkey),
      fun key hkey => Uri.isKey_iff.1 (hr.globalKeys key hkey), ?_⟩
    intro l hl
    exact ⟨Uri.isKey_iff.1 (hr.localKeys l hl), Uri.exists_address_iff.1 ⟨l.address, rfl⟩⟩
  | token fields => trivial

/-- The canonical form of a writable query is what is built of it. -/
theorem Query.build_eq_ok_of_writable {q : Query} (h : q.request.Writable) :
    q.build = .ok q.canonical := by
  have hbuild : ∃ uri, q.build = .ok uri := by
    obtain ⟨id, request, text⟩ := q
    cases request with
    | application r => exact ⟨_, Uri.buildApplication_eq_ok_iff.2 ⟨id, rfl, h, rfl⟩⟩
    | token fields => exact ⟨_, rfl⟩
  obtain ⟨uri, huri⟩ := hbuild
  rw [Query.canonical, huri]

/-- The scan for paired addresses does not fail on addresses that were read. -/
theorem Uri.exists_addressesAfterLocals {entries : List Uri.Entry} {addresses : List Address}
    (h : Uri.readAddresses entries = .ok addresses) :
    ∃ paired, Uri.addressesAfterLocals entries = .ok paired := by
  obtain ⟨found, hscan⟩ := Uri.exists_scan entries
  obtain ⟨paired, hpaired, -⟩ := hscan.exists_addresses h
  exact ⟨paired, hpaired⟩

/-! ## Items -/

namespace Resolve

variable {client : Client} {id : ResourceId} {key : String}

theorem boxResult_taken (h : Uri.IsKey key) : ¬ KeyRefused (boxResult client id key) := by
  obtain ⟨bytes, hbytes⟩ := exists_decode_of_isKey h
  rw [boxResult_of_decode hbytes, boxItem.eq_def]
  rintro ⟨k, reason, hrefused⟩
  split at hrefused
  · cases hrefused
  · split at hrefused <;> cases hrefused

theorem globalItem_taken (h : Uri.IsKey key) (index : KeyedState) :
    ¬ KeyRefused (globalItem index key) := by
  obtain ⟨bytes, hbytes⟩ := exists_decode_of_isKey h
  rw [globalItem_of_decode hbytes]
  rintro ⟨k, reason, hrefused⟩
  split at hrefused <;> cases hrefused

theorem localResult_taken {request : LocalRequest} (h : Uri.IsKey request.key) :
    ¬ KeyRefused (localResult client id request) := by
  obtain ⟨bytes, hbytes⟩ := exists_decode_of_isKey h
  rw [localResult_of_decode hbytes, localItem.eq_def]
  rintro ⟨k, reason, hrefused⟩
  split at hrefused
  · split at hrefused <;> cases hrefused
  · split at hrefused
    · cases hrefused
    · split at hrefused <;> cases hrefused

/-- No item of an answer to a writable query complains about its key. -/
theorem keysTaken_of_answerOver {ledgers : Ledgers} {q : Query} {o : ApplicationAnswer}
    (hw : q.request.Writable) (h : answerOver ledgers q = .ok o) : o.KeysTaken := by
  cases hrequest : q.request with
  | token fields =>
    rw [answerOver, hrequest] at h
    cases h
  | application r =>
    rw [hrequest] at hw
    have hr : r.Writable := hw
    rcases eq_of_answerOver_eq_ok hrequest h with ⟨error, -, -, rfl⟩ | ⟨record, -, rfl⟩
    · exact ⟨List.forall_mem_nil _, List.forall_mem_nil _, List.forall_mem_nil _⟩
    · refine ⟨?_, ?_, ?_⟩
      · intro item hitem
        obtain ⟨place, hplace, rfl⟩ := List.mem_mapIdx.1 hitem
        exact boxResult_taken (hr.boxKeys _ (List.getElem_mem hplace))
      · intro item hitem
        obtain ⟨key, hkey, rfl⟩ := List.mem_map.1 hitem
        exact globalItem_taken (hr.globalKeys key hkey) _
      · intro item hitem
        -- the items are the first ones of all results
        have hfirst := upTo_prefix isFatal (localResults ledgers q.id r.localReads)
        have hresult := hfirst.subset hitem
        obtain ⟨place, hplace, rfl⟩ := List.mem_mapIdx.1 hresult
        exact localResult_taken (hr.localKeys _ (List.getElem_mem hplace))

end Resolve

/-! ## Resolvers -/

section Resolvers

variable {buffered : Buffering Read} {config : Config} {ledgers : Ledgers} {q : Query}
  {o : ApplicationAnswer}

theorem resolveApplicationOver_of_resolveOver
    (h : (resolveOver buffered config ledgers q).answer = .ok (.application o)) :
    (resolveApplicationOver buffered config ledgers q).answer = .ok o := by
  cases hrequest : q.request with
  | application r =>
    rw [resolveOver_of_application hrequest] at h
    obtain ⟨found, hfound, heq⟩ := map_eq_ok_iff.1 h
    cases heq
    exact hfound
  | token fields =>
    rw [resolveOver_of_token hrequest] at h
    obtain ⟨found, -, heq⟩ := map_eq_ok_iff.1 h
    cases heq

theorem exists_parse_of_resolveUriOver {uri : String} {answer : Answer}
    (h : (resolveUriOver buffered config ledgers uri).answer = .ok answer) :
    ∃ q, Query.parse config.pairing uri = .ok q ∧
      (resolveOver buffered config ledgers q).answer = .ok answer := by
  cases hparse : Query.parse config.pairing uri with
  | ok q =>
    rw [resolveUriOver_of_ok hparse] at h
    exact ⟨q, rfl, h⟩
  | error error =>
    rw [resolveUriOver, hparse] at h
    cases h

end Resolvers

/-- **No fallback is taken.** Whatever was read, with either pairing, has keys and addresses only;
its canonical form is built, and no item of any answer to it complains about its key, whichever
ledger answers and however the reads are worked off. The same goes for URIs that are resolved at
once. The scan for paired addresses fails on no entries whose addresses were read, and the decoder
of keys fails on no text of symbols without a single one left over. -/
theorem fallbacks_unreachable :
    (∀ pairing text q, Query.parse pairing text = .ok q →
      q.request.Checked ∧ q.build = .ok q.canonical ∧
        ∀ buffered, IsBuffering buffered → ∀ config ledgers o,
          ((resolveApplicationOver buffered config ledgers q).answer = .ok o ∨
            (resolveOver buffered config ledgers q).answer = .ok (.application o)) →
          o.KeysTaken) ∧
    (∀ buffered, IsBuffering buffered → ∀ config ledgers uri o,
      (resolveUriOver buffered config ledgers uri).answer = .ok (.application o) →
        o.KeysTaken) ∧
    (∀ entries addresses, Uri.readAddresses entries = .ok addresses →
      ∃ paired, Uri.addressesAfterLocals entries = .ok paired) ∧
    ∀ text : String, Base64.UrlSafe.foreignChar? 0 text.toList = none →
      text.toList.length % 4 ≠ 1 → ∃ bytes, Base64.decode? .urlSafe text.toList = some bytes := by
  have happlication : ∀ {pairing text q}, Query.parse pairing text = .ok q →
      ∀ {buffered}, IsBuffering buffered → ∀ {config ledgers o},
        (resolveApplicationOver buffered config ledgers q).answer = .ok o → o.KeysTaken := by
    intro pairing text q h buffered hb config ledgers o ho
    rw [resolveApplicationOver_answer hb] at ho
    exact Resolve.keysTaken_of_answerOver (Query.writable_of_parse h) ho
  refine ⟨?_, ?_, ?_, ?_⟩
  · intro pairing text q h
    have hw := Query.writable_of_parse h
    refine ⟨hw.checked, Query.build_eq_ok_of_writable hw, ?_⟩
    rintro buffered hb config ledgers o (ho | ho)
    · exact happlication h hb ho
    · exact happlication h hb (resolveApplicationOver_of_resolveOver ho)
  · intro buffered hb config ledgers uri o ho
    obtain ⟨q, h, hanswer⟩ := exists_parse_of_resolveUriOver ho
    exact happlication h hb (resolveApplicationOver_of_resolveOver hanswer)
  · intro entries addresses h
    exact Uri.exists_addressesAfterLocals h
  · intro text hforeign hlength
    exact Base64.exists_decode? (Base64.UrlSafe.foreignChar?_eq_none.1 hforeign) hlength

/-- A query for a box under a padded key, for one under the empty key, and for an entry of global
state under a key with bits that carry nothing. -/
def uncleanKeys : Query where
  id := ⟨7⟩
  request := .application ⟨["YQ", ""], ["YR"], [], false⟩
  text := "algorand://app/7?box=YQ%3D=&global=YR&box="

/-- Unclean keys are read, written again, and answered. -/
theorem fallbacks_unreachable_uncleanKeys :
    ∃ o, Query.parse .firstAddress uncleanKeys.text = .ok uncleanKeys ∧
      uncleanKeys.request.Checked ∧ uncleanKeys.build = .ok uncleanKeys.canonical ∧
      IsBuffering (ρ := Read) Task.trace ∧
      (resolveApplicationOver Task.trace .default (.constant twofold) uncleanKeys).answer = .ok o ∧
      (resolveUriOver Task.trace .default (.constant twofold) uncleanKeys.text).answer =
        .ok (.application o) ∧ o.KeysTaken ∧
      (∃ paired, Uri.addressesAfterLocals (Uri.localEntries ⟨"", .allA⟩) = .ok paired) ∧
      ∃ bytes, Base64.decode? .urlSafe "YR".toList = some bytes := by
  have hparse : Query.parse .firstAddress uncleanKeys.text = .ok uncleanKeys := rfl
  obtain ⟨o, ho⟩ : ∃ o,
      (resolveApplicationOver Task.trace .default (.constant twofold) uncleanKeys).answer =
        .ok o := by
    rw [resolveApplicationOver_answer isBuffering_trace]
    exact ⟨_, answerOver_of_ok rfl rfl⟩
  have huri : (resolveUriOver Task.trace .default (.constant twofold) uncleanKeys.text).answer =
      .ok (.application o) := by
    rw [resolveUriOver_of_ok hparse, resolveOver_of_application rfl, Resolution.map, ho]
    rfl
  obtain ⟨hqueries, huris, hscan, hdecode⟩ := fallbacks_unreachable
  obtain ⟨hchecked, hbuild, -⟩ := hqueries _ _ _ hparse
  refine ⟨o, hparse, hchecked, hbuild, isBuffering_trace, ho, huri,
    huris _ isBuffering_trace _ _ _ _ huri, ?_, ?_⟩
  · exact hscan _ [.allA] (Uri.readAddresses_eq_ok_iff.2 rfl)
  · exact hdecode "YR" rfl (by decide)

end LedgerUri
