import LedgerUri.Proofs.Answer.Consistency
import LedgerUri.Proofs.Answer.Report
import LedgerUri.Proofs.Ledger.OneByOne

/-!
# What a query reads

The log of a query's reads follows from the request and the answer. Nothing is read for a URI that
cannot be read itself, and a token is read once. An application is read once, then each of its boxes
that was asked for, then one account for each local item of the answer. With one read at a time no
read is made ahead, so after a fatal local item there are none.

* `BoxRead`, `StopsAtFatal`, `ApplicationLog` — the log of an application query;
* `Resolve.resolveItems_reads` — the reads that follow once the application has been read;
* `resolveUriOver_readsInOrder` — the log of every query, over a ledger that may change.
-/

namespace LedgerUri

open Resolve

/-! ## Statements -/

/-- A read of the box under the bytes that a key stands for. -/
def BoxRead (id : ResourceId) (key : String) (read : Read) : Prop :=
  ∃ bytes, Base64.UrlSafe.decode key = .ok bytes ∧ read = .box id bytes

/-- Local items end right after the first fatal one, or with the last request. -/
structure StopsAtFatal (requested : ℕ) (items : List (Except ItemFailure FoundLocal)) : Prop where
  /-- there are no items that were not asked for -/
  length_le : items.length ≤ requested
  /-- nothing comes after a fatal item -/
  last : ∀ n item, items[n]? = some item → isFatal item = true → n + 1 = items.length
  /-- only a fatal item leaves requests without their items -/
  fatal : items.length < requested → ∃ item ∈ items, isFatal item = true

/-- The reads of an application query, from how the read of the application itself was answered. -/
structure ApplicationLog (id : ResourceId) (r : ApplicationRequest)
    (application : Except ReadError ApplicationRecord) (resolution : Resolution ApplicationAnswer) :
    Prop where
  /-- without an application there is nothing more to read -/
  refused : ∀ error, application = .error error → resolution.reads = [.application id]
  /-- otherwise each requested box is read, and then the account of each local item -/
  followed : ∀ record, application = .ok record → ∃ o boxReads, resolution.answer = .ok o ∧
    resolution.reads = .application id ::
      (boxReads ++ (r.localReads.take o.locals.length).map fun l => .account l.address) ∧
    List.Forall₂ (BoxRead id) r.boxKeys boxReads ∧ StopsAtFatal r.localReads.length o.locals

namespace Resolve

variable {client : Client} {ledgers : Ledgers} {id : ResourceId} {r : ApplicationRequest}

/-! ## Reads of tasks -/

theorem boxTask_read {key : String} {bytes : List UInt8}
    (h : Base64.UrlSafe.decode key = .ok bytes) (place : ℕ) :
    (boxTask client id place key).read = some (.box id bytes) := by
  rw [boxTask, keyBytes_of_decode h]
  rfl

theorem localTask_read {request : LocalRequest} (h : Uri.IsKey request.key) (place : ℕ) :
    (localTask client id place request).read = some (.account request.address) := by
  obtain ⟨bytes, hbytes⟩ := exists_decode_of_isKey h
  rw [localTask, indexKey_of_decode hbytes]
  rfl

/-- When each task makes a read, there is one read for each of them. -/
theorem forall₂_reads {κ ρ α : Type} {P : κ → ρ → Prop} {task : ℕ → κ → Task ρ α} {ks : List κ}
    (h : ∀ place, ∀ k ∈ ks, ∃ read, (task place k).read = some read ∧ P k read) :
    List.Forall₂ P ks ((ks.mapIdx task).filterMap Task.read) := by
  induction ks generalizing task with
  | nil => exact .nil
  | cons k ks ih =>
    obtain ⟨read, hread, hP⟩ := h 0 k List.mem_cons_self
    rw [List.mapIdx_cons, List.filterMap_cons_some hread]
    apply List.Forall₂.cons hP
    apply ih
    intro place l hl
    exact h (place + 1) l (List.mem_cons_of_mem k hl)

theorem boxTasks_reads (ledgers : Ledgers) (id : ResourceId) (hw : r.Writable) :
    List.Forall₂ (BoxRead id) r.boxKeys
      ((r.boxKeys.mapIdx fun place => boxTask (ledgers.box place) id place).filterMap
        Task.read) := by
  apply forall₂_reads
  intro place key hkey
  obtain ⟨bytes, hbytes⟩ := exists_decode_of_isKey (hw.boxKeys key hkey)
  exact ⟨_, boxTask_read hbytes place, bytes, hbytes, rfl⟩

theorem take_mapIdx {κ α : Type} (f : ℕ → κ → α) (ks : List κ) (n : ℕ) :
    (ks.mapIdx f).take n = (ks.take n).mapIdx f := by
  refine List.ext_getElem? fun i => ?_
  rw [List.getElem?_mapIdx, List.getElem?_take, List.getElem?_take, List.getElem?_mapIdx]
  split <;> rfl

/-- The first local tasks read the accounts of the first requests. -/
theorem localTasks_reads (hw : r.Writable) (n : ℕ) :
    ((r.localReads.mapIdx fun place => localTask (ledgers.account place) id place).take
      n).filterMap Task.read = (r.localReads.take n).map fun l => .account l.address := by
  have hreads : List.Forall₂ (fun (l : LocalRequest) read => .account l.address = read)
      (r.localReads.take n) (((r.localReads.take n).mapIdx fun place =>
        localTask (ledgers.account place) id place).filterMap Task.read) := by
    apply forall₂_reads
    intro place l hl
    have hkey := hw.localKeys l (List.mem_of_mem_take hl)
    exact ⟨_, localTask_read hkey place, rfl⟩
  rw [← List.forall₂_map_left_iff, List.forall₂_eq_eq_eq] at hreads
  rw [take_mapIdx, hreads]

/-! ## Reads of a query -/

theorem stopsAtFatal_upTo (results : List (Except ItemFailure FoundLocal)) :
    StopsAtFatal results.length (upTo isFatal results) := by
  rcases runsThrough_or_endsAt results with hthrough | ⟨n, error, hends⟩
  · have hnone := hthrough.not_fatal
    rw [hthrough.items_eq] at hnone ⊢
    constructor
    · exact Nat.le_refl _
    · intro n item hitem hfatal
      rw [hnone item (List.mem_of_getElem? hitem)] at hfatal
      cases hfatal
    · intro hlt
      exact absurd hlt (Nat.lt_irrefl _)
  · constructor
    · exact List.IsPrefix.length_le <| upTo_prefix isFatal results
    · intro m item hitem hfatal
      rw [hends.unique m item hitem hfatal, hends.length_eq]
    · intro _
      exact ⟨_, List.mem_of_getLast? hends.last, hends.fatal⟩

variable {buffered : Buffering Read}

/-- **With one read at a time, the boxes are read and then the accounts of the local items.** -/
theorem resolveItems_reads (hb : IsBuffering buffered) {config : Config} (hone : config.width = 1)
    (ledgers : Ledgers) (id : ResourceId) (record : ApplicationRecord) (hw : r.Writable) :
    ∃ boxReads, (resolveItems buffered config ledgers id r record).2 = boxReads ++
        (r.localReads.take (upTo isFatal (localResults ledgers id r.localReads)).length).map
          (fun l => .account l.address) ∧
      List.Forall₂ (BoxRead id) r.boxKeys boxReads := by
  refine ⟨_, ?_, boxTasks_reads ledgers id hw⟩
  rw [resolveItems, hone]
  simp only [hb.reads_eq Nat.one_pos, hb.reads_through,
    map_result_mapIdx fun place => localTask_result place, localTasks_reads hw]
  rfl

end Resolve

theorem Config.width_eq_one {config : Config} (h : config.maxReads ≤ 1) : config.width = 1 :=
  Nat.max_eq_left h

section Log

variable {buffered : Buffering Read} {config : Config} {q : Query} {r : ApplicationRequest}

/-- The log of an application query is that of its request and its answer. -/
theorem applicationLog_resolveApplicationOver (hb : IsBuffering buffered)
    (hone : config.maxReads ≤ 1) (ledgers : Ledgers) (hw : r.Writable)
    (hrequest : q.request = .application r) :
    ApplicationLog q.id r (ledgers.resource.application q.id)
      (resolveApplicationOver buffered config ledgers q) := by
  constructor
  · intro error herror
    simp only [resolveApplicationOver, hrequest, Resolution.ask, Client.answer, herror]
  · intro record hrecord
    obtain ⟨boxReads, hreads, hboxes⟩ :=
      resolveItems_reads hb (Config.width_eq_one hone) ledgers q.id record hw
    have hstops := stopsAtFatal_upTo (localResults ledgers q.id r.localReads)
    have hlength : (localResults ledgers q.id r.localReads).length = r.localReads.length :=
      List.length_mapIdx
    rw [hlength] at hstops
    have hanswer := resolveApplicationOver_answer hb config ledgers q
    rw [answerOver_of_ok hrequest hrecord] at hanswer
    refine ⟨_, boxReads, hanswer, ?_, hboxes, hstops⟩
    simp only [resolveApplicationOver, hrequest, Resolution.reads_ask, Client.answer, hrecord,
      hreads]
    rfl

end Log

/-- **The reads of a query, in order.** With one read at a time, a URI that cannot be read causes
none, and any other the reads of its query. A token query reads its token. An application query
reads its application, and if that is there its boxes and then the accounts of its local items, one
for each item, up to a fatal one. A resolver for the other kind of resource reads nothing. -/
theorem resolveUriOver_readsInOrder {buffered : Buffering Read} (hb : IsBuffering buffered)
    (config : Config) (hone : config.maxReads ≤ 1) (ledgers : Ledgers) :
    (∀ uri error, Query.parse config.pairing uri = .error error →
      (resolveUriOver buffered config ledgers uri).reads = []) ∧
    (∀ uri q, Query.parse config.pairing uri = .ok q →
      resolveUriOver buffered config ledgers uri = resolveOver buffered config ledgers q) ∧
    ∀ pairing text q, Query.parse pairing text = .ok q →
      (∀ fields, q.request = .token fields →
        (resolveOver buffered config ledgers q).reads = [.token q.id] ∧
        (resolveToken ledgers.resource q).reads = [.token q.id] ∧
        (resolveApplicationOver buffered config ledgers q).reads = []) ∧
      ∀ r, q.request = .application r →
        (resolveOver buffered config ledgers q).reads =
          (resolveApplicationOver buffered config ledgers q).reads ∧
        ApplicationLog q.id r (ledgers.resource.application q.id)
          (resolveApplicationOver buffered config ledgers q) ∧
        (resolveToken ledgers.resource q).reads = [] := by
  refine ⟨?_, ?_, ?_⟩
  · intro uri error hparse
    simp only [resolveUriOver, hparse]
  · intro uri q hparse
    exact resolveUriOver_of_ok hparse
  · intro pairing text q hparse
    refine ⟨?_, ?_⟩
    · intro fields hrequest
      have htoken : (resolveToken ledgers.resource q).reads = [.token q.id] := by
        simp only [resolveToken, hrequest, Resolution.reads_ask]
      rw [resolveOver_of_token hrequest]
      refine ⟨htoken, htoken, ?_⟩
      simp only [resolveApplicationOver, hrequest]
    · intro r hrequest
      have hw : q.request.Writable := Query.writable_of_parse hparse
      rw [hrequest] at hw
      rw [resolveOver_of_application hrequest]
      refine ⟨rfl, applicationLog_resolveApplicationOver hb hone ledgers hw hrequest, ?_⟩
      simp only [resolveToken, hrequest]

/-- A request for one box twice, for three keys of one account, and for the programs. -/
def repeated : ApplicationRequest :=
  ⟨["YQ", "YR"], ["YQ"], List.replicate 3 ⟨"YQ", .allA⟩, true⟩

theorem writable_repeated : (Request.application repeated).Writable := by
  have hkey : Uri.IsKey "YQ" ∧ Uri.IsKey "YR" := ⟨rfl, rfl⟩
  exact ⟨by simp [repeated, hkey], by simp [repeated, hkey], by simp [repeated, hkey]⟩

/-- The box is read twice although it fails, and after the second read of the account has timed out
there is no third. -/
theorem resolveUriOver_readsInOrder_stalling :
    IsBuffering (ρ := Read) Task.trace ∧
    ∃ q, Query.parse .firstAddress q.text = .ok q ∧ q.request = .application repeated ∧
      (resolveUriOver Task.trace .default stalling q.text).reads =
        [.application ⟨7⟩, .box ⟨7⟩ [97], .box ⟨7⟩ [97], .account .allA, .account .allA] := by
  let q : Query := ⟨⟨7⟩, .application repeated,
    Uri.write .application ⟨7⟩ (Request.application repeated).entries⟩
  have hparse : Query.parse .firstAddress q.text = .ok q :=
    (Uri.parse_write writable_repeated ⟨7⟩).2
  obtain ⟨-, huri, hquery⟩ :=
    resolveUriOver_readsInOrder isBuffering_trace .default (Nat.le_refl 1) stalling
  obtain ⟨hsame, hlog, -⟩ := (hquery _ _ q hparse).2 repeated rfl
  obtain ⟨o, boxReads, ho, hreads, hboxes, -⟩ := hlog.followed _ rfl
  have hlength : o.locals.length = 2 := by
    rw [resolveApplicationOver_answer isBuffering_trace] at ho
    obtain rfl := Except.ok.inj ho
    rfl
  have hboxReads : boxReads = [.box ⟨7⟩ [97], .box ⟨7⟩ [97]] := by
    obtain ⟨_, _, ⟨_, hfirst, rfl⟩, hrest, rfl⟩ := List.forall₂_cons_left_iff.1 hboxes
    obtain ⟨_, _, ⟨_, hsecond, rfl⟩, hlast, rfl⟩ := List.forall₂_cons_left_iff.1 hrest
    obtain rfl := List.forall₂_nil_left_iff.1 hlast
    cases hfirst
    cases hsecond
    rfl
  refine ⟨isBuffering_trace, q, hparse, rfl, ?_⟩
  rw [huri q.text q hparse, hsame, hreads, hboxReads, hlength]
  rfl

end LedgerUri
