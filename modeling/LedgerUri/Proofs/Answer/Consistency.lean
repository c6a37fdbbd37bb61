import LedgerUri.Proofs.Address
import LedgerUri.Proofs.Answer.Application
import LedgerUri.Proofs.Ledger.State

/-!
# The parts of an answer belong together

The three lists of items, the programs and the two flags come from different phases of a query, the
last of which may end early. Whatever the reads are answered, and even if the ledger changes in
between, they tell one story: either every local request has its item and nothing failed, or the
items end with the first fatal one, which is the failure of the query and withholds the programs.
Failures of boxes are no part of that story.

* `RunsThrough`, `EndsAt` — the two ways in which local items can end;
* `Resolve.runsThrough_or_endsAt` — there is no third;
* `resolveApplicationOver_consistent` — what follows for every answer.
-/

namespace LedgerUri

open Resolve

/-- All results are reported, and none of them is fatal. -/
structure RunsThrough (results items : List (Except ItemFailure FoundLocal))
    (failure : Option String) : Prop where
  /-- nothing is left out -/
  items_eq : items = results
  /-- no item is a fatal failure -/
  not_fatal : ∀ item ∈ items, isFatal item = false
  /-- so there is no failure to report -/
  failure_eq : failure = none

/-- The first fatal result ends the items. -/
structure EndsAt (n : ℕ) (error : ItemFailure)
    (results items : List (Except ItemFailure FoundLocal)) (failure : Option String) : Prop where
  /-- the failure is fatal -/
  fatal : error.isFatal = true
  /-- it is the result of the request at place `n` -/
  result : results[n]? = some (.error error)
  /-- no result before it is fatal -/
  first : ∀ m < n, ∀ item, results[m]? = some item → isFatal item = false
  /-- the items are the results up to it -/
  items_eq : items = results.take (n + 1)
  /-- so there is one more of them than its place -/
  length_eq : items.length = n + 1
  /-- it is the last item -/
  last : items.getLast? = some (.error error)
  /-- no other item is fatal -/
  unique : ∀ m item, items[m]? = some item → isFatal item = true → m = n
  /-- it is reported -/
  failure_eq : failure = some error.message

/-- The flags and lists of an answer for an application that is there. -/
structure ApplicationAnswer.Consistent (r : ApplicationRequest)
    (results : List (Except ItemFailure FoundLocal)) (o : ApplicationAnswer) : Prop where
  /-- the application is there -/
  present : o.present = true
  /-- every requested box has its item -/
  boxes_length : o.boxes.length = r.boxKeys.length
  /-- every requested key of global state has its item -/
  global_length : o.global.length = r.globalKeys.length
  /-- local items end in one of the two ways -/
  locals : RunsThrough results o.locals o.failure ∨
    ∃ n error, EndsAt n error results o.locals o.failure

namespace Resolve

variable {α : Type}

/-! ## Local items -/

theorem exists_error_of_isFatal {item : Except ItemFailure α} (h : isFatal item = true) :
    ∃ error, item = .error error ∧ error.isFatal = true := by
  cases item with
  | ok a => cases h
  | error error => exact ⟨error, rfl, h⟩

/-- Without a fatal item there is no failure to report. -/
theorem fatalMessage?_eq_none {items : List (Except ItemFailure α)}
    (h : ∀ item ∈ items, isFatal item = false) : fatalMessage? items = none := by
  rw [fatalMessage?, List.findSome?_eq_none_iff]
  intro item hitem
  cases item with
  | ok a => rfl
  | error error =>
    have herror : error.isFatal = false := h _ hitem
    simp [herror]

/-- The failure to report is that of the fatal item at the end. -/
theorem fatalMessage?_append_fatal {before : List (Except ItemFailure α)} {error : ItemFailure}
    (h : ∀ item ∈ before, isFatal item = false) (hfatal : error.isFatal = true) :
    fatalMessage? (before ++ [.error error]) = some error.message := by
  have hnone := fatalMessage?_eq_none h
  rw [fatalMessage?] at hnone
  rw [fatalMessage?, List.findSome?_append, hnone]
  simp [hfatal]

/-- The items up to a first fatal one end there. -/
theorem endsAt_length {before after : List (Except ItemFailure FoundLocal)} {error : ItemFailure}
    (h : ∀ item ∈ before, isFatal item = false) (hfatal : error.isFatal = true) :
    EndsAt before.length error (before ++ .error error :: after) (before ++ [.error error])
      (fatalMessage? (before ++ [.error error])) where
  fatal := hfatal
  result := by simp
  first := by
    intro m hm item hitem
    rw [List.getElem?_append_left hm] at hitem
    exact h item (List.mem_of_getElem? hitem)
  items_eq := by
    have hsplit : before ++ .error error :: after = before ++ [.error error] ++ after :=
      List.append_cons before (.error error) after
    rw [hsplit]
    exact (List.take_left' List.length_append).symm
  length_eq := List.length_append
  last := by simp
  unique := by
    intro m item hitem hisFatal
    rcases Nat.lt_trichotomy m before.length with hm | hm | hm
    · rw [List.getElem?_append_left hm] at hitem
      have hnot := h item (List.mem_of_getElem? hitem)
      rw [hnot] at hisFatal
      cases hisFatal
    · exact hm
    · have hlength : (before ++ [Except.error error]).length ≤ m := by
        rw [List.length_append]
        exact hm
      rw [List.getElem?_eq_none hlength] at hitem
      cases hitem
  failure_eq := fatalMessage?_append_fatal h hfatal

/-- **Local items end in one of two ways**, whatever the results are. -/
theorem runsThrough_or_endsAt (results : List (Except ItemFailure FoundLocal)) :
    RunsThrough results (upTo isFatal results) (fatalMessage? (upTo isFatal results)) ∨
      ∃ n error, EndsAt n error results (upTo isFatal results)
        (fatalMessage? (upTo isFatal results)) := by
  rcases exists_isFirst_or_forall_not (isFatal · = true) results with
    ⟨item, before, after, rfl, hbefore, hitem⟩ | hnone
  · obtain ⟨error, rfl, herror⟩ := exists_error_of_isFatal hitem
    have hbefore : ∀ b ∈ before, isFatal b = false :=
      fun b hb => Bool.eq_false_iff.2 (hbefore b hb)
    rw [upTo_append_cons hbefore hitem]
    exact .inr ⟨before.length, error, endsAt_length hbefore herror⟩
  · have hnone : ∀ item ∈ results, isFatal item = false :=
      fun item hitem => Bool.eq_false_iff.2 (hnone item hitem)
    rw [upTo_eq_self hnone]
    exact .inl ⟨rfl, hnone, fatalMessage?_eq_none hnone⟩

/-! ## Answers -/

variable {id : ResourceId} {r : ApplicationRequest} {record : ApplicationRecord}
  {boxes : List (Except ItemFailure FoundBox)} {results : List (Except ItemFailure FoundLocal)}

theorem answerOf_consistent (hboxes : boxes.length = r.boxKeys.length) :
    (answerOf id r record boxes results).Consistent r results :=
  ⟨rfl, hboxes, List.length_map _, runsThrough_or_endsAt results⟩

/-- When no result is fatal, the answer has all results and nothing is withheld. -/
theorem answerOf_of_not_fatal (h : ∀ item ∈ results, isFatal item = false) :
    answerOf id r record boxes results =
      ⟨id, true, none, boxes,
        r.globalKeys.map (globalItem (KeyedState.ofEntries record.globalState)), results,
        if r.programs then some ⟨record.approvalProgram, record.clearProgram⟩ else none⟩ := by
  rw [answerOf, upTo_eq_self h, fatalMessage?_eq_none h, Option.isNone_none, Bool.and_true]

/-- Programs are part of an answer when they were asked for and nothing failed. -/
theorem programs_answerOf_eq_some_iff {p : Programs} :
    (answerOf id r record boxes results).programs = some p ↔
      r.programs = true ∧ (answerOf id r record boxes results).failure = none ∧
        p = ⟨record.approvalProgram, record.clearProgram⟩ := by
  change (if r.programs && (answerOf id r record boxes results).failure.isNone then
    some (Programs.mk record.approvalProgram record.clearProgram) else none) = some p ↔ _
  split
  · next h =>
    rw [Bool.and_eq_true, Option.isNone_iff_eq_none] at h
    simp [h.1, h.2, eq_comm]
  · next h =>
    rw [Bool.and_eq_true, Option.isNone_iff_eq_none] at h
    simp only [reduceCtorEq, false_iff]
    rintro ⟨hprograms, hfailure, -⟩
    exact h ⟨hprograms, hfailure⟩

/-- A failure withholds the programs. -/
theorem programs_answerOf_eq_none {message : String}
    (h : (answerOf id r record boxes results).failure = some message) :
    (answerOf id r record boxes results).programs = none := by
  rw [Option.eq_none_iff_forall_ne_some]
  intro p hp
  rw [programs_answerOf_eq_some_iff, h] at hp
  cases hp.2.1

end Resolve

theorem ApplicationAnswer.complete_eq_true_iff {o : ApplicationAnswer} :
    o.complete = true ↔ o.present = true ∧ o.failure = none := by
  rw [complete, Bool.and_eq_true, Option.isNone_iff_eq_none]

section AnswerOver

variable {ledgers : Ledgers} {q : Query} {r : ApplicationRequest} {o : ApplicationAnswer}

/-- A query is refused when the application cannot be read for another reason than that it is not
there. -/
theorem answerOver_eq_error_iff {e : ResolveError} (hrequest : q.request = .application r) :
    answerOver ledgers q = .error e ↔
      ∃ error, e = .ledger error ∧ ledgers.resource.application q.id = .error error ∧
        error.isMissing = false := by
  cases hread : ledgers.resource.application q.id with
  | ok record => simp [answerOver_of_ok hrequest hread]
  | error error =>
    rw [answerOver_of_error hrequest hread]
    cases hmissing : error.isMissing with
    | true => simp [hmissing]
    | false =>
      simp only [Bool.false_eq_true, if_false, Except.error.injEq]
      refine ⟨fun h => ⟨error, h.symm, rfl, hmissing⟩, ?_⟩
      rintro ⟨_, rfl, rfl, -⟩
      rfl

theorem answerOver_of_missing {error : ReadError} (hrequest : q.request = .application r)
    (hread : ledgers.resource.application q.id = .error error) (hmissing : error.isMissing = true) :
    answerOver ledgers q = .ok (.missing q.id error.message) := by
  rw [answerOver_of_error hrequest hread, if_pos hmissing]

/-- What is answered is the empty answer, or one that is made of items. -/
theorem eq_of_answerOver_eq_ok (hrequest : q.request = .application r)
    (h : answerOver ledgers q = .ok o) :
    (∃ error, ledgers.resource.application q.id = .error error ∧ error.isMissing = true ∧
      o = .missing q.id error.message) ∨
    ∃ record, ledgers.resource.application q.id = .ok record ∧
      o = answerOf q.id r record (boxResults ledgers q.id r.boxKeys)
        (localResults ledgers q.id r.localReads) := by
  cases hread : ledgers.resource.application q.id with
  | ok record =>
    rw [answerOver_of_ok hrequest hread] at h
    exact .inr ⟨record, rfl, (Except.ok.inj h).symm⟩
  | error error =>
    rw [answerOver_of_error hrequest hread] at h
    split at h
    · next hmissing => exact .inl ⟨error, rfl, hmissing, (Except.ok.inj h).symm⟩
    · cases h

/-- Programs are shown when they were asked for, the application is there and nothing failed. -/
theorem programs_eq_some_iff_of_answerOver (hrequest : q.request = .application r)
    (h : answerOver ledgers q = .ok o) (p : Programs) :
    o.programs = some p ↔ r.programs = true ∧ o.present = true ∧ o.failure = none ∧
      ∃ record, ledgers.resource.application q.id = .ok record ∧
        p = ⟨record.approvalProgram, record.clearProgram⟩ := by
  rcases eq_of_answerOver_eq_ok hrequest h with ⟨error, hread, -, rfl⟩ | ⟨record, hread, rfl⟩
  · simp [ApplicationAnswer.missing]
  · rw [programs_answerOf_eq_some_iff, hread]
    have hpresent : ∀ boxes results, (answerOf q.id r record boxes results).present = true :=
      fun _ _ => rfl
    simp [hpresent]

/-- What boxes are answered only shows in their own items. -/
theorem answerOver_with_box (hrequest : q.request = .application r)
    (h : answerOver ledgers q = .ok o) (box : ℕ → Client) :
    ∃ boxes, answerOver { ledgers with box := box } q = .ok { o with boxes := boxes } := by
  rcases eq_of_answerOver_eq_ok hrequest h with ⟨error, hread, hmissing, rfl⟩ | ⟨record, hread, rfl⟩
  · exact ⟨[], answerOver_of_missing hrequest hread hmissing⟩
  · exact ⟨_, answerOver_of_ok hrequest hread⟩

end AnswerOver

/-- **The parts of an answer belong together.** A query is refused exactly when the application
cannot be read for another reason than that it is not there. If it is not there, the answer says so
and is empty. If it is, all boxes and keys of global state have their items, and the local items end
in one of two ways. Programs are shown exactly when they were asked for and nothing failed. What the
boxes are answered only shows in their own items. -/
theorem resolveApplicationOver_consistent {buffered : Buffering Read} (hb : IsBuffering buffered)
    (config : Config) (ledgers : Ledgers) {q : Query} {r : ApplicationRequest}
    (hrequest : q.request = .application r) :
    let read := ledgers.resource.application q.id
    let answer := fun ledgers => (resolveApplicationOver buffered config ledgers q).answer
    (∀ e, answer ledgers = .error e ↔
      ∃ error, e = .ledger error ∧ read = .error error ∧ error.isMissing = false) ∧
    (∀ error, read = .error error → error.isMissing = true →
      ∃ o, answer ledgers = .ok o ∧ o.present = false ∧ o.failure = some error.message ∧
        o.boxes = [] ∧ o.global = [] ∧ o.locals = [] ∧ o.programs = none) ∧
    (∀ record, read = .ok record →
      ∃ o, answer ledgers = .ok o ∧ o.Consistent r (localResults ledgers q.id r.localReads)) ∧
    ∀ o, answer ledgers = .ok o →
      (∀ p, o.programs = some p ↔ r.programs = true ∧ o.present = true ∧ o.failure = none ∧
        ∃ record, read = .ok record ∧ p = ⟨record.approvalProgram, record.clearProgram⟩) ∧
      (o.complete = true ↔ o.present = true ∧ o.failure = none) ∧
      ∀ box, ∃ boxes, answer { ledgers with box := box } = .ok { o with boxes := boxes } := by
  intro read answer
  have hanswer : ∀ ledgers, answer ledgers = answerOver ledgers q :=
    fun ledgers => resolveApplicationOver_answer hb config ledgers q
  simp only [hanswer]
  refine ⟨fun e => answerOver_eq_error_iff hrequest, fun error hread hmissing => ?_,
    fun record hread => ?_, fun o ho => ⟨programs_eq_some_iff_of_answerOver hrequest ho,
      ApplicationAnswer.complete_eq_true_iff, answerOver_with_box hrequest ho⟩⟩
  · exact ⟨_, answerOver_of_missing hrequest hread hmissing, rfl, rfl, rfl, rfl, rfl, rfl⟩
  · exact ⟨_, answerOver_of_ok hrequest hread, answerOf_consistent List.length_mapIdx⟩

/-- A ledger on which no account has any state and no box can be read. -/
def boxless : Client where
  application id := .ok ⟨id, [], [1], [2]⟩
  box _ _ := .error (.failed "reset")
  account a := .ok ⟨a, []⟩
  token _ := .error (.missing "token")
  polls _ _ := 0

/-- The same ledger, on which accounts cannot be read any more after the first of them. -/
def stalling : Ledgers where
  resource := boxless
  box _ := boxless
  account place :=
    { boxless with
      account := fun a => if place = 0 then .ok ⟨a, []⟩ else .error (.timedOut "account") }

/-- A request for a box, three times the same key of one account, and the programs. -/
def thriceLocal : Query :=
  ⟨⟨7⟩, .application ⟨["YQ"], [], List.replicate 3 ⟨"YQ", .allA⟩, true⟩, ""⟩

/-- What the same key is answered each time. -/
def stallingResults : List (Except ItemFailure FoundLocal) :=
  [.error (.notOptedIn .allA), .error (.ledger (.timedOut "account")),
    .error (.ledger (.timedOut "account"))]

/-- The same key is answered, then fatal, then left out, and that is the failure of the query. That
the box failed before is not. -/
theorem resolveApplicationOver_consistent_stalling :
    IsBuffering (ρ := Read) Task.trace ∧
      ∃ o, (resolveApplicationOver Task.trace .default stalling thriceLocal).answer = .ok o ∧
        o.boxes.length = 1 ∧ o.locals = stallingResults.take 2 ∧
        o.failure = some "account timed out" ∧ o.complete = false ∧ o.programs = none := by
  obtain ⟨-, -, hok, hall⟩ :=
    resolveApplicationOver_consistent isBuffering_trace .default stalling (q := thriceLocal) rfl
  obtain ⟨o, ho, hconsistent⟩ := hok _ rfl
  obtain ⟨hprograms, hcomplete, -⟩ := hall o ho
  have hlocals : RunsThrough stallingResults o.locals o.failure ∨
      ∃ n error, EndsAt n error stallingResults o.locals o.failure := hconsistent.locals
  obtain ⟨n, error, hends⟩ : ∃ n error, EndsAt n error stallingResults o.locals o.failure := by
    rcases hlocals with hthrough | hends
    · have hitem : .error (.ledger (.timedOut "account")) ∈ o.locals := by
        rw [hthrough.items_eq]
        exact List.mem_cons_of_mem _ List.mem_cons_self
      cases hthrough.not_fatal _ hitem
    · exact hends
  have hn : n = 1 := by
    rcases n with _ | _ | n
    · cases hends.result
      cases hends.fatal
    · rfl
    · cases hends.first 1 (by omega) _ rfl
  subst hn
  cases hends.result
  refine ⟨isBuffering_trace, o, ho, hconsistent.boxes_length, hends.items_eq, hends.failure_eq,
    ?_, ?_⟩
  · rw [Bool.eq_false_iff, ne_eq, hcomplete, hends.failure_eq]
    exact fun h => Option.some_ne_none _ h.2
  · rw [Option.eq_none_iff_forall_ne_some]
    intro p hp
    have hnone := ((hprograms p).1 hp).2.2.1
    rw [hends.failure_eq] at hnone
    cases hnone

end LedgerUri
