import LedgerUri.Proofs.Address
import LedgerUri.Proofs.Answer.Application

/-!
# Concurrent reads

How many reads are in flight, how long each takes and which is answered first changes nothing about
the answer to an application query. In particular the local items end with the first fatal failure
in the order of the request, not with the first to arrive: no earlier item is lost to it, and no
later item is reported, even if its read was answered before.

* `resolveApplicationWith_concurrent` — the answer is that of reading one after another.
-/

namespace LedgerUri

open Resolve

variable {client : Client} {q : Query} {r : ApplicationRequest}

/-- Without a fatal failure every local request has its item. -/
theorem answerItems_locals {record : ApplicationRecord}
    (h : ∀ l ∈ r.localReads, isFatal (localResult client q.id l) = false) :
    (answerItems client q.id r record).locals = r.localReads.map (localResult client q.id) :=
  upTo_eq_self (List.forall_mem_map.2 h)

/-- The first fatal failure is the last local item. -/
theorem answerItems_locals_fatal {record : ApplicationRecord} {before after : List LocalRequest}
    {fatal : LocalRequest} (hrequests : r.localReads = before ++ fatal :: after)
    (h : ∀ l ∈ before, isFatal (localResult client q.id l) = false)
    (hfatal : isFatal (localResult client q.id fatal) = true) :
    (answerItems client q.id r record).locals =
      (before ++ [fatal]).map (localResult client q.id) := by
  rw [List.map_append]
  change upTo isFatal (r.localReads.map (localResult client q.id)) = _
  rw [hrequests, List.map_append]
  exact upTo_append_cons (List.forall_mem_map.2 h) hfatal

/-- **Concurrency never changes an answer.** However the reads are worked off, and whatever their
delays, the answer is the one of reading one after another. Its local items are those of all
requests, or of the requests up to the first fatal one. -/
theorem resolveApplicationWith_concurrent {buffered oneByOne : Buffering Read}
    (hbuffered : IsBuffering buffered) (hone : IsBuffering oneByOne) (config : Config)
    (client : Client) (polls : ℕ → Read → ℕ) (q : Query) :
    (resolveApplicationWith buffered config client q).answer =
        (resolveApplicationWith oneByOne { config with maxReads := 1 }
          { client with polls := polls } q).answer ∧
      ∀ r record, q.request = .application r → client.application q.id = .ok record →
        ∃ o, (resolveApplicationWith buffered config client q).answer = .ok o ∧
          ((∀ l ∈ r.localReads, isFatal (localResult client q.id l) = false) →
            o.locals = r.localReads.map (localResult client q.id)) ∧
          ∀ before fatal after, r.localReads = before ++ fatal :: after →
            (∀ l ∈ before, isFatal (localResult client q.id l) = false) →
            isFatal (localResult client q.id fatal) = true →
              o.locals = (before ++ [fatal]).map (localResult client q.id) := by
  rw [resolveApplicationWith_answer hbuffered, resolveApplicationWith_answer hone]
  refine ⟨?_, ?_⟩
  · -- the answer is read off the ledger, and the delays are no part of that
    rfl
  · intro r record hrequest hrecord
    have hanswer : answerApplication client q = .ok (answerItems client q.id r record) := by
      simp only [answerApplication, hrequest, hrecord]
    exact ⟨_, hanswer, answerItems_locals,
      fun before fatal after hrequests => answerItems_locals_fatal hrequests⟩

/-- A ledger on which one account has no state and every other read of an account times out. The
earlier a read is asked for, the later it is answered. -/
def lateAccount : Client where
  application id := .ok ⟨id, [], [], []⟩
  box _ _ := .error (.missing "box")
  account a := if a = .allA then .ok ⟨a, []⟩ else .error (.timedOut "account")
  token _ := .error (.missing "token")
  polls place _ := 9 - place

/-- Three local reads, of which the second is fatal. -/
def threeLocals : Query :=
  ⟨⟨7⟩, .application ⟨[], [], [⟨"YQ", .allA⟩, ⟨"Yg", .allB⟩, ⟨"", .allA⟩], true⟩, ""⟩

/-- With all three reads in flight the fatal one is answered before the first. The first item is
there all the same, and the third is not. -/
theorem resolveApplicationWith_lateAccount :
    IsBuffering (ρ := Read) Task.trace ∧
      (resolveApplicationWith Task.trace ⟨.strict, 3⟩ lateAccount threeLocals).answer =
        (resolveApplicationWith Task.trace ⟨.strict, 1⟩ { lateAccount with polls := fun _ _ => 0 }
          threeLocals).answer ∧
      ∃ o, (resolveApplicationWith Task.trace ⟨.strict, 3⟩ lateAccount threeLocals).answer = .ok o ∧
        o.locals = [.error (.notOptedIn .allA), .error (.ledger (.timedOut "account"))] := by
  obtain ⟨hsame, hitems⟩ := resolveApplicationWith_concurrent isBuffering_trace isBuffering_trace
    ⟨.strict, 3⟩ lateAccount (fun _ _ => 0) threeLocals
  obtain ⟨o, ho, -, hfatal⟩ := hitems _ _ rfl rfl
  refine ⟨isBuffering_trace, hsame, o, ho, ?_⟩
  exact hfatal [⟨"YQ", .allA⟩] ⟨"Yg", .allB⟩ [⟨"", .allA⟩] rfl (by decide) rfl

end LedgerUri
