import LedgerUri.Proofs.Answer.Consistency
import LedgerUri.Proofs.Answer.Report

/-!
# Failures stay where they are

Two runs of one query are compared, over two ledgers that differ in one place. A box that is
answered differently shows in the items of its own key and nowhere else, even if its read fails for
good. An account that cannot be read ends the query at the first request for it, and leaves what
came before as it was.

* `Client.AgreeButBox`, `Client.AgreeButAccount` — ledgers that differ in one place;
* `Resolve.answerItems_of_agreeButBox`, `Resolve.answerItems_of_agreeButAccount` — the two answers;
* `resolveApplicationWith_isolated` — the same for every way to work off the reads.
-/

namespace LedgerUri

open Resolve

/-- Two clients that answer the same, except that boxes under one key may differ. -/
structure Client.AgreeButBox (key : List UInt8) (c d : Client) : Prop where
  /-- other boxes are the same -/
  box : ∀ id other, other ≠ key → c.box id other = d.box id other
  /-- accounts are the same -/
  account : ∀ address, c.account address = d.account address

/-- Two clients that answer the same, except that one account may differ. -/
structure Client.AgreeButAccount (address : Address) (c d : Client) : Prop where
  /-- boxes are the same -/
  box : ∀ id key, c.box id key = d.box id key
  /-- other accounts are the same -/
  account : ∀ other, other ≠ address → c.account other = d.account other

namespace Resolve

variable {c d : Client} {id : ResourceId} {r : ApplicationRequest} {record : ApplicationRecord}

/-! ## Items -/

/-- The item of a box depends on the box under the bytes of its key only. -/
theorem boxResult_congr {key : String}
    (h : ∀ bytes, Base64.UrlSafe.decode key = .ok bytes → c.box id bytes = d.box id bytes) :
    boxResult c id key = boxResult d id key := by
  rw [boxResult, boxResult]
  cases hkey : keyBytes key with
  | error error => rfl
  | ok bytes => exact congrArg (boxItem key) (h bytes (mapError_eq_ok_iff.1 hkey))

/-- The item of a key of local state depends on its account only. -/
theorem localResult_congr {request : LocalRequest}
    (h : c.account request.address = d.account request.address) :
    localResult c id request = localResult d id request := by
  rw [localResult, localResult, h]

/-- Without a failure no result was fatal, and none is left out. -/
theorem runsThrough_of_failure_eq_none
    (h : (answerItems c id r record).failure = none) :
    RunsThrough (r.localReads.map (localResult c id)) (answerItems c id r record).locals none := by
  rcases runsThrough_or_endsAt (r.localReads.map (localResult c id)) with
    hthrough | ⟨n, error, hends⟩
  · exact ⟨hthrough.items_eq, hthrough.not_fatal, rfl⟩
  · have hfailure := hends.failure_eq.symm.trans h
    cases hfailure

/-! ## Answers -/

/-- A box that differs shows in the items of its key only. -/
theorem answerItems_of_agreeButBox {bytes : List UInt8} (h : c.AgreeButBox bytes d) :
    (∀ (i : ℕ) (key : String), r.boxKeys[i]? = some key → Base64.UrlSafe.decode key ≠ .ok bytes →
      (answerItems c id r record).boxes[i]? = (answerItems d id r record).boxes[i]?) ∧
    answerItems d id r record =
      { answerItems c id r record with boxes := (answerItems d id r record).boxes } := by
  refine ⟨fun i key hkey hne => ?_, ?_⟩
  · have hitem : boxResult c id key = boxResult d id key := by
      refine boxResult_congr fun other hother => h.box id other ?_
      rintro rfl
      exact hne hother
    change (r.boxKeys.map (boxResult c id))[i]? = (r.boxKeys.map (boxResult d id))[i]?
    rw [List.getElem?_map, List.getElem?_map, hkey]
    exact congrArg some hitem
  · have hlocal : localResult c id = localResult d id :=
      funext fun request => localResult_congr (h.account request.address)
    rw [answerItems, answerItems, hlocal]
    rfl

theorem boxResult_of_agreeButAccount {x : Address} (h : c.AgreeButAccount x d) :
    boxResult d id = boxResult c id :=
  funext fun _ => boxResult_congr fun bytes _ => (h.box id bytes).symm

/-- An account that is not asked for does not matter. -/
theorem answerItems_eq_of_agreeButAccount {x : Address} (h : c.AgreeButAccount x d)
    (hne : ∀ l ∈ r.localReads, l.address ≠ x) :
    answerItems d id r record = answerItems c id r record := by
  have hlocal : r.localReads.map (localResult d id) = r.localReads.map (localResult c id) :=
    List.map_congr_left fun l hl => (localResult_congr (h.account _ (hne l hl))).symm
  rw [answerItems, answerItems, hlocal, boxResult_of_agreeButAccount h]

/-- A requested key of an account that cannot be read is a fatal failure. -/
theorem localResult_of_failed {request : LocalRequest} {e : ReadError}
    (hkey : Uri.IsKey request.key) (hread : d.account request.address = .error e)
    (hfatal : e.isMissing = false) : localResult d id request = .error (.ledger e) := by
  obtain ⟨bytes, hbytes⟩ := exists_decode_of_isKey hkey
  rw [localResult_of_decode hbytes, hread, localItem, hfatal]
  rfl

/-- An account that cannot be read ends the local items at the first request for it. -/
theorem answerItems_of_agreeButAccount {x : Address} {e : ReadError} (hw : r.Writable)
    (h : c.AgreeButAccount x d) (hread : d.account x = .error e) (hfatal : e.isMissing = false)
    (hfailure : (answerItems c id r record).failure = none)
    {before after : List LocalRequest} {l : LocalRequest}
    (hrequests : r.localReads = before ++ l :: after) (hbefore : ∀ m ∈ before, m.address ≠ x)
    (hl : l.address = x) :
    (answerItems d id r record).locals =
        (answerItems c id r record).locals.take before.length ++ [.error (.ledger e)] ∧
      (answerItems d id r record).failure = some e.message ∧
      (answerItems d id r record).programs = none := by
  have hthrough := runsThrough_of_failure_eq_none hfailure
  have hfirst : (answerItems c id r record).locals.take before.length =
      before.map (localResult c id) := by
    rw [hthrough.items_eq, hrequests, List.map_append]
    exact List.take_left' (List.length_map _)
  have hnot : ∀ item ∈ before.map (localResult c id), isFatal item = false := by
    intro item hitem
    rw [← hfirst] at hitem
    exact hthrough.not_fatal item (List.mem_of_mem_take hitem)
  have hsame : before.map (localResult d id) = before.map (localResult c id) :=
    List.map_congr_left fun m hm => (localResult_congr (h.account _ (hbefore m hm))).symm
  have hlast : localResult d id l = .error (.ledger e) :=
    localResult_of_failed (hw.localKeys l (by simp [hrequests])) (hl ▸ hread) hfatal
  have herror : (ItemFailure.ledger e).isFatal = true := by
    rw [ItemFailure.isFatal, hfatal]
    rfl
  -- up to the first request for the account both runs go the same way, and there the second stops
  have hlocals : (answerItems d id r record).locals =
      before.map (localResult c id) ++ [.error (.ledger e)] := by
    change upTo isFatal (r.localReads.map (localResult d id)) = _
    rw [hrequests, List.map_append, List.map_cons, hsame, hlast]
    exact upTo_append_cons hnot herror
  have hmessage : (answerItems d id r record).failure = some e.message := by
    change fatalMessage? (answerItems d id r record).locals = _
    rw [hlocals]
    exact fatalMessage?_append_fatal hnot herror
  exact ⟨by rw [hlocals, hfirst], hmessage, programs_answerOf_eq_none hmessage⟩

end Resolve

/-- **Failures stay where they are.** Two ledgers hold the same application. If they differ in the
boxes under one key, the answers differ in the items of that key only. If the second cannot read one
account and the first answer reports no failure, then boxes and global state are the same, and
either the account was not asked for and everything is the same, or the second answer's local items
are the first one's before the first request for it, and the failure. -/
theorem resolveApplicationWith_isolated {buffered : Buffering Read} (hb : IsBuffering buffered)
    (config : Config) {pairing : Pairing} {text : String} {q : Query} {r : ApplicationRequest}
    (hparse : Query.parse pairing text = .ok q) (hrequest : q.request = .application r)
    {c d : Client} {record : ApplicationRecord} (hc : c.application q.id = .ok record)
    (hd : d.application q.id = .ok record) :
    ∃ o p, (resolveApplicationWith buffered config c q).answer = .ok o ∧
      (resolveApplicationWith buffered config d q).answer = .ok p ∧
      (∀ bytes, c.AgreeButBox bytes d →
        o.boxes.length = p.boxes.length ∧
        (∀ (i : ℕ) (key : String), r.boxKeys[i]? = some key →
          Base64.UrlSafe.decode key ≠ .ok bytes → o.boxes[i]? = p.boxes[i]?) ∧
        p = { o with boxes := p.boxes }) ∧
      ∀ x e, c.AgreeButAccount x d → d.account x = .error e → e.isMissing = false →
        o.failure = none →
        p.boxes = o.boxes ∧ p.global = o.global ∧
        ((∀ l ∈ r.localReads, l.address ≠ x) ∧ p = o ∨
          ∃ before l after, r.localReads = before ++ l :: after ∧
            (∀ m ∈ before, m.address ≠ x) ∧ l.address = x ∧
            p.locals = o.locals.take before.length ++ [.error (.ledger e)] ∧
            p.failure = some e.message ∧ p.programs = none) := by
  have hw : q.request.Writable := Query.writable_of_parse hparse
  rw [hrequest] at hw
  rw [resolveApplicationWith_answer hb, resolveApplicationWith_answer hb,
    answerApplication_of_ok hrequest hc, answerApplication_of_ok hrequest hd]
  refine ⟨_, _, rfl, rfl, fun bytes h => ?_, fun x e h hread hfatal hfailure => ?_⟩
  · refine ⟨?_, answerItems_of_agreeButBox h⟩
    exact (List.length_map _).trans (List.length_map _).symm
  · refine ⟨congrArg r.boxKeys.map (boxResult_of_agreeButAccount h), rfl, ?_⟩
    rcases exists_isFirst_or_forall_not (fun l => l.address = x) r.localReads with
      ⟨l, before, after, hrequests, hbefore, hl⟩ | hne
    · exact .inr ⟨before, l, after, hrequests, hbefore, hl,
        answerItems_of_agreeButAccount hw h hread hfatal hfailure hrequests hbefore hl⟩
    · exact .inl ⟨hne, answerItems_eq_of_agreeButAccount h hne⟩

/-- A ledger that answers every read. -/
def quiet : Client where
  application id := .ok ⟨id, [], [1], [2]⟩
  box _ _ := .ok [1]
  account a := .ok ⟨a, []⟩
  token _ := .error (.missing "token")
  polls _ _ := 0

/-- The same ledger, on which the box of the byte 97 cannot be read. -/
def brokenBox : Client :=
  { quiet with box := fun _ key => if key = [97] then .error (.failed "reset") else .ok [1] }

/-- The same ledger, on which one account cannot be read. -/
def unreachable : Client :=
  { quiet with account := fun a => if a = .allB then .error (.timedOut "account") else .ok ⟨a, []⟩ }

/-- A request for two boxes, for keys of two accounts in turn, and for the programs. -/
def inTurn : ApplicationRequest :=
  ⟨["YQ", "Yg"], [], [⟨"YQ", .allA⟩, ⟨"YQ", .allB⟩, ⟨"Yg", .allA⟩], true⟩

theorem writable_inTurn : (Request.application inTurn).Writable := by
  have hkey : Uri.IsKey "YQ" ∧ Uri.IsKey "Yg" := ⟨rfl, rfl⟩
  exact ⟨by simp [inTurn, hkey], by simp [inTurn], by simp [inTurn, hkey]⟩

/-- The broken box changes nothing but its own item, and the account that cannot be read leaves
what came before it. -/
theorem resolveApplicationWith_isolated_quiet :
    quiet.AgreeButBox [97] brokenBox ∧ quiet.AgreeButAccount .allB unreachable ∧
    ∃ q o p s, Query.parse .strict q.text = .ok q ∧ q.request = .application inTurn ∧
      (resolveApplicationWith Task.trace .default quiet q).answer = .ok o ∧
      (resolveApplicationWith Task.trace .default brokenBox q).answer = .ok p ∧
      (resolveApplicationWith Task.trace .default unreachable q).answer = .ok s ∧
      o.boxes[1]? = p.boxes[1]? ∧ p.failure = none ∧ p.locals = o.locals ∧
      s.boxes = o.boxes ∧ s.failure = some "account timed out" ∧ s.programs = none ∧
      s.locals = o.locals.take 1 ++ [.error (.ledger (.timedOut "account"))] := by
  let q : Query := ⟨⟨7⟩, .application inTurn,
    Uri.write .application ⟨7⟩ (Request.application inTurn).entries⟩
  have hparse : Query.parse .strict q.text = .ok q := (Uri.parse_write writable_inTurn ⟨7⟩).1
  obtain ⟨o, p, ho, hp, hbox, -⟩ := resolveApplicationWith_isolated isBuffering_trace .default
    hparse rfl (c := quiet) (d := brokenBox) rfl rfl
  obtain ⟨o', s, ho', hs, -, haccount⟩ := resolveApplicationWith_isolated isBuffering_trace .default
    hparse rfl (c := quiet) (d := unreachable) rfl rfl
  obtain rfl := Except.ok.inj (ho.symm.trans ho')
  have hfailure : o.failure = none := by
    rw [resolveApplicationWith_answer isBuffering_trace] at ho
    obtain rfl := Except.ok.inj ho
    rfl
  have hagreeBox : quiet.AgreeButBox [97] brokenBox := by
    refine ⟨fun _ key hkey => ?_, fun _ => rfl⟩
    simp [quiet, brokenBox, hkey]
  have hagreeAccount : quiet.AgreeButAccount .allB unreachable := by
    refine ⟨fun _ _ => rfl, fun other hother => ?_⟩
    simp [quiet, unreachable, hother]
  obtain ⟨-, hother, hrest⟩ := hbox [97] hagreeBox
  obtain ⟨hboxes, -, hlocals⟩ := haccount .allB (.timedOut "account") hagreeAccount rfl rfl hfailure
  refine ⟨hagreeBox, hagreeAccount, q, o, p, s, hparse, rfl, ho, hp, hs,
    hother 1 "Yg" rfl (by decide), ?_, ?_, hboxes, ?_⟩
  · rw [hrest]
    exact hfailure
  · rw [hrest]
  · rcases hlocals with
      ⟨hne, -⟩ | ⟨before, l, after, hrequests, hbefore, hl, hitems, hmessage, hnone⟩
    · exact absurd rfl (hne ⟨"YQ", .allB⟩ (by simp [inTurn]))
    · refine ⟨hmessage, hnone, ?_⟩
      rw [hitems]
      rcases before with _ | ⟨_, _ | ⟨m, rest⟩⟩
      · cases hrequests
        exact absurd hl (by decide)
      · rfl
      · obtain ⟨-, rfl, -⟩ : _ ∧ ⟨"YQ", .allB⟩ = m ∧ _ := by simpa [inTurn] using hrequests
        exact absurd rfl (hbefore ⟨"YQ", .allB⟩ (by simp))

end LedgerUri
