import LedgerUri.Json.Uri
import LedgerUri.Proofs.Uri.Canonical
import LedgerUri.Proofs.Uri.Strict

/-!
# Queries carried as text

A query is exchanged as the URI that it was read from, and its receiver reads that URI anew. The
pairing does not travel along: the receiver pairs every local key with the first address. So a
query comes back with the same keys, and comes back unchanged exactly when its local keys are all
read from one address.

* `parse_text` — the text of a query is always read again;
* `CarriedAs` — what comes back;
* `fromJson_toJson` — of whatever is read, this comes back, and when it is the very query.
-/

namespace LedgerUri.Query

open Uri

variable {pairing : Pairing} {text : String} {q p : Query}

/-- What comes back when a query is carried as its text. -/
structure CarriedAs (q p : Query) : Prop where
  /-- the same text -/
  text_eq : p.text = q.text
  /-- the same kind of resource -/
  kind_eq : p.kind = q.kind
  /-- the same id -/
  id_eq : p.id = q.id
  /-- a token is asked for the same fields -/
  token : ∀ fields, q.request = .token fields → p.request = .token fields
  /-- an application is asked for the same keys, and all local ones are read from the address of
  the first -/
  application : ∀ r, q.request = .application r → ∃ s, p.request = .application s ∧
    s.SameKeys r ∧ ∀ l ∈ s.localReads, ∀ first ∈ r.localReads.head?, l.address = first.address

/-- The text of a query that was read is read again, from the first address. -/
theorem parse_text (h : parse pairing text = .ok q) :
    parse .firstAddress q.text = .ok { q with request := q.request.atFirst } := by
  obtain rfl : q.text = text := (parse_eq_ok_iff.1 h).2
  cases pairing with
  | firstAddress => rw [h, atFirst_of_parse h]
  | strict => exact parse_firstAddress_of_strict h

theorem carriedAs_atFirst (q : Query) :
    CarriedAs q { q with request := q.request.atFirst } := by
  obtain ⟨id, request, text⟩ := q
  refine ⟨rfl, request.kind_atFirst, rfl, ?_, ?_⟩
  · rintro fields ⟨⟩
    rfl
  · rintro r ⟨⟩
    exact ⟨r.atFirst, rfl, r.sameKeys_atFirst,
      fun l hl first hfirst => LocalRequest.address_of_mem_atFirst hl hfirst⟩

/-- Reading from the first address changes a query unless its local keys share an address. -/
theorem atFirst_eq_self_iff :
    { q with request := q.request.atFirst } = q ↔ ∀ r, q.request = .application r →
      ∀ l ∈ r.localReads, ∀ m ∈ r.localReads, l.address = m.address := by
  obtain ⟨id, request, text⟩ := q
  cases request with
  | application r =>
    have hrequest : (⟨id, (Request.application r).atFirst, text⟩ : Query) =
        ⟨id, .application r, text⟩ ↔ r.atFirst = r := by
      simp [Request.atFirst]
    rw [hrequest, ApplicationRequest.atFirst_eq_self_iff]
    refine ⟨?_, fun h => h r rfl⟩
    rintro h s ⟨⟩
    exact h
  | token fields => exact ⟨fun _ r hr => (by cases hr), fun _ => rfl⟩

theorem fromJson_toJson_eq_ok_iff :
    fromJson q.toJson = .ok p ↔ parse .firstAddress q.text = .ok p :=
  mapError_eq_ok_iff

/-- **Carrying a query as text.** Whatever is read, with either pairing, can be carried as JSON or
as its text, and comes back with the same kind, id, text and keys, all local keys at the address of
the first. It comes back unchanged exactly when all local keys had one address, as they have if it
was read in that way. -/
theorem fromJson_toJson (pairing : Pairing) (text : String) (q : Query)
    (h : parse pairing text = .ok q) :
    ∃ p, fromJson q.toJson = .ok p ∧ parse .firstAddress q.text = .ok p ∧ CarriedAs q p ∧
      (p = q ↔ ∀ r, q.request = .application r →
        ∀ l ∈ r.localReads, ∀ m ∈ r.localReads, l.address = m.address) ∧
      (pairing = .firstAddress → p = q) := by
  have hparse := parse_text h
  refine ⟨_, fromJson_toJson_eq_ok_iff.2 hparse, hparse, carriedAs_atFirst q,
    atFirst_eq_self_iff, ?_⟩
  rintro rfl
  rw [atFirst_of_parse h]

/-- The URI of a request with two accounts. -/
def twoAccountsUri : String :=
  "algorand://app/7?box=&box=YQ&box=YQ&global=YQ&local=YQ&algorandaddress=" ++ Address.allA.text ++
    "&local=&algorandaddress=" ++ Address.allB.text ++ "&tealcode"

theorem parse_twoAccountsUri :
    parse .strict twoAccountsUri = .ok ⟨⟨7⟩, .application twoAccounts, twoAccountsUri⟩ := by
  have hwrite : write .application ⟨7⟩ (Request.application twoAccounts).entries =
      twoAccountsUri := by decide +kernel
  rw [← hwrite]
  exact (parse_write writable_twoAccounts ⟨7⟩).1

/-- Read strictly, it comes back as a query that differs, but for the same keys. -/
theorem fromJson_toJson_twoAccounts :
    ∃ q p, parse .strict twoAccountsUri = .ok q ∧ fromJson q.toJson = .ok p ∧ CarriedAs q p := by
  obtain ⟨p, hp, -, hcarried, -⟩ := fromJson_toJson .strict _ _ parse_twoAccountsUri
  exact ⟨_, p, parse_twoAccountsUri, hp, hcarried⟩

/-- Carrying it loses the second account. -/
theorem fromJson_toJson_ne :
    ∃ q p, parse .strict twoAccountsUri = .ok q ∧ fromJson q.toJson = .ok p ∧
      parse .firstAddress q.text = .ok p ∧ p ≠ q := by
  have hparse := parse_text parse_twoAccountsUri
  refine ⟨_, _, parse_twoAccountsUri, fromJson_toJson_eq_ok_iff.2 hparse, hparse, ?_⟩
  decide +kernel

end LedgerUri.Query
