import LedgerUri.Proofs.Uri.Written
import LedgerUri.Uri.Examples

/-!
# Building and reading back

Whatever is built is read back. With strict pairing nothing changes at all. First-address pairing
keeps the keys and moves every local read to the address of the first, so it changes nothing
exactly when there is only one address.

* `LocalRequest.atFirst_eq_self_iff` — when reading from the first address changes nothing;
* `parse_build` — the round trip, for applications and tokens;
* `check_and_parse_examples` — the examples are written URIs, so they can be read too.
-/

namespace LedgerUri

/-! ## Reading from the first address -/

theorem LocalRequest.mk_key_eq_self_iff {l : LocalRequest} {a : Address} :
    LocalRequest.mk l.key a = l ↔ l.address = a := by
  refine ⟨fun h => ?_, ?_⟩
  · rw [← h]
  · rintro rfl
    rfl

/-- Reading from the first address changes nothing when all addresses are the same. -/
theorem LocalRequest.atFirst_eq_self_iff {locals : List LocalRequest} :
    atFirst locals = locals ↔ ∀ l ∈ locals, ∀ m ∈ locals, l.address = m.address := by
  rcases locals with _ | ⟨first, rest⟩
  · exact ⟨fun _ l hl => absurd hl List.not_mem_nil, fun _ => rfl⟩
  · have hmoved : atFirst (first :: rest) = first :: rest ↔
        ∀ l ∈ first :: rest, l.address = first.address := by
      have hmap := List.map_inj_left (l := first :: rest) (g := id)
        (f := fun l : LocalRequest => ⟨l.key, first.address⟩)
      rw [List.map_id] at hmap
      rw [atFirst, hmap]
      exact forall₂_congr fun l _ => mk_key_eq_self_iff
    rw [hmoved]
    exact ⟨fun h l hl m hm => (h l hl).trans (h m hm).symm,
      fun h l hl => h l hl first List.mem_cons_self⟩

theorem ApplicationRequest.atFirst_eq_self_iff {r : ApplicationRequest} :
    r.atFirst = r ↔ ∀ l ∈ r.localReads, ∀ m ∈ r.localReads, l.address = m.address := by
  rw [← LocalRequest.atFirst_eq_self_iff]
  obtain ⟨boxKeys, globalKeys, localReads, programs⟩ := r
  simp [ApplicationRequest.atFirst]

/-! ## The round trip -/

namespace Uri

/-- **Building and reading back.** A built URI follows the strict grammar and is its own canonical
form. An application's URI is read strictly as the very request; with first-address pairing it is
read with the same keys, all of them at the address of the first local one, which is the same
request exactly when all addresses are the same. A token's URI can be built of any fields, and is
read as these with either pairing. -/
theorem parse_build (n : UInt64) :
    (∀ (r : ApplicationRequest) (u : String), buildApplication (.word64 n) r = .ok u →
      Grammar.check u = .ok () ∧
      (∃ q, Query.parse .strict u = .ok q ∧ q.kind = .application ∧ q.id = ⟨n⟩ ∧
        q.request = .application r ∧ q.canonical = u) ∧
      ∃ q f, Query.parse .firstAddress u = .ok q ∧ q.id = ⟨n⟩ ∧ q.request = .application f ∧
        f.SameKeys r ∧
        (∀ l ∈ f.localReads, ∀ first ∈ r.localReads.head?, l.address = first.address) ∧
        (f = r ↔ ∀ l ∈ r.localReads, ∀ m ∈ r.localReads, l.address = m.address)) ∧
    ∀ fields : TokenFieldSet, ∃ u, buildToken (.word64 n) fields = .ok u ∧
      Grammar.check u = .ok () ∧
      ∀ pairing, ∃ q, Query.parse pairing u = .ok q ∧ q.kind = .token ∧ q.id = ⟨n⟩ ∧
        q.request = .token fields ∧ q.canonical = u := by
  refine ⟨fun r u hbuild => ?_, ?_⟩
  · obtain ⟨id, hid, hwritable, rfl⟩ := buildApplication_eq_ok_iff.1 hbuild
    obtain rfl : ⟨n⟩ = id := Except.ok.inj hid
    have hw : (Request.application r).Writable := hwritable
    obtain ⟨hstrict, hfirst⟩ := parse_write hw ⟨n⟩
    refine ⟨check_write hw ⟨n⟩, ⟨_, hstrict, rfl, rfl, rfl, canonical_of_writable hw⟩,
      _, r.atFirst, hfirst, rfl, rfl, r.sameKeys_atFirst, ?_,
      ApplicationRequest.atFirst_eq_self_iff⟩
    exact fun l hl first hmem => LocalRequest.address_of_mem_atFirst hl hmem
  · intro fields
    have hw : (Request.token fields).Writable := trivial
    obtain ⟨hstrict, hfirst⟩ := parse_write hw ⟨n⟩
    refine ⟨write .token ⟨n⟩ (tokenEntries fields), rfl, check_write hw ⟨n⟩, fun pairing => ?_⟩
    cases pairing with
    | firstAddress => exact ⟨_, hfirst, rfl, rfl, rfl, canonical_of_writable hw⟩
    | strict => exact ⟨_, hstrict, rfl, rfl, rfl, canonical_of_writable hw⟩

/-- A request with an empty key, a repeated key, and two accounts. -/
def twoAccounts : ApplicationRequest :=
  ⟨["", "YQ", "YQ"], ["YQ"], [⟨"YQ", .allA⟩, ⟨"", .allB⟩], true⟩

theorem writable_twoAccounts : (Request.application twoAccounts).Writable := by
  obtain ⟨u, hu⟩ : ∃ u, buildApplication (.word64 7) twoAccounts = .ok u := ⟨_, rfl⟩
  obtain ⟨id, -, hw, -⟩ := buildApplication_eq_ok_iff.1 hu
  exact hw

/-- With two accounts the pairings part: strictly the request comes back, from the first address
another one with the same keys. -/
theorem parse_build_twoAccounts :
    ∃ u, buildApplication (.word64 7) twoAccounts = .ok u ∧ Grammar.check u = .ok () ∧
      (∃ q, Query.parse .strict u = .ok q ∧ q.kind = .application ∧ q.id = ⟨7⟩ ∧
        q.request = .application twoAccounts ∧ q.canonical = u) ∧
      ∃ q f, Query.parse .firstAddress u = .ok q ∧ q.id = ⟨7⟩ ∧ q.request = .application f ∧
        f.SameKeys twoAccounts ∧ f ≠ twoAccounts := by
  obtain ⟨u, hu⟩ : ∃ u, buildApplication (.word64 7) twoAccounts = .ok u := ⟨_, rfl⟩
  obtain ⟨hcheck, hstrict, q, f, hparse, hid, hrequest, hsame, -, hiff⟩ :=
    (parse_build 7).1 twoAccounts u hu
  refine ⟨u, hu, hcheck, hstrict, q, f, hparse, hid, hrequest, hsame, fun heq => ?_⟩
  have haddress := hiff.1 heq ⟨"YQ", .allA⟩ (by decide) ⟨"", .allB⟩ (by decide)
  exact absurd haddress (by decide)

/-! ## Examples -/

/-- The account of the examples. -/
def exampleAddress : Address where
  text := "ZZAF5ARA4MEC5PVDOP64JM5O5MQST63Q2KOY2FLYFLXXD3PFSNJJBYAFZM"
  length_eq := rfl
  chars := List.all_eq_true.1 rfl

/-- The resources of the examples and what each example asks of them. -/
def exampleRequests : List (ResourceId × Request) :=
  [(⟨2345⟩, .application ⟨["YWxnb3JvbmQ"], [], [], false⟩),
    (⟨12345⟩, .application ⟨[], ["Z2xvYmFsX2tleQ"], [], false⟩),
    (⟨12345⟩, .application ⟨[], [], [⟨"bG9jYWxfa2V5", exampleAddress⟩], false⟩),
    (⟨12345⟩, .application ⟨[], [], [], true⟩),
    (⟨12345⟩, .application ⟨["Ym94X2tleQ"], ["Z2xvYmFsX2tleQ"], [], true⟩),
    (⟨31566704⟩, .token (.ofList [.total, .decimals, .unitName, .assetName])),
    (⟨31566704⟩, .token (.ofList [.url, .metadataHash])),
    (⟨31566704⟩, .token (.ofList [.manager, .reserve, .freeze, .clawback])),
    (⟨31566704⟩, .token (.ofList [.frozenDefault]))]

theorem examples_eq :
    examples = exampleRequests.map fun e => write e.2.kind e.1 e.2.entries := by
  decide +kernel

theorem writable_of_mem_exampleRequests : ∀ e ∈ exampleRequests, e.2.Writable := by
  have hbox : IsKey "YWxnb3JvbmQ" := rfl
  have hglobal : IsKey "Z2xvYmFsX2tleQ" := rfl
  have hlocal : IsKey "bG9jYWxfa2V5" := rfl
  have hboth : IsKey "Ym94X2tleQ" := rfl
  have hwritable : ∀ r : ApplicationRequest, r.Writable ↔ (∀ key ∈ r.boxKeys, IsKey key) ∧
      (∀ key ∈ r.globalKeys, IsKey key) ∧ ∀ l ∈ r.localReads, IsKey l.key :=
    fun r => ⟨fun ⟨hb, hg, hl⟩ => ⟨hb, hg, hl⟩, fun ⟨hb, hg, hl⟩ => ⟨hb, hg, hl⟩⟩
  simp [exampleRequests, Request.Writable, hwritable, hbox, hglobal, hlocal, hboth]

/-- **The examples follow the strict grammar**, and can be read with either pairing. -/
theorem check_and_parse_examples :
    ∀ uri ∈ examples, Grammar.check uri = .ok () ∧
      ∀ pairing, ∃ q, Query.parse pairing uri = .ok q := by
  rw [examples_eq, List.forall_mem_map]
  intro e he
  have hw := writable_of_mem_exampleRequests e he
  obtain ⟨hstrict, hfirst⟩ := parse_write hw e.1
  refine ⟨check_write hw e.1, fun pairing => ?_⟩
  cases pairing with
  | firstAddress => exact ⟨_, hfirst⟩
  | strict => exact ⟨_, hstrict⟩

end Uri

end LedgerUri
