import LedgerUri.Proofs.Uri.Strict

/-!
# Addresses that are left unused

Strict pairing gives each local key an address of its own and counts both. It does so only if there
is a local key: without one it never looks at the addresses, however many there are. So a URI that
is read strictly has one address for each local key, and none is left unused, exactly when it does
not give addresses to a query that wants none.

* `AddressesWanted` — addresses are given only along with local keys;
* `parse_strict_addresses` — then, and only then, they are as many as the local keys and all used;
* `parse_strict_unwanted` — a URI with an address that nothing uses.
-/

namespace LedgerUri

namespace Uri

variable {entries : List Entry} {r : ApplicationRequest}

/-- Addresses are given only along with local keys. -/
def AddressesWanted (entries : List Entry) : Prop :=
  (∃ e ∈ entries, e.name = addressParam) → ∃ e ∈ entries, e.name = KeyParam.localKey.name

/-- Strict pairing uses all addresses that are wanted. -/
theorem addresses_of_wanted (hcollects : Collects entries r)
    (hchooses : Chooses .strict entries r.localReads) (h : AddressesWanted entries) :
    countOf KeyParam.localKey.name entries = countOf addressParam entries ∧
      (r.localReads.map fun l => l.address.text) = valuesOf addressParam entries := by
  rw [← length_valuesOf, ← length_valuesOf]
  by_cases hlocal : ∃ e ∈ entries, e.name = KeyParam.localKey.name
  · obtain ⟨hpaired, haddresses⟩ := hchooses (hcollects.exists_local_iff.1 hlocal)
    exact ⟨length_valuesOf_of_paired hpaired, haddresses⟩
  · -- nothing is wanted, and nothing is there
    have hlocals : valuesOf KeyParam.localKey.name entries = [] := by
      rwa [← valuesOf_ne_nil_iff, not_not] at hlocal
    have haddresses : valuesOf addressParam entries = [] := by
      rw [← not_ne_iff, valuesOf_ne_nil_iff]
      exact mt h hlocal
    have hreads : r.localReads = [] := by rwa [hcollects.exists_local_iff, not_not] at hlocal
    rw [hlocals, haddresses, hreads]
    exact ⟨rfl, rfl⟩

/-- Addresses that nothing wants are more than the local keys, and nothing is read from them. -/
theorem addresses_of_not_wanted (hcollects : Collects entries r) (h : ¬ AddressesWanted entries) :
    countOf KeyParam.localKey.name entries ≠ countOf addressParam entries ∧
      valuesOf addressParam entries ≠ [] ∧ r.localReads = [] := by
  rw [AddressesWanted, Classical.not_imp, ← valuesOf_ne_nil_iff, hcollects.exists_local_iff,
    not_not] at h
  obtain ⟨haddresses, hreads⟩ := h
  have hlocals : countOf KeyParam.localKey.name entries = 0 := by
    rw [← length_keysOf, ← hcollects.localKeys, hreads]
    rfl
  refine ⟨?_, haddresses, hreads⟩
  rw [hlocals, ← length_valuesOf]
  exact (List.length_pos_iff.2 haddresses).ne

end Uri

namespace Query

open Uri

/-- **Strict pairing uses every address that is wanted.** Of what is read strictly of an
application, the local keys are as many as the addresses, and every address is used, once and in
its turn, exactly when addresses are given only along with local keys. Otherwise nothing is read
from any of them. -/
theorem parse_strict_addresses (text : String) (q : Query) (r : ApplicationRequest)
    (h : parse .strict text = .ok q) (hr : q.request = .application r) :
    ∃ entries, HasEntries text.toList entries ∧
      (countOf KeyParam.localKey.name entries = countOf addressParam entries ↔
        AddressesWanted entries) ∧
      ((r.localReads.map fun l => l.address.text) = valuesOf addressParam entries ↔
        AddressesWanted entries) ∧
      (¬ AddressesWanted entries → r.localReads = []) := by
  obtain ⟨kind, digits, entries, houtline, -, hrequest⟩ :=
    read_eq_ok_iff_outline.1 (parse_eq_ok_iff.1 h).1
  rw [hr] at hrequest
  obtain rfl : ResourceKind.application = kind := kind_of_readRequest hrequest
  obtain ⟨s, hread, ⟨⟩⟩ := map_eq_ok_iff.1 hrequest
  obtain ⟨-, hcollects, hchooses⟩ := readApplication_eq_ok_iff_collects.1 hread
  refine ⟨entries, houtline.query, ?_⟩
  by_cases hwanted : AddressesWanted entries
  · obtain ⟨hcounts, hused⟩ := addresses_of_wanted hcollects hchooses hwanted
    exact ⟨iff_of_true hcounts hwanted, iff_of_true hused hwanted, fun hnot => absurd hwanted hnot⟩
  · obtain ⟨hcounts, hne, hreads⟩ := addresses_of_not_wanted hcollects hwanted
    refine ⟨iff_of_false hcounts hwanted, iff_of_false ?_ hwanted, fun _ => hreads⟩
    rw [hreads]
    exact hne.symm

/-- In the URI of a request with two accounts every address is wanted and used. -/
theorem parse_strict_addresses_twoAccounts :
    ∃ u q r entries, parse .strict u = .ok q ∧ q.request = .application r ∧
      HasEntries u.toList entries ∧ AddressesWanted entries ∧
      countOf KeyParam.localKey.name entries = countOf addressParam entries ∧
      (r.localReads.map fun l => l.address.text) = valuesOf addressParam entries := by
  obtain ⟨hq, -⟩ := parse_write writable_twoAccounts ⟨7⟩
  obtain ⟨entries, hentries, hcounts, hused, hnone⟩ := parse_strict_addresses _ _ _ hq rfl
  have hwanted : AddressesWanted entries := by
    by_contra hnot
    cases hnone hnot
  exact ⟨_, _, _, entries, hq, rfl, hentries, hwanted, hcounts.2 hwanted, hused.2 hwanted⟩

/-- The URI that wants no address is read strictly, with one address more than local keys. -/
theorem parse_strict_unwanted :
    ∃ q entries, parse .strict unwanted = .ok q ∧ q.kind = .application ∧
      HasEntries unwanted.toList entries ∧ countOf KeyParam.localKey.name entries = 0 ∧
      countOf addressParam entries = 1 :=
  ⟨_, _, parse_strict_eq_unwanted, rfl, hasEntries_unwanted, rfl, rfl⟩

end Query

end LedgerUri
