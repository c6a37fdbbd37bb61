import LedgerUri.Proofs.Uri.Alternation
import LedgerUri.Proofs.Uri.Query
import LedgerUri.Proofs.Uri.Spelling
import Mathlib.Data.Set.List

/-!
# What reading collects

Of an application's entries, reading collects the values under each name. Both pairings ask the
same of the entries, which is to be *usable*, and collect the same keys. They differ in the
addresses that they choose, and strict pairing fails where it has nothing to choose.

* `Usable`, `Collects`, `Chooses` — what is asked, collected and chosen;
* `Usable.exists_readApplication_eq` — of usable entries only pairing is left to fail;
* `pairLocals_eq_ok_iff`, `pairLocals_strict_of_not_paired` — when it does not, and when it does;
* `readApplication_eq_ok_iff_collects` — what an application is asked for.
-/

namespace LedgerUri.Uri

/-- The values under a key parameter, in order and without their padding. -/
def keysOf (p : KeyParam) (entries : List Entry) : List String :=
  (valuesOf p.name entries).map unpadded

/-- What reading asks of an application's entries. -/
structure Usable (entries : List Entry) : Prop where
  /-- the values under a key parameter are keys, apart from their padding -/
  keys : ∀ p : KeyParam, ∀ e ∈ entries, e.name = p.name → KeyText (unpadded e.valueText)
  /-- the values under the address parameter are addresses -/
  addresses : ∀ e ∈ entries, e.name = addressParam → AddressText e.valueText
  /-- if there are local keys, there is an address -/
  address : (∃ e ∈ entries, e.name = KeyParam.localKey.name) →
    ∃ e ∈ entries, e.name = addressParam

/-- The request collects the values of the entries, name by name and in order. -/
structure Collects (entries : List Entry) (r : ApplicationRequest) : Prop where
  /-- box keys are the values of box entries -/
  boxKeys : r.boxKeys = keysOf .boxKey entries
  /-- keys of global state are the values of global entries -/
  globalKeys : r.globalKeys = keysOf .globalKey entries
  /-- local keys are the values of local entries -/
  localKeys : r.localReads.map LocalRequest.key = keysOf .localKey entries
  /-- programs are wanted when there is an entry for them -/
  programs : r.programs = mentions programParam entries

/-- How a pairing chooses the addresses that local keys are read from. -/
def Chooses : Pairing → List Entry → List LocalRequest → Prop
  | .firstAddress, entries, locals =>
    ∀ l ∈ locals, (valuesOf addressParam entries).head? = some l.address.text
  | .strict, entries, locals =>
    locals ≠ [] → Paired entries ∧
      (locals.map fun l => l.address.text) = valuesOf addressParam entries

variable {entries : List Entry} {keys : List String} {addresses : List Address}
  {locals : List LocalRequest} {pairing : Pairing}

/-! ## Values under a name -/

theorem mentions_eq_true_iff {name : String} :
    mentions name entries = true ↔ ∃ e ∈ entries, e.name = name := by
  simp [mentions]

theorem valuesOf_ne_nil_iff {name : String} :
    valuesOf name entries ≠ [] ↔ ∃ e ∈ entries, e.name = name := by
  simp [valuesOf]

theorem forall_mem_valuesOf {name : String} {P : String → Prop} :
    (∀ value ∈ valuesOf name entries, P value) ↔
      ∀ e ∈ entries, e.name = name → P e.valueText := by
  refine ⟨fun h e he hname => h _ (mem_valuesOf.2 ⟨e, he, hname, rfl⟩), fun h value hvalue => ?_⟩
  obtain ⟨e, he, hname, rfl⟩ := mem_valuesOf.1 hvalue
  exact h e he hname

theorem keysOf_ne_nil_iff {p : KeyParam} :
    keysOf p entries ≠ [] ↔ ∃ e ∈ entries, e.name = p.name := by
  rw [keysOf, ne_eq, List.map_eq_nil_iff]
  exact valuesOf_ne_nil_iff

theorem length_keysOf (p : KeyParam) (entries : List Entry) :
    (keysOf p entries).length = countOf p.name entries := by
  rw [keysOf, List.length_map, length_valuesOf]

/-- What usable entries collect under a key parameter are keys. -/
theorem Usable.isKey (h : Usable entries) (p : KeyParam) : ∀ key ∈ keysOf p entries, IsKey key := by
  refine List.forall_mem_map.2 fun value hvalue => isKey_iff.2 ?_
  obtain ⟨e, he, hname, rfl⟩ := mem_valuesOf.1 hvalue
  exact h.keys p e he hname

/-- Keys are read when each value is one. -/
theorem readKeys_eq_ok_iff {p : KeyParam} :
    readKeys p entries = .ok keys ↔
      (∀ e ∈ entries, e.name = p.name → KeyText (unpadded e.valueText)) ∧
        keys = keysOf p entries := by
  simp only [readKeys, mapM_eq_ok_iff, readKey_eq_ok_iff]
  rw [List.forall₂_and_left, forall_mem_valuesOf, ← List.forall₂_map_left_iff (R := Eq),
    List.forall₂_eq_eq_eq, keysOf, eq_comm]

theorem readAddresses_eq_ok_iff :
    readAddresses entries = .ok addresses ↔
      addresses.map Address.text = valuesOf addressParam entries := by
  simp only [readAddresses, mapM_eq_ok_iff, readAddress_eq_ok_iff]
  rw [← List.forall₂_map_right_iff (R := Eq), List.forall₂_eq_eq_eq, eq_comm]

theorem exists_map_text_eq {values : List String}
    (h : ∀ v ∈ values, ∃ a : Address, v = a.text) :
    ∃ addresses : List Address, addresses.map Address.text = values := by
  have hrange : values ∈ Set.range (List.map Address.text) := by
    rw [Set.range_list_map]
    intro v hv
    obtain ⟨a, rfl⟩ := h v hv
    exact ⟨a, rfl⟩
  exact hrange

/-- Addresses are read when each value is one. -/
theorem exists_readAddresses_iff :
    (∃ addresses, readAddresses entries = .ok addresses) ↔
      ∀ e ∈ entries, e.name = addressParam → AddressText e.valueText := by
  simp only [readAddresses_eq_ok_iff, ← exists_address_iff]
  rw [← forall_mem_valuesOf (P := fun value => ∃ a : Address, value = a.text)]
  refine ⟨fun ⟨addresses, h⟩ value hvalue => ?_, exists_map_text_eq⟩
  rw [← h] at hvalue
  obtain ⟨a, -, rfl⟩ := List.mem_map.1 hvalue
  exact ⟨a, rfl⟩

theorem length_addresses (h : readAddresses entries = .ok addresses) :
    addresses.length = countOf addressParam entries := by
  rw [← length_valuesOf, ← readAddresses_eq_ok_iff.1 h, List.length_map]

/-! ## Pairing -/

theorem text_injective : Function.Injective Address.text :=
  fun _ _ h => Address.ext h

/-- With first-address pairing every key is read from the first address, which has to be there if
there is a key. -/
theorem pairLocals_firstAddress_eq_ok_iff :
    pairLocals .firstAddress entries keys addresses = .ok locals ↔
      locals.map LocalRequest.key = keys ∧ ∀ l ∈ locals, l.address ∈ addresses.head? := by
  rcases keys with _ | ⟨key, keys⟩
  · simp only [pairLocals, Except.ok.injEq, List.map_eq_nil_iff]
    refine ⟨fun h => ?_, fun h => h.1.symm⟩
    subst h
    exact ⟨rfl, fun l hl => absurd hl List.not_mem_nil⟩
  · rcases addresses with _ | ⟨first, others⟩
    · refine ⟨fun h => (by cases h), ?_⟩
      rintro ⟨hkeys, haddress⟩
      rcases locals with _ | ⟨l, ls⟩
      · cases hkeys
      · cases haddress l List.mem_cons_self
    · simp only [pairLocals, Except.ok.injEq, List.head?_cons, Option.mem_some_iff]
      refine ⟨fun h => ?_, ?_⟩
      · subst h
        exact ⟨by simp [Function.comp_def], by simp⟩
      · rintro ⟨hkeys, haddress⟩
        have hself : ∀ l ∈ locals, LocalRequest.mk l.key first = id l := fun l hl => by
          rw [haddress l hl]
          rfl
        rw [← hkeys, List.map_map]
        exact (List.map_congr_left hself).trans (List.map_id locals)

theorem pairLocals_strict
    (h : addressesAfterLocals entries = .ok (locals.map LocalRequest.address)) :
    pairLocals .strict entries (locals.map LocalRequest.key)
      (locals.map LocalRequest.address) = .ok locals := by
  have hzip : List.zipWith LocalRequest.mk (locals.map LocalRequest.key)
      (locals.map LocalRequest.address) = locals := by
    rw [List.zipWith_map, List.zipWith_self]
    exact List.map_id locals
  rcases locals with _ | ⟨l, ls⟩
  · rfl
  · simp only [List.map_cons] at h hzip ⊢
    simp only [pairLocals, h, List.length_cons, List.length_map, if_true]
    refine bind_eq_ok_iff.2 ⟨_, rfl, ?_⟩
    rw [if_pos (by rw [List.length_cons, List.length_map])]
    exact congrArg Except.ok hzip

/-- Strict pairing of a paired query gives every key the address at the same place. -/
theorem pairLocals_strict_of_paired (hpaired : Paired entries)
    (haddresses : readAddresses entries = .ok addresses)
    (hkeys : locals.map LocalRequest.key = keys)
    (hlocals : locals.map LocalRequest.address = addresses) :
    pairLocals .strict entries keys addresses = .ok locals := by
  subst hkeys hlocals
  exact pairLocals_strict ((addressesAfterLocals_of_paired hpaired).trans haddresses)

/-- Strict pairing refuses any other query with local keys and addresses, and counts both. -/
theorem pairLocals_strict_of_not_paired (hpaired : ¬ Paired entries)
    (haddresses : readAddresses entries = .ok addresses)
    (hkeys : keys.length = countOf KeyParam.localKey.name entries) (hkeys_ne : keys ≠ [])
    (haddresses_ne : addresses ≠ []) :
    pairLocals .strict entries keys addresses =
      .error (.unpaired keys.length addresses.length) := by
  have hcount := length_addresses haddresses
  obtain ⟨found, hscan⟩ := exists_scan entries
  obtain ⟨paired, hread, hlength⟩ := hscan.exists_addresses haddresses
  obtain ⟨key, keys, rfl⟩ := List.exists_cons_of_ne_nil hkeys_ne
  obtain ⟨first, others, rfl⟩ := List.exists_cons_of_ne_nil haddresses_ne
  simp only [pairLocals]
  by_cases hsame : (first :: others).length = (key :: keys).length
  · -- with equal counts it is the scan that finds too few
    have hfew : paired.length ≠ (key :: keys).length := fun h =>
      hpaired (hscan.paired (by omega) (by omega))
    rw [if_pos hsame, hread]
    exact if_neg hfew
  · rw [if_neg hsame]

theorem exists_locals (h : keys.length = addresses.length) :
    ∃ locals : List LocalRequest, locals.map LocalRequest.key = keys ∧
      locals.map LocalRequest.address = addresses := by
  refine ⟨(keys.zip addresses).map fun p => ⟨p.1, p.2⟩, ?_, ?_⟩
  · rw [List.map_map]
    exact List.map_fst_zip h.le
  · rw [List.map_map]
    exact List.map_snd_zip h.ge

/-- Strict pairing of a paired query with local keys can give each of them an address. -/
theorem exists_pairLocals_strict (hpaired : Paired entries)
    (haddresses : readAddresses entries = .ok addresses)
    (hkeys : keys.length = countOf KeyParam.localKey.name entries) :
    ∃ locals, pairLocals .strict entries keys addresses = .ok locals ∧
      locals.map LocalRequest.key = keys ∧ locals.map LocalRequest.address = addresses := by
  have hlength : keys.length = addresses.length := by
    rw [hkeys, length_addresses haddresses, ← length_valuesOf, ← length_valuesOf,
      length_valuesOf_of_paired hpaired]
  obtain ⟨locals, hlocals, hchosen⟩ := exists_locals hlength
  exact ⟨locals, pairLocals_strict_of_paired hpaired haddresses hlocals hchosen, hlocals, hchosen⟩

theorem pairLocals_strict_eq_ok_iff (haddresses : readAddresses entries = .ok addresses)
    (hkeys : keys.length = countOf KeyParam.localKey.name entries) :
    pairLocals .strict entries keys addresses = .ok locals ↔
      locals.map LocalRequest.key = keys ∧
        (locals ≠ [] → Paired entries ∧ locals.map LocalRequest.address = addresses) := by
  by_cases hnone : keys = []
  · subst hnone
    simp only [pairLocals, Except.ok.injEq, List.map_eq_nil_iff]
    refine ⟨fun h => ?_, fun h => h.1.symm⟩
    subst h
    exact ⟨rfl, fun h => absurd rfl h⟩
  · refine ⟨fun h => ?_, ?_⟩
    · have haddresses_ne : addresses ≠ [] := by
        rintro rfl
        obtain ⟨key, others, rfl⟩ := List.exists_cons_of_ne_nil hnone
        cases h
      by_cases hpaired : Paired entries
      · obtain ⟨found, hfound, hlocals, hchosen⟩ :=
          exists_pairLocals_strict hpaired haddresses hkeys
        rw [hfound] at h
        obtain rfl := Except.ok.inj h
        exact ⟨hlocals, fun _ => ⟨hpaired, hchosen⟩⟩
      · rw [pairLocals_strict_of_not_paired hpaired haddresses hkeys hnone haddresses_ne] at h
        cases h
    · rintro ⟨hlocals, hpaired⟩
      have hlocals_ne : locals ≠ [] := by
        rintro rfl
        exact hnone hlocals.symm
      obtain ⟨hp, hchosen⟩ := hpaired hlocals_ne
      exact pairLocals_strict_of_paired hp haddresses hlocals hchosen

/-- A pairing succeeds when it can choose addresses for all local keys. -/
theorem pairLocals_eq_ok_iff (haddresses : readAddresses entries = .ok addresses) :
    pairLocals pairing entries (keysOf .localKey entries) addresses = .ok locals ↔
      locals.map LocalRequest.key = keysOf .localKey entries ∧ Chooses pairing entries locals := by
  have htexts := readAddresses_eq_ok_iff.1 haddresses
  cases pairing with
  | firstAddress =>
    rw [pairLocals_firstAddress_eq_ok_iff, Chooses, ← htexts, List.head?_map]
    refine and_congr_right fun _ => forall₂_congr fun l _ => ?_
    rw [Option.map_eq_some_iff, Option.mem_def]
    refine ⟨fun h => ⟨_, h, rfl⟩, ?_⟩
    rintro ⟨a, ha, htext⟩
    rwa [← text_injective htext]
  | strict =>
    rw [pairLocals_strict_eq_ok_iff haddresses (length_keysOf .localKey entries), Chooses, ← htexts]
    refine and_congr_right fun _ => imp_congr_right fun _ => and_congr_right fun _ => ?_
    have htext : (locals.map fun l => l.address.text) =
        (locals.map LocalRequest.address).map Address.text := by
      rw [List.map_map]
      rfl
    rw [htext, (List.map_injective_iff.2 text_injective).eq_iff]

/-! ## Applications -/

/-- Where addresses are chosen for local keys, there is one. -/
theorem Chooses.exists_address (h : Chooses pairing entries locals) (hne : locals ≠ []) :
    ∃ e ∈ entries, e.name = addressParam := by
  obtain ⟨l, ls, rfl⟩ := List.exists_cons_of_ne_nil hne
  refine valuesOf_ne_nil_iff.1 fun hnil => ?_
  cases pairing with
  | firstAddress =>
    have hhead := h l List.mem_cons_self
    rw [hnil] at hhead
    cases hhead
  | strict =>
    obtain ⟨-, htexts⟩ := h hne
    rw [hnil] at htexts
    cases htexts

/-- **What an application is asked for.** Usable entries are read as what they collect, with the
addresses that the pairing chooses; nothing else is read. -/
theorem readApplication_eq_ok_iff_collects {r : ApplicationRequest} :
    readApplication pairing entries = .ok r ↔
      Usable entries ∧ Collects entries r ∧ Chooses pairing entries r.localReads := by
  simp only [readApplication_eq_ok_iff, readKeys_eq_ok_iff]
  refine ⟨?_, ?_⟩
  · rintro ⟨⟨hbox, hboxKeys⟩, ⟨hglobal, hglobalKeys⟩,
      ⟨keys, addresses, ⟨hlocal, rfl⟩, haddresses, hpair⟩, hprograms⟩
    obtain ⟨hlocalKeys, hchooses⟩ := (pairLocals_eq_ok_iff haddresses).1 hpair
    refine ⟨⟨?_, exists_readAddresses_iff.1 ⟨addresses, haddresses⟩, fun h => ?_⟩,
      ⟨hboxKeys, hglobalKeys, hlocalKeys, hprograms⟩, hchooses⟩
    · intro p
      cases p with
      | boxKey => exact hbox
      | globalKey => exact hglobal
      | localKey => exact hlocal
    · refine hchooses.exists_address fun hnil => keysOf_ne_nil_iff.2 h ?_
      rw [← hlocalKeys, hnil, List.map_nil]
  · rintro ⟨husable, hcollects, hchooses⟩
    obtain ⟨addresses, haddresses⟩ := exists_readAddresses_iff.2 husable.addresses
    refine ⟨⟨husable.keys .boxKey, hcollects.boxKeys⟩, ⟨husable.keys .globalKey,
      hcollects.globalKeys⟩, ⟨_, addresses, ⟨husable.keys .localKey, rfl⟩, haddresses, ?_⟩,
      hcollects.programs⟩
    exact (pairLocals_eq_ok_iff haddresses).2 ⟨hcollects.localKeys, hchooses⟩

/-- Of usable entries everything is read except for the pairing, which alone can still fail. -/
theorem Usable.exists_readApplication_eq (h : Usable entries) :
    ∃ addresses, readAddresses entries = .ok addresses ∧
      (keysOf .localKey entries ≠ [] → addresses ≠ []) ∧
      ∀ pairing, readApplication pairing entries =
        (pairLocals pairing entries (keysOf .localKey entries) addresses).map fun locals =>
          ⟨keysOf .boxKey entries, keysOf .globalKey entries, locals,
            mentions programParam entries⟩ := by
  obtain ⟨addresses, haddresses⟩ := exists_readAddresses_iff.2 h.addresses
  refine ⟨addresses, haddresses, fun hlocal hnil => ?_, fun pairing => ?_⟩
  · have hvalues := readAddresses_eq_ok_iff.1 haddresses
    rw [hnil, List.map_nil] at hvalues
    exact valuesOf_ne_nil_iff.2 (h.address (keysOf_ne_nil_iff.1 hlocal)) hvalues.symm
  · have hkeys : ∀ p, readKeys p entries = .ok (keysOf p entries) := fun p =>
      readKeys_eq_ok_iff.2 ⟨h.keys p, rfl⟩
    rw [readApplication, hkeys, hkeys, hkeys, haddresses]
    change (pairLocals pairing entries (keysOf .localKey entries) addresses >>= fun locals =>
      pure _) = _
    rcases pairLocals pairing entries (keysOf .localKey entries) addresses with cause | locals <;>
      rfl

end LedgerUri.Uri
