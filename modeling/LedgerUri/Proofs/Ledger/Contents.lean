import LedgerUri.Proofs.Address
import LedgerUri.Proofs.Ledger.History
import Mathlib.Data.Finset.Card

/-!
# What is in a store

Every insert has a place: the read that would find it, which is a kind of record and a key. Reads
of a place are answered with what was put there last, and inserts in different places know nothing
of each other, be it that the kinds differ, the applications, or the keys. So a store is described
by its places alone, and it has as many records as there are places.

* `Insert.place`, `Insert.put` — where an insert puts something, and what;
* `Store.ext_find?` — a store is what its reads find;
* `size_eq_card` — a map has one record for each of its keys;
* `Store.ofHistory_remembers` — what is in a store after any history, what further inserts leave
  alone, and which of them can change places.
-/

namespace LedgerUri

/-! ## Reads of any kind -/

namespace Read

/-- What a read looks for, as it is named when it is missing. -/
def resource : Read → String
  | .application id => "application " ++ id.text
  | .box owner _ => "box of application " ++ owner.text
  | .account address => "account " ++ address.text
  | .token id => "token " ++ id.text

/-- The answer has the id or address that the read asks for. The contents of a box have neither. -/
def Names : (r : Read) → r.Answer → Prop
  | .application id, record => ApplicationRecord.id record = id
  | .box _ _, _ => True
  | .account address, record => AccountRecord.address record = address
  | .token id, record => TokenRecord.id record = id

/-- The application that is read. -/
def applicationKey? : Read → Option ResourceId
  | .application id => some id
  | _ => none

/-- The box that is read. -/
def boxKey? : Read → Option (ResourceId × List UInt8)
  | .box owner key => some (owner, key)
  | _ => none

/-- The account that is read. -/
def accountKey? : Read → Option Address
  | .account address => some address
  | _ => none

/-- The token that is read. -/
def tokenKey? : Read → Option ResourceId
  | .token id => some id
  | _ => none

theorem applicationKey?_eq_some_iff {r : Read} {id : ResourceId} :
    r.applicationKey? = some id ↔ r = .application id := by
  cases r <;> simp [applicationKey?]

theorem boxKey?_eq_some_iff {r : Read} {k : ResourceId × List UInt8} :
    r.boxKey? = some k ↔ r = .box k.1 k.2 := by
  cases r <;> simp [boxKey?, Prod.ext_iff]

theorem accountKey?_eq_some_iff {r : Read} {address : Address} :
    r.accountKey? = some address ↔ r = .account address := by
  cases r <;> simp [accountKey?]

theorem tokenKey?_eq_some_iff {r : Read} {id : ResourceId} :
    r.tokenKey? = some id ↔ r = .token id := by
  cases r <;> simp [tokenKey?]

end Read

namespace Insert

/-- The read that finds what is inserted. -/
def place : Insert → Read
  | .application record => .application record.id
  | .box owner key _ => .box owner key
  | .account record => .account record.address
  | .token record => .token record.id

/-- What is put where a read looks. -/
def put : (r : Read) → Insert → Option r.Answer
  | .application id => application? id
  | .box owner key => box? owner key
  | .account address => account? address
  | .token id => token? id

variable {i : Insert} {r : Read}

/-- An insert puts something in its own place, and nothing elsewhere. -/
theorem put_eq_none_iff : i.put r = none ↔ i.place ≠ r := by
  cases r <;> cases i <;> simp [put, place, application?, box?, account?, token?]

/-- What an insert puts somewhere has the id or address of that place. -/
theorem names_of_put {v : r.Answer} (h : i.put r = some v) : r.Names v := by
  have hplace : i.place = r := by
    by_contra hne
    rw [put_eq_none_iff.2 hne] at h
    cases h
  obtain rfl := hplace
  cases i with
  | box => trivial
  | application record | account record | token record =>
    obtain rfl : record = v := Option.some.inj ((if_pos rfl).symm.trans h)
    rfl

end Insert

namespace Store

variable {s t : Store} {history : List Insert} {i j : Insert} {r : Read}

/-- What a read finds. -/
def find? (s : Store) (r : Read) : Option r.Answer :=
  (s.client.answer r).toOption

theorem toOption_orMissing {α : Type} {resource : String} {o : Option α} :
    (orMissing resource o).toOption = o := by
  cases o <;> rfl

theorem orMissing_toOption {α : Type} {resource : String} {o : Option α} :
    orMissing resource (orMissing resource o).toOption = orMissing resource o := by
  rw [toOption_orMissing]

theorem eq_none_iff_toOption_orMissing {α : Type} {resource : String} {o : Option α} :
    o = none ↔ (orMissing resource o).toOption = none := by
  rw [toOption_orMissing]

theorem eq_of_toOption_orMissing {α : Type} {resource : String} {o o' : Option α}
    (h : (orMissing resource o).toOption = (orMissing resource o').toOption) : o = o' := by
  rwa [toOption_orMissing, toOption_orMissing] at h

theorem answer_client (s : Store) (r : Read) :
    s.client.answer r = orMissing r.resource (s.find? r) := by
  cases r <;> exact orMissing_toOption.symm

/-- A read finds what an insert has put there, or else what it found before. -/
theorem shows_find? (r : Read) : Shows (fun s => s.find? r) (Insert.put r) := by
  cases r with
  | application id => exact (Shows.application id).congr fun _ => toOption_orMissing
  | box owner key => exact (Shows.box owner key).congr fun _ => toOption_orMissing
  | account address => exact (Shows.account address).congr fun _ => toOption_orMissing
  | token id => exact (Shows.token id).congr fun _ => toOption_orMissing

/-- **A store is what its reads find.** -/
theorem ext_find? (h : ∀ r, s.find? r = t.find? r) : s = t := by
  obtain ⟨applications, boxes, accounts, tokens⟩ := s
  obtain ⟨applications', boxes', accounts', tokens'⟩ := t
  obtain rfl : applications = applications' :=
    Std.ExtHashMap.ext_getElem? fun id => eq_of_toOption_orMissing (h (.application id))
  obtain rfl : boxes = boxes' :=
    Std.ExtHashMap.ext_getElem? fun key => eq_of_toOption_orMissing (h (.box key.1 key.2))
  obtain rfl : accounts = accounts' :=
    Std.ExtHashMap.ext_getElem? fun a => eq_of_toOption_orMissing (h (.account a))
  obtain rfl : tokens = tokens' :=
    Std.ExtHashMap.ext_getElem? fun id => eq_of_toOption_orMissing (h (.token id))
  rfl

/-! ## Inserts in different places -/

/-- An insert changes what is found in its own place only. -/
theorem find?_insert_of_ne (h : i.place ≠ r) : (s.insert i).find? r = s.find? r := by
  have hinsert : (s.insert i).find? r = (i.put r).or (s.find? r) := (shows_find? r).insert s i
  rw [hinsert, Insert.put_eq_none_iff.2 h, Option.none_or]

/-- Inserts in different places can be made in either order. -/
theorem insert_comm (h : i.place ≠ j.place) : (s.insert i).insert j = (s.insert j).insert i := by
  refine ext_find? fun r => ?_
  have hinsert : ∀ (s : Store) (i : Insert), (s.insert i).find? r = (i.put r).or (s.find? r) :=
    (shows_find? r).insert
  rw [hinsert, hinsert, hinsert, hinsert, ← Option.or_assoc, ← Option.or_assoc]
  by_cases hi : i.place = r
  · rw [Insert.put_eq_none_iff.2 (hi ▸ h.symm), Option.none_or, Option.or_none]
  · rw [Insert.put_eq_none_iff.2 hi, Option.none_or, Option.or_none]

/-- The places of a history are where something is found after it. -/
theorem find?_ofHistory_eq_none_iff :
    (ofHistory history).find? r = none ↔ ∀ i ∈ history, i.place ≠ r := by
  simp only [(shows_find? r).ofHistory_eq_none_iff, Insert.put_eq_none_iff]

theorem ofHistory_append (history after : List Insert) :
    ofHistory (history ++ after) = after.foldl insert (ofHistory history) :=
  List.foldl_append

/-- What is found in a place is left alone by inserts elsewhere. -/
theorem find?_ofHistory_append {after : List Insert} (h : ∀ i ∈ after, i.place ≠ r) :
    (ofHistory (history ++ after)).find? r = (ofHistory history).find? r := by
  rw [ofHistory_append]
  generalize ofHistory history = s
  induction after generalizing s with
  | nil => rfl
  | cons i after ih =>
    obtain ⟨hi, hafter⟩ := List.forall_mem_cons.1 h
    rw [List.foldl_cons, ih hafter, find?_insert_of_ne hi]

end Store

/-! ## Counting -/

section Counting

variable {κ α : Type} [BEq κ] [LawfulBEq κ] [Hashable κ] [DecidableEq κ]

/-- A map has one record for each of its keys. -/
theorem size_eq_card {keys : Finset κ} {m : Std.ExtHashMap κ α} (h : ∀ k, k ∈ m ↔ k ∈ keys) :
    m.size = keys.card := by
  induction keys using Finset.induction_on generalizing m with
  | empty =>
    have hnone : ∀ k, k ∉ m := fun k hk => Finset.notMem_empty k ((h k).1 hk)
    exact Std.ExtHashMap.eq_empty_iff_size_eq_zero.1
      (Std.ExtHashMap.eq_empty_iff_forall_not_mem.2 hnone)
  | insert k keys hk ih =>
    -- the rest of the keys is what the map without this one has
    have hmem : k ∈ m := (h k).2 (Finset.mem_insert_self k keys)
    have herase : ∀ k', k' ∈ m.erase k ↔ k' ∈ keys := by
      intro k'
      rw [Std.ExtHashMap.mem_erase, h k', Finset.mem_insert, beq_eq_false_iff_ne]
      refine ⟨fun ⟨hne, hk'⟩ => hk'.resolve_left hne.symm, fun hk' => ⟨?_, .inr hk'⟩⟩
      rintro rfl
      exact hk hk'
    have hsize := ih herase
    have hpos : m.size ≠ 0 := fun hzero => by
      rw [Std.ExtHashMap.eq_empty_iff_size_eq_zero.2 hzero] at hmem
      exact Std.ExtHashMap.not_mem_empty hmem
    rw [Std.ExtHashMap.size_erase, if_pos hmem] at hsize
    rw [Finset.card_insert_of_notMem hk]
    omega

/-- The different keys of one kind under which something was put. -/
def distinctKeys (key? : Read → Option κ) (history : List Insert) : Finset κ :=
  (history.filterMap fun i => key? i.place).toFinset

omit [BEq κ] [LawfulBEq κ] [Hashable κ] in
theorem mem_distinctKeys_iff {key? : Read → Option κ} {history : List Insert} {k : κ} :
    k ∈ distinctKeys key? history ↔ ∃ i ∈ history, key? i.place = some k := by
  rw [distinctKeys, List.mem_toFinset, List.mem_filterMap]

namespace Store

variable {history : List Insert}

/-- A map of a store has one record for each different key of its kind. -/
theorem size_map_ofHistory (map : Store → Std.ExtHashMap κ α) (key? : Read → Option κ)
    (read : κ → Read) (hkey : ∀ {r k}, key? r = some k ↔ r = read k)
    (hmap : ∀ s k, (map s)[k]? = none ↔ s.find? (read k) = none) :
    (map (ofHistory history)).size = (distinctKeys key? history).card := by
  refine size_eq_card fun k => ?_
  rw [Std.ExtHashMap.mem_iff_isSome_getElem?, Option.isSome_iff_ne_none, ne_eq, hmap,
    find?_ofHistory_eq_none_iff, mem_distinctKeys_iff]
  simp only [hkey, not_forall, not_not, exists_prop]

end Store

end Counting

namespace Store

variable {history : List Insert}

/-- A store has as many records of all kinds as there are different keys of each. -/
theorem size_ofHistory (history : List Insert) :
    (ofHistory history).size =
      (distinctKeys Read.applicationKey? history).card + (distinctKeys Read.boxKey? history).card +
        (distinctKeys Read.accountKey? history).card +
        (distinctKeys Read.tokenKey? history).card := by
  have happlications : (ofHistory history).applications.size =
      (distinctKeys Read.applicationKey? history).card :=
    size_map_ofHistory applications _ _ Read.applicationKey?_eq_some_iff
      fun _ _ => eq_none_iff_toOption_orMissing
  have hboxes : (ofHistory history).boxes.size =
      (distinctKeys Read.boxKey? history).card :=
    size_map_ofHistory boxes _ _ Read.boxKey?_eq_some_iff
      fun _ _ => eq_none_iff_toOption_orMissing
  have haccounts : (ofHistory history).accounts.size =
      (distinctKeys Read.accountKey? history).card :=
    size_map_ofHistory accounts _ _ Read.accountKey?_eq_some_iff
      fun _ _ => eq_none_iff_toOption_orMissing
  have htokens : (ofHistory history).tokens.size =
      (distinctKeys Read.tokenKey? history).card :=
    size_map_ofHistory tokens _ _ Read.tokenKey?_eq_some_iff
      fun _ _ => eq_none_iff_toOption_orMissing
  rw [size, happlications, hboxes, haccounts, htokens]

/-- A store is empty when nothing was ever put. -/
theorem isEmpty_ofHistory_iff : (ofHistory history).isEmpty = true ↔ history = [] := by
  rw [isEmpty, decide_eq_true_iff, size_ofHistory]
  refine ⟨fun h => ?_, ?_⟩
  · rcases history with _ | ⟨i, history⟩
    · rfl
    · -- the first insert is counted with its kind
      have hcounted : ∀ {κ : Type} [DecidableEq κ] {key? : Read → Option κ} {k : κ},
          key? i.place = some k → (distinctKeys key? (i :: history)).card ≠ 0 := fun hk =>
        Finset.card_ne_zero_of_mem (mem_distinctKeys_iff.2 ⟨i, List.mem_cons_self, hk⟩)
      cases hplace : i.place with
      | application id =>
        have := hcounted (Read.applicationKey?_eq_some_iff.2 hplace)
        omega
      | box owner key =>
        have := hcounted ((Read.boxKey?_eq_some_iff (k := (owner, key))).2 hplace)
        omega
      | account address =>
        have := hcounted (Read.accountKey?_eq_some_iff.2 hplace)
        omega
      | token id =>
        have := hcounted (Read.tokenKey?_eq_some_iff.2 hplace)
        omega
  · rintro rfl
    rfl

/-! ## After any history -/

/-- What a store shows of the history of its inserts. -/
structure Remembers (history : List Insert) (s : Store) : Prop where
  /-- a read is answered with what was put last where it looks -/
  found : ∀ r v, s.client.answer r = .ok v ↔ LastPut (Insert.put r) history v
  /-- it misses, and names what it looked for, when nothing was put there -/
  missing : ∀ r, s.client.answer r = .error (.missing r.resource) ↔ ∀ i ∈ history, i.place ≠ r
  /-- a record has the id or address that was asked for -/
  named : ∀ r v, s.client.answer r = .ok v → r.Names v
  /-- the different keys are counted, kind by kind -/
  size : s.size =
    (distinctKeys Read.applicationKey? history).card + (distinctKeys Read.boxKey? history).card +
      (distinctKeys Read.accountKey? history).card + (distinctKeys Read.tokenKey? history).card
  /-- there is nothing only if nothing was ever put -/
  isEmpty : s.isEmpty = true ↔ history = []

theorem orMissing_eq_error_iff {α : Type} {resource : String} {o : Option α} :
    orMissing resource o = .error (.missing resource) ↔ o = none := by
  cases o <;> simp [orMissing]

theorem remembers_ofHistory (history : List Insert) : Remembers history (ofHistory history) := by
  have hfound : ∀ r v, (ofHistory history).client.answer r = .ok v ↔
      LastPut (Insert.put r) history v := fun r v => by
    rw [answer_client, orMissing_eq_ok_iff]
    exact (shows_find? r).ofHistory_eq_some_iff
  refine ⟨hfound, fun r => ?_, fun r v h => ?_, size_ofHistory history, isEmpty_ofHistory_iff⟩
  · rw [answer_client, orMissing_eq_error_iff, find?_ofHistory_eq_none_iff]
  · obtain ⟨-, i, -, -, hput, -⟩ := (hfound r v).1 h
    exact Insert.names_of_put hput

/-- **A store in memory remembers what was put last, and nothing else.** After any history of
inserts a read is answered with what was put last where it looks, and misses if that is nothing.
Inserts in other places leave its answer alone, a box needs no application and makes none, and
inserts in different places can be made in either order. -/
theorem ofHistory_remembers (history : List Insert) :
    Remembers history (ofHistory history) ∧
    (∀ after r, (∀ i ∈ after, i.place ≠ r) →
      (ofHistory (history ++ after)).client.answer r = (ofHistory history).client.answer r) ∧
    (∀ id key value,
      (ofHistory (history ++ [.box id key value])).client.box id key = .ok value ∧
      (ofHistory (history ++ [.box id key value])).client.application id =
        (ofHistory history).client.application id) ∧
    ∀ i j after, i.place ≠ j.place →
      ofHistory (history ++ i :: j :: after) = ofHistory (history ++ j :: i :: after) := by
  have hkept : ∀ after r, (∀ i ∈ after, i.place ≠ r) →
      (ofHistory (history ++ after)).client.answer r = (ofHistory history).client.answer r := by
    intro after r hafter
    rw [answer_client, answer_client, find?_ofHistory_append hafter]
  refine ⟨remembers_ofHistory history, hkept, fun id key value => ⟨?_, ?_⟩, fun i j after h => ?_⟩
  · exact box_ofHistory_eq_ok_iff.2 (lastPut_concat.2 (.inl (if_pos ⟨rfl, rfl⟩)))
  · refine hkept [.box id key value] (.application id) ?_
    simp [Insert.place]
  · rw [ofHistory_append, ofHistory_append, List.foldl_cons, List.foldl_cons, List.foldl_cons,
      List.foldl_cons, insert_comm h]

/-- A history with one key in the boxes of two applications, of which one does not exist. -/
def sharedKeys : List Insert :=
  [.box ⟨8⟩ [97] [1], .application ⟨⟨7⟩, [], [2], [3]⟩, .box ⟨7⟩ [97] [4], .account ⟨.allA, []⟩,
    .box ⟨7⟩ [97] [5]]

/-- A token with the number of the application. -/
def sameNumber : TokenRecord :=
  ⟨⟨7⟩, 100, 0, false, none, none, none, none, none, none, none, none⟩

/-- The box that was replaced counts once, the box of the other application stays when the key is
used again, and a token can be put before or after an application with its number. -/
theorem ofHistory_remembers_sharedKeys :
    (ofHistory sharedKeys).size = 4 ∧
    (ofHistory sharedKeys).client.box ⟨7⟩ [97] = .ok [5] ∧
    (ofHistory (sharedKeys ++ [.box ⟨7⟩ [97] [6], .application ⟨⟨8⟩, [], [], []⟩])).client.box
      ⟨8⟩ [97] = .ok [1] ∧
    ofHistory (sharedKeys ++ [.token sameNumber, .application ⟨⟨7⟩, [], [], []⟩]) =
      ofHistory (sharedKeys ++ [.application ⟨⟨7⟩, [], [], []⟩, .token sameNumber]) := by
  obtain ⟨hremembers, hkept, -, hcomm⟩ := ofHistory_remembers sharedKeys
  have hput : LastPut (Insert.put (.box ⟨7⟩ [97])) sharedKeys [5] :=
    ⟨sharedKeys.take 4, _, [], rfl, rfl, List.forall_mem_nil _⟩
  have hother : LastPut (Insert.put (.box ⟨8⟩ [97])) sharedKeys [1] :=
    ⟨[], _, sharedKeys.drop 1, rfl, rfl, by decide⟩
  refine ⟨hremembers.size.trans (by decide), (hremembers.found _ _).2 hput, ?_, ?_⟩
  · refine (hkept _ (.box ⟨8⟩ [97]) (by decide)).trans ?_
    exact (hremembers.found _ _).2 hother
  · exact hcomm (.token sameNumber) (.application ⟨⟨7⟩, [], [], []⟩) [] (by decide)

end Store

end LedgerUri
