import LedgerUri.Ledger.Store
import Mathlib.Data.List.Induction

/-!
# What a store remembers

A store is what a sequence of inserts leaves. An insert puts one record in the place of another and
touches nothing else, so a lookup finds what the last insert under its key has put there, however
many inserts under other keys, or of other kinds, came after it.

* `Insert`, `Store.ofHistory` — inserts, and the store that a history of them leaves;
* `LastPut` — what the last insert put that put anything;
* `Shows` — what one insert changes about a lookup;
* `Shows.ofHistory_eq_some_iff` — hence what a lookup finds after a whole history.
-/

namespace LedgerUri

/-! ## Histories -/

/-- An insert. -/
inductive Insert
  | application (record : ApplicationRecord)
  | box (application : ResourceId) (key value : List UInt8)
  | account (record : AccountRecord)
  | token (record : TokenRecord)

namespace Insert

/-- The application that is put under an id. -/
def application? (id : ResourceId) : Insert → Option ApplicationRecord
  | .application record => if record.id = id then some record else none
  | _ => none

/-- The contents that are put into a box. -/
def box? (id : ResourceId) (key : List UInt8) : Insert → Option (List UInt8)
  | .box owner boxKey value => if owner = id ∧ boxKey = key then some value else none
  | _ => none

/-- The account that is put under an address. -/
def account? (address : Address) : Insert → Option AccountRecord
  | .account record => if record.address = address then some record else none
  | _ => none

/-- The token that is put under an id. -/
def token? (id : ResourceId) : Insert → Option TokenRecord
  | .token record => if record.id = id then some record else none
  | _ => none

end Insert

namespace Store

/-- The store after one more insert. -/
def insert (s : Store) : Insert → Store
  | .application record => s.insertApplication record
  | .box application key value => s.insertBox application key value
  | .account record => s.insertAccount record
  | .token record => s.insertToken record

/-- The store that a history of inserts leaves. -/
def ofHistory (history : List Insert) : Store :=
  history.foldl insert empty

theorem ofHistory_concat (history : List Insert) (i : Insert) :
    ofHistory (history ++ [i]) = (ofHistory history).insert i :=
  List.foldl_append

end Store

section LastPut

variable {α : Type} {puts : Insert → Option α} {history : List Insert} {v : α}

/-- `v` is what the last insert of a history put that put anything. -/
def LastPut (puts : Insert → Option α) (history : List Insert) (v : α) : Prop :=
  ∃ before i after, history = before ++ i :: after ∧ puts i = some v ∧ ∀ j ∈ after, puts j = none

/-- One more insert is the last, or puts nothing. -/
theorem lastPut_concat {i : Insert} :
    LastPut puts (history ++ [i]) v ↔
      puts i = some v ∨ puts i = none ∧ LastPut puts history v := by
  refine ⟨?_, ?_⟩
  · rintro ⟨before, j, after, heq, hput, hafter⟩
    -- the insert that counts is the new one when nothing comes after it
    rcases List.eq_nil_or_concat after with rfl | ⟨after, k, rfl⟩
    · obtain ⟨-, hij⟩ := List.append_inj' heq rfl
      obtain rfl := List.singleton_inj.1 hij
      exact .inl hput
    · rw [List.concat_eq_append] at heq hafter
      rw [List.forall_mem_append, List.forall_mem_singleton] at hafter
      rw [← List.cons_append, ← List.append_assoc] at heq
      obtain ⟨hhistory, hik⟩ := List.append_inj' heq rfl
      obtain rfl := List.singleton_inj.1 hik
      exact .inr ⟨hafter.2, before, j, after, hhistory, hput, hafter.1⟩
  · rintro (hput | ⟨hnone, before, j, after, rfl, hput, hafter⟩)
    · exact ⟨history, i, [], rfl, hput, List.forall_mem_nil _⟩
    · refine ⟨before, j, after ++ [i], by rw [List.append_assoc, List.cons_append], hput, ?_⟩
      rw [List.forall_mem_append, List.forall_mem_singleton]
      exact ⟨hafter, hnone⟩

/-- There is one value that was put last. -/
theorem LastPut.eq {w : α} (hv : LastPut puts history v) (hw : LastPut puts history w) : v = w := by
  induction history using List.reverseRecOn with
  | nil =>
    obtain ⟨before, i, after, hnil, -⟩ := hv
    exact absurd hnil.symm (List.append_ne_nil_of_right_ne_nil before (List.cons_ne_nil i after))
  | append_singleton history i ih =>
    rcases lastPut_concat.1 hv with hv | ⟨hnone, hv⟩ <;>
      rcases lastPut_concat.1 hw with hw | ⟨hnone', hw⟩
    · exact Option.some.inj (hv.symm.trans hw)
    · cases hv.symm.trans hnone'
    · cases hw.symm.trans hnone
    · exact ih hv hw

end LastPut

/-! ## Lookups -/

/-- A lookup starts with nothing, and after an insert it finds what that has put, or else what it
found before. -/
structure Shows {α : Type} (look : Store → Option α) (puts : Insert → Option α) : Prop where
  /-- the empty store has no records -/
  empty : look .empty = none
  /-- an insert puts a record or changes nothing -/
  insert : ∀ s i, look (s.insert i) = (puts i).or (look s)

namespace Shows

section Run

variable {α : Type} {look : Store → Option α} {puts : Insert → Option α} {history : List Insert}

/-- **A lookup finds what was put last.** -/
theorem ofHistory_eq_some_iff (h : Shows look puts) {v : α} :
    look (.ofHistory history) = some v ↔ LastPut puts history v := by
  -- from the right, because the last insert is made on the store that all others left
  induction history using List.reverseRecOn with
  | nil => simp [Store.ofHistory, h.empty, LastPut]
  | append_singleton history i ih =>
    rw [Store.ofHistory_concat, h.insert, Option.or_eq_some_iff, ih, lastPut_concat]

/-- A lookup finds nothing when nothing was put. -/
theorem ofHistory_eq_none_iff (h : Shows look puts) :
    look (.ofHistory history) = none ↔ ∀ i ∈ history, puts i = none := by
  induction history using List.reverseRecOn with
  | nil => simp [Store.ofHistory, h.empty]
  | append_singleton history i ih =>
    rw [Store.ofHistory_concat, h.insert, Option.or_eq_none_iff, ih, List.forall_mem_append,
      List.forall_mem_singleton, and_comm]

/-- Lookups that find the same show the same. -/
theorem congr {other : Store → Option α} (h : Shows look puts) (heq : ∀ s, other s = look s) :
    Shows other puts :=
  funext heq ▸ h

/-- A record that was put is there, though it may be another one that was put later. -/
theorem exists_lastPut_of_mem (h : Shows look puts) {i : Insert} (hi : i ∈ history) {v : α}
    (hput : puts i = some v) : ∃ w, LastPut puts history w := by
  cases hlook : look (.ofHistory history) with
  | none =>
    have hnone := h.ofHistory_eq_none_iff.1 hlook i hi
    rw [hput] at hnone
    cases hnone
  | some w => exact ⟨w, h.ofHistory_eq_some_iff.1 hlook⟩

end Run

theorem application (id : ResourceId) :
    Shows (fun s => s.applications[id]?) (Insert.application? id) where
  empty := Std.ExtHashMap.getElem?_empty
  insert s i := by
    cases i with
    | application record =>
      simp only [Store.insert, Store.insertApplication, Insert.application?,
        Std.ExtHashMap.getElem?_insert, beq_iff_eq]
      split <;> rfl
    | box | account | token => rfl

theorem box (id : ResourceId) (key : List UInt8) :
    Shows (fun s => s.boxes[(id, key)]?) (Insert.box? id key) where
  empty := Std.ExtHashMap.getElem?_empty
  insert s i := by
    cases i with
    | box application boxKey value =>
      simp only [Store.insert, Store.insertBox, Insert.box?, Std.ExtHashMap.getElem?_insert,
        beq_iff_eq, Prod.mk.injEq]
      split <;> rfl
    | application | account | token => rfl

theorem account (address : Address) :
    Shows (fun s => s.accounts[address]?) (Insert.account? address) where
  empty := Std.ExtHashMap.getElem?_empty
  insert s i := by
    cases i with
    | account record =>
      simp only [Store.insert, Store.insertAccount, Insert.account?,
        Std.ExtHashMap.getElem?_insert, beq_iff_eq]
      split <;> rfl
    | application | box | token => rfl

theorem token (id : ResourceId) : Shows (fun s => s.tokens[id]?) (Insert.token? id) where
  empty := Std.ExtHashMap.getElem?_empty
  insert s i := by
    cases i with
    | token record =>
      simp only [Store.insert, Store.insertToken, Insert.token?, Std.ExtHashMap.getElem?_insert,
        beq_iff_eq]
      split <;> rfl
    | application | box | account => rfl

end Shows

/-! ## Answers of a store -/

namespace Store

theorem orMissing_eq_ok_iff {α : Type} {resource : String} {o : Option α} {v : α} :
    orMissing resource o = .ok v ↔ o = some v := by
  cases o <;> simp [orMissing]

theorem orMissing_eq_missing_iff {α : Type} {resource : String} {o : Option α} :
    (∃ other, orMissing resource o = .error (.missing other)) ↔ o = none := by
  cases o <;> simp [orMissing]

/-- A store fails to answer in one way only. -/
theorem isMissing_of_orMissing {α : Type} {resource : String} {o : Option α} {error : ReadError}
    (h : orMissing resource o = .error error) : error.isMissing = true := by
  cases o with
  | none =>
    cases h
    rfl
  | some v => cases h

variable {history : List Insert} {id : ResourceId} {key : List UInt8} {address : Address}

/-- A store answers with the application that was put last. -/
theorem application_ofHistory_eq_ok_iff {record : ApplicationRecord} :
    (ofHistory history).client.application id = .ok record ↔
      LastPut (Insert.application? id) history record :=
  orMissing_eq_ok_iff.trans (Shows.application id).ofHistory_eq_some_iff

/-- A store answers with the contents that were put last. -/
theorem box_ofHistory_eq_ok_iff {value : List UInt8} :
    (ofHistory history).client.box id key = .ok value ↔
      LastPut (Insert.box? id key) history value :=
  orMissing_eq_ok_iff.trans (Shows.box id key).ofHistory_eq_some_iff

/-- A store misses a box that was never put. -/
theorem box_ofHistory_eq_missing_iff :
    (∃ resource, (ofHistory history).client.box id key = .error (.missing resource)) ↔
      ∀ i ∈ history, i.box? id key = none :=
  orMissing_eq_missing_iff.trans (Shows.box id key).ofHistory_eq_none_iff

/-- A store answers with the account that was put last. -/
theorem account_ofHistory_eq_ok_iff {record : AccountRecord} :
    (ofHistory history).client.account address = .ok record ↔
      LastPut (Insert.account? address) history record :=
  orMissing_eq_ok_iff.trans (Shows.account address).ofHistory_eq_some_iff

/-- A store misses an account that was never put. -/
theorem account_ofHistory_eq_missing_iff :
    (∃ resource, (ofHistory history).client.account address = .error (.missing resource)) ↔
      ∀ i ∈ history, i.account? address = none :=
  orMissing_eq_missing_iff.trans (Shows.account address).ofHistory_eq_none_iff

end Store

end LedgerUri
