import LedgerUri.Ledger.KeyedState
import LedgerUri.Proofs.Base64.UrlSafe
import Mathlib.Data.List.Basic

/-!
# The first entry counts

State is a list, and of several entries under one key, or several records for one application, the
first counts. An index of a state finds just these first entries: it is built from the texts of
keys, but every byte string has one text only, so no key hides behind another.

* `IsFirst`, `FirstUnder` — what counts in a list;
* `KeyedState.get?_eq_some_iff`, `KeyedState.get?_eq_none_iff` — what an index finds;
* `AccountRecord.localState?_eq_some_iff` — the record that counts for an application.
-/

namespace LedgerUri

/-! ## First elements -/

section IsFirst

variable {α : Type} {p : α → Prop} {as : List α} {a : α}

/-- `a` is the first element of the list that has the property. -/
def IsFirst (p : α → Prop) (as : List α) (a : α) : Prop :=
  ∃ before after, as = before ++ a :: after ∧ (∀ b ∈ before, ¬ p b) ∧ p a

theorem find?_eq_some_iff_isFirst [DecidablePred p] :
    as.find? (fun a => decide (p a)) = some a ↔ IsFirst p as a := by
  rw [List.find?_eq_some_iff_append]
  refine ⟨fun ⟨ha, before, after, heq, hbefore⟩ => ?_, ?_⟩
  · exact ⟨before, after, heq, fun b hb => by simpa using hbefore b hb, of_decide_eq_true ha⟩
  · rintro ⟨before, after, heq, hbefore, ha⟩
    exact ⟨decide_eq_true ha, before, after, heq, fun b hb => by simpa using hbefore b hb⟩

/-- A list has a first element with the property, or no such element at all. -/
theorem exists_isFirst_or_forall_not (p : α → Prop) (as : List α) :
    (∃ a, IsFirst p as a) ∨ ∀ a ∈ as, ¬ p a := by
  classical
  rcases h : as.find? (fun a => decide (p a)) with _ | a
  · exact .inr fun a ha hpa => List.find?_eq_none.1 h a ha (decide_eq_true hpa)
  · exact .inl ⟨a, find?_eq_some_iff_isFirst.1 h⟩

end IsFirst

/-! ## State -/

/-- The first entry under a key has this value. -/
def FirstUnder (key : List UInt8) (entries : List StateCell) (value : StateValue) : Prop :=
  IsFirst (fun e => e.key = key) entries ⟨key, value⟩

namespace KeyedState

/-- What is indexed already stays, and of the new entries the first under a key is added. -/
theorem getElem?_foldl_insertIfNew (entries : List StateCell) (m : Std.HashMap String StateValue)
    (key : List UInt8) :
    (entries.foldl (fun m e => m.insertIfNew (Base64.UrlSafe.encode e.key) e.value)
        m)[Base64.UrlSafe.encode key]? =
      m[Base64.UrlSafe.encode key]?.or
        ((entries.find? fun e => e.key = key).map StateCell.value) := by
  induction entries generalizing m with
  | nil => simp
  | cons e es ih =>
    rw [List.foldl_cons, ih, List.find?_cons, Std.HashMap.getElem?_insertIfNew]
    by_cases hkey : e.key = key
    -- the entry is the first under the key unless the index has one already
    · rw [hkey]
      rcases hm : m[Base64.UrlSafe.encode key]? with _ | v
      · have hnew : Base64.UrlSafe.encode key ∉ m := by
          rw [Std.HashMap.mem_iff_isSome_getElem?, hm]
          exact Bool.false_ne_true
        simp [hnew]
      · have hold : Base64.UrlSafe.encode key ∈ m := by
          rw [Std.HashMap.mem_iff_isSome_getElem?, hm]
          rfl
        simp [hold]
    -- an entry under another key has another text
    · have hne : Base64.UrlSafe.encode e.key ≠ Base64.UrlSafe.encode key :=
        fun h => hkey (Base64.UrlSafe.encode_injective h)
      simp [hkey, hne]

variable {entries : List StateCell} {key : List UInt8}

/-- An index finds what a scan of the entries finds. -/
theorem get?_ofEntries (entries : List StateCell) (key : List UInt8) :
    (ofEntries entries).get? (Base64.UrlSafe.encode key) =
      (entries.find? fun e => e.key = key).map StateCell.value := by
  rw [ofEntries, get?, getElem?_foldl_insertIfNew, Std.HashMap.getElem?_empty, Option.none_or]

/-- **An index finds the first entry under a key.** -/
theorem get?_eq_some_iff {v : StateValue} :
    (ofEntries entries).get? (Base64.UrlSafe.encode key) = some v ↔
      FirstUnder key entries v := by
  rw [get?_ofEntries, FirstUnder, ← find?_eq_some_iff_isFirst, Option.map_eq_some_iff]
  refine ⟨fun ⟨e, he, hvalue⟩ => ?_, fun h => ⟨_, h, rfl⟩⟩
  have hkey : e.key = key := of_decide_eq_true (List.find?_some he :)
  obtain ⟨k, w⟩ := e
  subst hkey hvalue
  exact he

/-- An index finds nothing when there is no entry under the key. -/
theorem get?_eq_none_iff :
    (ofEntries entries).get? (Base64.UrlSafe.encode key) = none ↔ ∀ e ∈ entries, e.key ≠ key := by
  rw [get?_ofEntries, Option.map_eq_none_iff, List.find?_eq_none]
  simp

end KeyedState

/-! ## Records of accounts -/

namespace AccountRecord

variable {account : AccountRecord} {application : ResourceId}

/-- The first record for an application counts. -/
theorem localState?_eq_some_iff {s : OptIn} :
    account.localState? application = some s ↔
      IsFirst (fun s => s.application = application) account.localStates s :=
  find?_eq_some_iff_isFirst

theorem localState?_eq_none_iff :
    account.localState? application = none ↔
      ∀ s ∈ account.localStates, s.application ≠ application := by
  rw [localState?, List.find?_eq_none]
  simp

end AccountRecord

end LedgerUri
