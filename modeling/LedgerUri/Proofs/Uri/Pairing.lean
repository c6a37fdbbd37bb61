import LedgerUri.Proofs.Uri.Entry

/-!
# Local keys and their addresses

In a *paired* query every local entry is directly followed by an address entry, and every address
entry directly follows a local one. There the three ways to look at addresses agree: all of them in
order, those that stand right after local entries, and neighbouring values taken off the entries.

* `Paired` — the shape, one constructor for each way to go on;
* `addressesAfterLocals_of_paired` — the scan after local entries finds every address;
* `adjacentPairs_of_paired` — neighbours are the n-th local value and the n-th address.
-/

namespace LedgerUri.Uri

/-- Every local entry is directly followed by an address entry, and every address entry directly
follows a local entry. -/
inductive Paired : List Entry → Prop
  /-- nothing is paired -/
  | nil : Paired []
  /-- an entry that takes no part in pairing -/
  | other {e : Entry} {rest : List Entry} (hlocal : e.name ≠ KeyParam.localKey.name)
      (haddress : e.name ≠ addressParam) (h : Paired rest) : Paired (e :: rest)
  /-- a local entry and its address -/
  | pair {l a : Entry} {rest : List Entry} (hlocal : l.name = KeyParam.localKey.name)
      (haddress : a.name = addressParam) (h : Paired rest) : Paired (l :: a :: rest)

theorem addressParam_ne_localKey : addressParam ≠ KeyParam.localKey.name := by
  decide

namespace Paired

theorem append {front rest : List Entry} (hfront : Paired front) (hrest : Paired rest) :
    Paired (front ++ rest) := by
  induction hfront with
  | nil => exact hrest
  | other hlocal haddress _ ih => exact .other hlocal haddress ih
  | pair hlocal haddress _ ih => exact .pair hlocal haddress ih

/-- Entries that take no part in pairing are paired. -/
theorem of_forall {entries : List Entry}
    (h : ∀ e ∈ entries, e.name ≠ KeyParam.localKey.name ∧ e.name ≠ addressParam) :
    Paired entries := by
  induction entries with
  | nil => exact .nil
  | cons e es ih =>
    obtain ⟨⟨hlocal, haddress⟩, hes⟩ := List.forall_mem_cons.1 h
    exact .other hlocal haddress (ih hes)

end Paired

variable {l a : Entry} {rest : List Entry}

theorem name_ne_localKey_of_address (haddress : a.name = addressParam) :
    a.name ≠ KeyParam.localKey.name :=
  haddress ▸ addressParam_ne_localKey

theorem valuesOf_localKey_pair (hlocal : l.name = KeyParam.localKey.name)
    (haddress : a.name = addressParam) :
    valuesOf KeyParam.localKey.name (l :: a :: rest) =
      l.valueText :: valuesOf KeyParam.localKey.name rest := by
  rw [valuesOf_cons_of_eq hlocal, valuesOf_cons_of_ne (name_ne_localKey_of_address haddress)]

theorem valuesOf_addressParam_pair (hlocal : l.name = KeyParam.localKey.name)
    (haddress : a.name = addressParam) :
    valuesOf addressParam (l :: a :: rest) = a.valueText :: valuesOf addressParam rest := by
  have hl : l.name ≠ addressParam := hlocal ▸ addressParam_ne_localKey.symm
  rw [valuesOf_cons_of_ne hl, valuesOf_cons_of_eq haddress]

/-! ## The scan after local entries -/

theorem addressesAfterLocals_cons_of_ne {e : Entry}
    (h : e.name ≠ KeyParam.localKey.name) :
    addressesAfterLocals (e :: rest) = addressesAfterLocals rest := by
  rcases rest with _ | ⟨next, rest⟩ <;> simp only [addressesAfterLocals, if_neg h]

/-- In a paired query the scan after local entries finds every address. -/
theorem addressesAfterLocals_of_paired {entries : List Entry} (h : Paired entries) :
    addressesAfterLocals entries = readAddresses entries := by
  rw [readAddresses]
  induction h with
  | nil => rfl
  | other hlocal haddress _ ih =>
    rw [addressesAfterLocals_cons_of_ne hlocal, ih, valuesOf_cons_of_ne haddress]
  | @pair l a rest hlocal haddress _ ih =>
    rw [addressesAfterLocals, if_pos hlocal]
    simp only [haddress, if_true]
    rw [addressesAfterLocals_cons_of_ne (name_ne_localKey_of_address haddress), ih,
      valuesOf_addressParam_pair hlocal haddress, List.mapM_cons]

/-- A paired query has as many addresses as local entries. -/
theorem length_valuesOf_of_paired {entries : List Entry} (h : Paired entries) :
    (valuesOf KeyParam.localKey.name entries).length = (valuesOf addressParam entries).length := by
  induction h with
  | nil => rfl
  | other hlocal haddress _ ih =>
    rw [valuesOf_cons_of_ne hlocal, valuesOf_cons_of_ne haddress, ih]
  | @pair l a rest hlocal haddress _ ih =>
    rw [valuesOf_localKey_pair hlocal haddress, valuesOf_addressParam_pair hlocal haddress,
      List.length_cons, List.length_cons, ih]

/-! ## Neighbours -/

/-- The value of each local entry with the value of an address entry directly after it, read off
all pairs of neighbours in order. -/
def adjacentPairs (entries : List Entry) : List (String × String) :=
  (entries.zip entries.tail).filterMap fun (e, next) =>
    if e.name = KeyParam.localKey.name ∧ next.name = addressParam then
      some (e.valueText, next.valueText)
    else none

theorem adjacentPairs_cons_of_ne {e : Entry}
    (h : e.name ≠ KeyParam.localKey.name) : adjacentPairs (e :: rest) = adjacentPairs rest := by
  rcases rest with _ | ⟨next, rest⟩
  · rfl
  · simp [adjacentPairs, h]

theorem adjacentPairs_pair (hlocal : l.name = KeyParam.localKey.name)
    (haddress : a.name = addressParam) :
    adjacentPairs (l :: a :: rest) = (l.valueText, a.valueText) :: adjacentPairs (a :: rest) := by
  simp [adjacentPairs, hlocal, haddress]

/-- In a paired query, neighbours are the n-th local value and the n-th address. -/
theorem adjacentPairs_of_paired {entries : List Entry} (h : Paired entries) :
    adjacentPairs entries =
      (valuesOf KeyParam.localKey.name entries).zip (valuesOf addressParam entries) := by
  induction h with
  | nil => rfl
  | other hlocal haddress _ ih =>
    rw [adjacentPairs_cons_of_ne hlocal, ih, valuesOf_cons_of_ne hlocal,
      valuesOf_cons_of_ne haddress]
  | @pair l a rest hlocal haddress _ ih =>
    rw [adjacentPairs_pair hlocal haddress,
      adjacentPairs_cons_of_ne (name_ne_localKey_of_address haddress), ih,
      valuesOf_localKey_pair hlocal haddress, valuesOf_addressParam_pair hlocal haddress,
      List.zip_cons_cons]

end LedgerUri.Uri
