import LedgerUri.Proofs.Answer.Report
import Mathlib.Data.Finset.Card

/-!
# Looking up a key

State is a list, and scanning it for the bytes of a key is the plain way to look the key up. The
index takes another way: it holds texts, keeps one value for each of them, and is asked for a text
that is decoded and written again first. It finds the same, because every byte string is written in
one way only, and because an entry whose key is in the index already changes nothing.

* `KeyedState.size_ofEntries` — an index has one value for each key that occurs;
* `KeyedState.ofEntries_agrees_with_scan` — it finds what a scan finds, however the key is spelled.
-/

namespace LedgerUri

namespace KeyedState

open Base64.UrlSafe (encode decode)

/-- One more entry is added unless its key is there. -/
theorem ofEntries_concat (entries : List StateCell) (e : StateCell) :
    ofEntries (entries ++ [e]) =
      ⟨(ofEntries entries).values.insertIfNew (encode e.key) e.value⟩ := by
  simp only [ofEntries, List.foldl_append, List.foldl_cons, List.foldl_nil]

/-- The texts in an index are those of the keys that occur. -/
theorem encode_mem_values_iff {entries : List StateCell} {key : List UInt8} :
    encode key ∈ (ofEntries entries).values ↔ key ∈ (entries.map StateCell.key).toFinset := by
  have hnone : (ofEntries entries).get? (encode key) = none ↔ ∀ e ∈ entries, e.key ≠ key :=
    get?_eq_none_iff
  rw [Std.HashMap.mem_iff_isSome_getElem?, Option.isSome_iff_ne_none, ← get?, ne_eq, hnone]
  simp

/-- **An index has one value for each key that occurs.** -/
theorem size_ofEntries (entries : List StateCell) :
    (ofEntries entries).size = (entries.map StateCell.key).toFinset.card := by
  -- from the right, because an entry only matters if its key does not occur before it
  induction entries using List.reverseRecOn with
  | nil => rfl
  | append_singleton entries e ih =>
    have hkeys : ((entries ++ [e]).map StateCell.key).toFinset =
        insert e.key (entries.map StateCell.key).toFinset := by
      ext key
      simp
    rw [ofEntries_concat, size, Std.HashMap.size_insertIfNew, ← size, ih, hkeys,
      Finset.card_insert_eq_ite]
    simp only [encode_mem_values_iff]

/-- **An index agrees with a scan.** Whichever way a key is spelled, what the index holds under its
one canonical text is the value of the first entry under its bytes, and nothing when there is no
such entry. The index has as many values as there are different keys. -/
theorem ofEntries_agrees_with_scan (entries : List StateCell) :
    (∀ text key, decode text = .ok key →
      Resolve.indexKey text = .ok (encode key) ∧
      (ofEntries entries).get? (encode key) =
        (entries.find? fun e => e.key = key).map StateCell.value ∧
      (∀ value, (ofEntries entries).get? (encode key) = some value ↔
        FirstUnder key entries value) ∧
      ((ofEntries entries).get? (encode key) = none ↔ ∀ e ∈ entries, e.key ≠ key)) ∧
    (ofEntries entries).size = (entries.map StateCell.key).toFinset.card := by
  refine ⟨?_, size_ofEntries entries⟩
  intro text key hdecode
  exact ⟨Resolve.indexKey_of_decode hdecode, get?_ofEntries entries key,
    fun value => get?_eq_some_iff, get?_eq_none_iff⟩

/-- Four entries under two keys, one of which is empty. -/
def twoKeys : List StateCell :=
  [⟨[], .uint 1⟩, ⟨[97], .uint 2⟩, ⟨[97], .uint 3⟩, ⟨[], .bytes [1]⟩]

/-- The second key is found under a text that is not the canonical one, and its first value. -/
theorem ofEntries_agrees_with_scan_twoKeys :
    decode "YR" = .ok [97] ∧ Resolve.indexKey "YR" = .ok "YQ" ∧
      (ofEntries twoKeys).get? "YQ" = some (.uint 2) ∧ (ofEntries twoKeys).size = 2 := by
  have hdecode : decode "YR" = .ok [97] := rfl
  obtain ⟨hlookup, hsize⟩ := ofEntries_agrees_with_scan twoKeys
  obtain ⟨hindex, hscan, -⟩ := hlookup "YR" [97] hdecode
  exact ⟨hdecode, hindex, hscan, hsize⟩

end KeyedState

end LedgerUri
