import LedgerUri.Proofs.Text.Percent
import LedgerUri.Proofs.Uri.Value

/-!
# Entries written and read

A query of plain entries is read back as it was written: no part needs an escape, so cutting at
`&` finds the entries and cutting at `=` finds their names.

* `readEntries_writeQuery` — reading inverts writing on plain entries;
* `queryPart_append` — only the text after the first `?` matters to a query;
* `valuesOf_cons`, `valuesOf_append` — the values under a name, entry by entry.
-/

namespace LedgerUri.Uri

/-! ## Plain entries -/

/-- An entry with a name whose parts stand for themselves in a query. -/
structure Entry.Plain (e : Entry) : Prop where
  /-- an entry without a name could vanish between separators -/
  name_ne : e.name.toList ≠ []
  /-- the name is plain -/
  name : Uri.Plain e.name
  /-- the value is plain, if there is one -/
  value : ∀ v ∈ e.value, Uri.Plain v

theorem decodePart_of_plain {text : String} (h : Plain text) :
    decodePart text.toList = .ok text := by
  rw [decodePart, Text.percentDecode?_of_not_mem h.percent_not_mem]

/-- A plain entry is read as it was written. -/
theorem readEntry_write {e : Entry} (h : e.Plain) : readEntry e.write = .ok e := by
  obtain ⟨name, value⟩ := e
  obtain ⟨-, hname, hvalue⟩ := h
  have heq : '=' ∉ name.toList := hname.equals_not_mem
  rcases value with _ | v
  · rw [readEntry, Entry.write, Text.cutFirst?_eq_none_iff.2 heq]
    simp only
    rw [decodePart_of_plain hname]
    rfl
  · rw [readEntry, Entry.write, Text.cutFirst?_append heq]
    simp only
    rw [decodePart_of_plain hname, decodePart_of_plain (hvalue v rfl)]
    rfl

theorem write_ne_nil {e : Entry} (h : e.Plain) : e.write ≠ [] := by
  intro hnil
  rw [Entry.write] at hnil
  split at hnil
  · exact h.name_ne hnil
  · exact h.name_ne (List.append_eq_nil_iff.1 hnil).1

theorem isSeparator_of_mem_write {e : Entry} (h : e.Plain) {c : Char} (hc : c ∈ e.write) :
    isSeparator c = false := by
  obtain ⟨name, value⟩ := e
  rcases value with _ | v
  · exact h.name.isSeparator_eq_false hc
  · rcases List.mem_append.1 hc with hc | hc
    · exact h.name.isSeparator_eq_false hc
    · rcases List.mem_cons.1 hc with rfl | hc
      · rfl
      · exact (h.value v rfl).isSeparator_eq_false hc

/-- Reading the entries of a written query gives the entries back. -/
theorem readEntries_writeQuery {entries : List Entry} (h : ∀ e ∈ entries, e.Plain) :
    readEntries (queryPart (writeQuery entries)) = .ok entries := by
  have hread : readEntries (List.intercalate ['&'] (entries.map Entry.write)) = .ok entries := by
    rw [readEntries, Text.pieces_intercalate rfl, List.mapM_map]
    · have hmap := mapM_eq_ok_map (f := readEntry ∘ Entry.write) (g := id)
        (fun e he => readEntry_write (h e he))
      rwa [List.map_id] at hmap
    · intro part hpart
      obtain ⟨e, he, rfl⟩ := List.mem_map.1 hpart
      exact write_ne_nil (h e he)
    · intro part hpart c hc
      obtain ⟨e, he, rfl⟩ := List.mem_map.1 hpart
      exact isSeparator_of_mem_write (h e he) hc
  rcases entries with _ | ⟨e, es⟩
  · rfl
  · exact hread

/-! ## Where the query starts -/

/-- What stands in front of the first `?` does not matter to the query. -/
theorem queryPart_append {front tail : List Char} (h : '?' ∉ front) :
    queryPart (front ++ tail) = queryPart tail := by
  rcases hcut : Text.cutFirst? '?' tail with _ | ⟨left, right⟩
  · have hnone : '?' ∉ front ++ tail := by
      rw [List.mem_append]
      exact fun hmem => hmem.elim h (Text.cutFirst?_eq_none_iff.1 hcut)
    rw [queryPart, queryPart, hcut, Text.cutFirst?_eq_none_iff.2 hnone]
  · obtain ⟨hleft, rfl⟩ := Text.cutFirst?_eq_some_iff.1 hcut
    have hfront : '?' ∉ front ++ left := by
      rw [List.mem_append]
      exact fun hmem => hmem.elim h hleft
    rw [queryPart, queryPart, hcut, ← List.append_assoc, Text.cutFirst?_append hfront]

/-- A written query is nothing, or starts with `?`. -/
theorem head?_writeQuery {entries : List Entry} : ∀ c ∈ (writeQuery entries).head?, c = '?' := by
  intro c hc
  rw [writeQuery] at hc
  split at hc
  · cases hc
  · exact (Option.some.inj hc).symm

/-! ## Values under a name -/

@[simp]
theorem valuesOf_nil (name : String) : valuesOf name [] = [] := rfl

theorem valuesOf_cons (name : String) (e : Entry) (entries : List Entry) :
    valuesOf name (e :: entries) =
      if e.name = name then e.valueText :: valuesOf name entries else valuesOf name entries := by
  by_cases h : e.name = name <;> simp [valuesOf, h]

theorem valuesOf_cons_of_eq {name : String} {e : Entry} {entries : List Entry}
    (h : e.name = name) : valuesOf name (e :: entries) = e.valueText :: valuesOf name entries := by
  rw [valuesOf_cons, if_pos h]

theorem valuesOf_cons_of_ne {name : String} {e : Entry} {entries : List Entry}
    (h : e.name ≠ name) : valuesOf name (e :: entries) = valuesOf name entries := by
  rw [valuesOf_cons, if_neg h]

theorem valuesOf_append (name : String) (front rest : List Entry) :
    valuesOf name (front ++ rest) = valuesOf name front ++ valuesOf name rest := by
  rw [valuesOf, List.filter_append, List.map_append]
  rfl

/-- A value under a name is the value of an entry with that name. -/
theorem mem_valuesOf {name value : String} {entries : List Entry} :
    value ∈ valuesOf name entries ↔ ∃ e ∈ entries, e.name = name ∧ e.valueText = value := by
  simp [valuesOf, and_assoc]

end LedgerUri.Uri
