import LedgerUri.Proofs.Text.Escape
import LedgerUri.Proofs.Uri.Spelling

/-!
# Entries written with escapes

An entry can be written in many ways: any character of its name and value may be escaped, and the
separators, `%`, and in names also `=`, have to be. However it is written, it is one piece of a
query, and the piece spells the entry.

* `EscapesEntry` — the ways to write an entry;
* `EscapesEntry.spells` — each of them spells the entry;
* `EscapesEntry.isSeparator_eq_false`, `EscapesEntry.ne_nil` — and stays in one piece.
-/

namespace LedgerUri.Uri

/-- The characters that have to be escaped in names. -/
def reservedInName : List Char := ['&', '?', '%', '=']

/-- The characters that have to be escaped in values. -/
def reservedInValue : List Char := ['&', '?', '%']

/-- The ways to write an entry. -/
inductive EscapesEntry : Entry → List Char → Prop
  /-- a bare name -/
  | bare {name : String} {raw : List Char}
      (hname : Text.Escaped reservedInName name.toList raw) : EscapesEntry ⟨name, none⟩ raw
  /-- a name, `=` and a value -/
  | valued {name value : String} {rawName rawValue : List Char}
      (hname : Text.Escaped reservedInName name.toList rawName)
      (hvalue : Text.Escaped reservedInValue value.toList rawValue) :
      EscapesEntry ⟨name, some value⟩ (rawName ++ '=' :: rawValue)

variable {raw : List Char} {reserved : List Char} {e : Entry} {text : String}

theorem spells_of_escaped (h : Text.Escaped reserved text.toList raw) (hpercent : '%' ∈ reserved) :
    Spells raw text :=
  h.unescape_eq hpercent

theorem isSeparator_of_escaped (h : Text.Escaped reserved text.toList raw) (hamp : '&' ∈ reserved)
    (hquestion : '?' ∈ reserved) {c : Char} (hc : c ∈ raw) : isSeparator c = false := by
  have hnotAmp : c ≠ '&' := by
    rintro rfl
    exact h.not_mem hamp (by decide) (by decide) hc
  have hnotQuestion : c ≠ '?' := by
    rintro rfl
    exact h.not_mem hquestion (by decide) (by decide) hc
  simp [isSeparator, hnotAmp, hnotQuestion]

theorem equals_not_mem_of_escaped (h : Text.Escaped reservedInName text.toList raw) : '=' ∉ raw :=
  h.not_mem (by decide) (by decide) (by decide)

namespace EscapesEntry

/-- **However an entry is written, it is spelled.** -/
theorem spells (h : EscapesEntry e raw) : SpellsEntry raw e := by
  cases h with
  | bare hname =>
    exact .bare (equals_not_mem_of_escaped hname) (spells_of_escaped hname (by decide))
  | valued hname hvalue =>
    exact .valued (equals_not_mem_of_escaped hname) (spells_of_escaped hname (by decide))
      (spells_of_escaped hvalue (by decide))

/-- A written entry holds no separator. -/
theorem isSeparator_eq_false (h : EscapesEntry e raw) : ∀ c ∈ raw, isSeparator c = false := by
  intro c hc
  cases h with
  | bare hname => exact isSeparator_of_escaped hname (by decide) (by decide) hc
  | valued hname hvalue =>
    rcases List.mem_append.1 hc with hc | hc
    · exact isSeparator_of_escaped hname (by decide) (by decide) hc
    · rcases List.mem_cons.1 hc with rfl | hc
      · rfl
      · exact isSeparator_of_escaped hvalue (by decide) (by decide) hc

/-- Only the bare empty name is written as nothing. -/
theorem ne_nil (h : EscapesEntry e raw) (hne : e ≠ ⟨"", none⟩) : raw ≠ [] := by
  cases h with
  | @bare name _ hname =>
    apply hname.ne_nil
    intro hnil
    exact hne (by rw [String.toList_eq_nil_iff.1 hnil])
  | valued => exact List.append_ne_nil_of_right_ne_nil _ (List.cons_ne_nil _ _)

end EscapesEntry

/-- Each of the entries is written as one piece of a query. -/
theorem whole_of_forall₂_escapesEntry {entries : List Entry} {raws : List (List Char)}
    (h : List.Forall₂ EscapesEntry entries raws) (hne : ∀ e ∈ entries, e ≠ ⟨"", none⟩) :
    ∀ raw ∈ raws, raw ≠ [] ∧ ∀ c ∈ raw, isSeparator c = false := by
  induction h with
  | nil => exact List.forall_mem_nil _
  | cons he _ ih =>
    obtain ⟨hfirst, hothers⟩ := List.forall_mem_cons.1 hne
    exact List.forall_mem_cons.2 ⟨⟨he.ne_nil hfirst, he.isSeparator_eq_false⟩, ih hothers⟩

end LedgerUri.Uri
