import LedgerUri.Proofs.Uri.Alternation
import LedgerUri.Proofs.Uri.Path
import LedgerUri.Proofs.Uri.Refinement
import LedgerUri.Proofs.Uri.Spelling

/-!
# Sentences of the strict grammar

The strict grammar checks a URI from left to right and looks at the neighbours of an entry. What it
accepts can be said without any order of checking: a sentence is a path with an id of 64 bits and a
query whose pieces are allowed, one by one, for the resource of the path, and alternate if that is
an application.

* `Allowed` — the pieces that a resource allows;
* `Sentence` — the texts of the grammar;
* `check_eq_ok_iff_sentence` — the grammar accepts its sentences and nothing else.
-/

namespace LedgerUri.Grammar

open Uri

variable {raw digits query uri : List Char} {e : Entry} {kind : ResourceKind}
  {pieces : List (List Char)} {entries : List Entry}

/-! ## Pieces -/

/-- The pieces of a query that are allowed for a resource, with the entries that they spell. -/
inductive Allowed : ResourceKind → List Char → Entry → Prop
  /-- a token allows the bare key of a field -/
  | field {raw : List Char} (f : TokenField) (hbare : '=' ∉ raw) (hname : Spells raw f.key) :
      Allowed .token raw ⟨f.key, none⟩
  /-- an application allows a key parameter with a key, which is empty if there is no value -/
  | key {raw : List Char} {e : Entry} (p : KeyParam) (hspells : SpellsEntry raw e)
      (hname : e.name = p.name) (hkey : KeyText e.valueText) : Allowed .application raw e
  /-- an application allows an address -/
  | address {raw : List Char} {e : Entry} (hspells : SpellsEntry raw e)
      (hname : e.name = addressParam) (haddress : AddressText e.valueText) :
      Allowed .application raw e
  /-- an application allows the bare request for programs -/
  | programs {raw : List Char} (hbare : '=' ∉ raw) (hname : Spells raw programParam) :
      Allowed .application raw ⟨programParam, none⟩

/-- What the grammar asks of an entry of a resource, whatever stands next to it. -/
def ResourceRule : ResourceKind → Entry → Prop
  | .application, e => OwnRule e
  | .token, e => (∃ f : TokenField, e.name = f.key) ∧ e.value = none

/-- A piece is allowed when it spells an entry that keeps the rule of the resource. -/
theorem allowed_iff : Allowed kind raw e ↔ SpellsEntry raw e ∧ ResourceRule kind e := by
  refine ⟨fun h => ?_, fun ⟨hspells, hrule⟩ => ?_⟩
  · cases h with
    | field f hbare hname => exact ⟨.bare hbare hname, ⟨f, rfl⟩, rfl⟩
    | key p hspells hname hkey => exact ⟨hspells, .key p hname (isKey_iff.2 hkey)⟩
    | address hspells hname haddress =>
      obtain ⟨a, htext⟩ := exists_address_iff.2 haddress
      exact ⟨hspells, .address hname a htext⟩
    | programs hbare hname => exact ⟨.bare hbare hname, .programs rfl rfl⟩
  · cases kind with
    | application =>
      cases hrule with
      | key p hname hkey => exact .key p hspells hname (isKey_iff.1 hkey)
      | address hname a htext => exact .address hspells hname (exists_address_iff.1 ⟨a, htext⟩)
      | programs hname hvalue =>
        obtain ⟨hbare, hspells⟩ := hspells.bare_of_value_eq_none hvalue
        obtain ⟨name, value⟩ := e
        obtain ⟨rfl, rfl⟩ : name = programParam ∧ value = none := ⟨hname, hvalue⟩
        exact .programs hbare hspells
    | token =>
      obtain ⟨⟨f, hname⟩, hvalue⟩ := hrule
      obtain ⟨hbare, hspells⟩ := hspells.bare_of_value_eq_none hvalue
      obtain ⟨name, value⟩ := e
      obtain ⟨rfl, rfl⟩ : name = f.key ∧ value = none := ⟨hname, hvalue⟩
      exact .field f hbare hspells

/-- Piece by piece, what is allowed is spelled and keeps the rule. -/
theorem forall₂_allowed_iff :
    List.Forall₂ (Allowed kind) pieces entries ↔
      List.Forall₂ SpellsEntry pieces entries ∧ ∀ e ∈ entries, ResourceRule kind e := by
  refine ⟨fun h => ⟨h.imp fun _ _ hallowed => (allowed_iff.1 hallowed).1, ?_⟩, ?_⟩
  · induction h with
    | nil => exact fun e he => absurd he List.not_mem_nil
    | cons hallowed _ ih => exact List.forall_mem_cons.2 ⟨(allowed_iff.1 hallowed).2, ih⟩
  · rintro ⟨hspells, hrule⟩
    induction hspells with
    | nil => exact .nil
    | cons hspell _ ih =>
      obtain ⟨hown, hrest⟩ := List.forall_mem_cons.1 hrule
      exact .cons (allowed_iff.2 ⟨hspell, hown⟩) (ih hrest)

/-- The entries pass when each of them keeps the rule of the resource, and those of an application
alternate. -/
theorem checkEntries_eq_ok_iff :
    checkEntries kind entries = .ok () ↔
      (∀ e ∈ entries, ResourceRule kind e) ∧ (kind = .application → Alternating entries) := by
  cases kind with
  | application =>
    rw [checkEntries, checkApplication_eq_ok_iff, ← paired_iff_alternating]
    exact ⟨fun h => ⟨h.own, fun _ => h.paired⟩, fun ⟨hown, hpaired⟩ => ⟨hown, hpaired rfl⟩⟩
  | token =>
    rw [checkEntries, checkToken_eq_ok_iff]
    exact ⟨fun h => ⟨h, fun hkind => (by cases hkind)⟩, fun h => h.1⟩

/-! ## Sentences -/

/-- The texts of the strict grammar, by what they consist of. -/
structure Sentence (uri : List Char) (kind : ResourceKind) (digits query : List Char)
    (entries : List Entry) : Prop where
  /-- a path of segment and digits, and then nothing or a query -/
  path : uri = stem kind ++ digits ∧ query = [] ∨ uri = stem kind ++ digits ++ '?' :: query
  /-- there are digits -/
  ne : digits ≠ []
  /-- they are digits -/
  isDigit : ∀ c ∈ digits, c.isDigit = true
  /-- they spell a number of 64 bits -/
  lt : Decimal.value digits < UInt64.size
  /-- each piece of the query is allowed -/
  pieces : List.Forall₂ (Allowed kind) (queryPieces query) entries
  /-- local entries and addresses of an application alternate -/
  alternating : kind = .application → Alternating entries

/-- **The sentences of the strict grammar.** A text is accepted exactly when it is a path with an id
of 64 bits and then nothing, or a query of allowed pieces in which local keys and addresses
alternate. -/
theorem check_eq_ok_iff_sentence (text : String) :
    check text = .ok () ↔
      ∃ kind digits query entries, Sentence text.toList kind digits query entries := by
  rw [check_eq_ok_iff, checkUri_eq_ok_iff]
  refine ⟨?_, ?_⟩
  · rintro ⟨kind, digits, tail, id, entries, hlocated, hid, hentries, hcheck⟩
    obtain ⟨hpath, hne, hdigits⟩ := exists_located_iff.1 ⟨tail, hlocated, rfl⟩
    obtain ⟨hrule, halternating⟩ := checkEntries_eq_ok_iff.1 hcheck
    exact ⟨kind, digits, _, entries, hpath, hne, hdigits, hid ▸ id.toNat_lt,
      forall₂_allowed_iff.2 ⟨readEntries_eq_ok_iff.1 hentries, hrule⟩, halternating⟩
  · rintro ⟨kind, digits, query, entries, h⟩
    obtain ⟨tail, hlocated, rfl⟩ := exists_located_iff.2 ⟨h.path, h.ne, h.isDigit⟩
    obtain ⟨id, hid⟩ := ResourceId.exists_toNat_eq h.lt
    obtain ⟨hentries, hrule⟩ := forall₂_allowed_iff.1 h.pieces
    exact ⟨kind, digits, tail, id, entries, hlocated, hid.symm, readEntries_eq_ok_iff.2 hentries,
      checkEntries_eq_ok_iff.2 ⟨hrule, h.alternating⟩⟩

end LedgerUri.Grammar
