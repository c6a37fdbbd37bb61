import LedgerUri.Proofs.Uri.Value

/-!
# How entries and values are spelled

What a query says, described on its text alone: the text falls into pieces, a piece spells an
entry, and an entry's value may have to be a key or an address. Reading finds exactly what is
spelled, so every statement about accepted texts can be made in these words.

* `HasEntries` — the entries that a URI spells;
* `FirstBadPart` — where a query spells none;
* `KeyText`, `AddressText` — keys and addresses by their characters and lengths;
* `hasEntries_iff`, `isKey_iff`, `exists_address_iff` — readers find what is spelled.
-/

namespace LedgerUri.Uri

/-! ## Entries -/

/-- The text with its escapes replaced by bytes is UTF-8 and says `text`. -/
def Spells (raw : List Char) (text : String) : Prop :=
  Text.unescape raw = Text.utf8 text

/-- How an entry is spelled by a piece of a query: the first `=` ends its name. -/
inductive SpellsEntry : List Char → Entry → Prop
  /-- a piece without `=` is a bare name -/
  | bare {raw : List Char} {name : String} (hbare : '=' ∉ raw) (hname : Spells raw name) :
      SpellsEntry raw ⟨name, none⟩
  /-- what follows the first `=` is the value -/
  | valued {rawName rawValue : List Char} {name value : String} (hbare : '=' ∉ rawName)
      (hname : Spells rawName name) (hvalue : Spells rawValue value) :
      SpellsEntry (rawName ++ '=' :: rawValue) ⟨name, some value⟩

/-- The pieces of a query: whatever stands between `&` and `?`, unless that is nothing. -/
def queryPieces (query : List Char) : List (List Char) :=
  (query.splitOnP isSeparator).filter (· ≠ [])

/-- The query of a URI: what follows its first `?`, or nothing. -/
inductive HasQuery : List Char → List Char → Prop
  | without {uri : List Char} (h : '?' ∉ uri) : HasQuery uri []
  | after {front query : List Char} (h : '?' ∉ front) : HasQuery (front ++ '?' :: query) query

/-- The entries of a URI, one for each piece of its query. -/
def HasEntries (uri : List Char) (entries : List Entry) : Prop :=
  ∃ query, HasQuery uri query ∧ List.Forall₂ SpellsEntry (queryPieces query) entries

theorem decodePart_eq_ok_iff {raw : List Char} {text : String} :
    decodePart raw = .ok text ↔ Spells raw text := by
  rw [Spells, ← Text.ofUtf8?_eq_some_iff, decodePart, Text.percentDecode?]
  rcases Text.ofUtf8? (Text.unescape raw) with _ | found <;> simp

/-- A piece is read as the entry that it spells. -/
theorem readEntry_eq_ok_iff {raw : List Char} {e : Entry} :
    readEntry raw = .ok e ↔ SpellsEntry raw e := by
  refine ⟨fun h => ?_, fun h => ?_⟩
  · rw [readEntry] at h
    split at h
    · next hcut =>
      obtain ⟨name, hname, hok⟩ := bind_eq_ok_iff.1 h
      obtain rfl := Except.ok.inj hok
      exact .bare (Text.cutFirst?_eq_none_iff.1 hcut) (decodePart_eq_ok_iff.1 hname)
    · next rawName rawValue hcut =>
      obtain ⟨hbare, rfl⟩ := Text.cutFirst?_eq_some_iff.1 hcut
      obtain ⟨name, hname, hrest⟩ := bind_eq_ok_iff.1 h
      obtain ⟨value, hvalue, hok⟩ := bind_eq_ok_iff.1 hrest
      obtain rfl := Except.ok.inj hok
      exact .valued hbare (decodePart_eq_ok_iff.1 hname) (decodePart_eq_ok_iff.1 hvalue)
  · cases h with
    | bare hbare hname =>
      rw [readEntry, Text.cutFirst?_eq_none_iff.2 hbare]
      exact bind_eq_ok_iff.2 ⟨_, decodePart_eq_ok_iff.2 hname, rfl⟩
    | valued hbare hname hvalue =>
      rw [readEntry, Text.cutFirst?_append hbare]
      exact bind_eq_ok_iff.2 ⟨_, decodePart_eq_ok_iff.2 hname,
        bind_eq_ok_iff.2 ⟨_, decodePart_eq_ok_iff.2 hvalue, rfl⟩⟩

/-- An entry without a value is spelled by its name alone. -/
theorem SpellsEntry.bare_of_value_eq_none {raw : List Char} {e : Entry} (h : SpellsEntry raw e)
    (hvalue : e.value = none) : '=' ∉ raw ∧ Spells raw e.name := by
  cases h with
  | bare hbare hname => exact ⟨hbare, hname⟩
  | valued => cases hvalue

theorem pieces_eq_queryPieces (query : List Char) :
    Text.pieces isSeparator query = queryPieces query := by
  rw [Text.pieces, Text.cuts_eq_splitOnP, queryPieces]
  refine List.filter_congr fun piece _ => ?_
  rcases piece with _ | ⟨c, cs⟩ <;> rfl

/-- A query is read as the entries that its pieces spell. -/
theorem readEntries_eq_ok_iff {query : List Char} {entries : List Entry} :
    readEntries query = .ok entries ↔ List.Forall₂ SpellsEntry (queryPieces query) entries := by
  simp only [readEntries, pieces_eq_queryPieces, mapM_eq_ok_iff, readEntry_eq_ok_iff]

theorem hasQuery_iff {uri query : List Char} : HasQuery uri query ↔ queryPart uri = query := by
  refine ⟨fun h => ?_, ?_⟩
  · cases h with
    | without h => rw [queryPart, Text.cutFirst?_eq_none_iff.2 h]
    | after h => rw [queryPart, Text.cutFirst?_append h]
  · rintro rfl
    rw [queryPart]
    split
    · next front query hcut =>
      obtain ⟨hfront, rfl⟩ := Text.cutFirst?_eq_some_iff.1 hcut
      exact .after hfront
    · next hcut => exact .without (Text.cutFirst?_eq_none_iff.1 hcut)

/-- **A URI is read as the entries that it spells.** -/
theorem hasEntries_iff {uri : List Char} {entries : List Entry} :
    HasEntries uri entries ↔ readEntries (queryPart uri) = .ok entries := by
  simp only [HasEntries, hasQuery_iff, exists_eq_left', readEntries_eq_ok_iff]

/-- A URI spells its entries in one way only. -/
theorem HasEntries.unique {uri : List Char} {entries others : List Entry}
    (h : HasEntries uri entries) (ho : HasEntries uri others) : entries = others :=
  Except.ok.inj ((hasEntries_iff.1 h).symm.trans (hasEntries_iff.1 ho))

/-! ## Pieces that spell nothing -/

/-- The part of a piece that spells no text: its name, or else its value. -/
inductive BadPart : List Char → List Char → Prop
  /-- a bare name -/
  | bare {raw : List Char} (hbare : '=' ∉ raw) (hbad : ∀ text, ¬ Spells raw text) : BadPart raw raw
  /-- the name in front of a value -/
  | name {rawName rawValue : List Char} (hbare : '=' ∉ rawName)
      (hbad : ∀ text, ¬ Spells rawName text) : BadPart (rawName ++ '=' :: rawValue) rawName
  /-- the value, behind a name that is spelled -/
  | value {rawName rawValue : List Char} {name : String} (hbare : '=' ∉ rawName)
      (hname : Spells rawName name) (hbad : ∀ text, ¬ Spells rawValue text) :
      BadPart (rawName ++ '=' :: rawValue) rawValue

/-- The part that spells no text in the leftmost piece of a query that spells no entry. -/
def FirstBadPart (query part : List Char) : Prop :=
  ∃ before piece after, queryPieces query = before ++ piece :: after ∧
    (∀ earlier ∈ before, ∃ e, SpellsEntry earlier e) ∧ BadPart piece part

theorem decodePart_eq_error_iff {raw : List Char} {cause : UriError.Cause} :
    decodePart raw = .error cause ↔
      (∀ text, ¬ Spells raw text) ∧ .badEscape (String.ofList raw) = cause := by
  simp only [← decodePart_eq_ok_iff]
  rw [decodePart]
  rcases Text.percentDecode? raw with _ | text <;> simp

/-- A piece fails as its bad part. -/
theorem readEntry_eq_error_iff {raw : List Char} {cause : UriError.Cause} :
    readEntry raw = .error cause ↔
      ∃ part, BadPart raw part ∧ .badEscape (String.ofList part) = cause := by
  refine ⟨fun h => ?_, ?_⟩
  · rw [readEntry] at h
    split at h
    · next hcut =>
      rcases bind_eq_error_iff.1 h with hname | ⟨name, -, hok⟩
      · obtain ⟨hbad, hcause⟩ := decodePart_eq_error_iff.1 hname
        exact ⟨raw, .bare (Text.cutFirst?_eq_none_iff.1 hcut) hbad, hcause⟩
      · cases hok
    · next rawName rawValue hcut =>
      obtain ⟨hbare, rfl⟩ := Text.cutFirst?_eq_some_iff.1 hcut
      rcases bind_eq_error_iff.1 h with hname | ⟨name, hname, hrest⟩
      · obtain ⟨hbad, hcause⟩ := decodePart_eq_error_iff.1 hname
        exact ⟨rawName, .name hbare hbad, hcause⟩
      · rcases bind_eq_error_iff.1 hrest with hvalue | ⟨value, -, hok⟩
        · obtain ⟨hbad, hcause⟩ := decodePart_eq_error_iff.1 hvalue
          exact ⟨rawValue, .value hbare (decodePart_eq_ok_iff.1 hname) hbad, hcause⟩
        · cases hok
  · rintro ⟨part, hpart, rfl⟩
    cases hpart with
    | bare hbare hbad =>
      rw [readEntry, Text.cutFirst?_eq_none_iff.2 hbare]
      exact bind_eq_error_iff.2 (.inl (decodePart_eq_error_iff.2 ⟨hbad, rfl⟩))
    | name hbare hbad =>
      rw [readEntry, Text.cutFirst?_append hbare]
      exact bind_eq_error_iff.2 (.inl (decodePart_eq_error_iff.2 ⟨hbad, rfl⟩))
    | value hbare hname hbad =>
      rw [readEntry, Text.cutFirst?_append hbare]
      exact bind_eq_error_iff.2 (.inr ⟨_, decodePart_eq_ok_iff.2 hname,
        bind_eq_error_iff.2 (.inl (decodePart_eq_error_iff.2 ⟨hbad, rfl⟩))⟩)

/-- A query fails as the bad part of its leftmost bad piece. -/
theorem readEntries_eq_error_iff {query : List Char} {cause : UriError.Cause} :
    readEntries query = .error cause ↔
      ∃ part, FirstBadPart query part ∧ .badEscape (String.ofList part) = cause := by
  simp only [readEntries, pieces_eq_queryPieces, mapM_eq_error_iff, readEntry_eq_ok_iff,
    readEntry_eq_error_iff]
  constructor
  · rintro ⟨before, piece, after, hpieces, hbefore, part, hpart, hcause⟩
    exact ⟨part, ⟨before, piece, after, hpieces, hbefore, hpart⟩, hcause⟩
  · rintro ⟨part, ⟨before, piece, after, hpieces, hbefore, hpart⟩, hcause⟩
    exact ⟨before, piece, after, hpieces, hbefore, part, hpart, hcause⟩

/-! ## Values -/

/-- A key by its characters: base64url symbols, and no single one left over at the end. -/
structure KeyText (key : String) : Prop where
  /-- letters, digits, `-` and `_` -/
  chars : ∀ c ∈ key.toList, c.isAlphanum = true ∨ c = '-' ∨ c = '_'
  /-- groups of four, and two or three more -/
  length : key.toList.length % 4 ≠ 1

/-- An address by its characters. -/
structure AddressText (text : String) : Prop where
  /-- there are 58 -/
  length : text.toList.length = 58
  /-- upper-case letters and the digits from `2` to `7` -/
  chars : ∀ c ∈ text.toList, ('A' ≤ c ∧ c ≤ 'Z') ∨ ('2' ≤ c ∧ c ≤ '7')

/-- A value without the padding at its end. -/
def unpadded (value : String) : String :=
  String.ofList (value.toList.rdropWhile (· = '='))

theorem isKey_iff {key : String} : IsKey key ↔ KeyText key := by
  rw [IsKey, Base64.UrlSafe.check_eq_ok_iff]
  simp only [Base64.UrlSafe.has_eq_true_iff]
  constructor
  · rintro ⟨hchars, hlength⟩
    exact ⟨hchars, hlength⟩
  · exact fun h => ⟨h.chars, h.length⟩

theorem exists_address_iff {text : String} :
    (∃ a : Address, text = a.text) ↔ AddressText text := by
  refine ⟨?_, fun h => ⟨⟨text, h.length, fun c hc => ?_⟩, rfl⟩⟩
  · rintro ⟨a, rfl⟩
    exact ⟨a.length_eq, fun c hc => by simpa [isAddressChar] using a.chars c hc⟩
  · simpa [isAddressChar] using h.chars c hc

/-- A key has no padding. -/
theorem unpadded_of_isKey {key : String} (h : IsKey key) : unpadded key = key := by
  rw [unpadded, ← Text.trimEnd_eq_rdropWhile, Text.trimEnd_of_not_mem h.plain.equals_not_mem,
    String.ofList_toList]

/-- A value is read as a key when it is one without its padding. -/
theorem readKey_eq_ok_iff {p : KeyParam} {value key : String} :
    readKey p value = .ok key ↔ KeyText (unpadded value) ∧ unpadded value = key := by
  rw [readKey, Text.trimEnd_eq_rdropWhile, ← unpadded, ← isKey_iff, IsKey]
  rcases Base64.UrlSafe.check (unpadded value) with error | ⟨⟩ <;> simp

end LedgerUri.Uri
