import LedgerUri.Proofs.Uri.Escaping
import LedgerUri.Proofs.Uri.Invariance

/-!
# URIs rewritten by other tools

A tool that passes a URI on may escape characters that need no escape, and may fill keys up with
padding. None of that changes what a built URI asks for: escapes are undone before anything else is
looked at, padding is dropped, and neither of them can write a separator, a marker, or the `=` that
ends a name.

* `RewritesPiece`, `Rewrites` — what a tool may do to a piece, and so to a URI;
* `exists_escapesEntry` — a piece that was rewritten writes the entry, or a padded one;
* `sameValues_of_repads` — padding does not count;
* `parse_rewritten` — a rewritten URI is read as the one that was built.
-/

namespace LedgerUri.Uri

/-- What a tool may write for a piece of a query: any bytes of its name and value as escapes, and
any number of `=` at the end of a key, which may be escapes as well. Built URIs have one byte for
each character. -/
inductive RewritesPiece : List Char → List Char → Prop
  /-- a bare name -/
  | bare {name raw : List Char} (hbare : '=' ∉ name) (hname : Text.Escaped [] name raw) :
      RewritesPiece name raw
  /-- a name and a value, with padding if the value is a key -/
  | valued {name value rawName rawValue : List Char} {padding : ℕ} (hbare : '=' ∉ name)
      (hname : Text.Escaped [] name rawName)
      (hvalue : Text.Escaped [] (value ++ List.replicate padding '=') rawValue)
      (hpadding : padding = 0 ∨ ∃ p : KeyParam, name = p.name.toList) :
      RewritesPiece (name ++ '=' :: value) (rawName ++ '=' :: rawValue)

/-- What a tool may write for a URI: the pieces of its query are rewritten, everything else is
kept. -/
inductive Rewrites : List Char → List Char → Prop
  /-- without a query there is nothing to rewrite -/
  | without {uri : List Char} (h : '?' ∉ uri) : Rewrites uri uri
  /-- each piece between two `&` is rewritten by itself -/
  | query {path : List Char} {pieces raws : List (List Char)} (hpath : '?' ∉ path)
      (hwhole : ∀ piece ∈ pieces, '&' ∉ piece) (h : List.Forall₂ RewritesPiece pieces raws) :
      Rewrites (path ++ '?' :: List.intercalate ['&'] pieces)
        (path ++ '?' :: List.intercalate ['&'] raws)

/-- The entry, which may have gained padding if it is a key. -/
structure Repads (e padded : Entry) : Prop where
  /-- the same name -/
  name : padded.name = e.name
  /-- the same value, but for padding -/
  unpadded : unpadded padded.valueText = unpadded e.valueText
  /-- exactly the same value, if it is no key -/
  value : (∀ p : KeyParam, e.name ≠ p.name) → padded.valueText = e.valueText

variable {raw : List Char} {pieces raws : List (List Char)} {e : Entry}
  {entries others : List Entry}

/-! ## One piece -/

theorem Plain.not_mem_reservedInName {text : String} (h : Plain text) :
    ∀ c ∈ text.toList, c ∉ reservedInName := by
  intro c hc
  obtain ⟨hamp, hquestion, hequals, hpercent⟩ := h c hc
  simp [reservedInName, hamp, hquestion, hequals, hpercent]

theorem not_mem_reservedInValue {value : String} (h : Plain value) (padding : ℕ) :
    ∀ c ∈ value.toList ++ List.replicate padding '=', c ∉ reservedInValue := by
  intro c hc
  rcases List.mem_append.1 hc with hc | hc
  · obtain ⟨hamp, hquestion, -, hpercent⟩ := h c hc
    simp [reservedInValue, hamp, hquestion, hpercent]
  · rw [List.eq_of_mem_replicate hc]
    decide

/-- Padding that was added is dropped again. -/
theorem unpadded_ofList_append (value : String) (padding : ℕ) :
    unpadded (String.ofList (value.toList ++ List.replicate padding '=')) = unpadded value := by
  rw [unpadded, unpadded, String.toList_ofList, ← Text.trimEnd_eq_rdropWhile,
    ← Text.trimEnd_eq_rdropWhile, Text.trimEnd_append_replicate]

/-- The first `=` of a piece ends the name of the entry that was written. -/
theorem cutFirst?_write (h : '=' ∉ e.name.toList) :
    Text.cutFirst? '=' e.write = e.value.map fun v => (e.name.toList, v.toList) := by
  obtain ⟨name, value⟩ := e
  cases value with
  | none => exact Text.cutFirst?_eq_none_iff.2 h
  | some v => exact Text.cutFirst?_append h

/-- What a tool writes for the piece of an entry writes the entry, or a padded one. -/
theorem exists_escapesEntry (hplain : e.Plain) (h : RewritesPiece e.write raw) :
    ∃ padded, EscapesEntry padded raw ∧ Repads e padded := by
  obtain ⟨name, value⟩ := e
  obtain ⟨-, hname, hvalue⟩ := hplain
  have hcut := cutFirst?_write (e := ⟨name, value⟩) hname.equals_not_mem
  generalize hpiece : (Entry.mk name value).write = piece at h hcut
  cases h with
  | bare hbare hescaped =>
    rw [Text.cutFirst?_eq_none_iff.2 hbare] at hcut
    obtain rfl : value = none := Option.map_eq_none_iff.1 hcut.symm
    obtain rfl : name.toList = piece := hpiece
    refine ⟨⟨name, none⟩, ?_, rfl, rfl, fun _ => rfl⟩
    exact .bare (hescaped.reserve hname.not_mem_reservedInName)
  | @valued rawName rawValue nameRaw valueRaw padding hbare hescapedName hescapedValue hpadding =>
    rw [Text.cutFirst?_append hbare] at hcut
    obtain ⟨v, rfl, hsides⟩ := Option.map_eq_some_iff.1 hcut.symm
    obtain ⟨rfl, rfl⟩ := Prod.mk.inj hsides
    refine ⟨⟨name, some (String.ofList (v.toList ++ List.replicate padding '='))⟩, ?_, rfl,
      unpadded_ofList_append v padding, ?_⟩
    · refine .valued (hescapedName.reserve hname.not_mem_reservedInName) ?_
      rw [String.toList_ofList]
      exact hescapedValue.reserve (not_mem_reservedInValue (hvalue v rfl) padding)
    · intro hkey
      obtain rfl | ⟨p, hp⟩ := hpadding
      · simp [Entry.valueText]
      · exact absurd (String.toList_inj.1 hp) (hkey p)

/-! ## All pieces -/

theorem exists_forall₂_escapesEntry (hplain : ∀ e ∈ entries, e.Plain)
    (h : List.Forall₂ (fun e raw => RewritesPiece e.write raw) entries raws) :
    ∃ others, List.Forall₂ EscapesEntry others raws ∧ List.Forall₂ Repads entries others := by
  induction h with
  | nil => exact ⟨[], .nil, .nil⟩
  | cons he _ ih =>
    obtain ⟨hp, hps⟩ := List.forall_mem_cons.1 hplain
    obtain ⟨padded, hescapes, hrepads⟩ := exists_escapesEntry hp he
    obtain ⟨others, hall, hothers⟩ := ih hps
    exact ⟨padded :: others, .cons hescapes hall, .cons hrepads hothers⟩

theorem valuesOf_of_repads {name : String} (hname : ∀ p : KeyParam, name ≠ p.name)
    (h : List.Forall₂ Repads entries others) : valuesOf name others = valuesOf name entries := by
  induction h with
  | nil => rfl
  | @cons e padded entries others he _ ih =>
    rw [valuesOf_cons, valuesOf_cons, he.name, ih]
    by_cases hsame : e.name = name
    · rw [if_pos hsame, if_pos hsame, he.value (hsame ▸ hname)]
    · rw [if_neg hsame, if_neg hsame]

theorem keysOf_of_repads (p : KeyParam) (h : List.Forall₂ Repads entries others) :
    keysOf p others = keysOf p entries := by
  rw [keysOf, keysOf]
  induction h with
  | nil => rfl
  | @cons e padded entries others he _ ih =>
    rw [valuesOf_cons, valuesOf_cons, he.name]
    by_cases hsame : e.name = p.name
    · rw [if_pos hsame, if_pos hsame, List.map_cons, List.map_cons, he.unpadded, ih]
    · rw [if_neg hsame, if_neg hsame, ih]

theorem map_name_of_repads (h : List.Forall₂ Repads entries others) :
    others.map Entry.name = entries.map Entry.name := by
  rw [← List.forall₂_eq_eq_eq, List.forall₂_map_left_iff, List.forall₂_map_right_iff]
  exact h.flip.imp fun _ _ he => he.name

theorem ne_bare_of_repads (hplain : ∀ e ∈ entries, e.Plain)
    (h : List.Forall₂ Repads entries others) : ∀ e ∈ others, e ≠ ⟨"", none⟩ := by
  induction h with
  | nil => exact List.forall_mem_nil _
  | cons he _ ih =>
    obtain ⟨hp, hps⟩ := List.forall_mem_cons.1 hplain
    refine List.forall_mem_cons.2 ⟨?_, ih hps⟩
    rintro rfl
    exact hp.name_ne (by rw [← he.name]; rfl)

/-- Padding does not count. -/
theorem sameValues_of_repads (h : List.Forall₂ Repads entries others) :
    SameValues entries others := by
  refine ⟨fun p => keysOf_of_repads p h, ?_, ?_⟩
  · exact valuesOf_of_repads (fun p => p.name_ne_addressParam.symm) h
  · have hnames := map_name_of_repads h
    have hmentions : ∀ all : List Entry, mentions programParam all =
        (all.map Entry.name).any fun name => name = programParam := by
      intro all
      rw [List.any_map]
      rfl
    rw [hmentions, hmentions, hnames]

theorem paired_of_repads (h : List.Forall₂ Repads entries others) (hpaired : Paired entries) :
    Paired others := by
  induction hpaired generalizing others with
  | nil =>
    cases h
    exact .nil
  | other hlocal haddress _ ih =>
    cases h with
    | cons he h => exact .other (he.name ▸ hlocal) (he.name ▸ haddress) (ih h)
  | pair hlocal haddress _ ih =>
    cases h with
    | cons hl h =>
      cases h with
      | cons ha h => exact .pair (hl.name.trans hlocal) (ha.name.trans haddress) (ih h)

/-! ## The URI -/

/-- Written entries come apart at the `&` between them in one way only. -/
theorem eq_map_write_of_intercalate (hplain : ∀ e ∈ entries, e.Plain) (hne : entries ≠ [])
    (hwhole : ∀ piece ∈ pieces, '&' ∉ piece)
    (h : List.intercalate ['&'] (entries.map Entry.write) = List.intercalate ['&'] pieces) :
    entries.map Entry.write = pieces := by
  have hcuts : Text.cuts (fun c => decide (c = '&')) (List.intercalate ['&'] pieces) =
      entries.map Entry.write := by
    rw [← h]
    apply Text.cuts_intercalate rfl (by simpa using hne)
    intro piece hpiece c hc
    obtain ⟨e, he, rfl⟩ := List.mem_map.1 hpiece
    have hseparator := isSeparator_of_mem_write (hplain e he) hc
    rw [isSeparator, decide_eq_false_iff_not, not_or] at hseparator
    exact decide_eq_false hseparator.1
  rw [← hcuts]
  apply Text.cuts_intercalate rfl
  · -- nothing is cut into one empty piece, but no entry is written as nothing
    rintro rfl
    obtain ⟨first, rest, rfl⟩ := List.exists_cons_of_ne_nil hne
    obtain ⟨hfirst, -⟩ := List.cons_eq_cons.1 hcuts
    exact write_ne_nil (hplain first List.mem_cons_self) hfirst.symm
  · intro piece hpiece c hc
    apply decide_eq_false
    rintro rfl
    exact hwhole piece hpiece hc

/-- What a tool writes for a written URI has the same path, and entries that are the written ones
or padded ones. -/
theorem exists_located_of_rewrites {kind : ResourceKind} {id : ResourceId} {other : List Char}
    (hplain : ∀ e ∈ entries, e.Plain) (h : Rewrites (write kind id entries).toList other) :
    ∃ tail others, Located other kind (Decimal.digits id.toNat) tail ∧ HasEntries other others ∧
      List.Forall₂ Repads entries others := by
  have hlocated := located_write kind id entries
  generalize huri : (write kind id entries).toList = uri at h hlocated
  cases h with
  | without =>
    refine ⟨_, entries, hlocated, ?_, List.forall₂_same.2 fun e _ => ⟨rfl, rfl, fun _ => rfl⟩⟩
    rw [hasEntries_iff, hlocated.queryPart_eq]
    exact readEntries_writeQuery hplain
  | @query path pieces raws hpath hwhole hpieces =>
    obtain ⟨rfl, hquery⟩ := hlocated.eq_of_query hpath rfl
    have hne : entries ≠ [] := by
      rintro rfl
      cases hquery
    rw [writeQuery, List.isEmpty_eq_false_iff.2 hne, if_neg Bool.false_ne_true] at hquery
    obtain rfl := eq_map_write_of_intercalate hplain hne hwhole (List.cons_eq_cons.1 hquery).2
    rw [List.forall₂_map_left_iff] at hpieces
    obtain ⟨others, hescapes, hrepads⟩ := exists_forall₂_escapesEntry hplain hpieces
    rw [List.append_assoc]
    have hothers : Located (ofPieces kind (Decimal.digits id.toNat) raws) kind _ _ :=
      located_ofPieces hlocated.ne hlocated.digits
    have hwhole := whole_of_forall₂_escapesEntry hescapes (ne_bare_of_repads hplain hrepads)
    have hspells := (hescapes.imp fun _ _ he => he.spells).flip
    refine ⟨_, others, hothers, ?_, hrepads⟩
    exact (hothers.hasEntries_iff_of_pieces hwhole).2 hspells

/-- **Rewriting does not change what a URI asks for.** Whatever a tool writes for a URI that was
built is read strictly as the request that it was built of, and with first-address pairing as the
URI itself is. -/
theorem parse_rewritten {source : IdSource} {r : ApplicationRequest} {u v : String}
    (hbuild : buildApplication source r = .ok u) (h : Rewrites u.toList v.toList) :
    ∃ id f, source.resolve = .ok id ∧
      Query.parse .strict v = .ok ⟨id, .application r, v⟩ ∧
      Query.parse .firstAddress u = .ok f ∧
      Query.parse .firstAddress v = .ok { f with text := v } := by
  obtain ⟨id, hid, hwritable, rfl⟩ := buildApplication_eq_ok_iff.1 hbuild
  have hw : (Request.application r).Writable := hwritable
  obtain ⟨tail, others, hlocated, hothers, hrepads⟩ :=
    exists_located_of_rewrites (plain_of_mem_entries hw) h
  have hread : ∀ pairing found request,
      read pairing (write .application id (Request.application r).entries).toList =
        .ok (found, request) → read pairing v.toList = .ok (found, request) :=
    fun pairing found request =>
      read_of_sameValues (located_write .application id _) hlocated
        (hasEntries_iff.2 (readEntries_write hw id)) hothers (sameValues_of_repads hrepads)
        fun _ => paired_of_repads hrepads
  obtain ⟨hstrict, hfirst⟩ := parse_write hw id
  exact ⟨id, _, hid, parse_eq_ok_of_read hstrict (hread .strict), hfirst,
    parse_eq_ok_of_read hfirst (hread .firstAddress)⟩

/-- A box and the programs of an application. -/
def plainSpelling : String := "algorand://app/7?box=YQ&tealcode"

/-- The same with escapes in both cases and in both names, and with padding. -/
def escapedSpelling : String := "algorand://app/7?b%6fx=%59Q=%3D&te%61lcode"

theorem rewrites_spelling : Rewrites plainSpelling.toList escapedSpelling.toList := by
  have hletter : Text.EscapedBytes (String.utf8EncodeChar 'o') "%6f".toList :=
    .cons (.inl rfl) (.inl rfl) .nil
  have hsymbol : Text.EscapedBytes (String.utf8EncodeChar 'Y') "%59".toList :=
    .cons (.inl rfl) (.inl rfl) .nil
  have hpad : Text.EscapedBytes (String.utf8EncodeChar '=') "%3D".toList :=
    .cons (.inl rfl) (.inr rfl) .nil
  have hvowel : Text.EscapedBytes (String.utf8EncodeChar 'a') "%61".toList :=
    .cons (.inl rfl) (.inl rfl) .nil
  have hkeep : ∀ text, Text.Escaped [] text text := fun text => .refl fun c _ => List.not_mem_nil
  have hname : Text.Escaped [] "box".toList "b%6fx".toList :=
    .keep List.not_mem_nil (.escape hletter (hkeep _))
  have hkey : Text.Escaped [] ("YQ".toList ++ List.replicate 2 '=') "%59Q=%3D".toList :=
    .escape hsymbol (.keep List.not_mem_nil (.keep List.not_mem_nil (.escape hpad .nil)))
  have hprograms : Text.Escaped [] "tealcode".toList "te%61lcode".toList :=
    .keep List.not_mem_nil (.keep List.not_mem_nil (.escape hvowel (hkeep _)))
  have hpieces : List.Forall₂ RewritesPiece ["box=YQ".toList, "tealcode".toList]
      ["b%6fx=%59Q=%3D".toList, "te%61lcode".toList] :=
    .cons (.valued (by decide) hname hkey (.inr ⟨.boxKey, rfl⟩))
      (.cons (.bare (by decide) hprograms) .nil)
  have hpath : '?' ∉ "algorand://app/7".toList := by decide
  exact .query hpath (by decide) hpieces

/-- What was built is read from both spellings, with either pairing. -/
theorem parse_escapedSpelling :
    ∃ id f, (IdSource.word64 7).resolve = .ok id ∧
      Query.parse .strict escapedSpelling =
        .ok ⟨id, .application ⟨["YQ"], [], [], true⟩, escapedSpelling⟩ ∧
      Query.parse .firstAddress plainSpelling = .ok f ∧
      Query.parse .firstAddress escapedSpelling = .ok { f with text := escapedSpelling } := by
  have hbuild : buildApplication (.word64 7) ⟨["YQ"], [], [], true⟩ = .ok plainSpelling := rfl
  exact parse_rewritten hbuild rewrites_spelling

end LedgerUri.Uri
