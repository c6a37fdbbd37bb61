import LedgerUri.Proofs.Text.Unescape
import LedgerUri.Proofs.Uri.Escaping
import LedgerUri.Proofs.Uri.Invariance

/-!
# Splitting a query

A query is split into parts: a name and perhaps a value for each piece. Whatever entries a query was
written for, in whatever way, splitting it finds these entries; and it fails only for a part that
stands for no text, the first of them.

* `queryParts`, `StandsForNothing` — the parts of a query, and what is wrong with one;
* `readEntries_eq_error_iff_firstPart` — the failure, by the parts alone;
* `readEntries_exact` — what is read of written entries, and when nothing can be read.
-/

namespace LedgerUri.Uri

/-- The parts of a piece: what stands in front of its first `=` and what stands behind it, or all of
it if there is none. -/
def pieceParts (piece : List Char) : List (List Char) :=
  if '=' ∈ piece then [piece.takeWhile (· ≠ '='), (piece.dropWhile (· ≠ '=')).tail] else [piece]

/-- The parts of a query from left to right, as they are written. -/
def queryParts (query : List Char) : List (List Char) :=
  (queryPieces query).flatMap pieceParts

/-- The bytes that the part stands for are not UTF-8. -/
def StandsForNothing (part : List Char) : Prop :=
  ∃ bytes, Text.Unescapes part bytes ∧ ∀ text, bytes ≠ Text.utf8 text

variable {piece part query rawName rawValue : List Char} {cause : UriError.Cause}

/-! ## Parts -/

theorem pieceParts_of_not_mem (h : '=' ∉ piece) : pieceParts piece = [piece] :=
  if_neg h

theorem pieceParts_append (h : '=' ∉ rawName) :
    pieceParts (rawName ++ '=' :: rawValue) = [rawName, rawValue] := by
  have hname : ∀ c ∈ rawName, decide (c ≠ '=') = true := by
    intro c hc
    exact decide_eq_true (ne_of_mem_of_not_mem hc h)
  rw [pieceParts, if_pos (by simp), List.takeWhile_append_of_pos hname,
    List.dropWhile_append_of_pos hname]
  simp

theorem standsForNothing_iff : StandsForNothing part ↔ ∀ text, ¬ Spells part text := by
  simp only [StandsForNothing, Text.unescapes_iff, Spells]
  simp

/-! ## Reading as a check of parts -/

/-- Checks that a part stands for some text. -/
def checkPart (part : List Char) : Except UriError.Cause Unit :=
  (decodePart part).map fun _ => ()

theorem checkPart_eq_ok_iff : checkPart part = .ok () ↔ ¬ StandsForNothing part := by
  rw [standsForNothing_iff, checkPart, map_eq_ok_iff]
  simp only [and_true, decodePart_eq_ok_iff, not_forall, not_not]

theorem checkPart_eq_error_iff :
    checkPart part = .error cause ↔
      StandsForNothing part ∧ cause = .badEscape (String.ofList part) := by
  rw [checkPart, map_eq_error_iff, decodePart_eq_error_iff, standsForNothing_iff,
    eq_comm (a := cause)]

/-- A piece fails as its parts do. -/
theorem readEntry_eq_error_iff_forM :
    readEntry piece = .error cause ↔ forM (pieceParts piece) checkPart = .error cause := by
  rw [readEntry]
  rcases hcut : Text.cutFirst? '=' piece with _ | ⟨rawName, rawValue⟩
  · rw [pieceParts_of_not_mem (Text.cutFirst?_eq_none_iff.1 hcut)]
    simp only [List.forM_cons, List.forM_nil, checkPart]
    cases decodePart piece <;> simp [bind, Except.bind, pure, Except.pure, Except.map]
  · obtain ⟨hbare, rfl⟩ := Text.cutFirst?_eq_some_iff.1 hcut
    rw [pieceParts_append hbare]
    simp only [List.forM_cons, List.forM_nil, checkPart]
    -- a bad name hides a bad value
    cases decodePart rawName <;> cases decodePart rawValue <;>
      simp [bind, Except.bind, pure, Except.pure, Except.map]

/-- **A query fails as its parts do.** -/
theorem readEntries_eq_error_iff_forM :
    readEntries query = .error cause ↔ forM (queryParts query) checkPart = .error cause := by
  rw [readEntries, pieces_eq_queryPieces, queryParts, forM_flatMap]
  exact mapM_eq_error_iff_forM fun piece cause => readEntry_eq_error_iff_forM

theorem exists_readEntries_eq_error_iff :
    (∃ cause, readEntries query = .error cause) ↔
      ∃ part ∈ queryParts query, StandsForNothing part := by
  have hok : forM (queryParts query) checkPart = .ok () ↔
      ¬ ∃ cause, forM (queryParts query) checkPart = .error cause := by
    rcases forM (queryParts query) checkPart with cause | ⟨⟩ <;> simp
  simp only [readEntries_eq_error_iff_forM]
  rw [← not_iff_not, ← hok, forM_eq_ok_iff]
  simp only [checkPart_eq_ok_iff, not_exists, not_and]

/-- A query fails as the first of its parts that stands for nothing. -/
theorem readEntries_eq_error_iff_firstPart :
    readEntries query = .error cause ↔ ∃ before part after,
      queryParts query = before ++ part :: after ∧
        (∀ earlier ∈ before, ¬ StandsForNothing earlier) ∧ StandsForNothing part ∧
          cause = .badEscape (String.ofList part) := by
  simp only [readEntries_eq_error_iff_forM, forM_eq_error_iff, checkPart_eq_ok_iff,
    checkPart_eq_error_iff]

/-! ## Written entries -/

/-- However entries are written, they are read. -/
theorem readEntries_of_written {entries : List Entry} {raws : List (List Char)}
    (h : List.Forall₂ EscapesEntry entries raws) (hne : ∀ e ∈ entries, e ≠ ⟨"", none⟩) :
    readEntries (List.intercalate ['&'] raws) = .ok entries := by
  have hwhole := whole_of_forall₂_escapesEntry h hne
  rw [readEntries_eq_ok_iff, queryPieces_intercalate hwhole]
  exact h.flip.imp fun raw e he => he.spells

/-- **Splitting loses, merges and reorders nothing.** Entries of any names and values, the bare
empty name apart, are read as they are from any query that they are written in: with the separators,
`%`, and in names `=` escaped, and any other character escaped or not. And any query at all is read
unless a name or a value in it stands for bytes that are not UTF-8; what is reported is the leftmost
one, as it is written. -/
theorem readEntries_exact :
    (∀ entries raws, List.Forall₂ EscapesEntry entries raws →
      (∀ e ∈ entries, e ≠ ⟨"", none⟩) →
        readEntries (List.intercalate ['&'] raws) = .ok entries) ∧
    ∀ query,
      ((∃ cause, readEntries query = .error cause) ↔
        ∃ part ∈ queryParts query, StandsForNothing part) ∧
      ∀ cause, readEntries query = .error cause ↔ ∃ before part after,
        queryParts query = before ++ part :: after ∧
          (∀ earlier ∈ before, ¬ StandsForNothing earlier) ∧ StandsForNothing part ∧
            cause = .badEscape (String.ofList part) := by
  refine ⟨fun entries raws => readEntries_of_written, fun query => ⟨?_, fun cause => ?_⟩⟩
  · exact exists_readEntries_eq_error_iff
  · exact readEntries_eq_error_iff_firstPart

/-- A name that is a separator, a bare name, an empty value and an empty name. -/
def mixedEntries : List Entry :=
  [⟨"&", some "é"⟩, ⟨"k", none⟩, ⟨"k", some ""⟩, ⟨"", some "a=b"⟩]

/-- One way to write each of them. -/
def mixedPieces : List (List Char) :=
  ["%26=%C3%a9".toList, "k".toList, "k=".toList, "=a=b".toList]

theorem escapes_mixedEntries : List.Forall₂ EscapesEntry mixedEntries mixedPieces := by
  have hseparator : Text.EscapedBytes (String.utf8EncodeChar '&') "%26".toList :=
    .cons (.inl rfl) (.inl rfl) .nil
  have haccent : Text.EscapedBytes (String.utf8EncodeChar 'é') "%C3%a9".toList :=
    .cons (.inr rfl) (.inl rfl) (.cons (.inl rfl) (.inl rfl) .nil)
  have hk : Text.Escaped reservedInName "k".toList "k".toList :=
    .refl (by simp [reservedInName])
  have hequation : Text.Escaped reservedInValue "a=b".toList "a=b".toList :=
    .refl (by simp [reservedInValue])
  have hname : Text.Escaped reservedInName "&".toList "%26".toList := .escape hseparator .nil
  have hvalue : Text.Escaped reservedInValue "é".toList "%C3%a9".toList := .escape haccent .nil
  have hempty (reserved : List Char) : Text.Escaped reserved "".toList [] := .nil
  exact .cons (.valued hname hvalue) (.cons (.bare hk) (.cons (.valued hk (hempty _))
    (.cons (.valued (hempty _) hequation) .nil)))

/-- They are read as they are. Of two parts that are cut off in the middle of a character, the name
in front is reported. -/
theorem readEntries_exact_mixed :
    readEntries "%26=%C3%a9&k&k=&=a=b".toList = .ok mixedEntries ∧
    readEntries "k&%C3=%FF".toList = .error (.badEscape "%C3") := by
  obtain ⟨hread, hfail⟩ := readEntries_exact
  refine ⟨hread _ _ escapes_mixedEntries (by decide), ((hfail _).2 _).2 ?_⟩
  refine ⟨["k".toList], "%C3".toList, ["%FF".toList], by decide, ?_, ?_, rfl⟩
  · intro earlier hearlier
    rw [List.mem_singleton.1 hearlier, standsForNothing_iff]
    exact fun h => h "k" rfl
  · rw [standsForNothing_iff]
    intro text htext
    have hnone : Text.ofUtf8? [0xC3] = none := by decide
    exact Text.ofUtf8?_eq_none_iff.1 hnone text htext

end LedgerUri.Uri
