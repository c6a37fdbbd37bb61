import LedgerUri.Text.Split
import Mathlib.Data.List.Basic
import Mathlib.Data.List.DropRight
import Mathlib.Data.List.Infix

/-!
# Cuts of joined text

Cutting inverts joining: text that was put together from parts without the separator comes apart
into those parts again.

* `cutFirst?_eq_some_iff`, `cutFirst?_eq_none_iff` — the first separator, exactly;
* `pieces_intercalate` — the pieces of joined parts;
* `exists_mem_pieces` — nothing but separators is lost between pieces;
* `afterFirst?_eq_some_iff`, `afterFirst?_eq_none_iff` — the first place of a marker, exactly;
* `cuts_eq_splitOnP`, `trimEnd_eq_rdropWhile` — cuts as operations on lists of any kind.
-/

namespace LedgerUri.Text

variable {isSep : Char → Bool}

/-! ## The first separator -/

theorem cutFirst?_append {sep : Char} {left right : List Char} (h : sep ∉ left) :
    cutFirst? sep (left ++ sep :: right) = some (left, right) := by
  induction left with
  | nil => simp [cutFirst?]
  | cons c cs ih =>
    obtain ⟨hc, hcs⟩ := List.ne_and_not_mem_of_not_mem_cons h
    rw [List.cons_append, cutFirst?, if_neg (Ne.symm hc), ih hcs]
    rfl

theorem cutFirst?_eq_none_iff {sep : Char} {text : List Char} :
    cutFirst? sep text = none ↔ sep ∉ text := by
  induction text with
  | nil => simp [cutFirst?]
  | cons c cs ih =>
    by_cases hc : c = sep
    · simp [cutFirst?, hc]
    · simp [cutFirst?, hc, ih, Ne.symm hc]

/-- The cut is at the first separator, and both sides are kept whole. -/
theorem cutFirst?_eq_some_iff {sep : Char} {text left right : List Char} :
    cutFirst? sep text = some (left, right) ↔ sep ∉ left ∧ text = left ++ sep :: right := by
  refine ⟨fun h => ?_, ?_⟩
  · induction text generalizing left with
    | nil => cases h
    | cons c cs ih =>
      by_cases hc : c = sep
      · rw [cutFirst?, if_pos hc] at h
        cases h
        exact ⟨List.not_mem_nil, by rw [hc]; rfl⟩
      · rw [cutFirst?, if_neg hc, Option.map_eq_some_iff] at h
        obtain ⟨⟨l, r⟩, hlr, h⟩ := h
        cases h
        obtain ⟨hl, rfl⟩ := ih hlr
        exact ⟨List.not_mem_cons_of_ne_of_not_mem (Ne.symm hc) hl, rfl⟩
  · rintro ⟨h, rfl⟩
    exact cutFirst?_append h

/-! ## Every separator -/

/-- Cutting at every separator is the splitting of lists. -/
theorem cuts_eq_splitOnP (isSep : Char → Bool) (text : List Char) :
    cuts isSep text = text.splitOnP isSep := by
  induction text with
  | nil => rfl
  | cons c cs ih => rw [cuts, ih, List.splitOnP_cons_eq_if_modifyHead]

theorem cuts_of_forall {part : List Char} (h : ∀ c ∈ part, isSep c = false) :
    cuts isSep part = [part] := by
  induction part with
  | nil => rfl
  | cons c cs ih =>
    obtain ⟨hc, hcs⟩ := List.forall_mem_cons.1 h
    rw [cuts, hc, ih hcs]
    rfl

theorem cuts_append {sep : Char} {part rest : List Char} (hsep : isSep sep = true)
    (h : ∀ c ∈ part, isSep c = false) :
    cuts isSep (part ++ sep :: rest) = part :: cuts isSep rest := by
  induction part with
  | nil => simp [cuts, hsep]
  | cons c cs ih =>
    obtain ⟨hc, hcs⟩ := List.forall_mem_cons.1 h
    rw [List.cons_append, cuts, hc, ih hcs]
    rfl

/-- Cutting inverts joining, as long as there is something to join. -/
theorem cuts_intercalate {sep : Char} {parts : List (List Char)} (hsep : isSep sep = true)
    (hne : parts ≠ []) (h : ∀ part ∈ parts, ∀ c ∈ part, isSep c = false) :
    cuts isSep (List.intercalate [sep] parts) = parts := by
  induction parts with
  | nil => exact absurd rfl hne
  | cons p ps ih =>
    obtain ⟨hp, hps⟩ := List.forall_mem_cons.1 h
    rcases ps with _ | ⟨q, qs⟩
    · rw [List.intercalate_singleton, cuts_of_forall hp]
    · rw [List.intercalate_cons_cons, List.append_assoc, List.singleton_append,
        cuts_append hsep hp, ih (List.cons_ne_nil q qs) hps]

/-- The pieces of joined parts are the parts, when none of them is empty. -/
theorem pieces_intercalate {sep : Char} {parts : List (List Char)} (hsep : isSep sep = true)
    (hne : ∀ part ∈ parts, part ≠ []) (h : ∀ part ∈ parts, ∀ c ∈ part, isSep c = false) :
    pieces isSep (List.intercalate [sep] parts) = parts := by
  rcases parts with _ | ⟨p, ps⟩
  · rfl
  · rw [pieces, cuts_intercalate hsep (List.cons_ne_nil p ps) h, List.filter_eq_self]
    intro part hpart
    simpa using hne part hpart

theorem exists_mem_cuts {text : List Char} {c : Char} (hc : c ∈ text) (hsep : isSep c = false) :
    ∃ part ∈ cuts isSep text, c ∈ part := by
  induction text with
  | nil => cases hc
  | cons x xs ih =>
    obtain ⟨p, ps, hcuts⟩ := List.exists_cons_of_ne_nil (cuts_ne_nil isSep xs)
    rw [cuts]
    rcases List.mem_cons.1 hc with rfl | hc
    · rw [hsep, hcuts]
      exact ⟨c :: p, List.mem_cons_self, List.mem_cons_self⟩
    · obtain ⟨part, hpart, hmem⟩ := ih hc
      by_cases hx : isSep x
      · rw [if_pos hx]
        exact ⟨part, List.mem_cons_of_mem _ hpart, hmem⟩
      · rw [if_neg hx, hcuts]
        rw [hcuts] at hpart
        rcases List.mem_cons.1 hpart with rfl | hpart
        · exact ⟨x :: part, List.mem_cons_self, List.mem_cons_of_mem _ hmem⟩
        · exact ⟨part, List.mem_cons_of_mem _ hpart, hmem⟩

/-- There are no separators in what was cut at them. -/
theorem isSep_eq_false_of_mem_cuts {text part : List Char} (hpart : part ∈ cuts isSep text) :
    ∀ c ∈ part, isSep c = false := by
  induction text generalizing part with
  | nil =>
    rw [List.mem_singleton.1 hpart]
    exact List.forall_mem_nil _
  | cons x xs ih =>
    obtain ⟨p, ps, hcuts⟩ := List.exists_cons_of_ne_nil (cuts_ne_nil isSep xs)
    rw [hcuts] at ih
    rcases hx : isSep x
    · rw [cuts, hx, if_neg Bool.false_ne_true, hcuts] at hpart
      rcases List.mem_cons.1 hpart with rfl | hpart
      · exact List.forall_mem_cons.2 ⟨hx, ih List.mem_cons_self⟩
      · exact ih (List.mem_cons_of_mem p hpart)
    · rw [cuts, if_pos hx, hcuts] at hpart
      rcases List.mem_cons.1 hpart with rfl | hpart
      · exact List.forall_mem_nil _
      · exact ih hpart

/-- Pieces are not empty, and there are no separators in them. -/
theorem whole_of_mem_pieces {text piece : List Char} (hpiece : piece ∈ pieces isSep text) :
    piece ≠ [] ∧ ∀ c ∈ piece, isSep c = false := by
  obtain ⟨hcut, hne⟩ := List.mem_filter.1 hpiece
  refine ⟨?_, isSep_eq_false_of_mem_cuts hcut⟩
  rintro rfl
  cases hne

/-- Every character that is no separator is in some piece. -/
theorem exists_mem_pieces {text : List Char} {c : Char} (hc : c ∈ text) (hsep : isSep c = false) :
    ∃ piece ∈ pieces isSep text, c ∈ piece := by
  obtain ⟨part, hpart, hmem⟩ := exists_mem_cuts hc hsep
  refine ⟨part, List.mem_filter.2 ⟨hpart, ?_⟩, hmem⟩
  simpa using List.ne_nil_of_mem hmem

/-! ## Markers -/

/-- Where a marker first stands in a text: after `front` and before `rest`, and nowhere further
to the left. -/
structure FirstPlace (marker text front rest : List Char) : Prop where
  /-- the marker stands between the two -/
  eq : text = front ++ (marker ++ rest)
  /-- it stands nowhere in front of that -/
  first : ∀ front' rest', text = front' ++ (marker ++ rest') → front.length ≤ front'.length

theorem FirstPlace.cons {marker text front rest : List Char} {c : Char}
    (h : FirstPlace marker text front rest) (hhere : after? marker (c :: text) = none) :
    FirstPlace marker (c :: text) (c :: front) rest := by
  refine ⟨by rw [h.eq, List.cons_append], fun front' rest' heq => ?_⟩
  rcases front' with _ | ⟨d, front'⟩
  · rw [after?_eq_some_iff.2 (heq.trans (List.nil_append _))] at hhere
    cases hhere
  · obtain ⟨-, htext⟩ := List.cons_eq_cons.1 heq
    exact Nat.succ_le_succ (h.first front' rest' htext)

theorem FirstPlace.eq_of_after? {marker text front rest rest' : List Char}
    (h : FirstPlace marker text front rest) (hhere : after? marker text = some rest') :
    rest = rest' := by
  have heq := eq_append_of_after? hhere
  have hfront : front = [] := by simpa using h.first [] rest' heq
  have htext := h.eq
  rw [hfront, heq] at htext
  exact (List.append_cancel_left htext).symm

/-- A search finds the first place of the marker. -/
theorem afterFirst?_eq_some_iff {marker text rest : List Char} :
    afterFirst? marker text = some rest ↔ ∃ front, FirstPlace marker text front rest := by
  induction text with
  | nil =>
    rw [afterFirst?, after?_eq_some_iff]
    refine ⟨fun h => ⟨[], h, fun _ _ _ => Nat.zero_le _⟩, ?_⟩
    rintro ⟨front, heq, -⟩
    rw [(List.append_eq_nil_iff.1 heq.symm).2]
  | cons c cs ih =>
    rcases hhere : after? marker (c :: cs) with _ | found
    · rw [afterFirst?, hhere]
      refine ih.trans ⟨fun ⟨front, h⟩ => ⟨c :: front, h.cons hhere⟩, ?_⟩
      rintro ⟨front, heq, hfirst⟩
      rcases front with _ | ⟨d, front⟩
      · rw [after?_eq_some_iff.2 (heq.trans (List.nil_append _))] at hhere
        cases hhere
      · obtain ⟨rfl, htext⟩ := List.cons_eq_cons.1 heq
        refine ⟨front, htext, fun front' rest' h => ?_⟩
        exact Nat.le_of_succ_le_succ (hfirst (c :: front') rest' (by rw [h, List.cons_append]))
    · rw [afterFirst?, hhere, Option.some.injEq]
      refine ⟨?_, fun ⟨front, h⟩ => (h.eq_of_after? hhere).symm⟩
      rintro rfl
      exact ⟨[], (after?_eq_some_iff.1 hhere).trans (List.nil_append _).symm,
        fun _ _ _ => Nat.zero_le _⟩

theorem after?_eq_none_iff {lead text : List Char} : after? lead text = none ↔ ¬ lead <+: text := by
  rw [Option.eq_none_iff_forall_ne_some]
  refine ⟨fun h ⟨rest, hrest⟩ => h rest (after?_eq_some_iff.2 hrest.symm), fun h rest hrest => ?_⟩
  exact h ⟨rest, (after?_eq_some_iff.1 hrest).symm⟩

/-- A text without `sep` is in front of the first `sep` or is not at the start. -/
theorem after?_append_cons {lead : List Char} {sep : Char} (hlead : sep ∉ lead)
    (path rest : List Char) :
    after? lead (path ++ sep :: rest) = (after? lead path).map (· ++ sep :: rest) := by
  induction lead generalizing path with
  | nil => rfl
  | cons l lead ih =>
    obtain ⟨hl, hlead⟩ := List.ne_and_not_mem_of_not_mem_cons hlead
    rcases path with _ | ⟨c, cs⟩
    · have hnone : after? (l :: lead) (sep :: rest) = none := by rw [after?, if_neg hl.symm]
      rw [List.nil_append, hnone]
      rfl
    · rw [List.cons_append, after?, after?]
      by_cases hc : l = c
      · rw [if_pos hc, if_pos hc, ih hlead cs]
      · rw [if_neg hc, if_neg hc]
        rfl

/-- A search fails exactly when the marker stands nowhere. -/
theorem afterFirst?_eq_none_iff {marker text : List Char} :
    afterFirst? marker text = none ↔ ¬ marker <:+: text := by
  induction text with
  | nil => rw [afterFirst?, after?_eq_none_iff, List.prefix_nil, List.infix_nil]
  | cons c cs ih =>
    rw [List.infix_cons_iff, not_or, ← ih, ← after?_eq_none_iff, afterFirst?]
    rcases after? marker (c :: cs) with _ | found <;> simp

/-- A marker does not occur in a text without the marker's first character. -/
theorem afterFirst?_eq_none {first : Char} {marker text : List Char} (h : first ∉ text) :
    afterFirst? (first :: marker) text = none := by
  induction text with
  | nil => rfl
  | cons c cs ih =>
    obtain ⟨hc, hcs⟩ := List.ne_and_not_mem_of_not_mem_cons h
    have hhere : after? (first :: marker) (c :: cs) = none := by rw [after?, if_neg hc]
    rw [afterFirst?, hhere]
    exact ih hcs

/-! ## Ends -/

/-- Trimming takes off the longest run at the end. -/
theorem trimEnd_eq_rdropWhile (c : Char) (text : List Char) :
    trimEnd c text = text.rdropWhile (· = c) := by
  induction text with
  | nil => rfl
  | cons x xs ih =>
    rw [trimEnd, ih, List.rdropWhile, List.rdropWhile, List.reverse_cons, List.dropWhile_append]
    rcases List.dropWhile (· = c) xs.reverse with _ | ⟨y, ys⟩
    · by_cases hx : x = c <;> simp [hx]
    · rcases hkept : (y :: ys).reverse with _ | ⟨z, zs⟩
      · exact absurd hkept (by simp)
      · rw [List.isEmpty_cons, if_neg Bool.false_ne_true, List.reverse_append, hkept]
        rfl

/-- A run that was added at the end is taken off again. -/
theorem trimEnd_append_replicate (c : Char) (text : List Char) (n : ℕ) :
    trimEnd c (text ++ List.replicate n c) = trimEnd c text := by
  rw [trimEnd_eq_rdropWhile, trimEnd_eq_rdropWhile]
  induction n with
  | zero => rw [List.replicate_zero, List.append_nil]
  | succ n ih =>
    rw [List.replicate_succ', ← List.append_assoc, List.rdropWhile_concat_pos _ _ _ (by simp), ih]

/-- Nothing is taken off a text without the character. -/
theorem trimEnd_of_not_mem {c : Char} {text : List Char} (h : c ∉ text) :
    trimEnd c text = text := by
  rw [trimEnd_eq_rdropWhile]
  refine List.rdropWhile_eq_self_iff.2 fun hne hlast => h ?_
  rw [← of_decide_eq_true hlast]
  exact List.getLast_mem hne

end LedgerUri.Text
