/-!
# Cutting text

URI text is taken apart on lists of characters. Everything here is structural, so each cut has a
one-line equation:

* `cuts` — every piece between two separators, empty ones included;
* `pieces` — the non-empty ones, which is how a query is read;
* `cutFirst?` — the two sides of the first separator;
* `after?` and `afterFirst?` — what follows a marker, at the start or wherever it first occurs;
* `trimEnd` — text without a run of one character at its end.
-/

namespace LedgerUri.Text

/-- Cuts at every separator. There is always one piece more than there are separators. -/
def cuts (isSep : Char → Bool) : List Char → List (List Char)
  | [] => [[]]
  | c :: cs => if isSep c then [] :: cuts isSep cs else (cuts isSep cs).modifyHead (c :: ·)

/-- The non-empty pieces between separators, so runs of separators count once. -/
def pieces (isSep : Char → Bool) (text : List Char) : List (List Char) :=
  (cuts isSep text).filter (!·.isEmpty)

/-- The two sides of the first `sep`, if there is one. -/
def cutFirst? (sep : Char) : List Char → Option (List Char × List Char)
  | [] => none
  | c :: cs =>
    if c = sep then some ([], cs)
    else (cutFirst? sep cs).map fun (left, right) => (c :: left, right)

/-- What follows `lead`, when the text starts with it. -/
def after? : (lead text : List Char) → Option (List Char)
  | [], text => some text
  | _ :: _, [] => none
  | l :: lead, c :: text => if l = c then after? lead text else none

/-- What follows the first occurrence of `marker` anywhere in the text. -/
def afterFirst? (marker : List Char) : List Char → Option (List Char)
  | [] => after? marker []
  | c :: cs =>
    match after? marker (c :: cs) with
    | some rest => some rest
    | none => afterFirst? marker cs

/-- Text without the run of `c` at its end. -/
def trimEnd (c : Char) : List Char → List Char
  | [] => []
  | x :: xs =>
    match trimEnd c xs with
    | [] => if x = c then [] else [x]
    | y :: ys => x :: y :: ys

theorem cuts_ne_nil (isSep : Char → Bool) (text : List Char) : cuts isSep text ≠ [] := by
  induction text with
  | nil => simp [cuts]
  | cons c cs ih =>
    cases hcuts : cuts isSep cs with
    | nil => exact absurd hcuts ih
    | cons p ps => by_cases hc : isSep c <;> simp [cuts, hc, hcuts]

@[simp]
theorem after?_append (lead rest : List Char) : after? lead (lead ++ rest) = some rest := by
  induction lead with
  | nil => simp [after?]
  | cons l lead ih => simp [after?, ih]

theorem eq_append_of_after? {lead text rest : List Char} (h : after? lead text = some rest) :
    text = lead ++ rest := by
  fun_induction after? lead text with
  | case1 => simp_all
  | case2 => simp at h
  | case3 l lead text ih => simp [ih h]
  | case4 => simp at h

/-- `after?` recognises exactly the texts that start with `lead`. -/
theorem after?_eq_some_iff {lead text rest : List Char} :
    after? lead text = some rest ↔ text = lead ++ rest :=
  ⟨eq_append_of_after?, fun h => h ▸ after?_append lead rest⟩

end LedgerUri.Text
