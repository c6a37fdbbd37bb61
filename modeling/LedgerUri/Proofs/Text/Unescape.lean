import LedgerUri.Proofs.Text.Escape
import LedgerUri.Proofs.Text.Percent

/-!
# Reading escapes

What an escaped text stands for, said by rules. An escape is `%` and two hexadecimal digits, in
either case, and stands for one byte. Anything else stands for its own UTF-8 bytes, a `%` included
that two such digits do not follow.

* `Unescapes` — the rules;
* `unescapes_iff` — reading follows them.
-/

namespace LedgerUri.Text

/-- Two hexadecimal digits follow the `%` at the start of the text. -/
def StartsEscape (text : List Char) : Prop :=
  ∃ high low rest, text = '%' :: high :: low :: rest ∧
    (∃ v < 16, IsHexDigit v high) ∧ ∃ w < 16, IsHexDigit w low

/-- The bytes that an escaped text stands for. -/
inductive Unescapes : List Char → List UInt8 → Prop
  | nil : Unescapes [] []
  /-- an escape is the byte that its digits spell -/
  | escape {v w : Nat} {high low : Char} {rest : List Char} {bytes : List UInt8}
      (hv : v < 16) (hw : w < 16) (hhigh : IsHexDigit v high) (hlow : IsHexDigit w low)
      (h : Unescapes rest bytes) :
      Unescapes ('%' :: high :: low :: rest) (UInt8.ofNat (16 * v + w) :: bytes)
  /-- what starts no escape is kept -/
  | keep {c : Char} {rest : List Char} {bytes : List UInt8} (hc : ¬ StartsEscape (c :: rest))
      (h : Unescapes rest bytes) : Unescapes (c :: rest) (String.utf8EncodeChar c ++ bytes)

variable {c : Char} {v : Nat} {raw rest : List Char} {bytes : List UInt8}

/-! ## Digits -/

/-- What counts through a run of characters finds a character of the run at its place. -/
theorem apply_sub_of_run {f : Nat → Char} {first : Char} {length : Nat}
    (hf : ∀ k < length, f k = Char.ofNat (k + first.toNat)) (hlow : first.toNat ≤ c.toNat)
    (hhigh : c.toNat < first.toNat + length) : f (c.toNat - first.toNat) = c := by
  rw [hf _ (by omega), Nat.sub_add_cancel hlow, Char.ofNat_toNat]

/-- A character with a value is a digit of that value. -/
theorem hexValue?_eq_some_iff : hexValue? c = some v ↔ v < 16 ∧ IsHexDigit v c := by
  refine ⟨fun h => ?_, fun h => hexValue?_of_isHexDigit h.1 h.2⟩
  have hdigit : ∀ k < 10, Nat.digitChar k = Char.ofNat (k + '0'.toNat) := by decide
  have hlower : ∀ k < 6, Nat.digitChar (k + 10) = Char.ofNat (k + 'a'.toNat) := by decide
  have hupper : ∀ k < 6, (Nat.digitChar (k + 10)).toUpper = Char.ofNat (k + 'A'.toNat) := by
    decide
  rw [hexValue?] at h
  split at h
  · next hc =>
    obtain rfl := Option.some.inj h
    have hlow : '0'.toNat ≤ c.toNat := hc.1
    have hhigh : c.toNat < '0'.toNat + 10 := Nat.lt_succ_of_le hc.2
    exact ⟨by omega, .inl (apply_sub_of_run hdigit hlow hhigh).symm⟩
  split at h
  · next hc =>
    obtain rfl := Option.some.inj h
    have hlow : 'a'.toNat ≤ c.toNat := hc.1
    have hhigh : c.toNat < 'a'.toNat + 6 := Nat.lt_succ_of_le hc.2
    exact ⟨by omega, .inl (apply_sub_of_run hlower hlow hhigh).symm⟩
  split at h
  · next hc =>
    obtain rfl := Option.some.inj h
    have hlow : 'A'.toNat ≤ c.toNat := hc.1
    have hhigh : c.toNat < 'A'.toNat + 6 := Nat.lt_succ_of_le hc.2
    exact ⟨by omega, .inr (apply_sub_of_run hupper hlow hhigh).symm⟩
  · cases h

/-- A digit has one value. -/
theorem IsHexDigit.unique {w : Nat} (h : IsHexDigit v c) (hv : v < 16) (hw : w < 16)
    (h' : IsHexDigit w c) : v = w := by
  have hvalue := hexValue?_eq_some_iff.2 ⟨hv, h⟩
  rw [hexValue?_eq_some_iff.2 ⟨hw, h'⟩] at hvalue
  exact (Option.some.inj hvalue).symm

/-- An escape starts where both digits have values. -/
theorem startsEscape_iff {high low : Char} :
    StartsEscape ('%' :: high :: low :: rest) ↔
      ∃ v w, hexValue? high = some v ∧ hexValue? low = some w := by
  simp only [hexValue?_eq_some_iff]
  constructor
  · rintro ⟨_, _, _, heq, ⟨v, hv, hhigh⟩, w, hw, hlow⟩
    cases heq
    exact ⟨v, w, ⟨hv, hhigh⟩, hw, hlow⟩
  · rintro ⟨v, w, ⟨hv, hhigh⟩, hw, hlow⟩
    exact ⟨high, low, rest, rfl, ⟨v, hv, hhigh⟩, w, hw, hlow⟩

/-! ## Reading -/

/-- Reading follows the rules. -/
theorem unescapes_unescape (raw : List Char) : Unescapes raw (unescape raw) := by
  fun_induction unescape raw with
  | case1 high low rest h l hl hh ih =>
    obtain ⟨hv, hhigh⟩ := hexValue?_eq_some_iff.1 hh
    obtain ⟨hw, hlow⟩ := hexValue?_eq_some_iff.1 hl
    exact .escape hv hw hhigh hlow ih
  | case2 high low rest hnone ih =>
    refine .keep (fun hstarts => ?_) ih
    obtain ⟨v, w, hhigh, hlow⟩ := startsEscape_iff.1 hstarts
    exact hnone v w hhigh hlow
  | case3 c rest hother ih =>
    refine .keep ?_ ih
    rintro ⟨high, low, rest', heq, -⟩
    cases heq
    exact hother high low rest' rfl rfl
  | case4 => exact .nil

/-- The rules leave no choice. -/
theorem Unescapes.unique {others : List UInt8} (h : Unescapes raw bytes)
    (ho : Unescapes raw others) : bytes = others := by
  -- The first rule that applies is the only one: what starts an escape is never kept.
  induction h generalizing others with
  | nil =>
    cases ho
    rfl
  | @escape v w high low rest bytes hv hw hhigh hlow h ih =>
    cases ho with
    | @escape v' w' _ _ _ _ hv' hw' hhigh' hlow' ho =>
      rw [hhigh.unique hv hv' hhigh', hlow.unique hw hw' hlow', ih ho]
    | keep hc => exact absurd ⟨_, _, _, rfl, ⟨v, hv, hhigh⟩, w, hw, hlow⟩ hc
  | keep hc h ih =>
    cases ho with
    | escape hv hw hhigh hlow => exact absurd ⟨_, _, _, rfl, ⟨_, hv, hhigh⟩, _, hw, hlow⟩ hc
    | keep _ ho => rw [ih ho]

/-- **Reading an escaped text follows the rules.** -/
theorem unescapes_iff : Unescapes raw bytes ↔ unescape raw = bytes :=
  ⟨fun h => (unescapes_unescape raw).unique h, fun h => h ▸ unescapes_unescape raw⟩

end LedgerUri.Text
