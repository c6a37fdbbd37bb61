import LedgerUri.Text.Percent

/-!
# Writing with escapes

One text can be written with escapes in many ways: each character as it is or byte by byte, each
digit of an escape in either case. Decoding takes all of them back to the text, and a character that
must be escaped shows up in none of them.

* `Escaped` — the ways to write a text in which some characters must be escaped;
* `Escaped.unescape_eq` — decoding undoes them;
* `Escaped.not_mem` — what must be escaped does not show.
-/

namespace LedgerUri.Text

/-- A hexadecimal digit of a value, in either case. -/
def IsHexDigit (v : Nat) (c : Char) : Prop :=
  c = Nat.digitChar v ∨ c = (Nat.digitChar v).toUpper

/-- The bytes written as escapes, `%` and two digits each. -/
inductive EscapedBytes : List UInt8 → List Char → Prop
  | nil : EscapedBytes [] []
  | cons {b : UInt8} {high low : Char} {bytes : List UInt8} {raw : List Char}
      (hhigh : IsHexDigit (b.toNat / 16) high) (hlow : IsHexDigit (b.toNat % 16) low)
      (h : EscapedBytes bytes raw) : EscapedBytes (b :: bytes) ('%' :: high :: low :: raw)

/-- The ways to write a text: a character stands for itself unless it is reserved, and any character
can be written as escapes of its bytes. -/
inductive Escaped (reserved : List Char) : List Char → List Char → Prop
  | nil : Escaped reserved [] []
  /-- a character as it is -/
  | keep {c : Char} {text raw : List Char} (hc : c ∉ reserved) (h : Escaped reserved text raw) :
      Escaped reserved (c :: text) (c :: raw)
  /-- a character by its bytes -/
  | escape {c : Char} {text escapes raw : List Char}
      (hc : EscapedBytes (String.utf8EncodeChar c) escapes) (h : Escaped reserved text raw) :
      Escaped reserved (c :: text) (escapes ++ raw)

variable {reserved text raw : List Char}

/-! ## Digits -/

theorem hexValue?_of_isHexDigit {v : Nat} {c : Char} (hv : v < 16) (h : IsHexDigit v c) :
    hexValue? c = some v := by
  have hall : ∀ w < 16, hexValue? (Nat.digitChar w) = some w ∧
      hexValue? (Nat.digitChar w).toUpper = some w := by decide
  rcases h with rfl | rfl
  · exact (hall v hv).1
  · exact (hall v hv).2

/-- The two digits of a byte stand for it. -/
theorem unescape_escape {b : UInt8} {high low : Char} (hhigh : IsHexDigit (b.toNat / 16) high)
    (hlow : IsHexDigit (b.toNat % 16) low) (rest : List Char) :
    unescape ('%' :: high :: low :: rest) = b :: unescape rest := by
  have hb : b.toNat < 256 := b.toNat_lt
  have hh := hexValue?_of_isHexDigit (by omega) hhigh
  have hl := hexValue?_of_isHexDigit (by omega) hlow
  have hbyte : UInt8.ofNat (16 * (b.toNat / 16) + b.toNat % 16) = b := by
    rw [Nat.div_add_mod, UInt8.ofNat_toNat]
  simp only [unescape, hh, hl, hbyte]

/-- Any character but `%` stands for its own bytes. -/
theorem unescape_cons_of_ne {c : Char} (hc : c ≠ '%') (rest : List Char) :
    unescape (c :: rest) = String.utf8EncodeChar c ++ unescape rest := by
  rw [unescape]
  rintro high low rest rfl
  exact absurd rfl hc

/-! ## Decoding -/

theorem EscapedBytes.unescape_append {bytes : List UInt8} (h : EscapedBytes bytes raw)
    (rest : List Char) : unescape (raw ++ rest) = bytes ++ unescape rest := by
  induction h with
  | nil => rfl
  | cons hhigh hlow _ ih =>
    simp only [List.cons_append]
    rw [unescape_escape hhigh hlow, ih]

/-- **Decoding undoes escaping**, provided that `%` itself is escaped. -/
theorem Escaped.unescape_eq (h : Escaped reserved text raw) (hpercent : '%' ∈ reserved) :
    unescape raw = text.flatMap String.utf8EncodeChar := by
  induction h with
  | nil => rfl
  | keep hc _ ih =>
    have hne := ne_of_mem_of_not_mem hpercent hc
    rw [unescape_cons_of_ne hne.symm, ih, List.flatMap_cons]
  | escape hc _ ih => rw [hc.unescape_append, ih, List.flatMap_cons]

/-! ## What shows -/

theorem EscapedBytes.hexValue?_ne_none {bytes : List UInt8} (h : EscapedBytes bytes raw) {c : Char}
    (hc : c ∈ raw) (hne : c ≠ '%') : hexValue? c ≠ none := by
  induction h with
  | nil => cases hc
  | @cons b high low bytes raw hhigh hlow _ ih =>
    have hb : b.toNat < 256 := b.toNat_lt
    rcases List.mem_cons.1 hc with rfl | hc
    · exact absurd rfl hne
    rcases List.mem_cons.1 hc with rfl | hc
    · rw [hexValue?_of_isHexDigit (by omega) hhigh]
      exact Option.some_ne_none _
    rcases List.mem_cons.1 hc with rfl | hc
    · rw [hexValue?_of_isHexDigit (by omega) hlow]
      exact Option.some_ne_none _
    · exact ih hc

/-- A reserved character does not show, unless escapes are made of it. -/
theorem Escaped.not_mem (h : Escaped reserved text raw) {c : Char} (hc : c ∈ reserved)
    (hpercent : c ≠ '%') (hhex : hexValue? c = none) : c ∉ raw := by
  induction h with
  | nil => exact List.not_mem_nil
  | keep hd _ ih =>
    exact List.not_mem_cons_of_ne_of_not_mem (ne_of_mem_of_not_mem hc hd) ih
  | escape hd _ ih =>
    intro hmem
    rcases List.mem_append.1 hmem with hmem | hmem
    · exact hd.hexValue?_ne_none hmem hpercent hhex
    · exact ih hmem

theorem EscapedBytes.ne_nil {bytes : List UInt8} (h : EscapedBytes bytes raw) (hne : bytes ≠ []) :
    raw ≠ [] := by
  cases h with
  | nil => exact absurd rfl hne
  | cons => exact List.cons_ne_nil _ _

/-- Something is written for something. -/
theorem Escaped.ne_nil (h : Escaped reserved text raw) (hne : text ≠ []) : raw ≠ [] := by
  cases h with
  | nil => exact absurd rfl hne
  | keep => exact List.cons_ne_nil _ _
  | @escape c _ escapes _ hc _ =>
    have hbytes : String.utf8EncodeChar c ≠ [] := by
      rw [← List.length_pos_iff, String.length_utf8EncodeChar]
      exact c.utf8Size_pos
    exact List.append_ne_nil_of_left_ne_nil (hc.ne_nil hbytes) _

/-- What does not occur in the text may as well have to be escaped. -/
theorem Escaped.reserve {others : List Char} (h : Escaped reserved text raw)
    (hothers : ∀ c ∈ text, c ∉ others) : Escaped others text raw := by
  induction h with
  | nil => exact .nil
  | keep _ _ ih =>
    obtain ⟨hc, htext⟩ := List.forall_mem_cons.1 hothers
    exact .keep hc (ih htext)
  | escape hd _ ih =>
    obtain ⟨-, htext⟩ := List.forall_mem_cons.1 hothers
    exact .escape hd (ih htext)

/-- A text without reserved characters can be written as it is. -/
theorem Escaped.refl (h : ∀ c ∈ text, c ∉ reserved) : Escaped reserved text text := by
  induction text with
  | nil => exact .nil
  | cons c cs ih =>
    obtain ⟨hc, hcs⟩ := List.forall_mem_cons.1 h
    exact .keep hc (ih hcs)

end LedgerUri.Text
