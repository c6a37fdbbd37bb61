import LedgerUri.Text.Percent

/-!
# Escaped text

Text without `%` stands for itself. In any text, a character that no escape can contain keeps its
bytes, so what is missing from the decoded text was missing before.
-/

namespace LedgerUri.Text

theorem unescape_of_not_mem {raw : List Char} (h : '%' ∉ raw) :
    unescape raw = raw.flatMap String.utf8EncodeChar := by
  fun_induction unescape raw with
  | case1 => exact absurd List.mem_cons_self h
  | case2 => exact absurd List.mem_cons_self h
  | case3 c rest _ ih => rw [ih (List.not_mem_of_not_mem_cons h), List.flatMap_cons]
  | case4 => rfl

/-- Text without `%` stands for itself. -/
theorem percentDecode?_of_not_mem {text : String} (h : '%' ∉ text.toList) :
    percentDecode? text.toList = some text := by
  rw [percentDecode?, unescape_of_not_mem h, ofUtf8?_eq_some_iff]
  rfl

/-- A character that is no part of an escape keeps its bytes. -/
theorem mem_unescape {raw : List Char} {c : Char} (hc : c ∈ raw) (hpercent : c ≠ '%')
    (hhex : hexValue? c = none) {b : UInt8} (hb : b ∈ String.utf8EncodeChar c) :
    b ∈ unescape raw := by
  fun_induction unescape raw with
  | case1 high low rest h l hl hh ih =>
    -- neither digit of the escape is `c`, because `c` is no digit
    have hhigh : c ≠ high := fun he => by rw [← he, hhex] at hh; cases hh
    have hlow : c ≠ low := fun he => by rw [← he, hhex] at hl; cases hl
    simp only [List.mem_cons, hpercent, hhigh, hlow, false_or] at hc
    exact List.mem_cons_of_mem _ (ih hc)
  | case2 high low rest _ ih =>
    exact List.mem_append_right _ (ih (List.mem_of_ne_of_mem hpercent hc))
  | case3 x rest _ ih =>
    rcases List.mem_cons.1 hc with rfl | hc
    · exact List.mem_append_left _ hb
    · exact List.mem_append_right _ (ih hc)
  | case4 => cases hc

end LedgerUri.Text
