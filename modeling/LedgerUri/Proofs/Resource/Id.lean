import LedgerUri.Resource.Id
import Mathlib.Data.List.Basic

/-!
# Ids as text

A text is an id exactly when it is a run of digits whose number fits in 64 bits, leading zeros
included. The numeral that an id is written with is one such run.
-/

namespace LedgerUri

namespace Decimal

theorem digits_ne_nil (n : Nat) : digits n ≠ [] :=
  Nat.toDigits_ne_nil

theorem isDigit_of_mem_digits {n : Nat} {c : Char} (h : c ∈ digits n) : c.isDigit = true :=
  Nat.isDigit_of_mem_toDigits (by omega) (by omega) h

end Decimal

namespace ResourceId

/-- Every number of 64 bits is an id. -/
theorem exists_toNat_eq {n : Nat} (h : n < UInt64.size) : ∃ id : ResourceId, id.toNat = n :=
  ⟨_, ofNat?_eq_some_iff.1 (if_pos h)⟩

theorem isNegativeNumeral_of_digits {run : List Char} (h : ∀ c ∈ run, c.isDigit = true) :
    isNegativeNumeral run = false := by
  unfold isNegativeNumeral
  split
  · have := h '-' List.mem_cons_self
    cases this
  · rfl

/-- Text is read as an id exactly when it is a run of digits that spells the id's number. -/
theorem parse_eq_ok_iff {text : String} {id : ResourceId} :
    parse text = .ok id ↔
      text.toList ≠ [] ∧ (∀ c ∈ text.toList, c.isDigit = true) ∧
        Decimal.value text.toList = id.toNat := by
  rw [parse]
  refine ⟨fun h => ?_, ?_⟩
  · split at h
    · cases h
    · next hne =>
      split at h
      · cases h
      · split at h
        · next hdigits =>
          split at h
          · next n hn =>
            cases h
            refine ⟨by simpa using hne, by simpa using hdigits, ?_⟩
            exact (ofNat?_eq_some_iff.1 hn).symm
          · cases h
        · cases h
  · rintro ⟨hne, hdigits, hvalue⟩
    have hall : text.toList.all Char.isDigit = true := List.all_eq_true.2 hdigits
    have hnum : ofNat? (Decimal.value text.toList) = some id := ofNat?_eq_some_iff.2 hvalue.symm
    simp only [isNegativeNumeral_of_digits hdigits, hall, hnum, List.isEmpty_iff, hne, if_true,
      if_false, Bool.false_eq_true]

/-- An id is read back from its numeral. -/
theorem parse_text (id : ResourceId) : parse id.text = .ok id := by
  rw [parse_eq_ok_iff, text, Decimal.numeral, String.toList_ofList]
  exact ⟨Decimal.digits_ne_nil _, fun c hc => Decimal.isDigit_of_mem_digits hc,
    Decimal.value_digits _⟩

end ResourceId

end LedgerUri
