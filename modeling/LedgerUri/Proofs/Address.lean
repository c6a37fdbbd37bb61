import LedgerUri.Address
import Mathlib.Data.List.Basic

/-!
# Addresses and their texts

An address is its text, so it is read from that text and from no other.
-/

namespace LedgerUri.Address

/-- An address is read from its own text and from no other. -/
theorem parse_eq_ok_iff {text : String} {a : Address} :
    parse text = .ok a ↔ text = a.text := by
  rw [parse]
  refine ⟨fun h => ?_, ?_⟩
  · split at h
    · split at h
      · cases h
        rfl
      · cases h
    · cases h
  · rintro rfl
    rw [dif_pos a.length_eq]
    split
    · rfl
    · next c position hc =>
      rw [foreignChar?_eq_none.2 a.chars] at hc
      cases hc

/-- The address that repeats one character. -/
def repeated (c : Char) (hc : isAddressChar c = true) : Address where
  text := String.ofList (List.replicate addressLength c)
  length_eq := by rw [String.toList_ofList, List.length_replicate]
  chars := by
    intro d hd
    rw [String.toList_ofList] at hd
    rw [List.eq_of_mem_replicate hd]
    exact hc

/-- One address. -/
def allA : Address := repeated 'A' rfl

/-- Another one. -/
def allB : Address := repeated 'B' rfl

end LedgerUri.Address
