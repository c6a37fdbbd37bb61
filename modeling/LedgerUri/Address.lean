import LedgerUri.Error

/-!
# Account addresses

An address is 58 characters over `A-Z` and `2-7`. Its checksum is not looked at. The type holds
the shape, so an address that exists has passed the check.
-/

namespace LedgerUri

/-- The characters that addresses are written with. -/
def isAddressChar (c : Char) : Bool :=
  ('A' ≤ c ∧ c ≤ 'Z') ∨ ('2' ≤ c ∧ c ≤ '7')

/-- The number of characters of every address. -/
def addressLength : Nat := 58

/-- An account address. -/
structure Address where
  /-- the address as it is written -/
  text : String
  /-- it has the one right length -/
  length_eq : text.toList.length = addressLength
  /-- it is written in its alphabet -/
  chars : ∀ c ∈ text.toList, isAddressChar c = true
deriving DecidableEq

namespace Address

instance : Hashable Address := ⟨fun a => hash a.text⟩

/-- The leftmost character that no address has, with its place counted from `position`. -/
def foreignChar? (position : Nat) : List Char → Option (Char × Nat)
  | [] => none
  | c :: cs => if isAddressChar c then foreignChar? (position + 1) cs else some (c, position)

theorem foreignChar?_eq_none {position : Nat} {cs : List Char} :
    foreignChar? position cs = none ↔ ∀ c ∈ cs, isAddressChar c = true := by
  induction cs generalizing position with
  | nil => simp [foreignChar?]
  | cons c cs ih => by_cases hc : isAddressChar c <;> simp [foreignChar?, hc, ih]

/-- Reads an address. A wrong length is reported before a foreign character. -/
def parse (text : String) : Except AddressError Address :=
  if hlen : text.toList.length = addressLength then
    match hchars : foreignChar? 0 text.toList with
    | none => .ok ⟨text, hlen, foreignChar?_eq_none.1 hchars⟩
    | some (c, position) => .error (.foreignChar c position)
  else .error (.wrongLength addressLength text.toList.length)

@[ext]
theorem ext {a b : Address} (h : a.text = b.text) : a = b := by
  cases a
  cases b
  simp_all

end Address

end LedgerUri
