import LedgerUri.Base64.Alphabet

/-!
# Base64 groups

Three bytes are four symbols; one or two bytes at the end are two or three symbols, whose unused
low bits are written as zeros and ignored when read. There is no padding at this level. A single
symbol at the end carries no byte and is refused.
-/

namespace LedgerUri.Base64

/-- Writes a byte string, without padding. -/
def encode (α : Alphabet) : List UInt8 → List Char
  | a :: b :: c :: rest =>
    α.symbol (a.toNat / 4) ::
    α.symbol (a.toNat % 4 * 16 + b.toNat / 16) ::
    α.symbol (b.toNat % 16 * 4 + c.toNat / 64) ::
    α.symbol (c.toNat % 64) :: encode α rest
  | [a, b] =>
    [α.symbol (a.toNat / 4), α.symbol (a.toNat % 4 * 16 + b.toNat / 16),
      α.symbol (b.toNat % 16 * 4)]
  | [a] => [α.symbol (a.toNat / 4), α.symbol (a.toNat % 4 * 16)]
  | [] => []

/-- The byte made of six bits and the two high bits of the next six. -/
def firstByte (v w : Nat) : UInt8 := UInt8.ofNat (v * 4 + w / 16)

/-- The byte made of four low bits and the four high bits of the next six. -/
def secondByte (v w : Nat) : UInt8 := UInt8.ofNat (v % 16 * 16 + w / 4)

/-- The byte made of two low bits and all of the next six. -/
def thirdByte (v w : Nat) : UInt8 := UInt8.ofNat (v % 4 * 64 + w)

/-- Reads unpadded symbols; `none` for a foreign character or a single symbol at the end. -/
def decode? (α : Alphabet) : List Char → Option (List UInt8)
  | c₁ :: c₂ :: c₃ :: c₄ :: rest => do
    let v₁ ← α.value? c₁
    let v₂ ← α.value? c₂
    let v₃ ← α.value? c₃
    let v₄ ← α.value? c₄
    let bytes ← decode? α rest
    return firstByte v₁ v₂ :: secondByte v₂ v₃ :: thirdByte v₃ v₄ :: bytes
  | [c₁, c₂, c₃] => do
    let v₁ ← α.value? c₁
    let v₂ ← α.value? c₂
    let v₃ ← α.value? c₃
    return [firstByte v₁ v₂, secondByte v₂ v₃]
  | [c₁, c₂] => do
    let v₁ ← α.value? c₁
    let v₂ ← α.value? c₂
    return [firstByte v₁ v₂]
  | [_] => none
  | [] => some []

end LedgerUri.Base64
