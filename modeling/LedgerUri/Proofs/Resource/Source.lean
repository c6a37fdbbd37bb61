import LedgerUri.Proofs.Resource.Float
import LedgerUri.Proofs.Resource.Numeral

/-!
# Ids given as values of any type

A value of each type that an id can be given as stands for a number, or for none: an integer for
itself, a float for what it denotes, a text for what its digits spell. It is converted to the id of
that number, and whatever is not converted is refused for what is wrong with it.

* `IdSource.Denotes`, `IdSource.Refused` — what a value stands for, and why it is no id;
* `IdSource.convert_eq_ok_iff`, `IdSource.convert_eq_error_iff` — the conversion follows them.
-/

namespace LedgerUri

/-- A negative integer is refused, and no integer of 64 bits with a sign is too large. -/
theorem ResourceId.ofInt_eq_error_iff_of_lt {n : ℤ} {error : IdError} (h : n < 2 ^ 63) :
    ofInt n = .error error ↔ n < 0 ∧ error = .negative (Decimal.signedNumeral n) := by
  have hsmall : ¬ (UInt64.size : ℤ) ≤ n := by
    have hsize : (UInt64.size : ℤ) = 2 ^ 64 := rfl
    omega
  rw [ofInt_eq_error_iff, or_iff_left fun hlarge => hsmall hlarge.1]

namespace IdSource

/-- The value stands for the number. -/
def Denotes : IdSource → ℕ → Prop
  | id i, n => i.toNat = n
  | word64 w, n => w.toNat = n
  | word32 w, n => w.toNat = n
  | int64 z, n => z.toInt = n
  | int32 z, n => z.toInt = n
  | float x, n => x.Denotes n
  | text t, n => Decimal.IsNumeral t ∧ Decimal.placeValue t.toList = n

/-- Why a value is no id. Integers of these types can be too small only. -/
inductive Refused : IdSource → IdError → Prop
  | int64 {z : Int64} (h : z.toInt < 0) :
    Refused (.int64 z) (.negative (Decimal.signedNumeral z.toInt))
  | int32 {z : Int32} (h : z.toInt < 0) :
    Refused (.int32 z) (.negative (Decimal.signedNumeral z.toInt))
  | float {x : Binary64} {error : IdError} (h : ResourceId.FloatRefused x error) :
    Refused (.float x) error
  | text {t : String} {error : IdError} (h : ResourceId.Refused t error) :
    Refused (.text t) error

variable {source : IdSource} {id : ResourceId} {error : IdError}

/-- **A value is converted to the id of the number that it stands for.** -/
theorem convert_eq_ok_iff : source.convert = .ok id ↔ source.Denotes id.toNat := by
  cases source with
  | id i =>
    rw [convert, Except.ok.injEq]
    exact ResourceId.ext_iff
  | word64 w =>
    rw [convert, Except.ok.injEq]
    exact ResourceId.ext_iff
  | word32 w =>
    rw [convert, Except.ok.injEq, ResourceId.ext_iff, ResourceId.toNat, UInt32.toNat_toUInt64]
    rfl
  | int64 z => exact ResourceId.ofInt_eq_ok_iff.trans eq_comm
  | int32 z => exact ResourceId.ofInt_eq_ok_iff.trans eq_comm
  | float x => exact ResourceId.ofFloat_eq_ok_iff
  | text t =>
    rw [convert, ResourceId.parse_eq_ok_iff, Denotes, Decimal.isNumeral_iff,
      Decimal.value_eq_placeValue, and_assoc]

/-- **A value is refused for what is wrong with it.** -/
theorem convert_eq_error_iff : source.convert = .error error ↔ source.Refused error := by
  have hlt (z : Int32) : z.toInt < 2 ^ 63 := z.toInt_lt.trans (by decide)
  constructor
  · intro h
    cases source with
    | id i => cases h
    | word64 w => cases h
    | word32 w => cases h
    | int64 z =>
      obtain ⟨hneg, rfl⟩ := (ResourceId.ofInt_eq_error_iff_of_lt z.toInt_lt).1 h
      exact .int64 hneg
    | int32 z =>
      obtain ⟨hneg, rfl⟩ := (ResourceId.ofInt_eq_error_iff_of_lt (hlt z)).1 h
      exact .int32 hneg
    | float x => exact .float (ResourceId.ofFloat_eq_error_iff.1 h)
    | text t => exact .text (ResourceId.parse_eq_error_iff.1 h)
  · intro h
    cases h with
    | @int64 z h => exact (ResourceId.ofInt_eq_error_iff_of_lt z.toInt_lt).2 ⟨h, rfl⟩
    | @int32 z h => exact (ResourceId.ofInt_eq_error_iff_of_lt (hlt z)).2 ⟨h, rfl⟩
    | float h => exact ResourceId.ofFloat_eq_error_iff.2 h
    | text h => exact ResourceId.parse_eq_error_iff.2 h

end IdSource

end LedgerUri
