import LedgerUri.Decimal.Shortest
import LedgerUri.Error

/-!
# Resource ids

An id is a number of 64 bits. It is read from a run of ASCII digits, or converted from a number of
another type; whatever is no such number is refused with its printed value.

* `ResourceId.parse` — an id from text;
* `ResourceId.ofFloat` — an id from a float that denotes one exactly;
* `IdSource.resolve` — an id from any of the supported types.
-/

namespace LedgerUri

/-- The number of an application or token. -/
structure ResourceId where
  /-- the number -/
  value : UInt64
deriving DecidableEq, Hashable

namespace ResourceId

instance : Inhabited ResourceId := ⟨⟨0⟩⟩

/-- The id as a number. -/
def toNat (id : ResourceId) : Nat := id.value.toNat

@[ext]
theorem ext {a b : ResourceId} (h : a.toNat = b.toNat) : a = b := by
  obtain ⟨v⟩ := a
  obtain ⟨w⟩ := b
  exact congrArg mk (UInt64.toNat_inj.1 h)

theorem toNat_lt (id : ResourceId) : id.toNat < UInt64.size :=
  id.value.toNat_lt_size

/-- The id of a number, when it fits in 64 bits. -/
def ofNat? (n : Nat) : Option ResourceId :=
  if n < UInt64.size then some ⟨UInt64.ofNat n⟩ else none

/-- An id is the number that it was made from. -/
theorem ofNat?_eq_some_iff {n : Nat} {id : ResourceId} : ofNat? n = some id ↔ id.toNat = n := by
  rw [ofNat?]
  refine ⟨fun h => ?_, ?_⟩
  · split at h
    · next hn =>
      cases h
      exact UInt64.toNat_ofNat_of_lt' hn
    · cases h
  · intro h
    rw [if_pos (h ▸ id.toNat_lt)]
    refine congrArg some (ext ?_)
    rw [toNat, UInt64.toNat_ofNat_of_lt' (h ▸ id.toNat_lt), h]

theorem ofNat?_eq_none_iff {n : Nat} : ofNat? n = none ↔ UInt64.size ≤ n := by
  rw [ofNat?]
  split <;> simp <;> omega

/-- The id's numeral. -/
def text (id : ResourceId) : String :=
  Decimal.numeral id.toNat

/-- A minus sign in front of at least one digit. -/
def isNegativeNumeral : List Char → Bool
  | '-' :: d :: ds => (d :: ds).all Char.isDigit
  | _ => false

/-- Reads a run of ASCII digits, of any length. -/
def parse (text : String) : Except IdError ResourceId :=
  let chars := text.toList
  if chars.isEmpty then .error .noDigits
  else if isNegativeNumeral chars then .error (.negative text)
  else if chars.all Char.isDigit then
    match ofNat? (Decimal.value chars) with
    | some id => .ok id
    | none => .error (.tooLarge text)
  else .error (.notInteger text)

/-- The least float that is no id: the greatest number of 64 bits, rounded up to `2 ^ 64`. -/
def floatLimit : Binary64.Value :=
  .ofNat (UInt64.size - 1)

/-- The id that a float denotes. Both zeros are zero. -/
def ofFloat (x : Binary64) : Except IdError ResourceId :=
  let v := x.value
  if ¬ v.isFinite ∨ ¬ v.fract.eq .zero then .error (.notInteger x.text)
  else if v.lt .zero then .error (.negative x.text)
  else if floatLimit.le v then .error (.tooLarge x.text)
  else .ok ⟨v.toUInt64⟩

/-- The id of an integer. -/
def ofInt (n : Int) : Except IdError ResourceId :=
  if n < 0 then .error (.negative (Decimal.signedNumeral n))
  else
    match ofNat? n.toNat with
    | some id => .ok id
    | none => .error (.tooLarge (Decimal.signedNumeral n))

/-- An integer is converted to its own number. -/
theorem ofInt_eq_ok_iff {n : Int} {id : ResourceId} : ofInt n = .ok id ↔ id.toNat = n := by
  rw [ofInt]
  by_cases hneg : n < 0
  · rw [if_pos hneg]
    exact iff_of_false nofun (by omega)
  · rw [if_neg hneg]
    have hnat : ofNat? n.toNat = some id ↔ id.toNat = n := ofNat?_eq_some_iff.trans (by omega)
    rw [← hnat]
    cases ofNat? n.toNat <;> simp

/-- An integer is refused when it is negative or does not fit in 64 bits, with its numeral. -/
theorem ofInt_eq_error_iff {n : Int} {error : IdError} :
    ofInt n = .error error ↔
      (n < 0 ∧ error = .negative (Decimal.signedNumeral n)) ∨
        (UInt64.size ≤ n ∧ error = .tooLarge (Decimal.signedNumeral n)) := by
  rw [ofInt]
  by_cases hneg : n < 0
  · have hsmall : ¬ UInt64.size ≤ n := by omega
    rw [if_pos hneg]
    simp only [Except.error.injEq, hneg, hsmall, true_and, false_and, or_false, eq_comm]
  · rw [if_neg hneg]
    have hnone : ofNat? n.toNat = none ↔ UInt64.size ≤ n := ofNat?_eq_none_iff.trans (by omega)
    rw [← hnone]
    cases ofNat? n.toNat <;> simp [hneg, eq_comm]

end ResourceId

/-- The types of value that an id can be given as. -/
inductive IdSource
  | id (id : ResourceId)
  | word64 (n : UInt64)
  | word32 (n : UInt32)
  | int64 (n : Int64)
  | int32 (n : Int32)
  | float (x : Binary64)
  | text (text : String)

namespace IdSource

/-- The value as it is printed in an error. -/
def printed : IdSource → String
  | id i => i.text
  | word64 n => Decimal.numeral n.toNat
  | word32 n => Decimal.numeral n.toNat
  | int64 n => Decimal.signedNumeral n.toInt
  | int32 n => Decimal.signedNumeral n.toInt
  | float x => x.text
  | text t => t

/-- The value as an id, with only what is wrong with it. -/
def convert : IdSource → Except IdError ResourceId
  | id i => .ok i
  | word64 n => .ok ⟨n⟩
  | word32 n => .ok ⟨n.toUInt64⟩
  | int64 n => ResourceId.ofInt n.toInt
  | int32 n => ResourceId.ofInt n.toInt
  | float x => ResourceId.ofFloat x
  | text t => ResourceId.parse t

/-- The value as an id; a failure carries the printed value. -/
def resolve (source : IdSource) : Except UriError ResourceId :=
  source.convert.mapError fun error => ⟨source.printed, .badId error⟩

end IdSource

end LedgerUri
