import LedgerUri.Token.Field

/-!
# Sets of token fields

A word of sixteen bits with one bit per field. The five bits that belong to no field are never set,
so two sets with the same members are equal (`ext_iff`). Each operation has one equation about
membership.
-/

namespace LedgerUri

/-- The word with only the field's bit. -/
def TokenField.bit (f : TokenField) : BitVec 16 := BitVec.twoPow 16 f.index

theorem TokenField.getLsbD_bit (f : TokenField) (i : Nat) :
    f.bit.getLsbD i = decide (f.index = i) := by
  have hf := f.index_lt
  simp [bit, BitVec.getLsbD_twoPow]
  omega

theorem TokenField.bit_ne_zero (f : TokenField) : f.bit ≠ 0#16 := by
  cases f <;> decide

/-- A set of token fields. -/
structure TokenFieldSet where
  /-- the field at place `i` is a member when bit `i` is set -/
  bits : BitVec 16
  /-- a bit without a field is not set -/
  unused : ∀ i, 11 ≤ i → bits.getLsbD i = false
deriving DecidableEq

namespace TokenFieldSet

/-- Membership. -/
def contains (s : TokenFieldSet) (f : TokenField) : Bool :=
  s.bits &&& f.bit ≠ 0#16

/-- The set without members. -/
def empty : TokenFieldSet where
  bits := 0#16
  unused _ _ := BitVec.getLsbD_zero

instance : EmptyCollection TokenFieldSet := ⟨empty⟩

instance : Inhabited TokenFieldSet := ⟨empty⟩

/-- The set of all fields. -/
def full : TokenFieldSet where
  bits := BitVec.ofNat 16 ((1 <<< TokenField.all.length) - 1)
  unused i hi := by
    have hones : BitVec.ofNat 16 ((1 <<< TokenField.all.length) - 1) =
        (BitVec.allOnes 11).setWidth 16 := by decide
    rw [hones, BitVec.getLsbD_setWidth, BitVec.getLsbD_of_ge _ _ hi, Bool.and_false]

/-- The set with `f`. -/
def insert (s : TokenFieldSet) (f : TokenField) : TokenFieldSet where
  bits := s.bits ||| f.bit
  unused i hi := by
    have hf : f.index ≠ i := Nat.ne_of_lt (Nat.lt_of_lt_of_le f.index_lt hi)
    rw [BitVec.getLsbD_or, s.unused i hi, f.getLsbD_bit, decide_eq_false hf, Bool.false_or]

/-- The set without `f`. -/
def erase (s : TokenFieldSet) (f : TokenField) : TokenFieldSet where
  bits := s.bits &&& ~~~f.bit
  unused i hi := by rw [BitVec.getLsbD_and, s.unused i hi, Bool.false_and]

/-- The set with `f` switched on or off. -/
def set (s : TokenFieldSet) (f : TokenField) (on : Bool) : TokenFieldSet :=
  if on then s.insert f else s.erase f

/-- The set of the fields of a list. -/
def ofList (fields : List TokenField) : TokenFieldSet :=
  fields.foldl insert empty

/-- The members in canonical order. -/
def toList (s : TokenFieldSet) : List TokenField :=
  TokenField.all.filter s.contains

/-- Whether there are no members. -/
def isEmpty (s : TokenFieldSet) : Bool :=
  s.bits = 0#16

/-- The number of members: the number of bits that are set. -/
def size (s : TokenFieldSet) : Nat :=
  s.bits.cpop.toNat

theorem contains_eq_getLsbD (s : TokenFieldSet) (f : TokenField) :
    s.contains f = s.bits.getLsbD f.index := by
  rw [contains, TokenField.bit, BitVec.and_twoPow]
  cases s.bits.getLsbD f.index with
  | false => rfl
  | true => exact decide_eq_true f.bit_ne_zero

@[simp]
theorem contains_empty (f : TokenField) : contains ∅ f = false := by
  rw [contains_eq_getLsbD]
  exact BitVec.getLsbD_zero

@[simp]
theorem contains_full (f : TokenField) : contains full f = true := by
  cases f <;> rfl

@[simp]
theorem contains_insert (s : TokenFieldSet) (f g : TokenField) :
    (s.insert f).contains g = (s.contains g || decide (f = g)) := by
  simp [contains_eq_getLsbD, insert, TokenField.getLsbD_bit, TokenField.index_inj]

@[simp]
theorem contains_erase (s : TokenFieldSet) (f g : TokenField) :
    (s.erase f).contains g = (s.contains g && decide (f ≠ g)) := by
  have hg : g.index < 16 := Nat.lt_trans g.index_lt (by decide)
  rw [contains_eq_getLsbD, contains_eq_getLsbD, erase, BitVec.getLsbD_and, BitVec.getLsbD_not,
    TokenField.getLsbD_bit]
  simp [TokenField.index_inj, hg]

/-- Every place below eleven belongs to a field. -/
theorem exists_index_eq {i : Nat} (hi : i < 11) : ∃ f : TokenField, f.index = i := by
  have hall : ∀ j < 11, (TokenField.all.find? fun f => f.index = j).isSome := by decide
  obtain ⟨f, hf⟩ := Option.isSome_iff_exists.1 (hall i hi)
  exact ⟨f, by simpa using List.find?_some hf⟩

/-- Every bit belongs to a member. -/
theorem getLsbD_eq_true_iff (s : TokenFieldSet) (i : Nat) :
    s.bits.getLsbD i = true ↔ ∃ f, s.contains f = true ∧ f.index = i := by
  constructor
  · intro hset
    have hi : i < 11 := by
      refine Nat.lt_of_not_le fun hi => ?_
      rw [s.unused i hi] at hset
      exact Bool.false_ne_true hset
    obtain ⟨f, rfl⟩ := exists_index_eq hi
    exact ⟨f, (s.contains_eq_getLsbD f).trans hset, rfl⟩
  · rintro ⟨f, hf, rfl⟩
    rw [← s.contains_eq_getLsbD f, hf]

/-- Sets with the same members are equal. -/
@[ext]
theorem ext {s t : TokenFieldSet} (h : ∀ f, s.contains f = t.contains f) : s = t := by
  have hbits : s.bits = t.bits := by
    apply BitVec.eq_of_getLsbD_eq
    intro i _
    rw [Bool.eq_iff_iff, getLsbD_eq_true_iff, getLsbD_eq_true_iff]
    simp only [h]
  cases s
  cases t
  simp_all

@[simp]
theorem mem_toList {s : TokenFieldSet} {f : TokenField} : f ∈ s.toList ↔ s.contains f = true := by
  simp [toList, f.mem_all]

end TokenFieldSet

end LedgerUri
