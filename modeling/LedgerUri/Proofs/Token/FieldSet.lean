import LedgerUri.Token.FieldSet
import Mathlib.Data.Finset.Card
import Mathlib.Data.List.Sort

/-!
# Members of a set of fields

A set of fields has one bit for each field, at the field's place in the canonical order, and no
other bit is set. So the members are listed in canonical order because the places are gone through
in that order, and counting bits counts them. A set that is put together from a list has the members
of the list, in whatever order and however often they stand there.

* `contains_set`, `contains_ofList` — members after a switch, and of a list;
* `pairwise_toList`, `size_eq_length`, `isEmpty_eq_true_iff` — members in order, and how many.
-/

namespace LedgerUri

theorem TokenField.map_index_all : all.map index = List.range 11 :=
  rfl

theorem TokenField.pairwise_all : all.Pairwise fun f g => f.index < g.index := by
  rw [← List.pairwise_map, map_index_all]
  exact List.pairwise_lt_range

namespace TokenFieldSet

/-! ## Members -/

/-- Switching a field changes whether it is a member, and nothing about the others. -/
theorem contains_set (s : TokenFieldSet) (f g : TokenField) (on : Bool) :
    (s.set f on).contains g = if f = g then on else s.contains g := by
  cases on <;> by_cases h : f = g <;> simp [set, h]

theorem contains_foldl_insert (fields : List TokenField) (s : TokenFieldSet) (f : TokenField) :
    (fields.foldl insert s).contains f = (s.contains f || decide (f ∈ fields)) := by
  induction fields generalizing s with
  | nil => simp
  | cons g gs ih =>
    rw [List.foldl_cons, ih, contains_insert]
    simp [Bool.or_assoc, eq_comm]

/-- The set of a list has the members of the list. -/
theorem contains_ofList (fields : List TokenField) (f : TokenField) :
    (ofList fields).contains f = decide (f ∈ fields) := by
  have hempty : empty.contains f = false := contains_empty f
  rw [ofList, contains_foldl_insert, hempty, Bool.false_or]

/-- A set is put together again from its members. -/
theorem ofList_toList (s : TokenFieldSet) : ofList s.toList = s := by
  ext f
  rw [contains_ofList, Bool.eq_iff_iff, decide_eq_true_iff, mem_toList]

/-- The members of a list in canonical order. -/
theorem toList_ofList (fields : List TokenField) :
    (ofList fields).toList = TokenField.all.filter fun f => f ∈ fields := by
  rw [toList]
  exact List.filter_congr fun f _ => contains_ofList fields f

/-- Fields in strictly increasing places are the members of their set, in its order. -/
theorem toList_ofList_of_pairwise {fields : List TokenField}
    (h : fields.Pairwise fun f g => f.index < g.index) :
    (ofList fields).toList = fields := by
  have hantisymm : Std.Antisymm fun f g : TokenField => f.index < g.index :=
    ⟨fun f g hfg hgf => absurd hfg (Nat.lt_asymm hgf)⟩
  have hirrefl : Std.Irrefl fun f g : TokenField => f.index < g.index :=
    ⟨fun f => Nat.lt_irrefl _⟩
  rw [toList_ofList]
  refine (TokenField.pairwise_all.filter _).eq_of_mem_iff h fun f => ?_
  simp [f.mem_all]

/-! ## Listing and counting -/

/-- The members are listed in canonical order. -/
theorem pairwise_toList (s : TokenFieldSet) : s.toList.Pairwise fun f g => f.index < g.index :=
  TokenField.pairwise_all.filter _

theorem nodup_toList (s : TokenFieldSet) : s.toList.Nodup := by
  refine s.pairwise_toList.imp ?_
  rintro f g hlt rfl
  exact Nat.lt_irrefl _ hlt

/-- Counting the bits of a word counts the places that are set. -/
theorem cpopNatRec_eq_countP {w : ℕ} (x : BitVec w) (k : ℕ) :
    x.cpopNatRec k 0 = (List.range k).countP x.getLsbD := by
  induction k with
  | zero => rfl
  | succ k ih =>
    rw [BitVec.cpopNatRec_succ, BitVec.cpopNatRec_add, ih, List.range_succ, List.countP_append]
    cases h : x.getLsbD k <;> simp [h]

/-- No flag counts beyond the places of the fields. -/
theorem countP_getLsbD (s : TokenFieldSet) :
    (List.range 16).countP s.bits.getLsbD = (List.range 11).countP s.bits.getLsbD := by
  have hrange : List.range 16 = List.range 11 ++ List.range' 11 5 := rfl
  rw [hrange, List.countP_append, Nat.add_eq_left, List.countP_eq_zero]
  intro i hi
  rw [s.unused i (List.mem_range'_1.1 hi).1]
  exact Bool.false_ne_true

/-- **A set has as many members as flags.** -/
theorem size_eq_length (s : TokenFieldSet) : s.size = s.toList.length := by
  have hcontains : s.contains = s.bits.getLsbD ∘ TokenField.index :=
    funext s.contains_eq_getLsbD
  rw [size, BitVec.toNat_cpop, cpopNatRec_eq_countP, countP_getLsbD, ← TokenField.map_index_all,
    List.countP_map, toList, ← List.countP_eq_length_filter, hcontains]

theorem isEmpty_eq_true_iff (s : TokenFieldSet) :
    s.isEmpty = true ↔ ∀ f, s.contains f = false := by
  rw [isEmpty, decide_eq_true_iff]
  refine ⟨fun h f => ?_, fun h => ?_⟩
  · rw [contains_eq_getLsbD, h, BitVec.getLsbD_zero]
  · have hempty : s = empty := ext fun f => (h f).trans (contains_empty f).symm
    rw [hempty]
    rfl

end TokenFieldSet

end LedgerUri
