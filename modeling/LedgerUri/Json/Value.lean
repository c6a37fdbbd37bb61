/-!
# JSON values

The values that records are exchanged as, and the accessors that records are read with. Each
accessor answers `none` for a value of the wrong shape.

A record is an object with its members in any order, or an array of exactly its members in order.
Members that the record does not have are ignored. Numbers are told apart by their literal: a run
of digits is a natural number, anything else (a sign, a point, an exponent) is not.
-/

namespace LedgerUri

/-- A JSON value. -/
inductive Json
  | null
  | bool (value : Bool)
  /-- a number written as a run of digits -/
  | nat (value : Nat)
  /-- a number written in any other way -/
  | number (literal : String)
  | str (value : String)
  | arr (items : List Json)
  | obj (members : List (String × Json))

namespace Json

/-- The text of a string. -/
def str? : Json → Option String
  | str value => some value
  | _ => none

/-- A truth value. -/
def bool? : Json → Option Bool
  | bool value => some value
  | _ => none

/-- A natural number below `limit`. -/
def natBelow? (limit : Nat) : Json → Option Nat
  | nat value => if value < limit then some value else none
  | _ => none

/-- A number of eight bits. -/
def uint8? (j : Json) : Option UInt8 :=
  (j.natBelow? UInt8.size).map UInt8.ofNat

/-- A number of 32 bits. -/
def uint32? (j : Json) : Option UInt32 :=
  (j.natBelow? UInt32.size).map UInt32.ofNat

/-- A number of 64 bits. -/
def uint64? (j : Json) : Option UInt64 :=
  (j.natBelow? UInt64.size).map UInt64.ofNat

/-- An array whose items are all read by `f`. -/
def list? {α : Type} (f : Json → Option α) : Json → Option (List α)
  | arr items => items.mapM f
  | _ => none

/-- A list is read back from the array of its items when each of them is. -/
theorem list?_map {α : Type} {f : Json → Option α} {g : α → Json} {xs : List α}
    (h : ∀ x ∈ xs, f (g x) = some x) : (arr (xs.map g)).list? f = some xs := by
  rw [list?, List.mapM_map]
  induction xs with
  | nil => rfl
  | cons x xs ih =>
    obtain ⟨hx, hxs⟩ := List.forall_mem_cons.1 h
    rw [List.mapM_cons, Function.comp_apply, hx, ih hxs]
    rfl

/-- A byte string: an array of numbers of eight bits. -/
def bytes? (j : Json) : Option (List UInt8) :=
  j.list? uint8?

/-- The word of a bare choice: a string, or an object that gives only that word the value null. -/
def word? : Json → Option String
  | str value => some value
  | obj [(value, null)] => some value
  | _ => none

/-- The members of a record by name; `none` stands for one that is missing. -/
def members? (names : List String) : Json → Option (List (Option Json))
  | obj members => some (names.map fun name => List.lookup name members)
  | arr items => if items.length = names.length then some (items.map some) else none
  | _ => none

/-- A member that has to be there. -/
def required? {α : Type} (f : Json → Option α) (member : Option Json) : Option α :=
  member.bind f

/-- A member that may be missing or null. -/
def optional? {α : Type} (f : Json → Option α) : Option Json → Option (Option α)
  | none => some none
  | some null => some none
  | some j => (f j).map some

/-- A byte string as an array of numbers. -/
def ofBytes (bytes : List UInt8) : Json :=
  arr (bytes.map fun b => nat b.toNat)

/-- A value that may be absent, with null for absence. -/
def ofOption {α : Type} (f : α → Json) : Option α → Json
  | none => null
  | some a => f a

end Json

end LedgerUri
