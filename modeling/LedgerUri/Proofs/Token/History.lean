import LedgerUri.Json.Uri
import LedgerUri.Proofs.Token.FieldSet

/-!
# Sets of fields and their histories

A set of fields is made, changed and read back many times over. Whatever is done to it, it is the
finite set that one gets by doing the same to a finite set, and nothing else is left of its history:
sets with the same members are equal, are listed and counted as these members, and are exchanged as
their list.

* `Step`, `run` — what can be done to a set, and doing it;
* `Step.on`, `membersAfter` — the same, done to finite sets of fields;
* `Exhibits` — everything that can be asked of a set is answered as for a finite set;
* `run_exhibits` — the run exhibits these members, and is known by them.
-/

namespace LedgerUri

/-! ## Lists of fields as JSON -/

theorem TokenField.ofJson?_toJson (f : TokenField) : ofJson? f.toJson = some f := by
  cases f <;> rfl

namespace TokenFieldSet

theorem ofJson?_eq_of_list? {j : Json} {fields : List TokenField}
    (h : j.list? TokenField.ofJson? = some fields) : ofJson? j = some (ofList fields) := by
  rw [ofJson?, h, Option.map_some]

/-- A set is read back from its list. -/
theorem ofJson?_toJson (s : TokenFieldSet) : ofJson? s.toJson = some s := by
  have hread : (Json.arr (s.toList.map TokenField.toJson)).list? TokenField.ofJson? =
      some s.toList :=
    Json.list?_map fun f _ => f.ofJson?_toJson
  rw [toJson, ofJson?_eq_of_list? hread, ofList_toList]

/-! ## Histories -/

/-- Something that is done to a set. -/
inductive Step
  /-- an empty set takes its place -/
  | empty
  /-- the set of all fields takes its place -/
  | full
  /-- a field is added -/
  | insert (f : TokenField)
  /-- a field is switched on or off -/
  | set (f : TokenField) (on : Bool)
  /-- the set of a list of fields takes its place -/
  | collect (fields : List TokenField)
  /-- what is read of a JSON list of fields takes its place -/
  | read (j : Json) (fields : List TokenField) (h : j.list? TokenField.ofJson? = some fields)

/-- The set after a step. -/
def step (s : TokenFieldSet) : Step → Option TokenFieldSet
  | .empty => some ∅
  | .full => some TokenFieldSet.full
  | .insert f => some (s.insert f)
  | .set f on => some (s.set f on)
  | .collect fields => some (ofList fields)
  | .read j _ _ => ofJson? j

/-- The set after a sequence of steps, the first of which finds an empty set. -/
def run (steps : List Step) : Option TokenFieldSet :=
  steps.foldlM step ∅

/-- What a step does to a finite set of fields. -/
def Step.on (members : Finset TokenField) : Step → Finset TokenField
  | .empty => ∅
  | .full => TokenField.all.toFinset
  | .insert f => Insert.insert f members
  | .set f on => if on then Insert.insert f members else members.erase f
  | .collect fields => fields.toFinset
  | .read _ fields _ => fields.toFinset

/-- The members after a sequence of steps. -/
def membersAfter (steps : List Step) : Finset TokenField :=
  steps.foldl Step.on ∅

/-- The set has just these members. -/
def Represents (s : TokenFieldSet) (members : Finset TokenField) : Prop :=
  ∀ f, s.contains f = true ↔ f ∈ members

theorem represents_ofList (fields : List TokenField) :
    (ofList fields).Represents fields.toFinset := by
  intro f
  rw [contains_ofList, decide_eq_true_iff, List.mem_toFinset]

/-- A step succeeds, and does to the set what it does to its members. -/
theorem Represents.step {s : TokenFieldSet} {members : Finset TokenField}
    (h : s.Represents members) (a : Step) :
    ∃ next, s.step a = some next ∧ next.Represents (a.on members) := by
  cases a with
  | empty => exact ⟨_, rfl, fun f => by simp [Step.on]⟩
  | full => exact ⟨_, rfl, fun f => by simp [Step.on, f.mem_all]⟩
  | insert g =>
    refine ⟨_, rfl, fun f => ?_⟩
    rw [contains_insert, Bool.or_eq_true, h f, decide_eq_true_iff, Step.on, Finset.mem_insert,
      or_comm, eq_comm]
  | set g on =>
    refine ⟨_, rfl, fun f => ?_⟩
    rw [contains_set]
    cases on <;> by_cases hg : g = f <;> simp [Step.on, hg, h f, Ne.symm]
  | collect fields => exact ⟨_, rfl, represents_ofList fields⟩
  | read j fields hread => exact ⟨_, ofJson?_eq_of_list? hread, represents_ofList fields⟩

/-- A run succeeds from any set, and does to it what it does to its members. -/
theorem Represents.foldlM_step {s : TokenFieldSet} {members : Finset TokenField}
    (h : s.Represents members) (steps : List Step) :
    ∃ last, steps.foldlM TokenFieldSet.step s = some last ∧
      last.Represents (steps.foldl Step.on members) := by
  induction steps generalizing s members with
  | nil => exact ⟨s, rfl, h⟩
  | cons a steps ih =>
    obtain ⟨next, hnext, hmembers⟩ := h.step a
    obtain ⟨last, hlast, hlastMembers⟩ := ih hmembers
    refine ⟨last, ?_, hlastMembers⟩
    rw [List.foldlM_cons, hnext]
    exact hlast

/-- A run succeeds, and has the members that the steps leave. -/
theorem exists_run (steps : List Step) :
    ∃ s, run steps = some s ∧ s.Represents (membersAfter steps) := by
  refine Represents.foldlM_step (fun f => ?_) steps
  rw [contains_empty]
  simp

/-- Sets with the same members are one set. -/
theorem Represents.unique {s t : TokenFieldSet} {members : Finset TokenField}
    (hs : s.Represents members) (ht : t.Represents members) : s = t := by
  ext f
  rw [Bool.eq_iff_iff, hs f, ht f]

/-- And one set has only one set of members. -/
theorem Represents.members_unique {s : TokenFieldSet} {members others : Finset TokenField}
    (h : s.Represents members) (hothers : s.Represents others) : members = others :=
  Finset.ext fun f => (h f).symm.trans (hothers f)

/-- Two runs end with one set just when they leave the same members. -/
theorem run_eq_run_iff (steps steps' : List Step) :
    run steps = run steps' ↔ membersAfter steps = membersAfter steps' := by
  obtain ⟨s, hs, hmembers⟩ := exists_run steps
  obtain ⟨s', hs', hmembers'⟩ := exists_run steps'
  rw [hs, hs', Option.some_inj]
  constructor
  · rintro rfl
    exact hmembers.members_unique hmembers'
  · intro hsame
    rw [← hsame] at hmembers'
    exact hmembers.unique hmembers'

/-! ## What is seen of a set -/

/-- Everything that can be asked of the set is answered by these members alone. -/
structure Exhibits (s : TokenFieldSet) (members : Finset TokenField) : Prop where
  /-- they pass the test for membership -/
  contains : ∀ f, s.contains f = true ↔ f ∈ members
  /-- their bits are set, and no other -/
  bits : ∀ i, s.bits.getLsbD i = true ↔ ∃ f ∈ members, f.index = i
  /-- they are listed -/
  listed : ∀ f, f ∈ s.toList ↔ f ∈ members
  /-- in canonical order -/
  sorted : s.toList.Pairwise fun f g => f.index < g.index
  /-- and once each -/
  nodup : s.toList.Nodup
  /-- they are counted -/
  size : s.size = members.card
  /-- and missed when there are none -/
  isEmpty : s.isEmpty = true ↔ members = ∅
  /-- the set is written as their list -/
  toJson : s.toJson = .arr (s.toList.map TokenField.toJson)
  /-- from which it is read back -/
  ofJson? : TokenFieldSet.ofJson? s.toJson = some s

theorem Represents.toFinset_toList {s : TokenFieldSet} {members : Finset TokenField}
    (h : s.Represents members) : s.toList.toFinset = members := by
  ext f
  rw [List.mem_toFinset, mem_toList, h f]

/-- What a set exhibits follows from its members. -/
theorem Represents.exhibits {s : TokenFieldSet} {members : Finset TokenField}
    (h : s.Represents members) : s.Exhibits members where
  contains := h
  bits i := by
    rw [getLsbD_eq_true_iff]
    exact exists_congr fun f => and_congr_left' (h f)
  listed f := by rw [mem_toList, h f]
  sorted := s.pairwise_toList
  nodup := s.nodup_toList
  size := by
    rw [size_eq_length, ← h.toFinset_toList, List.toFinset_card_of_nodup s.nodup_toList]
  isEmpty := by
    rw [isEmpty_eq_true_iff, Finset.eq_empty_iff_forall_notMem]
    refine forall_congr' fun f => ?_
    rw [← h f, Bool.not_eq_true]
  toJson := rfl
  ofJson? := ofJson?_toJson s

/-- **A set of fields is a finite set, whatever is done to it.** Every run ends with a set that
exhibits the members that the same steps leave in a finite set, and two runs end with one set just
when these are the same. A step that is about one field leaves the others alone, and a list that is
read is written again in canonical order and without repetitions. -/
theorem run_exhibits :
    (∀ steps, ∃ s, run steps = some s ∧ s.Exhibits (membersAfter steps)) ∧
    (∀ steps steps', run steps = run steps' ↔ membersAfter steps = membersAfter steps') ∧
    (∀ (s : TokenFieldSet) f g on, f ≠ g →
      (s.insert f).contains g = s.contains g ∧ (s.set f on).contains g = s.contains g) ∧
    ∀ j fields, j.list? TokenField.ofJson? = some fields →
      (ofJson? j).map toJson =
        some (.arr ((TokenField.all.filter fun f => f ∈ fields).map TokenField.toJson)) := by
  refine ⟨?_, run_eq_run_iff, ?_, ?_⟩
  · intro steps
    obtain ⟨s, hs, hmembers⟩ := exists_run steps
    exact ⟨s, hs, hmembers.exhibits⟩
  · intro s f g on hne
    rw [contains_insert, contains_set, if_neg hne, decide_eq_false hne, Bool.or_false]
    exact ⟨rfl, rfl⟩
  · intro j fields hread
    rw [ofJson?_eq_of_list? hread, Option.map_some, toJson, toList_ofList]

/-- A list of names, one of them as a record and one of them twice. -/
def mixedNames : Json :=
  .arr [.str "url", .obj [("total", .null)], .str "url"]

/-- The names are read, in one history that ends like another, and written again in order. -/
theorem run_exhibits_mixedNames :
    run [.full, .read mixedNames [.url, .total, .url] rfl, .set .url false, .insert .manager] =
      run [.collect [.manager, .total, .manager]] ∧
    ((ofList [.url]).set .total true).contains .url = (ofList [.url]).contains .url ∧
    (ofJson? mixedNames).map toJson = some (.arr [.str "total", .str "url"]) := by
  obtain ⟨-, hruns, hothers, hwritten⟩ := run_exhibits
  refine ⟨(hruns _ _).2 (by decide), (hothers _ .total .url true (by decide)).2, ?_⟩
  exact hwritten mixedNames [.url, .total, .url] rfl

end TokenFieldSet

end LedgerUri
