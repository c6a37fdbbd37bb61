import LedgerUri.Proofs.Uri.Written
import LedgerUri.Uri.Draft

/-!
# Drafts and what they collect

A draft is made step by step, and a step may fail: text need not be an address. A step that fails
leaves nothing behind, and every other step adds to one part of the request only, so what counts in
the end is what was asked for of each kind, in what order, and not how the kinds were mixed. For a
token not even the order counts.

* `ApplicationStep`, `TokenStep` — the steps;
* `ApplicationStep.chain` — the request that the steps ask for, without a draft;
* `ApplicationDraft.run_eq`, `ApplicationStep.chain_eq` — what a run of steps collects;
* `write_run_agree` — hence what is written in the end.
-/

namespace LedgerUri.Uri

/-! ## Applications -/

/-- A step in making a URI of an application. -/
inductive ApplicationStep
  | box (key : String)
  | global (key : String)
  | localKey (key : String) (address : Address)
  | localKeyAt (key address : String)
  | programs
deriving DecidableEq

namespace ApplicationStep

/-- The box that a step asks for. -/
def box? : ApplicationStep → Option String
  | .box key => some key
  | _ => none

/-- The key of global state that a step asks for. -/
def global? : ApplicationStep → Option String
  | .global key => some key
  | _ => none

/-- The key of local state that a step asks for. With a text that is no address it is none. -/
def local? : ApplicationStep → Option LocalRequest
  | .localKey key address => some ⟨key, address⟩
  | .localKeyAt key address => (Address.parse address).toOption.map (LocalRequest.mk key)
  | _ => none

/-- A request that also asks for what a step does. -/
def extend (r : ApplicationRequest) : ApplicationStep → ApplicationRequest
  | .box key => r.addBox key
  | .global key => r.addGlobal key
  | .localKey key address => r.addLocal key address
  | .localKeyAt key address =>
    match Address.parse address with
    | .ok a => r.addLocal key a
    | .error _ => r
  | .programs => r.addPrograms

/-- The request that asks for what the steps do, one after the other. -/
def chain (steps : List ApplicationStep) : ApplicationRequest :=
  steps.foldl extend ∅

/-- Both ask for the same boxes in the same order, and so for each kind of key, whatever stands in
between, and both or neither ask for the programs. -/
structure SameOfEachKind (steps steps' : List ApplicationStep) : Prop where
  /-- the same boxes -/
  boxes : steps.filterMap box? = steps'.filterMap box?
  /-- the same keys of global state -/
  globals : steps.filterMap global? = steps'.filterMap global?
  /-- the same keys of local state -/
  locals : steps.filterMap local? = steps'.filterMap local?
  /-- the programs or not -/
  programs : .programs ∈ steps ↔ .programs ∈ steps'

/-- A step adds to the end of its own part. -/
theorem extend_eq (r : ApplicationRequest) (s : ApplicationStep) :
    extend r s = ⟨r.boxKeys ++ s.box?.toList, r.globalKeys ++ s.global?.toList,
      r.localReads ++ s.local?.toList, r.programs || decide (s = .programs)⟩ := by
  cases s with
  | localKeyAt key address =>
    rcases h : Address.parse address with error | a <;>
      simp [extend, box?, global?, local?, h, ApplicationRequest.addLocal, Except.toOption]
  | _ =>
    simp [extend, box?, global?, local?, ApplicationRequest.addBox, ApplicationRequest.addGlobal,
      ApplicationRequest.addLocal, ApplicationRequest.addPrograms]

theorem foldl_extend_eq (r : ApplicationRequest) (steps : List ApplicationStep) :
    steps.foldl extend r = ⟨r.boxKeys ++ steps.filterMap box?,
      r.globalKeys ++ steps.filterMap global?, r.localReads ++ steps.filterMap local?,
      r.programs || decide (.programs ∈ steps)⟩ := by
  induction steps generalizing r with
  | nil => simp
  | cons s steps ih =>
    rw [List.foldl_cons, ih, extend_eq]
    simp [List.filterMap_eq_flatMap_toList, Bool.or_assoc, eq_comm]

/-- **Each part of the request is what the steps asked for of its kind.** -/
theorem chain_eq (steps : List ApplicationStep) :
    chain steps = ⟨steps.filterMap box?, steps.filterMap global?, steps.filterMap local?,
      decide (.programs ∈ steps)⟩ := by
  rw [chain, foldl_extend_eq]
  simp [EmptyCollection.emptyCollection, ApplicationRequest.empty]

end ApplicationStep

namespace ApplicationDraft

/-- The draft that a step makes of a draft, or why the step fails. -/
def attempt (d : ApplicationDraft) : ApplicationStep → Except UriError ApplicationDraft
  | .box key => .ok (d.askBox key)
  | .global key => .ok (d.askGlobal key)
  | .localKey key address => .ok (d.askLocal key address)
  | .localKeyAt key address => d.askLocalAt key address
  | .programs => .ok d.askPrograms

/-- The draft after a step. One that fails leaves the draft as it was. -/
def step (d : ApplicationDraft) (s : ApplicationStep) : ApplicationDraft :=
  match d.attempt s with
  | .ok next => next
  | .error _ => d

/-- The draft after a sequence of steps. -/
def run (d : ApplicationDraft) (steps : List ApplicationStep) : ApplicationDraft :=
  steps.foldl step d

theorem attempt_localKeyAt {d : ApplicationDraft} {key address : String} {error : AddressError}
    (h : Address.parse address = .error error) :
    d.attempt (.localKeyAt key address) = .error ⟨address, .badAddress error⟩ := by
  rw [attempt, askLocalAt, h]

/-- A step extends the request and nothing else. -/
theorem step_eq (d : ApplicationDraft) (s : ApplicationStep) :
    d.step s = ⟨d.id, ApplicationStep.extend d.request s⟩ := by
  cases s with
  | localKeyAt key address =>
    rcases h : Address.parse address with error | a <;>
      simp [step, attempt, askLocalAt, askLocal, ApplicationStep.extend, h]
  | _ => rfl

/-- **A run of steps collects what they ask for.** -/
theorem run_eq (d : ApplicationDraft) (steps : List ApplicationStep) :
    d.run steps = ⟨d.id, steps.foldl ApplicationStep.extend d.request⟩ := by
  induction steps generalizing d with
  | nil => rfl
  | cons s steps ih =>
    change (d.step s).run steps = _
    rw [ih, step_eq]
    rfl

/-- A step that fails might as well be left out. -/
theorem run_localKeyAt {d : ApplicationDraft} {key address : String} {error : AddressError}
    (h : Address.parse address = .error error) (before after : List ApplicationStep) :
    d.run (before ++ .localKeyAt key address :: after) = d.run (before ++ after) := by
  have hstep : ∀ d : ApplicationDraft, d.step (.localKeyAt key address) = d := by
    intro d
    rw [step, attempt_localKeyAt h]
  simp only [run, List.foldl_append, List.foldl_cons, hstep]

end ApplicationDraft

/-! ## Tokens -/

/-- A step in making a URI of a token. -/
inductive TokenStep
  | field (f : TokenField)
  | all

/-- The field is named by a step, or all fields are. -/
def Named (steps : List TokenStep) (f : TokenField) : Prop :=
  .all ∈ steps ∨ .field f ∈ steps

namespace TokenDraft

/-- The draft after a step. -/
def step (d : TokenDraft) : TokenStep → TokenDraft
  | .field f => d.ask f
  | .all => d.askAll

/-- The draft after a sequence of steps. -/
def run (d : TokenDraft) (steps : List TokenStep) : TokenDraft :=
  steps.foldl step d

theorem id_run (d : TokenDraft) (steps : List TokenStep) : (d.run steps).id = d.id := by
  induction steps generalizing d with
  | nil => rfl
  | cons s steps ih => exact (ih (d.step s)).trans (by cases s <;> rfl)

/-- A field is asked for when it was before or is named. -/
theorem contains_run (d : TokenDraft) (steps : List TokenStep) (f : TokenField) :
    (d.run steps).fields.contains f = true ↔ d.fields.contains f = true ∨ Named steps f := by
  induction steps generalizing d with
  | nil => simp [run, Named]
  | cons s steps ih =>
    have hstep : (d.step s).fields.contains f = true ↔
        d.fields.contains f = true ∨ Named [s] f := by
      cases s with
      | field g => simp [step, ask, Named, @eq_comm _ f]
      | all => simp [step, askAll, Named]
    change ((d.step s).run steps).fields.contains f = true ↔ _
    rw [ih, hstep]
    simp only [Named, List.mem_cons, List.not_mem_nil, or_false]
    tauto

/-- **A run of steps collects the fields that they name.** -/
theorem contains_run_new (id : ResourceId) (steps : List TokenStep) (f : TokenField) :
    ((new id).run steps).fields.contains f = true ↔ Named steps f := by
  have hempty : (new id).fields.contains f = false := TokenFieldSet.contains_empty f
  rw [contains_run, hempty]
  exact or_iff_right Bool.false_ne_true

theorem write_run (id : ResourceId) (steps : List TokenStep) :
    ((new id).run steps).write =
      Uri.write .token id (tokenEntries ((new id).run steps).fields) := by
  rw [write, id_run]
  rfl

end TokenDraft

/-- Different fields are written differently. -/
theorem write_tokenEntries_inj {id : ResourceId} {fields fields' : TokenFieldSet} :
    write .token id (tokenEntries fields) = write .token id (tokenEntries fields') ↔
      fields = fields' := by
  refine ⟨fun h => ?_, fun h => by rw [h]⟩
  have hparse : ∀ fields : TokenFieldSet,
      Query.parse .strict (write .token id (tokenEntries fields)) =
        .ok ⟨id, .token fields, write .token id (tokenEntries fields)⟩ :=
    fun fields => (@parse_write (.token fields) trivial id).1
  have hread := hparse fields
  rw [h, hparse fields'] at hread
  cases hread
  rfl

/-! ## Both -/

/-- **A draft is written as what its steps ask for.** An application's draft collects the same as
the chain of requests: of each kind what the steps ask for, in their order, and the programs if any
of them does. A text that is no address fails and leaves nothing behind; how the kinds of steps are
mixed does not matter. A token's draft is written as the fields that were named, and two of them in
the same way exactly when they name the same fields. -/
theorem write_run_agree (id : ResourceId) :
    (∀ steps, ((ApplicationDraft.new id).run steps).request = ApplicationStep.chain steps ∧
      ApplicationStep.chain steps = ⟨steps.filterMap ApplicationStep.box?,
        steps.filterMap ApplicationStep.global?, steps.filterMap ApplicationStep.local?,
        decide (.programs ∈ steps)⟩ ∧
      ((ApplicationDraft.new id).run steps).write =
        buildApplication (.id id) (ApplicationStep.chain steps)) ∧
    (∀ (d : ApplicationDraft) key address error, Address.parse address = .error error →
      d.attempt (.localKeyAt key address) = .error ⟨address, .badAddress error⟩ ∧
      ∀ before after,
        d.run (before ++ .localKeyAt key address :: after) = d.run (before ++ after)) ∧
    (∀ steps steps', ApplicationStep.SameOfEachKind steps steps' →
      ((ApplicationDraft.new id).run steps).write =
        ((ApplicationDraft.new id).run steps').write) ∧
    (∀ steps, ∃ fields : TokenFieldSet, (∀ f, fields.contains f = true ↔ Named steps f) ∧
      buildToken (.id id) fields = .ok ((TokenDraft.new id).run steps).write) ∧
    ∀ steps steps', ((TokenDraft.new id).run steps).write = ((TokenDraft.new id).run steps').write ↔
      ∀ f, Named steps f ↔ Named steps' f := by
  have happlication : ∀ steps, (ApplicationDraft.new id).run steps =
      ⟨id, ApplicationStep.chain steps⟩ := (ApplicationDraft.new id).run_eq
  refine ⟨?_, ?_, ?_, ?_, ?_⟩
  · intro steps
    rw [happlication]
    exact ⟨rfl, ApplicationStep.chain_eq steps, rfl⟩
  · intro d key address error h
    exact ⟨ApplicationDraft.attempt_localKeyAt h, ApplicationDraft.run_localKeyAt h⟩
  · intro steps steps' hsame
    rw [happlication, happlication, ApplicationStep.chain_eq, ApplicationStep.chain_eq,
      hsame.boxes, hsame.globals, hsame.locals]
    simp only [hsame.programs]
  · intro steps
    refine ⟨((TokenDraft.new id).run steps).fields, TokenDraft.contains_run_new id steps, ?_⟩
    rw [TokenDraft.write_run]
    rfl
  · intro steps steps'
    rw [TokenDraft.write_run, TokenDraft.write_run, write_tokenEntries_inj, TokenFieldSet.ext_iff]
    refine forall_congr' fun f => ?_
    rw [Bool.eq_iff_iff, TokenDraft.contains_run_new, TokenDraft.contains_run_new]

/-- Steps of every kind, one of which fails. -/
def mixedSteps : List ApplicationStep :=
  [.box "YQ", .localKeyAt "" "nowhere", .programs, .localKeyAt "YQ" Address.allA.text, .box "Y"]

/-- The same but for the step that fails, kind by kind. -/
def sortedSteps : List ApplicationStep :=
  [.programs, .box "YQ", .box "Y", .localKey "YQ" .allA, .programs]

/-- The step that fails can be left out of the mixed steps, which collect and are written as the
sorted ones. -/
theorem write_run_agree_mixed :
    ((ApplicationDraft.new ⟨7⟩).run mixedSteps).request =
      ⟨["YQ", "Y"], [], [⟨"YQ", .allA⟩], true⟩ ∧
    (ApplicationDraft.new ⟨7⟩).attempt (.localKeyAt "" "nowhere") =
      .error ⟨"nowhere", .badAddress (.wrongLength 58 7)⟩ ∧
    (ApplicationDraft.new ⟨7⟩).run mixedSteps = (ApplicationDraft.new ⟨7⟩).run
      [.box "YQ", .programs, .localKeyAt "YQ" Address.allA.text, .box "Y"] ∧
    ((ApplicationDraft.new ⟨7⟩).run mixedSteps).write =
      ((ApplicationDraft.new ⟨7⟩).run sortedSteps).write ∧
    ((TokenDraft.new ⟨7⟩).run [.field .url, .field .total, .field .url]).write =
      ((TokenDraft.new ⟨7⟩).run [.field .total, .field .url]).write := by
  have hnowhere : Address.parse "nowhere" = .error (.wrongLength 58 7) := rfl
  have hsame : ApplicationStep.SameOfEachKind mixedSteps sortedSteps :=
    ⟨rfl, rfl, rfl, by decide⟩
  obtain ⟨hcollects, hfails, hwrite, -, htokens⟩ := write_run_agree ⟨7⟩
  obtain ⟨hrequest, hchain, -⟩ := hcollects mixedSteps
  obtain ⟨hattempt, hrun⟩ := hfails (.new ⟨7⟩) "" "nowhere" _ hnowhere
  refine ⟨hrequest.trans (hchain.trans rfl), hattempt, hrun [.box "YQ"] _, hwrite _ _ hsame,
    (htokens _ _).2 ?_⟩
  intro f
  cases f <;> simp [Named]

end LedgerUri.Uri
