import LedgerUri.Answer.Token
import LedgerUri.Proofs.Base64.Padded
import LedgerUri.Proofs.Outcome
import LedgerUri.Proofs.Token.FieldSet

/-!
# What is shown of a token

A token's record is shown field by field, and each field is another part of the record and of the
view, some of which may have no value. What a view shows is best said over the fields and not over
its parts: a field has the value that it has in the record when it was requested, and none
otherwise. So nothing that was not requested makes a difference, and what is shown for the fields
of two requests is shown for one of them or the other.

* `TokenRecord.value?`, `TokenView.value?` — the value of a field, in a record and in a view;
* `TokenView.value?_reveal`, `TokenView.value?_ofRecord` — what one step shows, and what all do;
* `resolveToken_reveals` — what is answered to a token query.
-/

namespace LedgerUri

/-! ## Values of fields -/

/-- A value of a token's field. -/
inductive TokenValue
  | amount (n : UInt64)
  | places (n : UInt32)
  | flag (b : Bool)
  | text (s : String)
  | bytes (b : List UInt8)

/-- How a value is shown: bytes in padded Base64, and everything else as it is. -/
def TokenValue.shown : TokenValue → TokenValue
  | .bytes b => .text (Base64.Padded.encode b)
  | v => v

/-- The value that a record has for a field. -/
def TokenRecord.value? (record : TokenRecord) : TokenField → Option TokenValue
  | .total => some (.amount record.total)
  | .decimals => some (.places record.decimals)
  | .frozenDefault => some (.flag record.defaultFrozen)
  | .unitName => record.unitName.map .text
  | .assetName => record.name.map .text
  | .url => record.url.map .text
  | .metadataHash => record.metadataHash.map .bytes
  | .manager => record.manager.map .text
  | .reserve => record.reserve.map .text
  | .freeze => record.freeze.map .text
  | .clawback => record.clawback.map .text

namespace TokenView

/-- The value that a view has for a field. -/
def value? (view : TokenView) : TokenField → Option TokenValue
  | .total => view.total.map .amount
  | .decimals => view.decimals.map .places
  | .frozenDefault => view.frozenDefault.map .flag
  | .unitName => view.unitName.map .text
  | .assetName => view.assetName.map .text
  | .url => view.url.map .text
  | .metadataHash => view.metadataHash.map .text
  | .manager => view.manager.map .text
  | .reserve => view.reserve.map .text
  | .freeze => view.freeze.map .text
  | .clawback => view.clawback.map .text

theorem value?_empty (f : TokenField) : empty.value? f = none := by
  cases f <;> rfl

/-- Views that have the same value for every field are the same. -/
theorem eq_of_value? {view other : TokenView} (h : ∀ f, view.value? f = other.value? f) :
    view = other := by
  have hamount : Function.Injective TokenValue.amount := fun _ _ h => TokenValue.amount.inj h
  have hplaces : Function.Injective TokenValue.places := fun _ _ h => TokenValue.places.inj h
  have hflag : Function.Injective TokenValue.flag := fun _ _ h => TokenValue.flag.inj h
  have htext : Function.Injective TokenValue.text := fun _ _ h => TokenValue.text.inj h
  cases view
  cases other
  simp only [mk.injEq]
  exact ⟨Option.map_injective hamount (h .total), Option.map_injective hplaces (h .decimals),
    Option.map_injective hflag (h .frozenDefault), Option.map_injective htext (h .unitName),
    Option.map_injective htext (h .assetName), Option.map_injective htext (h .url),
    Option.map_injective htext (h .metadataHash), Option.map_injective htext (h .manager),
    Option.map_injective htext (h .reserve), Option.map_injective htext (h .freeze),
    Option.map_injective htext (h .clawback)⟩

/-! ## Showing a record -/

variable {record : TokenRecord}

theorem value?_reveal_self (view : TokenView) (f : TokenField) :
    (reveal record view f).value? f = (record.value? f).map TokenValue.shown := by
  cases f <;> simp [reveal, value?, TokenRecord.value?, TokenValue.shown, Function.comp_def]

theorem value?_reveal_of_ne (view : TokenView) {f g : TokenField} (h : f ≠ g) :
    (reveal record view f).value? g = view.value? g := by
  cases f <;> cases g <;> first | rfl | exact absurd rfl h

/-- One step shows its field and leaves the others alone. -/
theorem value?_reveal (view : TokenView) (f g : TokenField) :
    (reveal record view f).value? g =
      if f = g then (record.value? g).map TokenValue.shown else view.value? g := by
  by_cases h : f = g
  · subst h
    rw [if_pos rfl, value?_reveal_self]
  · rw [if_neg h, value?_reveal_of_ne view h]

theorem value?_foldl_reveal (fields : List TokenField) (view : TokenView) (f : TokenField) :
    (fields.foldl (reveal record) view).value? f =
      if f ∈ fields then (record.value? f).map TokenValue.shown else view.value? f := by
  induction fields generalizing view with
  | nil => simp
  | cons g fields ih =>
    rw [List.foldl_cons, ih, value?_reveal]
    by_cases hmem : f ∈ fields <;> simp [hmem, @eq_comm _ g]

/-- **What is shown of a record is the requested fields, with their values in the record.** -/
theorem value?_ofRecord (record : TokenRecord) (requested : TokenFieldSet) (f : TokenField) :
    (ofRecord record requested).value? f =
      if requested.contains f then (record.value? f).map TokenValue.shown else none := by
  rw [ofRecord, value?_foldl_reveal, value?_empty]
  simp only [TokenFieldSet.mem_toList]

/-- What was not requested makes no difference. -/
theorem ofRecord_congr {other : TokenRecord} {requested : TokenFieldSet}
    (h : ∀ f, requested.contains f = true → record.value? f = other.value? f) :
    ofRecord record requested = ofRecord other requested := by
  refine eq_of_value? fun f => ?_
  rw [value?_ofRecord, value?_ofRecord]
  split
  · next hf => rw [h f hf]
  · rfl

/-- What is shown for either of two requests is shown for one or the other. -/
theorem value?_ofRecord_union {s t u : TokenFieldSet}
    (h : ∀ f, u.contains f = true ↔ s.contains f = true ∨ t.contains f = true) (f : TokenField) :
    (ofRecord record u).value? f =
      ((ofRecord record s).value? f).or ((ofRecord record t).value? f) := by
  simp only [value?_ofRecord, h f]
  by_cases hs : s.contains f = true
  · by_cases ht : t.contains f = true <;> simp [hs, ht]
  · simp [hs]

end TokenView

/-! ## Answers -/

namespace TokenAnswer

/-- The answer shows the requested fields of a record. -/
structure Reveals (o : TokenAnswer) (id : ResourceId) (requested : TokenFieldSet)
    (record : TokenRecord) : Prop where
  /-- it is about the token -/
  id_eq : o.id = id
  /-- which is there -/
  present : o.present = true
  /-- so there is no failure to report -/
  failure_eq : o.failure = none
  /-- a field is shown when it was requested and the record has a value for it -/
  value_iff : ∀ f v, o.parameters.value? f = some v ↔
    requested.contains f = true ∧ ∃ w, record.value? f = some w ∧ v = w.shown

/-- The answer that there is no token. -/
def notFound (id : ResourceId) (resource : String) : TokenAnswer :=
  ⟨id, false, .empty, some (resource ++ " not found")⟩

variable {id : ResourceId} {requested : TokenFieldSet} {read : Except ReadError TokenRecord}

theorem reveals_ofRecord (id : ResourceId) (requested : TokenFieldSet) (record : TokenRecord) :
    Reveals ⟨id, true, TokenView.ofRecord record requested, none⟩ id requested record := by
  refine ⟨rfl, rfl, rfl, fun f v => ?_⟩
  rw [TokenView.value?_ofRecord]
  by_cases hf : requested.contains f = true
  · rw [if_pos hf, Option.map_eq_some_iff, and_iff_right hf]
    exact exists_congr fun w => and_congr_right fun _ => eq_comm
  · rw [if_neg hf]
    exact iff_of_false (by simp) fun h => hf h.1

/-- A failed read is passed on, unless there is no token. -/
theorem ofAnswer_error {error : ReadError} (h : ∀ resource, error ≠ .missing resource) :
    ofAnswer id requested (.error error) = .error (.ledger error) := by
  cases error with
  | missing resource => exact absurd rfl (h resource)
  | timedOut operation => rfl
  | failed message => rfl

/-- A read finds the record, or finds that there is none, or fails otherwise. -/
theorem read_cases (read : Except ReadError TokenRecord) :
    (∃ record, read = .ok record) ∨ (∃ resource, read = .error (.missing resource)) ∨
      ∃ error, read = .error error ∧ ∀ resource, error ≠ .missing resource := by
  rcases read with (resource | operation | message) | record
  · exact .inr (.inl ⟨resource, rfl⟩)
  · exact .inr (.inr ⟨_, rfl, by simp⟩)
  · exact .inr (.inr ⟨_, rfl, by simp⟩)
  · exact .inl ⟨record, rfl⟩

/-- There is no answer when the read fails for another reason than that there is no token. -/
theorem ofAnswer_eq_error_iff {failure : ResolveError} :
    ofAnswer id requested read = .error failure ↔ ∃ error,
      failure = .ledger error ∧ read = .error error ∧ ∀ resource, error ≠ .missing resource := by
  constructor
  · intro h
    rcases read_cases read with ⟨record, rfl⟩ | ⟨resource, rfl⟩ | ⟨error, rfl, hother⟩
    · cases h
    · cases h
    · rw [ofAnswer_error hother] at h
      exact ⟨error, (Except.error.inj h).symm, rfl, hother⟩
  · rintro ⟨error, rfl, rfl, hother⟩
    exact ofAnswer_error hother

/-- The answer is that there is no token when the read found that. -/
theorem ofAnswer_eq_notFound_iff {o : TokenAnswer} :
    ofAnswer id requested read = .ok o ∧ o.present = false ↔
      ∃ resource, read = .error (.missing resource) ∧ o = notFound id resource := by
  constructor
  · rintro ⟨h, hpresent⟩
    rcases read_cases read with ⟨record, rfl⟩ | ⟨resource, rfl⟩ | ⟨error, rfl, hother⟩
    · cases h
      cases hpresent
    · exact ⟨resource, rfl, (Except.ok.inj h).symm⟩
    · rw [ofAnswer_error hother] at h
      cases h
  · rintro ⟨resource, rfl, rfl⟩
    exact ⟨rfl, rfl⟩

end TokenAnswer

/-- **A token query shows what was asked for of what the ledger holds, and nothing else.** It fails
when the token cannot be read, and says so when there is no token. Otherwise a field is shown when
it was requested and has a value; the value is that of the record, and bytes can be had back from
what is shown of them. Hence it depends on the requested fields only, and what is shown for two
requests together is what is shown for one of them or the other. -/
theorem resolveToken_reveals {client : Client} {q : Query} {requested : TokenFieldSet}
    (hrequest : q.request = .token requested) :
    (∀ failure, (resolveToken client q).answer = .error failure ↔ ∃ error,
      failure = .ledger error ∧ client.token q.id = .error error ∧
        ∀ resource, error ≠ .missing resource) ∧
    (∀ o, (resolveToken client q).answer = .ok o ∧ o.present = false ↔ ∃ resource,
      client.token q.id = .error (.missing resource) ∧ o = .notFound q.id resource) ∧
    (∀ record, client.token q.id = .ok record →
      ∃ o, (resolveToken client q).answer = .ok o ∧ o.Reveals q.id requested record) ∧
    (∀ record other : TokenRecord,
      (∀ f, requested.contains f = true → record.value? f = other.value? f) →
        TokenView.ofRecord record requested = TokenView.ofRecord other requested) ∧
    (∀ (record : TokenRecord) (s t : TokenFieldSet),
      (∀ f, requested.contains f = true ↔ s.contains f = true ∨ t.contains f = true) →
        ∀ f, (TokenView.ofRecord record requested).value? f =
          ((TokenView.ofRecord record s).value? f).or ((TokenView.ofRecord record t).value? f)) ∧
    ∀ bytes, Base64.Padded.decode? (Base64.Padded.encode bytes) = some bytes ∧
      (Base64.Padded.encode bytes).length = 4 * ((bytes.length + 2) / 3) := by
  have hanswer : (resolveToken client q).answer =
      TokenAnswer.ofAnswer q.id requested (client.token q.id) := by
    rw [resolveToken, hrequest]
    rfl
  rw [hanswer]
  refine ⟨fun failure => TokenAnswer.ofAnswer_eq_error_iff,
    fun o => TokenAnswer.ofAnswer_eq_notFound_iff, ?_,
    fun record other => TokenView.ofRecord_congr,
    fun record s t => TokenView.value?_ofRecord_union, ?_⟩
  · intro record hrecord
    rw [hrecord]
    exact ⟨_, rfl, TokenAnswer.reveals_ofRecord q.id requested record⟩
  · intro bytes
    exact ⟨Base64.Padded.decode?_encode bytes, Base64.Padded.length_encode bytes⟩

/-- A token with a hash of two bytes, and without a clawback account. -/
def hashedToken : TokenRecord where
  id := ⟨7⟩
  total := 10
  decimals := 2
  defaultFrozen := true
  unitName := some "u"
  name := some "n"
  url := some "at"
  metadataHash := some [255, 0]
  manager := some "m"
  reserve := none
  freeze := some "f"
  clawback := none

/-- A ledger that holds one token and nothing else. -/
def hashedLedger : Client where
  application _ := .error (.missing "application")
  box _ _ := .error (.missing "box")
  account _ := .error (.missing "account")
  token id := if id = ⟨7⟩ then .ok hashedToken else .error (.missing "token")
  polls _ _ := 0

/-- A query for the hash, the clawback account and the default for holdings. -/
def hashQuery : Query where
  id := ⟨7⟩
  request := .token (.ofList [.frozenDefault, .metadataHash, .clawback])
  text := "algorand://asset/7?metadatahash&clawback&frozen"

/-- The hash and the default are shown. The token has no clawback account and its total was not
requested, so they are not; another total would make no difference. The hash is what is shown of it
when it is requested alone. -/
theorem resolveToken_reveals_hash :
    Query.parse .strict hashQuery.text = .ok hashQuery ∧
    (∃ o, (resolveToken hashedLedger hashQuery).answer = .ok o ∧ o.present = true ∧
      o.parameters.value? .metadataHash = some (.text "/wA=") ∧
      o.parameters.value? .frozenDefault = some (.flag true) ∧
      o.parameters.value? .clawback = none ∧ o.parameters.value? .total = none) ∧
    TokenView.ofRecord hashedToken (.ofList [.frozenDefault, .metadataHash, .clawback]) =
      TokenView.ofRecord { hashedToken with total := 0 }
        (.ofList [.frozenDefault, .metadataHash, .clawback]) ∧
    (TokenView.ofRecord hashedToken
        (.ofList [.frozenDefault, .metadataHash, .clawback])).value? .metadataHash =
      ((TokenView.ofRecord hashedToken (.ofList [.metadataHash])).value? .metadataHash).or
        ((TokenView.ofRecord hashedToken (.ofList [.frozenDefault, .clawback])).value?
          .metadataHash) := by
  have hrecord : hashedLedger.token hashQuery.id = .ok hashedToken := rfl
  obtain ⟨-, -, hreveals, hcongr, hunion, -⟩ :=
    @resolveToken_reveals hashedLedger hashQuery _ rfl
  obtain ⟨o, ho, h⟩ := hreveals _ hrecord
  refine ⟨rfl, ⟨o, ho, h.present, ?_, ?_, ?_, ?_⟩, hcongr _ _ ?_, hunion _ _ _ ?_ _⟩
  · exact (h.value_iff _ _).2 ⟨rfl, .bytes [255, 0], rfl, rfl⟩
  · exact (h.value_iff _ _).2 ⟨rfl, .flag true, rfl, rfl⟩
  · refine Option.eq_none_iff_forall_ne_some.2 fun v hv => ?_
    obtain ⟨-, w, hw, -⟩ := (h.value_iff _ _).1 hv
    cases hw
  · refine Option.eq_none_iff_forall_ne_some.2 fun v hv => ?_
    cases ((h.value_iff _ _).1 hv).1
  · intro f hf
    rw [TokenFieldSet.contains_ofList] at hf
    cases f <;> first | rfl | cases hf
  · intro f
    simp only [TokenFieldSet.contains_ofList]
    cases f <;> decide

end LedgerUri
