import LedgerUri.Proofs.Decimal.Binary64
import LedgerUri.Proofs.Uri.Written

/-!
# Which floats are ids

A float is converted to the id that it denotes, or refused. The checks in front of the conversion
are made with operations on floats, and the bound that they compare with is itself rounded; still
they let exactly the integers from zero to `2 ^ 64 - 1` through, and these the conversion keeps.

* `ofFloat_of_integer`, `ofFloat_of_not_integer` — what the checks find, for the exact number;
* `ofFloat_exact` — which floats are ids, of which numbers, and why the others are none; what is
  built of a float names the very number.
-/

namespace LedgerUri.ResourceId

open Binary64 (Value)

variable {x : Binary64} {id : ResourceId} {z : ℤ}

/-! ## The checks -/

/-- The greatest number of 64 bits has 64 significant bits and is rounded up. -/
theorem floatLimit_eq : floatLimit = .finite false (2 ^ 53) 11 := by
  decide

theorem number_floatLimit : Value.number false (2 ^ 53) 11 = 2 ^ 64 := by
  norm_num [Value.number]

/-- The checks on a number, in their order. -/
theorem ofFloat_of_denotes {q : ℚ} (h : x.Denotes q) :
    ofFloat x =
      if Int.fract q ≠ 0 then .error (.notInteger x.text)
      else if q < 0 then .error (.negative x.text)
      else if 2 ^ 64 ≤ q then .error (.tooLarge x.text)
      else .ok ⟨x.value.toUInt64⟩ := by
  obtain ⟨negative, mantissa, exponent, hvalue, rfl⟩ := Binary64.denotes_iff.1 h
  have hfract : (Value.finite negative mantissa exponent).fract.eq .zero = true ↔
      Int.fract (Value.number negative mantissa exponent) = 0 := Value.eq_fract_zero_iff
  have hneg : (Value.finite negative mantissa exponent).lt .zero = true ↔
      Value.number negative mantissa exponent < 0 := by
    rw [Value.zero, Value.lt_finite_iff, Value.number_zero_mantissa]
  have hlarge : floatLimit.le (.finite negative mantissa exponent) = true ↔
      2 ^ 64 ≤ Value.number negative mantissa exponent := by
    rw [floatLimit_eq, Value.le_finite_iff, number_floatLimit]
  rw [ofFloat, hvalue]
  refine if_congr ?_ rfl (if_congr hneg rfl (if_congr hlarge rfl rfl))
  rw [ne_eq, ← hfract]
  simp only [Value.isFinite, not_true, false_or]

/-- An integer is converted unless it is out of range. -/
theorem ofFloat_of_integer (h : x.Denotes z) :
    ofFloat x =
      if z < 0 then .error (.negative x.text)
      else if 2 ^ 64 ≤ z then .error (.tooLarge x.text)
      else .ok ⟨x.value.toUInt64⟩ := by
  rw [ofFloat_of_denotes h, Int.fract_intCast, if_neg (not_not_intro rfl)]
  refine if_congr Int.cast_lt_zero rfl (if_congr ?_ rfl rfl)
  exact_mod_cast Iff.rfl

/-- What is no integer is never converted. -/
theorem ofFloat_of_not_integer (h : ∀ z : ℤ, ¬ x.Denotes z) :
    ofFloat x = .error (.notInteger x.text) := by
  rcases em (∃ q, x.Denotes q) with ⟨q, hq⟩ | hnone
  · have hfract : Int.fract q ≠ 0 := by
      intro hzero
      obtain ⟨z, rfl⟩ := Int.fract_eq_zero_iff.1 hzero
      exact h z hq
    rw [ofFloat_of_denotes hq, if_pos hfract]
  · have hfinite := Binary64.isFinite_value_eq_false (not_exists.1 hnone)
    rw [ofFloat]
    simp only [hfinite, Bool.false_eq_true, not_false_eq_true, true_or, if_true]

/-- The conversion keeps an integer in range. -/
theorem toNat_toUInt64 {n : ℕ} (h : x.Denotes n) (hlt : n < 2 ^ 64) :
    x.value.toUInt64.toNat = n := by
  obtain ⟨negative, mantissa, exponent, hvalue, hnumber⟩ := Binary64.denotes_iff.1 h
  rw [hvalue, Value.toNat_toUInt64, hnumber, Nat.floor_natCast]
  omega

/-! ## What is converted and what is refused -/

/-- Why a float is no id. -/
inductive FloatRefused (x : Binary64) : IdError → Prop
  /-- it denotes no integer -/
  | notInteger (h : ∀ z : ℤ, ¬ x.Denotes z) : FloatRefused x (.notInteger x.text)
  /-- it denotes an integer below zero -/
  | negative {z : ℤ} (h : x.Denotes z) (hz : z < 0) : FloatRefused x (.negative x.text)
  /-- it denotes an integer of more than 64 bits -/
  | tooLarge {z : ℤ} (h : x.Denotes z) (hz : 2 ^ 64 ≤ z) : FloatRefused x (.tooLarge x.text)

/-- A float is converted to the number that it denotes. -/
theorem ofFloat_eq_ok_iff : ofFloat x = .ok id ↔ x.Denotes id.toNat := by
  constructor
  · intro h
    -- Only an integer passes the first check, and only one in range the other two.
    obtain ⟨z, hz⟩ : ∃ z : ℤ, x.Denotes z := by
      by_contra hnone
      rw [ofFloat_of_not_integer (not_exists.1 hnone)] at h
      cases h
    rw [ofFloat_of_integer hz] at h
    split at h
    · cases h
    · next hnonneg =>
      split at h
      · cases h
      · next hsmall =>
        obtain ⟨n, rfl⟩ := Int.eq_ofNat_of_zero_le (not_lt.1 hnonneg)
        obtain rfl := Except.ok.inj h
        have hn : x.Denotes n := hz
        rw [toNat, toNat_toUInt64 hn (by omega)]
        exact hn
  · intro h
    have hlt : id.toNat < 2 ^ 64 := id.toNat_lt
    rw [ofFloat_of_integer (z := id.toNat) h, if_neg (by omega), if_neg (by omega)]
    exact congrArg Except.ok (ResourceId.ext (toNat_toUInt64 h hlt))

/-- A float is refused for what is wrong with the number that it denotes. -/
theorem ofFloat_eq_error_iff {error : IdError} :
    ofFloat x = .error error ↔ FloatRefused x error := by
  constructor
  · intro h
    rcases em (∃ z : ℤ, x.Denotes z) with ⟨z, hz⟩ | hnone
    · rw [ofFloat_of_integer hz] at h
      split at h
      · next hneg =>
        obtain rfl := Except.error.inj h
        exact .negative hz hneg
      · split at h
        · next hlarge =>
          obtain rfl := Except.error.inj h
          exact .tooLarge hz hlarge
        · cases h
    · rw [ofFloat_of_not_integer (not_exists.1 hnone)] at h
      obtain rfl := Except.error.inj h
      exact .notInteger (not_exists.1 hnone)
  · intro h
    cases h with
    | notInteger h => exact ofFloat_of_not_integer h
    | negative h hz => rw [ofFloat_of_integer h, if_pos hz]
    | tooLarge h hz => rw [ofFloat_of_integer h, if_neg (by omega), if_pos hz]

/-- What denotes no integer is no number, or has something after the point. -/
theorem not_integer_iff :
    (∀ z : ℤ, ¬ x.Denotes z) ↔
      x.IsNaN ∨ x.IsInfinite ∨ ∃ q, x.Denotes q ∧ Int.fract q ≠ 0 := by
  rw [← or_assoc, or_comm (a := x.IsNaN), ← Binary64.not_denotes_iff]
  constructor
  · intro h
    rcases em (∃ q, x.Denotes q) with ⟨q, hq⟩ | hnone
    · refine .inr ⟨q, hq, fun hzero => ?_⟩
      obtain ⟨z, rfl⟩ := Int.fract_eq_zero_iff.1 hzero
      exact h z hq
    · exact .inl (not_exists.1 hnone)
  · rintro (h | ⟨q, hq, hfract⟩) z hz
    · exact h z hz
    · rw [hq.unique hz, Int.fract_intCast] at hfract
      exact hfract rfl

/-! ## What is built of a float -/

/-- The URI names the number as its id: it is written there, and it is read from there. -/
structure NamesNumber (kind : ResourceKind) (n : ℕ) (uri : String) : Prop where
  /-- the path ends with the number -/
  written : ∃ query, uri = "algorand://" ++ kind.segment ++ "/" ++ Decimal.numeral n ++ query ∧
    ∀ c ∈ query.toList.head?, c = '?'
  /-- any reader finds it -/
  read : ∀ pairing, ∃ q, Query.parse pairing uri = .ok q ∧ q.kind = kind ∧ q.id.toNat = n

theorem namesNumber_write (request : Request) (h : request.Writable) (id : ResourceId) :
    NamesNumber request.kind id.toNat (Uri.write request.kind id request.entries) := by
  obtain ⟨hstrict, hfirst⟩ := Uri.parse_write h id
  refine ⟨⟨String.ofList (Uri.writeQuery request.entries), rfl, ?_⟩, fun pairing => ?_⟩
  · rw [String.toList_ofList]
    exact Uri.head?_writeQuery
  cases pairing with
  | firstAddress => exact ⟨_, hfirst, request.kind_atFirst, rfl⟩
  | strict => exact ⟨_, hstrict, rfl, rfl⟩

/-- **Floats are converted without loss.** A float is converted to an id exactly when it denotes an
integer from zero to `2 ^ 64 - 1`, and to that id. It is refused as no integer when it denotes no
number or one with something after the point, as negative when it denotes an integer below zero, and
as too large when it denotes an integer from `2 ^ 64` on; what is reported carries its text. So a
URI that is built of a float names the very number. -/
theorem ofFloat_exact (x : Binary64) :
    (∀ n : ℕ, (∃ id, ofFloat x = .ok id ∧ id.toNat = n) ↔ x.Denotes n ∧ n < 2 ^ 64) ∧
    (∀ value, ofFloat x = .error (.notInteger value) ↔ value = x.text ∧
      (x.IsNaN ∨ x.IsInfinite ∨ ∃ q, x.Denotes q ∧ Int.fract q ≠ 0)) ∧
    (∀ value, ofFloat x = .error (.negative value) ↔
      value = x.text ∧ ∃ z : ℤ, x.Denotes z ∧ z < 0) ∧
    (∀ value, ofFloat x = .error (.tooLarge value) ↔
      value = x.text ∧ ∃ z : ℤ, x.Denotes z ∧ 2 ^ 64 ≤ z) ∧
    ofFloat x ≠ .error .noDigits ∧
    (∀ r uri, Uri.buildApplication (.float x) r = .ok uri →
      ∃ n : ℕ, x.Denotes n ∧ NamesNumber .application n uri) ∧
    ∀ fields uri, Uri.buildToken (.float x) fields = .ok uri →
      ∃ n : ℕ, x.Denotes n ∧ NamesNumber .token n uri := by
  simp only [ne_eq, ofFloat_eq_error_iff, ofFloat_eq_ok_iff]
  refine ⟨fun n => ⟨?_, ?_⟩, fun value => ⟨?_, ?_⟩, fun value => ⟨?_, ?_⟩, fun value => ⟨?_, ?_⟩,
    ?_, ?_, ?_⟩
  · rintro ⟨id, h, rfl⟩
    exact ⟨h, id.toNat_lt⟩
  · rintro ⟨h, hlt⟩
    obtain ⟨id, rfl⟩ := exists_toNat_eq hlt
    exact ⟨id, h, rfl⟩
  · rintro (h | _)
    exact ⟨rfl, not_integer_iff.1 h⟩
  · rintro ⟨rfl, h⟩
    exact .notInteger (not_integer_iff.2 h)
  · rintro (_ | ⟨h, hz⟩)
    exact ⟨rfl, _, h, hz⟩
  · rintro ⟨rfl, z, h, hz⟩
    exact .negative h hz
  · rintro (_ | _ | ⟨h, hz⟩)
    exact ⟨rfl, _, h, hz⟩
  · rintro ⟨rfl, z, h, hz⟩
    exact .tooLarge h hz
  · rintro ⟨⟩
  · intro r uri h
    obtain ⟨id, hid, hwritable, rfl⟩ := Uri.buildApplication_eq_ok_iff.1 h
    refine ⟨id.toNat, ofFloat_eq_ok_iff.1 (mapError_eq_ok_iff.1 hid), ?_⟩
    exact namesNumber_write (.application r) hwritable id
  · intro fields uri h
    obtain ⟨id, hid, hok⟩ := bind_eq_ok_iff.1 h
    obtain rfl := Except.ok.inj hok
    refine ⟨id.toNat, ofFloat_eq_ok_iff.1 (mapError_eq_ok_iff.1 hid), ?_⟩
    exact namesNumber_write (.token fields) trivial id

/-- A zero with a sign is zero. -/
example : ofFloat ⟨0x8000000000000000⟩ = .ok ⟨0⟩ := by
  decide +kernel

/-- The greatest float that is an id. -/
def greatestFloat : Binary64 := ⟨0x43EFFFFFFFFFFFFF⟩

/-- The float after it. -/
def leastTooLarge : Binary64 := ⟨0x43F0000000000000⟩

theorem denotes_greatestFloat : greatestFloat.Denotes (2 ^ 64 - 2048 : ℕ) := by
  have hsign : greatestFloat.signField = 0 := by decide
  have hexponent : greatestFloat.exponentField = 1086 := by decide
  have hfraction : greatestFloat.fractionField = 2 ^ 52 - 1 := by decide
  refine ⟨by rw [hexponent]; decide, ?_⟩
  rw [Binary64.magnitude, hsign, hexponent, hfraction]
  norm_num

theorem denotes_leastTooLarge : leastTooLarge.Denotes (2 ^ 64 : ℤ) := by
  have hsign : leastTooLarge.signField = 0 := by decide
  have hexponent : leastTooLarge.exponentField = 1087 := by decide
  have hfraction : leastTooLarge.fractionField = 0 := by decide
  refine ⟨by rw [hexponent]; decide, ?_⟩
  rw [Binary64.magnitude, hsign, hexponent, hfraction]
  norm_num

/-- The greatest float below `2 ^ 64` is kept, and a URI that is built of it names it. The float
after it is too large, though it is what the greatest number of 64 bits is rounded to. -/
theorem ofFloat_exact_greatest :
    (∃ id, ofFloat greatestFloat = .ok id ∧ id.toNat = 2 ^ 64 - 2048) ∧
    (∃ uri, Uri.buildToken (.float greatestFloat) ∅ = .ok uri ∧
      NamesNumber .token (2 ^ 64 - 2048) uri) ∧
    ofFloat leastTooLarge = .error (.tooLarge leastTooLarge.text) := by
  obtain ⟨hok, -, -, -, -, -, htoken⟩ := ofFloat_exact greatestFloat
  obtain ⟨-, -, -, hlarge, -⟩ := ofFloat_exact leastTooLarge
  obtain ⟨id, hid, hn⟩ := (hok (2 ^ 64 - 2048)).2 ⟨denotes_greatestFloat, by decide⟩
  obtain ⟨uri, huri⟩ : ∃ uri, Uri.buildToken (.float greatestFloat) ∅ = .ok uri :=
    ⟨_, bind_eq_ok_iff.2 ⟨id, mapError_eq_ok_iff.2 hid, rfl⟩⟩
  refine ⟨⟨id, hid, hn⟩, ⟨uri, huri, ?_⟩, (hlarge _).2 ⟨rfl, _, denotes_leastTooLarge, le_rfl⟩⟩
  obtain ⟨n, hdenotes, hnames⟩ := htoken ∅ uri huri
  have heq : n = 2 ^ 64 - 2048 := Nat.cast_injective (hdenotes.unique denotes_greatestFloat)
  rwa [← heq]

end LedgerUri.ResourceId
