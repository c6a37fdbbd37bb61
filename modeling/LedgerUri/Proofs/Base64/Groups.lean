import LedgerUri.Proofs.Base64.Codec
import Mathlib.Data.Nat.Basic

/-!
# Groups of symbols and the bytes they carry

Which symbols carry which bytes is one relation with four cases, and decoding finds exactly the
bytes that it names. So what holds of decoding is an induction on that relation: how many bytes
there are, and which symbols are written for them. These are the symbols that were read, except that
bits of the last one that carry nothing are written as zeros.

* `Carries`, `decode?_eq_some_iff` — decoding as a relation;
* `length_encode`, `Carries.length_eq` — three bytes are four symbols;
* `Carries.length_encode_eq` — what is written for the bytes has the length of what carried them;
* `Carries.encode_eq_iff` — symbols are written again exactly when their tail is zero.
-/

namespace LedgerUri.Base64

variable {α : Alphabet}

/-! ## Symbols -/

/-- A range of characters is one of numbers. -/
theorem range_of_between {c : Char} {first last : UInt32} (h : first ≤ c.val ∧ c.val ≤ last) :
    first.toNat ≤ c.toNat ∧ c.toNat ≤ last.toNat :=
  h.imp UInt32.le_iff_toNat_le.1 UInt32.le_iff_toNat_le.1

/-- A symbol is written for its value. -/
theorem symbol_of_value? {c : Char} {v : ℕ} (h : α.value? c = some v) :
    v < 64 ∧ α.symbol v = c := by
  rw [Alphabet.value?] at h
  -- in each run of characters the value counts from the first of them
  split at h
  · next hupper =>
    have hrange : 65 ≤ c.toNat ∧ c.toNat ≤ 90 :=
      range_of_between (of_decide_eq_true hupper)
    have hlt : c.toNat - 65 < 26 := by omega
    have hchar : 65 + (c.toNat - 65) = c.toNat := by omega
    obtain rfl := Option.some.inj h
    refine ⟨Nat.lt_trans hlt (by decide), ?_⟩
    simp [Alphabet.symbol, hlt, hchar]
  split at h
  · next hlower =>
    have hrange : 97 ≤ c.toNat ∧ c.toNat ≤ 122 :=
      range_of_between ((Bool.and_eq_true_iff.1 hlower).imp of_decide_eq_true of_decide_eq_true)
    have hge : ¬ c.toNat - 97 + 26 < 26 := by omega
    have hlt : c.toNat - 97 + 26 < 52 := by omega
    have hchar : 97 + (c.toNat - 97) = c.toNat := by omega
    obtain rfl := Option.some.inj h
    refine ⟨Nat.lt_trans hlt (by decide), ?_⟩
    simp [Alphabet.symbol, hge, hlt, hchar]
  split at h
  · next hdigit =>
    have hrange : 48 ≤ c.toNat ∧ c.toNat ≤ 57 :=
      range_of_between ((Bool.and_eq_true_iff.1 hdigit).imp of_decide_eq_true of_decide_eq_true)
    have hge : ¬ c.toNat - 48 + 52 < 26 ∧ ¬ c.toNat - 48 + 52 < 52 := by omega
    have hlt : c.toNat - 48 + 52 < 62 := by omega
    have hchar : 48 + (c.toNat - 48) = c.toNat := by omega
    obtain rfl := Option.some.inj h
    refine ⟨Nat.lt_trans hlt (by decide), ?_⟩
    simp [Alphabet.symbol, hge, hlt, hchar]
  split at h
  · next hlast =>
    obtain rfl := Option.some.inj h
    exact ⟨by decide, hlast.symm⟩
  split at h
  · next hlast =>
    obtain rfl := Option.some.inj h
    exact ⟨by decide, hlast.symm⟩
  · cases h

/-- Different values have different symbols. -/
theorem symbol_inj {v w : ℕ} (hv : v < 64) (hw : w < 64) : α.symbol v = α.symbol w ↔ v = w := by
  refine ⟨fun h => ?_, congrArg α.symbol⟩
  have hvalue := α.value?_symbol hv
  rw [h, α.value?_symbol hw] at hvalue
  exact (Option.some.inj hvalue).symm

/-- A value keeps its symbol when its low part is cleared only if that part is zero. -/
theorem symbol_div_mul_eq_iff {v n : ℕ} (hv : v < 64) :
    α.symbol (v / n * n) = α.symbol v ↔ v % n = 0 := by
  rw [symbol_inj (Nat.lt_of_le_of_lt (Nat.div_mul_le_self v n) hv) hv, ← Nat.dvd_iff_div_mul_eq,
    Nat.dvd_iff_mod_eq_zero]

/-! ## Bytes and the symbols that share their bits -/

section Bytes

variable {v w x : ℕ}

theorem toNat_firstByte (hv : v < 64) (hw : w < 64) :
    (firstByte v w).toNat = v * 4 + w / 16 := by
  rw [firstByte, UInt8.toNat_ofNat']
  omega

theorem toNat_secondByte (hw : w < 64) : (secondByte v w).toNat = v % 16 * 16 + w / 4 := by
  rw [secondByte, UInt8.toNat_ofNat']
  omega

theorem toNat_thirdByte (hw : w < 64) : (thirdByte v w).toNat = v % 4 * 64 + w := by
  rw [thirdByte, UInt8.toNat_ofNat']
  omega

/-- The first six bits are written as they were read. -/
theorem firstByte_high (hv : v < 64) (hw : w < 64) : (firstByte v w).toNat / 4 = v := by
  rw [toNat_firstByte hv hw]
  omega

theorem firstByte_low (hv : v < 64) (hw : w < 64) :
    (firstByte v w).toNat % 4 * 16 = w / 16 * 16 := by
  rw [toNat_firstByte hv hw]
  omega

/-- Six bits that two bytes share are put together again. -/
theorem firstByte_secondByte (hv : v < 64) (hw : w < 64) (hx : x < 64) :
    (firstByte v w).toNat % 4 * 16 + (secondByte w x).toNat / 16 = w := by
  rw [toNat_firstByte hv hw, toNat_secondByte hx]
  omega

theorem secondByte_low (hw : w < 64) : (secondByte v w).toNat % 16 * 4 = w / 4 * 4 := by
  rw [toNat_secondByte hw]
  omega

theorem secondByte_thirdByte (hw : w < 64) (hx : x < 64) :
    (secondByte v w).toNat % 16 * 4 + (thirdByte w x).toNat / 64 = w := by
  rw [toNat_secondByte hw, toNat_thirdByte hx]
  omega

theorem thirdByte_low (hw : w < 64) : (thirdByte v w).toNat % 64 = w := by
  rw [toNat_thirdByte hw]
  omega

end Bytes

/-! ## Groups -/

/-- The symbols carry the bytes. Bits that are left over at the end carry nothing. -/
inductive Carries (α : Alphabet) : List Char → List UInt8 → Prop
  /-- four symbols carry three bytes -/
  | four {v₁ v₂ v₃ v₄ : ℕ} {symbols : List Char} {bytes : List UInt8} (h₁ : v₁ < 64)
      (h₂ : v₂ < 64) (h₃ : v₃ < 64) (h₄ : v₄ < 64) (rest : Carries α symbols bytes) :
      Carries α (α.symbol v₁ :: α.symbol v₂ :: α.symbol v₃ :: α.symbol v₄ :: symbols)
        (firstByte v₁ v₂ :: secondByte v₂ v₃ :: thirdByte v₃ v₄ :: bytes)
  /-- three symbols at the end carry two bytes, and two bits that are left over -/
  | three {v₁ v₂ v₃ : ℕ} (h₁ : v₁ < 64) (h₂ : v₂ < 64) (h₃ : v₃ < 64) :
      Carries α [α.symbol v₁, α.symbol v₂, α.symbol v₃] [firstByte v₁ v₂, secondByte v₂ v₃]
  /-- two symbols at the end carry one byte, and four bits that are left over -/
  | two {v₁ v₂ : ℕ} (h₁ : v₁ < 64) (h₂ : v₂ < 64) :
      Carries α [α.symbol v₁, α.symbol v₂] [firstByte v₁ v₂]
  /-- nothing carries nothing -/
  | zero : Carries α [] []

variable {symbols : List Char} {bytes : List UInt8}

theorem Carries.decode?_eq (h : Carries α symbols bytes) : decode? α symbols = some bytes := by
  induction h with
  | four h₁ h₂ h₃ h₄ rest ih =>
    simp [decode?, α.value?_symbol h₁, α.value?_symbol h₂, α.value?_symbol h₃, α.value?_symbol h₄,
      ih]
  | three h₁ h₂ h₃ =>
    simp [decode?, α.value?_symbol h₁, α.value?_symbol h₂, α.value?_symbol h₃]
  | two h₁ h₂ => simp [decode?, α.value?_symbol h₁, α.value?_symbol h₂]
  | zero => rfl

theorem carries_of_decode? (h : decode? α symbols = some bytes) : Carries α symbols bytes := by
  fun_induction decode? α symbols generalizing bytes with
  | case1 c₁ c₂ c₃ c₄ rest ih =>
    simp only [Option.bind_eq_bind, Option.bind_eq_some_iff, Option.pure_def,
      Option.some.injEq] at h
    obtain ⟨v₁, h₁, v₂, h₂, v₃, h₃, v₄, h₄, more, hmore, rfl⟩ := h
    obtain ⟨hv₁, rfl⟩ := symbol_of_value? h₁
    obtain ⟨hv₂, rfl⟩ := symbol_of_value? h₂
    obtain ⟨hv₃, rfl⟩ := symbol_of_value? h₃
    obtain ⟨hv₄, rfl⟩ := symbol_of_value? h₄
    exact .four hv₁ hv₂ hv₃ hv₄ (ih hmore)
  | case2 c₁ c₂ c₃ =>
    simp only [Option.bind_eq_bind, Option.bind_eq_some_iff, Option.pure_def,
      Option.some.injEq] at h
    obtain ⟨v₁, h₁, v₂, h₂, v₃, h₃, rfl⟩ := h
    obtain ⟨hv₁, rfl⟩ := symbol_of_value? h₁
    obtain ⟨hv₂, rfl⟩ := symbol_of_value? h₂
    obtain ⟨hv₃, rfl⟩ := symbol_of_value? h₃
    exact .three hv₁ hv₂ hv₃
  | case3 c₁ c₂ =>
    simp only [Option.bind_eq_bind, Option.bind_eq_some_iff, Option.pure_def,
      Option.some.injEq] at h
    obtain ⟨v₁, h₁, v₂, h₂, rfl⟩ := h
    obtain ⟨hv₁, rfl⟩ := symbol_of_value? h₁
    obtain ⟨hv₂, rfl⟩ := symbol_of_value? h₂
    exact .two hv₁ hv₂
  | case4 c => cases h
  | case5 =>
    obtain rfl := Option.some.inj h
    exact .zero

/-- **Decoding finds the bytes that symbols carry.** -/
theorem decode?_eq_some_iff : decode? α symbols = some bytes ↔ Carries α symbols bytes :=
  ⟨carries_of_decode?, Carries.decode?_eq⟩

/-! ## Lengths -/

/-- Three bytes are written as four symbols, and what is left over takes one symbol more. -/
theorem length_encode (bytes : List UInt8) :
    (encode α bytes).length = (4 * bytes.length + 2) / 3 := by
  fun_induction encode α bytes with
  | case1 a b c rest ih =>
    simp only [List.length_cons, ih]
    omega
  | case2 a b => simp
  | case3 a => simp
  | case4 => simp

/-- Four symbols carry three bytes, and what is left over carries no more. -/
theorem Carries.length_eq (h : Carries α symbols bytes) :
    bytes.length = 3 * symbols.length / 4 := by
  induction h with
  | four h₁ h₂ h₃ h₄ rest ih =>
    simp only [List.length_cons, ih]
    omega
  | three h₁ h₂ h₃ => simp
  | two h₁ h₂ => simp
  | zero => simp

/-- What is written for the bytes has as many symbols as carried them. -/
theorem Carries.length_encode_eq (h : Carries α symbols bytes) :
    (encode α bytes).length = symbols.length := by
  induction h with
  | four h₁ h₂ h₃ h₄ rest ih => simp [encode, ih]
  | three h₁ h₂ h₃ => rfl
  | two h₁ h₂ => rfl
  | zero => rfl

/-! ## Tails -/

/-- How many bits of the last symbol carry nothing, in a text of the given length. -/
def unusedBits (length : ℕ) : ℕ :=
  if length % 4 = 2 then 4 else if length % 4 = 3 then 2 else 0

theorem unusedBits_add_four (n : ℕ) : unusedBits (n + 4) = unusedBits n := by
  rw [unusedBits, Nat.add_mod_right, ← unusedBits]

/-- The low bits of the last symbol that carry nothing are zero. -/
def ZeroTail (α : Alphabet) (symbols : List Char) : Prop :=
  ∀ last ∈ symbols.getLast?, ∀ v, α.value? last = some v →
    v % Nat.pow 2 (unusedBits symbols.length) = 0

/-- A group of four in front does not matter. -/
theorem zeroTail_four {c₁ c₂ c₃ c₄ : Char} :
    ZeroTail α (c₁ :: c₂ :: c₃ :: c₄ :: symbols) ↔ ZeroTail α symbols := by
  rcases symbols with _ | ⟨c, cs⟩
  · simp [ZeroTail, unusedBits, Nat.mod_one]
  · have hbits : unusedBits (c₁ :: c₂ :: c₃ :: c₄ :: c :: cs).length =
        unusedBits (c :: cs).length :=
      unusedBits_add_four (cs.length + 1)
    simp only [ZeroTail, List.getLast?_cons_cons, hbits]

theorem zeroTail_three {c₁ c₂ : Char} {v : ℕ} (hv : v < 64) :
    ZeroTail α [c₁, c₂, α.symbol v] ↔ v % 4 = 0 := by
  simp [ZeroTail, unusedBits, α.value?_symbol hv]

theorem zeroTail_two {c : Char} {v : ℕ} (hv : v < 64) :
    ZeroTail α [c, α.symbol v] ↔ v % 16 = 0 := by
  simp [ZeroTail, unusedBits, α.value?_symbol hv]

/-- **Symbols are what is written for their bytes exactly when their tail is zero.** -/
theorem Carries.encode_eq_iff (h : Carries α symbols bytes) :
    encode α bytes = symbols ↔ ZeroTail α symbols := by
  induction h with
  | four h₁ h₂ h₃ h₄ rest ih =>
    rw [zeroTail_four, ← ih, encode, firstByte_high h₁ h₂, firstByte_secondByte h₁ h₂ h₃,
      secondByte_thirdByte h₃ h₄, thirdByte_low h₄]
    simp
  | three h₁ h₂ h₃ =>
    rw [zeroTail_three h₃, encode, firstByte_high h₁ h₂, firstByte_secondByte h₁ h₂ h₃,
      secondByte_low h₃, ← symbol_div_mul_eq_iff (α := α) h₃]
    simp
  | two h₁ h₂ =>
    rw [zeroTail_two h₂, encode, firstByte_high h₁ h₂, firstByte_low h₁ h₂,
      ← symbol_div_mul_eq_iff (α := α) h₂]
    simp
  | zero => simp [encode, ZeroTail]

end LedgerUri.Base64
