import LedgerUri.Base64.UrlSafe
import LedgerUri.Proofs.Base64.Codec
import LedgerUri.Proofs.Outcome
import Mathlib.Logic.Function.Basic

/-!
# Keys and their bytes

The text that a byte string is written as is decoded to these bytes, so no two byte strings share a
text. The converse does not hold: a byte string has several texts, which differ in the unused low
bits of the last symbol, and only one of them is written.

* `check_eq_ok_iff` — the texts that pass as keys;
* `decode_encode` — the bytes come back;
* `encode_injective` — different byte strings have different texts.
-/

namespace LedgerUri.Base64.UrlSafe

theorem foreignChar?_eq_none {position : Nat} {cs : List Char} :
    foreignChar? position cs = none ↔ ∀ c ∈ cs, Alphabet.urlSafe.has c = true := by
  induction cs generalizing position with
  | nil => simp [foreignChar?]
  | cons c cs ih => by_cases hc : Alphabet.urlSafe.has c <;> simp [foreignChar?, hc, ih]

/-- The symbols of keys. -/
theorem has_eq_true_iff {c : Char} :
    Alphabet.urlSafe.has c = true ↔ c.isAlphanum = true ∨ c = '-' ∨ c = '_' := by
  have hletters : c.isAlphanum = ((c.isUpper || c.isLower) || c.isDigit) := rfl
  simp only [Alphabet.has, Alphabet.value?, Alphabet.lastTwo, hletters, Bool.or_eq_true]
  grind

theorem decode_eq_ok_iff {text : String} {bytes : List UInt8} :
    decode text = .ok bytes ↔
      (∀ c ∈ text.toList, Alphabet.urlSafe.has c = true) ∧ text.toList.length % 4 ≠ 1 ∧
        Base64.decode? .urlSafe text.toList = some bytes := by
  have hforeign : foreignChar? 0 text.toList = none ↔ _ := foreignChar?_eq_none
  rw [decode, ← hforeign]
  rcases foreignChar? 0 text.toList with _ | ⟨c, position⟩
  · by_cases hlength : text.toList.length % 4 = 1
    · simp [hlength]
    · rcases Base64.decode? .urlSafe text.toList with _ | found <;> simp [hlength]
  · simp

/-- Text passes the check when it has only symbols, and no single one left over at the end. -/
theorem check_eq_ok_iff {text : String} :
    check text = .ok () ↔
      (∀ c ∈ text.toList, Alphabet.urlSafe.has c = true) ∧ text.toList.length % 4 ≠ 1 := by
  rw [check, map_eq_ok_iff]
  refine ⟨fun ⟨bytes, h, _⟩ => ?_, fun ⟨hhas, hlength⟩ => ?_⟩
  · obtain ⟨hhas, hlength, -⟩ := decode_eq_ok_iff.1 h
    exact ⟨hhas, hlength⟩
  · obtain ⟨bytes, hbytes⟩ := exists_decode? hhas hlength
    exact ⟨bytes, decode_eq_ok_iff.2 ⟨hhas, hlength, hbytes⟩, rfl⟩

/-- Text fails the check as it fails to decode. -/
theorem check_eq_error_iff {text : String} {error : Base64Error} :
    check text = .error error ↔ decode text = .error error := by
  rw [check]
  exact map_eq_error_iff

/-- **A byte string is read back from its text.** -/
theorem decode_encode (bytes : List UInt8) : decode (encode bytes) = .ok bytes := by
  have hforeign : foreignChar? 0 (Base64.encode .urlSafe bytes) = none :=
    foreignChar?_eq_none.2 (has_of_mem_encode bytes)
  simp only [decode, encode, String.toList_ofList, hforeign, length_encode_mod_ne, decode?_encode,
    if_false]

/-- Different byte strings have different texts. -/
theorem encode_injective : Function.Injective encode := by
  intro a b h
  have hdecode := decode_encode a
  rw [h, decode_encode] at hdecode
  exact (Except.ok.inj hdecode).symm

end LedgerUri.Base64.UrlSafe
