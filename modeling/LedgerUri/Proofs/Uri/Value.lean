import LedgerUri.Proofs.Address
import LedgerUri.Proofs.Base64.UrlSafe
import LedgerUri.Proofs.Outcome
import LedgerUri.Proofs.Text.Split
import LedgerUri.Uri.Query

/-!
# Keys and addresses as values

What stands after an `=` in a URI is a key or an address. Both are written in alphabets without the
four characters that mean something in a query, so they are *plain*: nothing has to be escaped, and
reading gives back what was written.

* `IsKey` — the texts that are accepted as keys;
* `Plain` — texts that stand for themselves in a query;
* `readAddress_eq_ok_iff` — an address is read from its text.
-/

namespace LedgerUri.Uri

/-- Text without a character that means something in a query. -/
def Plain (text : String) : Prop :=
  ∀ c ∈ text.toList, c ≠ '&' ∧ c ≠ '?' ∧ c ≠ '=' ∧ c ≠ '%'

instance (text : String) : Decidable (Plain text) :=
  List.decidableBAll (fun c => c ≠ '&' ∧ c ≠ '?' ∧ c ≠ '=' ∧ c ≠ '%') text.toList

theorem Plain.percent_not_mem {text : String} (h : Plain text) : '%' ∉ text.toList :=
  fun hc => (h _ hc).2.2.2 rfl

theorem Plain.equals_not_mem {text : String} (h : Plain text) : '=' ∉ text.toList :=
  fun hc => (h _ hc).2.2.1 rfl

theorem Plain.isSeparator_eq_false {text : String} (h : Plain text) {c : Char}
    (hc : c ∈ text.toList) : isSeparator c = false := by
  obtain ⟨hamp, hquestion, -⟩ := h c hc
  simp [isSeparator, hamp, hquestion]

/-! ## Keys -/

/-- Text that is accepted as a key. -/
def IsKey (key : String) : Prop :=
  Base64.UrlSafe.check key = .ok ()

/-- Keys are the texts that can be decoded. -/
theorem isKey_iff_exists_decode {key : String} :
    IsKey key ↔ ∃ bytes, Base64.UrlSafe.decode key = .ok bytes := by
  rw [IsKey, Base64.UrlSafe.check, map_eq_ok_iff]
  simp

/-- A key is written in its alphabet. -/
theorem IsKey.has {key : String} (h : IsKey key) :
    ∀ c ∈ key.toList, Base64.Alphabet.urlSafe.has c = true := by
  obtain ⟨hhas, -⟩ := Base64.UrlSafe.check_eq_ok_iff.1 h
  exact hhas

/-- Keys are plain: their alphabet has none of the four characters. -/
theorem IsKey.plain {key : String} (h : IsKey key) : Plain key := by
  intro c hc
  have hhas := h.has c hc
  refine ⟨?_, ?_, ?_, ?_⟩ <;> (rintro rfl; exact absurd hhas (by decide))

/-! ## Addresses -/

theorem readAddress_eq_ok_iff {value : String} {a : Address} :
    readAddress value = .ok a ↔ value = a.text := by
  rw [readAddress, mapError_eq_ok_iff, Address.parse_eq_ok_iff]

/-- Addresses are plain. -/
theorem plain_address (a : Address) : Plain a.text := by
  intro c hc
  have hchar := a.chars c hc
  refine ⟨?_, ?_, ?_, ?_⟩ <;> (rintro rfl; exact absurd hchar (by decide))

end LedgerUri.Uri
