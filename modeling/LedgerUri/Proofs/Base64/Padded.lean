import LedgerUri.Base64.Padded
import LedgerUri.Proofs.Base64.Groups
import LedgerUri.Proofs.Text.Split

/-!
# Padded Base64 and its bytes

Padding fills the last group of symbols up to four, so the length of the text tells only how many
groups there are; the bytes come back because the padding character is no symbol and is taken off
before the symbols are read.

* `decode?_encode` — the bytes come back, however many there are;
* `length_encode` — three bytes, or what is left of them, are four characters.
-/

namespace LedgerUri.Base64.Padded

/-- **A byte string is read back from its padded text.** -/
theorem decode?_encode (bytes : List UInt8) : decode? (encode bytes) = some bytes := by
  have hpadding : '=' ∉ Base64.encode .standard bytes := by
    intro hmem
    exact absurd (has_of_mem_encode bytes '=' hmem) (by decide)
  rw [decode?, encode, String.toList_ofList, Text.trimEnd_append_replicate,
    Text.trimEnd_of_not_mem hpadding, Base64.decode?_encode]

/-- Every group of three bytes takes four characters, and so does what is left over. -/
theorem length_encode (bytes : List UInt8) :
    (encode bytes).length = 4 * ((bytes.length + 2) / 3) := by
  rw [encode, String.length_ofList, List.length_append, List.length_replicate,
    Base64.length_encode]
  omega

end LedgerUri.Base64.Padded
