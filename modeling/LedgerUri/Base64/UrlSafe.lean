import LedgerUri.Base64.Codec
import LedgerUri.Error
import LedgerUri.Text.Utf8

/-!
# base64url keys

Keys travel in URIs as unpadded URL-safe Base64. Reading names what is wrong: the leftmost foreign
character first, and a length with a single symbol at the end only if there is none.

* `encode`, `decode` — byte strings;
* `encodeText`, `decodeText` — UTF-8 text.
-/

namespace LedgerUri.Base64.UrlSafe

/-- The base64url text of a byte string. -/
def encode (bytes : List UInt8) : String :=
  String.ofList (Base64.encode .urlSafe bytes)

/-- The base64url text of a text's UTF-8 bytes. -/
def encodeText (text : String) : String :=
  encode (Text.utf8 text)

/-- The leftmost character outside the alphabet, with its place counted from `position`. -/
def foreignChar? (position : Nat) : List Char → Option (Char × Nat)
  | [] => none
  | c :: cs =>
    if Alphabet.urlSafe.has c then foreignChar? (position + 1) cs else some (c, position)

/-- The bytes that base64url text stands for. Unused low bits of the last symbol are ignored. -/
def decode (text : String) : Except Base64Error (List UInt8) :=
  let symbols := text.toList
  match foreignChar? 0 symbols with
  | some (c, position) => .error (.foreignChar c position)
  | none =>
    if symbols.length % 4 = 1 then .error (.danglingSymbol symbols.length)
    else
      match Base64.decode? .urlSafe symbols with
      | some bytes => .ok bytes
      | none => .error (.danglingSymbol symbols.length)

/-- The text that base64url text stands for. -/
def decodeText (text : String) : Except Base64Error String := do
  let bytes ← decode text
  match Text.ofUtf8? bytes with
  | some decoded => .ok decoded
  | none => .error .notUtf8

/-- Accepts the texts that `decode` accepts, without the bytes. -/
def check (text : String) : Except Base64Error Unit :=
  (decode text).map fun _ => ()

end LedgerUri.Base64.UrlSafe
