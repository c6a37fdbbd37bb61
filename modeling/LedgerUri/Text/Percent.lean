import LedgerUri.Text.Hex
import LedgerUri.Text.Utf8

/-!
# Percent escapes

An escape is `%` and two hexadecimal digits and stands for one byte; every other character stands
for its own UTF-8 bytes. A `%` that starts no escape is kept, and reading goes on right after it.
The bytes of a whole text must then be UTF-8.
-/

namespace LedgerUri.Text

/-- The bytes that an escaped text stands for. -/
def unescape : List Char → List UInt8
  | '%' :: high :: low :: rest =>
    match hexValue? high, hexValue? low with
    | some h, some l => UInt8.ofNat (16 * h + l) :: unescape rest
    | _, _ => String.utf8EncodeChar '%' ++ unescape (high :: low :: rest)
  | c :: rest => String.utf8EncodeChar c ++ unescape rest
  | [] => []

/-- The text that an escaped text stands for; `none` when the bytes are no UTF-8. -/
def percentDecode? (raw : List Char) : Option String :=
  ofUtf8? (unescape raw)

end LedgerUri.Text
