import LedgerUri.Base64.Codec
import LedgerUri.Text.Split

/-!
# Padded Base64

Box contents and metadata hashes are shown in the standard alphabet, filled up with `=` to a
multiple of four symbols.
-/

namespace LedgerUri.Base64.Padded

/-- Standard Base64 with padding. -/
def encode (bytes : List UInt8) : String :=
  let symbols := Base64.encode .standard bytes
  String.ofList (symbols ++ List.replicate ((4 - symbols.length % 4) % 4) '=')

/-- The bytes of a padded text. Padding carries no bits and may be missing. -/
def decode? (text : String) : Option (List UInt8) :=
  Base64.decode? .standard (Text.trimEnd '=' text.toList)

end LedgerUri.Base64.Padded
