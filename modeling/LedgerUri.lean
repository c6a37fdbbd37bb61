import LedgerUri.Address
import LedgerUri.Answer.Application
import LedgerUri.Answer.Item
import LedgerUri.Answer.Resolution
import LedgerUri.Answer.Resolve
import LedgerUri.Answer.Token
import LedgerUri.Base64.Alphabet
import LedgerUri.Base64.Codec
import LedgerUri.Base64.Padded
import LedgerUri.Base64.UrlSafe
import LedgerUri.Decimal.Binary64
import LedgerUri.Decimal.Numeral
import LedgerUri.Decimal.Shortest
import LedgerUri.Error
import LedgerUri.Json.Answer
import LedgerUri.Json.Ledger
import LedgerUri.Json.Printer
import LedgerUri.Json.Reader
import LedgerUri.Json.Uri
import LedgerUri.Json.Value
import LedgerUri.Ledger.Client
import LedgerUri.Ledger.Error
import LedgerUri.Ledger.Fault
import LedgerUri.Ledger.KeyedState
import LedgerUri.Ledger.Record
import LedgerUri.Ledger.Store
import LedgerUri.Ledger.Window
import LedgerUri.Proofs.Address
import LedgerUri.Proofs.Answer.Application
import LedgerUri.Proofs.Answer.Checked
import LedgerUri.Proofs.Answer.Concurrency
import LedgerUri.Proofs.Answer.Consistency
import LedgerUri.Proofs.Answer.Isolation
import LedgerUri.Proofs.Answer.Lookup
import LedgerUri.Proofs.Answer.ReadBack
import LedgerUri.Proofs.Answer.Reads
import LedgerUri.Proofs.Answer.Report
import LedgerUri.Proofs.Answer.Spelling
import LedgerUri.Proofs.Answer.Token
import LedgerUri.Proofs.Base64.Codec
import LedgerUri.Proofs.Base64.Exact
import LedgerUri.Proofs.Base64.Groups
import LedgerUri.Proofs.Base64.Padded
import LedgerUri.Proofs.Base64.UrlSafe
import LedgerUri.Proofs.Decimal.Binary64
import LedgerUri.Proofs.Json.Query
import LedgerUri.Proofs.Json.Record
import LedgerUri.Proofs.Ledger.Contents
import LedgerUri.Proofs.Ledger.History
import LedgerUri.Proofs.Ledger.OneByOne
import LedgerUri.Proofs.Ledger.State
import LedgerUri.Proofs.Ledger.Window
import LedgerUri.Proofs.Outcome
import LedgerUri.Proofs.Resource.Float
import LedgerUri.Proofs.Resource.Id
import LedgerUri.Proofs.Resource.Numeral
import LedgerUri.Proofs.Resource.Source
import LedgerUri.Proofs.Text.Escape
import LedgerUri.Proofs.Text.Percent
import LedgerUri.Proofs.Text.Respacing
import LedgerUri.Proofs.Text.Split
import LedgerUri.Proofs.Text.Unescape
import LedgerUri.Proofs.Token.FieldSet
import LedgerUri.Proofs.Token.History
import LedgerUri.Proofs.Uri.Alternation
import LedgerUri.Proofs.Uri.Building
import LedgerUri.Proofs.Uri.Canonical
import LedgerUri.Proofs.Uri.Collecting
import LedgerUri.Proofs.Uri.Draft
import LedgerUri.Proofs.Uri.Entry
import LedgerUri.Proofs.Uri.Escaping
import LedgerUri.Proofs.Uri.Grammar
import LedgerUri.Proofs.Uri.Invariance
import LedgerUri.Proofs.Uri.Language
import LedgerUri.Proofs.Uri.Outline
import LedgerUri.Proofs.Uri.Pairing
import LedgerUri.Proofs.Uri.Parts
import LedgerUri.Proofs.Uri.Path
import LedgerUri.Proofs.Uri.Query
import LedgerUri.Proofs.Uri.Rearrangement
import LedgerUri.Proofs.Uri.Refinement
import LedgerUri.Proofs.Uri.Request
import LedgerUri.Proofs.Uri.Rewriting
import LedgerUri.Proofs.Uri.RoundTrip
import LedgerUri.Proofs.Uri.Sentence
import LedgerUri.Proofs.Uri.Separators
import LedgerUri.Proofs.Uri.Shape
import LedgerUri.Proofs.Uri.Spelling
import LedgerUri.Proofs.Uri.Strict
import LedgerUri.Proofs.Uri.Unused
import LedgerUri.Proofs.Uri.Value
import LedgerUri.Proofs.Uri.Violation
import LedgerUri.Proofs.Uri.Written
import LedgerUri.Resource.Id
import LedgerUri.Resource.Kind
import LedgerUri.Text.Hex
import LedgerUri.Text.Percent
import LedgerUri.Text.Split
import LedgerUri.Text.Utf8
import LedgerUri.Token.Field
import LedgerUri.Token.FieldSet
import LedgerUri.Uri.Draft
import LedgerUri.Uri.Entry
import LedgerUri.Uri.Examples
import LedgerUri.Uri.Grammar
import LedgerUri.Uri.Query
import LedgerUri.Uri.Request
import LedgerUri.Uri.Vocabulary
import LedgerUri.Uri.Writing
