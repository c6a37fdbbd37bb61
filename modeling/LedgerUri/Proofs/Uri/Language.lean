import LedgerUri.Proofs.Address
import LedgerUri.Proofs.Token.FieldSet
import LedgerUri.Proofs.Uri.Collecting
import LedgerUri.Proofs.Uri.Outline

/-!
# The language of reading

Lenient as it is, reading accepts a definite language. A text is in it when it has an outline with
an id of 64 bits and, for an application, when its keys and addresses are well-formed and local
keys find an address at all. Where the marker stands, what else stands in the query, and in which
order, is left open.

* `InLanguage` — the language;
* `ReadsAs` — what a text of the language says;
* `parse_firstAddress_language` — reading accepts the language, and understands it in this way.
-/

namespace LedgerUri

namespace Uri

variable {entries : List Entry}

/-- First-address pairing can always read usable entries. -/
theorem Usable.exists_readApplication (h : Usable entries) :
    ∃ r, readApplication .firstAddress entries = .ok r := by
  obtain ⟨addresses, -, hne, hread⟩ := h.exists_readApplication_eq
  rcases hkeys : keysOf .localKey entries with _ | ⟨key, keys⟩
  · exact ⟨_, by rw [hread, hkeys]; rfl⟩
  · obtain ⟨first, others, rfl⟩ := List.exists_cons_of_ne_nil (hne (by simp [hkeys]))
    exact ⟨_, by rw [hread, hkeys]; rfl⟩

theorem contains_readToken {f : TokenField} :
    (readToken entries).contains f = true ↔ ∃ e ∈ entries, e.name = f.key := by
  rw [readToken, TokenFieldSet.contains_ofList, decide_eq_true_iff, List.mem_filter,
    mentions_eq_true_iff]
  exact and_iff_right f.mem_all

/-! ## The language -/

/-- The texts that are read, by what is found in them. -/
structure InLanguage (uri : List Char) (kind : ResourceKind) (digits : List Char)
    (entries : List Entry) : Prop extends Outline uri kind digits entries where
  /-- there are digits after the marker -/
  ne : digits ≠ []
  /-- they spell a number of 64 bits -/
  lt : Decimal.value digits < UInt64.size
  /-- the entries of an application can be used -/
  usable : kind = .application → Usable entries

/-- What a text says in which a resource, digits and entries are found. -/
structure ReadsAs (text : String) (kind : ResourceKind) (digits : List Char)
    (entries : List Entry) (q : Query) : Prop where
  /-- the text is kept -/
  text_eq : q.text = text
  /-- the kind is that of the marker -/
  kind_eq : q.kind = kind
  /-- the id is the number of the digits -/
  id_eq : q.id.toNat = Decimal.value digits
  /-- an application is asked for the values of the entries, and every local key is read from the
  first address -/
  application : ∀ r, q.request = .application r → Collects entries r ∧
    ∀ l ∈ r.localReads, (valuesOf addressParam entries).head? = some l.address.text
  /-- a token is asked for the fields whose keys occur -/
  token : ∀ fields, q.request = .token fields →
    ∀ f, fields.contains f = true ↔ ∃ e ∈ entries, e.name = f.key

variable {text : String} {kind : ResourceKind} {digits : List Char} {q : Query}

theorem InLanguage.exists_readRequest {uri : List Char} (h : InLanguage uri kind digits entries) :
    ∃ request, readRequest kind .firstAddress entries = .ok request := by
  cases kind with
  | application =>
    obtain ⟨r, hr⟩ := (h.usable rfl).exists_readApplication
    exact ⟨.application r, map_eq_ok_iff.2 ⟨r, hr, rfl⟩⟩
  | token => exact ⟨.token (readToken entries), rfl⟩

theorem readsAs_of_readRequest (htext : q.text = text) (hid : q.id.toNat = Decimal.value digits)
    (h : readRequest kind .firstAddress entries = .ok q.request) :
    ReadsAs text kind digits entries q := by
  obtain ⟨id, request, _⟩ := q
  cases kind with
  | application =>
    obtain ⟨r, hr, rfl⟩ := map_eq_ok_iff.1 h
    obtain ⟨-, hcollects, haddress⟩ := readApplication_eq_ok_iff_collects.1 hr
    refine ⟨htext, rfl, hid, ?_, fun fields hfields => (by cases hfields)⟩
    rintro s ⟨⟩
    exact ⟨hcollects, haddress⟩
  | token =>
    obtain rfl := Except.ok.inj h
    refine ⟨htext, rfl, hid, fun r hr => (by cases hr), ?_⟩
    rintro fields ⟨⟩ f
    exact contains_readToken

end Uri

namespace Query

open Uri

variable {text : String} {q : Query}

theorem exists_inLanguage_of_parse (h : parse .firstAddress text = .ok q) :
    ∃ kind digits entries, InLanguage text.toList kind digits entries := by
  obtain ⟨kind, digits, entries, houtline, ⟨hne, hid⟩, hrequest⟩ :=
    read_eq_ok_iff_outline.1 (parse_eq_ok_iff.1 h).1
  refine ⟨kind, digits, entries, houtline, hne, hid ▸ q.id.toNat_lt, ?_⟩
  rintro rfl
  obtain ⟨r, hr, -⟩ := map_eq_ok_iff.1 hrequest
  exact (readApplication_eq_ok_iff_collects.1 hr).1

theorem exists_parse_of_inLanguage {kind : ResourceKind} {digits : List Char}
    {entries : List Entry} (h : InLanguage text.toList kind digits entries) :
    ∃ q, parse .firstAddress text = .ok q ∧ ReadsAs text kind digits entries q := by
  obtain ⟨id, hid⟩ := ResourceId.exists_toNat_eq h.lt
  obtain ⟨request, hrequest⟩ := h.exists_readRequest
  refine ⟨⟨id, request, text⟩, parse_eq_ok_iff.2 ⟨?_, rfl⟩,
    readsAs_of_readRequest rfl hid hrequest⟩
  exact read_eq_ok_iff_outline.2
    ⟨kind, digits, entries, h.toOutline, ⟨h.ne, hid.symm⟩, hrequest⟩

/-- **The language of reading.** A text is read exactly when it is in the language: it starts with
the scheme, digits of an id follow its first marker, the pieces of its query are escaped UTF-8, and
the entries can be used if it names an application. What is read is what is found there. -/
theorem parse_firstAddress_language (text : String) :
    ((∃ q, parse .firstAddress text = .ok q) ↔
      ∃ kind digits entries, InLanguage text.toList kind digits entries) ∧
    ∀ q, parse .firstAddress text = .ok q → ∀ kind digits entries,
      InLanguage text.toList kind digits entries → ReadsAs text kind digits entries q := by
  refine ⟨⟨fun ⟨q, hq⟩ => exists_inLanguage_of_parse hq, fun ⟨kind, digits, entries, h⟩ => ?_⟩,
    fun q hq kind digits entries h => ?_⟩
  · obtain ⟨q, hq, -⟩ := exists_parse_of_inLanguage h
    exact ⟨q, hq⟩
  · obtain ⟨p, hp, hreads⟩ := exists_parse_of_inLanguage h
    rw [hq] at hp
    obtain rfl := Except.ok.inj hp
    exact hreads

/-- A URI with markers of both kinds and more than one id, an escaped name, escaped padding, empty
pieces and an unknown entry. -/
def overgrown : String :=
  "algorand:x//asset/5//app/007é//app/9?&b%6Fx=YQ%3D%3D&é=1??local=&tealcode=0&algorandaddress=" ++
    Address.allA.text

/-- It is in the language, and asks the application of its first marker for a box, for local state
under the empty key, and for the programs. -/
theorem parse_firstAddress_language_overgrown :
    ∃ q kind digits entries, parse .firstAddress overgrown = .ok q ∧
      InLanguage overgrown.toList kind digits entries ∧ ReadsAs overgrown kind digits entries q ∧
      q.id.toNat = 7 ∧ q.request = .application ⟨["YQ"], [], [⟨"", .allA⟩], true⟩ := by
  have hq : parse .firstAddress overgrown =
      .ok ⟨⟨7⟩, .application ⟨["YQ"], [], [⟨"", .allA⟩], true⟩, overgrown⟩ := by decide +kernel
  obtain ⟨hiff, hreads⟩ := parse_firstAddress_language overgrown
  obtain ⟨kind, digits, entries, h⟩ := hiff.1 ⟨_, hq⟩
  exact ⟨_, kind, digits, entries, hq, h, hreads _ hq kind digits entries h, rfl, rfl⟩

end Query

end LedgerUri
