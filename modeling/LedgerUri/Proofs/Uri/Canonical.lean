import LedgerUri.Proofs.Uri.RoundTrip

/-!
# The canonical form

Reading is lenient, writing is not: many texts ask for the same thing, and one of them is canonical.
What was read is always writable, so its canonical form follows the strict grammar, reads as the
same query, and is its own canonical form. Two queries have the same canonical form exactly when
they ask the same of the same resource.

* `writable_of_parse`, `atFirst_of_parse` — what reading establishes about a request;
* `canonical_isNormalForm` — the canonical form as a normal form.
-/

namespace LedgerUri

namespace Uri

/-! ## What reading establishes -/

theorem writable_of_readRequest {kind : ResourceKind} {pairing : Pairing} {entries : List Entry}
    {request : Request} (h : readRequest kind pairing entries = .ok request) :
    request.Writable := by
  cases kind with
  | application =>
    obtain ⟨r, hr, rfl⟩ := map_eq_ok_iff.1 h
    obtain ⟨husable, hcollects, -⟩ := readApplication_eq_ok_iff_collects.1 hr
    refine ⟨?_, ?_, fun l hl => husable.isKey .localKey l.key ?_⟩
    · exact hcollects.boxKeys ▸ husable.isKey .boxKey
    · exact hcollects.globalKeys ▸ husable.isKey .globalKey
    · exact hcollects.localKeys ▸ List.mem_map_of_mem hl
  | token =>
    cases h
    trivial

/-- First-address pairing uses one address only. -/
theorem atFirst_of_readRequest {kind : ResourceKind} {entries : List Entry} {request : Request}
    (h : readRequest kind .firstAddress entries = .ok request) : request.atFirst = request := by
  cases kind with
  | application =>
    obtain ⟨r, hr, rfl⟩ := map_eq_ok_iff.1 h
    obtain ⟨-, -, hfirst⟩ := readApplication_eq_ok_iff_collects.1 hr
    refine congrArg Request.application (ApplicationRequest.atFirst_eq_self_iff.2 ?_)
    intro l hl m hm
    exact text_injective (Option.some.inj ((hfirst l hl).symm.trans (hfirst m hm)))
  | token =>
    cases h
    rfl

end Uri

namespace Query

open Uri

theorem exists_readRequest_of_parse {pairing : Pairing} {text : String} {q : Query}
    (h : parse pairing text = .ok q) :
    ∃ kind entries, readRequest kind pairing entries = .ok q.request := by
  obtain ⟨-, kind, -, entries, -, -, -, hrequest⟩ := read_eq_ok_iff.1 (parse_eq_ok_iff.1 h).1
  exact ⟨kind, entries, hrequest⟩

/-- What was read can be written. -/
theorem writable_of_parse {pairing : Pairing} {text : String} {q : Query}
    (h : parse pairing text = .ok q) : q.request.Writable := by
  obtain ⟨kind, entries, hrequest⟩ := exists_readRequest_of_parse h
  exact writable_of_readRequest hrequest

/-- What was read from the first address is read from no other. -/
theorem atFirst_of_parse {text : String} {q : Query} (h : parse .firstAddress text = .ok q) :
    q.request.atFirst = q.request := by
  obtain ⟨kind, entries, hrequest⟩ := exists_readRequest_of_parse h
  exact atFirst_of_readRequest hrequest

/-! ## The normal form -/

/-- The two queries ask the same of the same resource, whatever their texts. -/
def Same (q p : Query) : Prop :=
  q.kind = p.kind ∧ q.id = p.id ∧ q.request = p.request

variable {pairing : Pairing} {text : String} {q : Query}

theorem check_canonical (h : parse pairing text = .ok q) : Grammar.check q.canonical = .ok () := by
  have hw := writable_of_parse h
  rw [canonical_of_writable hw]
  exact check_write hw q.id

/-- The canonical form is read strictly, and in the way in which the query was read, as the same
query with the same canonical form. -/
theorem parse_canonical (h : parse pairing text = .ok q) {again : Pairing}
    (hagain : again = pairing ∨ again = .strict) :
    ∃ c, parse again q.canonical = .ok c ∧ c.Same q ∧ c.canonical = q.canonical := by
  have hw := writable_of_parse h
  obtain ⟨hstrict, hfirst⟩ := parse_write hw q.id
  have hread : parse again q.canonical = .ok ⟨q.id, q.request, q.canonical⟩ := by
    rw [canonical_of_writable hw]
    cases again with
    | strict => exact hstrict
    | firstAddress =>
      -- the query came from first-address pairing itself, which would change nothing more
      obtain rfl : .firstAddress = pairing := by simpa using hagain
      rw [atFirst_of_parse h] at hfirst
      exact hfirst
  refine ⟨_, hread, ⟨rfl, rfl, rfl⟩, ?_⟩
  have hc := canonical_of_writable (q := ⟨q.id, q.request, q.canonical⟩) hw
  exact hc.trans (canonical_of_writable hw).symm

/-- **The canonical form is a normal form.** Of whatever is read, with either pairing, it follows
the strict grammar and is read again, strictly and with the same pairing, as the same query with
the same canonical form. And it tells queries apart: two have the same canonical form exactly when
they ask the same of the same resource. -/
theorem canonical_isNormalForm :
    (∀ pairing text q, parse pairing text = .ok q →
      Grammar.check q.canonical = .ok () ∧
        ∀ again, again = pairing ∨ again = .strict →
          ∃ c, parse again q.canonical = .ok c ∧ c.Same q ∧ c.canonical = q.canonical) ∧
    ∀ pairing₁ text₁ q₁ pairing₂ text₂ q₂,
      parse pairing₁ text₁ = .ok q₁ → parse pairing₂ text₂ = .ok q₂ →
        (q₁.canonical = q₂.canonical ↔ q₁.Same q₂) := by
  refine ⟨fun pairing text q h => ?_, ?_⟩
  · exact ⟨check_canonical h, fun again hagain => parse_canonical h hagain⟩
  · intro pairing₁ text₁ q₁ pairing₂ text₂ q₂ h₁ h₂
    refine ⟨fun heq => ?_, ?_⟩
    · obtain ⟨c₁, hc₁, ⟨hk₁, hi₁, hr₁⟩, -⟩ := parse_canonical h₁ (.inr rfl)
      obtain ⟨c₂, hc₂, ⟨hk₂, hi₂, hr₂⟩, -⟩ := parse_canonical h₂ (.inr rfl)
      -- both canonical forms are one text, and a text is read in one way
      rw [heq, hc₂] at hc₁
      obtain rfl := Except.ok.inj hc₁
      exact ⟨hk₁.symm.trans hk₂, hi₁.symm.trans hi₂, hr₁.symm.trans hr₂⟩
    · rintro ⟨hkind, hid, hrequest⟩
      rw [canonical_of_writable (writable_of_parse h₁),
        canonical_of_writable (writable_of_parse h₂), hkind, hid, hrequest]

/-- A URI with a marker in its query, padding, an escaped name and an unknown entry. -/
def roundabout : String :=
  "algorand:?//app/007&b%6Fx=YQ%3D&x&local=Yg=?algorandaddress=" ++ Address.allA.text

/-- A URI that asks for the same directly. -/
def direct : String :=
  "algorand://app/7?local=Yg&algorandaddress=" ++ Address.allA.text ++ "&box=YQ"

set_option maxRecDepth 20000 in
/-- Two texts, read with different pairings, have one canonical form, which follows the grammar. -/
theorem canonical_roundabout_direct :
    ∃ q p, parse .firstAddress roundabout = .ok q ∧ parse .strict direct = .ok p ∧
      Grammar.check q.canonical = .ok () ∧ q.canonical = p.canonical := by
  have hq : parse .firstAddress roundabout =
      .ok ⟨⟨7⟩, .application ⟨["YQ"], [], [⟨"Yg", .allA⟩], false⟩, roundabout⟩ := rfl
  have hp : parse .strict direct =
      .ok ⟨⟨7⟩, .application ⟨["YQ"], [], [⟨"Yg", .allA⟩], false⟩, direct⟩ := rfl
  refine ⟨_, _, hq, hp, (canonical_isNormalForm.1 _ _ _ hq).1, ?_⟩
  exact (canonical_isNormalForm.2 _ _ _ _ _ _ hq hp).2 ⟨rfl, rfl, rfl⟩

end Query

end LedgerUri
