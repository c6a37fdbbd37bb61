import LedgerUri.Proofs.Uri.Sentence

/-!
# The first violation

A text can violate the strict grammar in many places at once, and only one violation is reported.
Which one can be said without the checks: the scheme comes before the path, the path before the
escapes, the escapes of the whole query before its entries, and the entries from left to right. An
entry breaks the rule of its resource or the rule of its place, and the counts that an error carries
are those of the whole query.

* `Keeps`, `Breach` — an entry in its place keeps the rules, or breaks one and for which reason;
* `FirstBreach` — the leftmost entry of a query that breaks a rule;
* `FirstViolation` — what is wrong with a text first;
* `check_eq_error_iff_firstViolation` — the grammar reports the first violation.
-/

namespace LedgerUri.Grammar

open Uri

variable {before after front rest entries : List Entry} {e : Entry} {kind : ResourceKind}
  {cause : UriError.Cause} {uri path query : List Char}

/-! ## One entry -/

/-- An entry keeps the rule of its resource, and as part of an application the rule of its
place. -/
structure Keeps (kind : ResourceKind) (before : List Entry) (e : Entry) (after : List Entry) :
    Prop where
  /-- the rule of the resource -/
  own : ResourceRule kind e
  /-- an address directly follows a local entry -/
  followed : kind = .application → e.name = KeyParam.localKey.name →
    ∃ a ∈ after.head?, a.name = addressParam
  /-- a local entry directly precedes an address -/
  preceded : kind = .application → e.name = addressParam →
    ∃ l ∈ before.getLast?, l.name = KeyParam.localKey.name

/-- The reason why an entry breaks a rule, between the entries before and after it. -/
inductive Breach (before : List Entry) (e : Entry) (after : List Entry) :
    ResourceKind → UriError.Cause → Prop
  /-- the value of a key parameter is no key -/
  | key (p : KeyParam) {error : Base64Error} (hname : e.name = p.name)
      (hbad : Base64.UrlSafe.decode e.valueText = .error error) :
      Breach before e after .application (.badKey p error)
  /-- a local key has no address directly after it -/
  | noAddress (hname : e.name = KeyParam.localKey.name) (hkey : KeyText e.valueText)
      (hnext : ∀ a ∈ after.head?, a.name ≠ addressParam) :
      Breach before e after .application
        (.noAddress (countOf KeyParam.localKey.name (before ++ e :: after)))
  /-- an address has no local entry directly before it -/
  | unpaired (hname : e.name = addressParam)
      (hprevious : ∀ l ∈ before.getLast?, l.name ≠ KeyParam.localKey.name) :
      Breach before e after .application
        (.unpaired (countOf KeyParam.localKey.name (before ++ e :: after))
          (countOf addressParam (before ++ e :: after)))
  /-- what stands for the address of a local entry is none -/
  | address {error : AddressError} (hname : e.name = addressParam)
      (hprevious : ∃ l ∈ before.getLast?, l.name = KeyParam.localKey.name)
      (hbad : Address.parse e.valueText = .error error) :
      Breach before e after .application (.badAddress error)
  /-- the request for programs has a value -/
  | programs (hname : e.name = programParam) (hvalue : e.value ≠ none) :
      Breach before e after .application (.unwantedValue programParam)
  /-- an application has no such parameter -/
  | foreign (hkey : ∀ p : KeyParam, e.name ≠ p.name) (haddress : e.name ≠ addressParam)
      (hprograms : e.name ≠ programParam) :
      Breach before e after .application (.foreignParam e.name)
  /-- a token has no such field -/
  | foreignField (hfield : ∀ f : TokenField, e.name ≠ f.key) :
      Breach before e after .token (.foreignParam e.name)
  /-- the key of a field has a value -/
  | valuedField (f : TokenField) (hname : e.name = f.key) (hvalue : e.value ≠ none) :
      Breach before e after .token (.unwantedValue f.key)

theorem any_name_eq_true_iff {name : String} {neighbour : Option Entry} :
    (neighbour.any fun x => x.name = name) = true ↔ ∃ x ∈ neighbour, x.name = name := by
  simp [Option.any_eq_true]

theorem any_name_eq_false_iff {name : String} {neighbour : Option Entry} :
    (neighbour.any fun x => x.name = name) = false ↔ ∀ x ∈ neighbour, x.name ≠ name := by
  rw [← Bool.not_eq_true, any_name_eq_true_iff]
  simp

/-- The check of one entry in its place. -/
def checkPlace (kind : ResourceKind) (before : List Entry) (e : Entry) (after : List Entry) :
    Except UriError.Cause Unit :=
  match kind with
  | .application => checkEntry (before ++ e :: after) before.getLast? e after.head?
  | .token => checkToken [e]

/-- The check of one entry lets it pass when it keeps the rules. -/
theorem checkPlace_eq_ok_iff :
    checkPlace kind before e after = .ok () ↔ Keeps kind before e after := by
  cases kind with
  | application =>
    rw [checkPlace, checkEntry_eq_ok_iff, isAddressEntry, isLocalEntry, any_name_eq_true_iff,
      any_name_eq_true_iff]
    refine ⟨?_, fun h => ⟨h.own, h.followed rfl, h.preceded rfl⟩⟩
    rintro ⟨hown, hnext, hprevious⟩
    exact ⟨hown, fun _ => hnext, fun _ => hprevious⟩
  | token =>
    rw [checkPlace, checkToken_eq_ok_iff, List.forall_mem_singleton]
    exact ⟨fun h => ⟨h, fun hkind => (by cases hkind), fun hkind => (by cases hkind)⟩, Keeps.own⟩

/-- Every branch in which the check refuses an entry of an application is a reason of its own. -/
theorem breach_of_checkEntry
    (h : checkEntry (before ++ e :: after) before.getLast? e after.head? = .error cause) :
    Breach before e after .application cause := by
  rw [checkEntry] at h
  split at h
  · next p hp =>
    have hname := keyParam?_eq_some_iff.1 hp
    split at h
    · next error hcheck =>
      cases h
      exact .key p hname (Base64.UrlSafe.check_eq_error_iff.1 hcheck)
    · next hcheck =>
      split at h
      · next hlocal =>
        obtain ⟨rfl, hnext⟩ := hlocal
        cases h
        rw [Bool.not_eq_true'] at hnext
        exact .noAddress hname (isKey_iff.1 hcheck) (any_name_eq_false_iff.1 hnext)
      · cases h
  · next hp =>
    have hkey : ∀ p : KeyParam, e.name ≠ p.name := fun p hname => by
      rw [keyParam?_eq_some_iff.2 hname] at hp
      cases hp
    split at h
    · next haddress =>
      split at h
      · next hprevious =>
        split at h
        · cases h
        · next error hparse =>
          cases h
          exact .address haddress (any_name_eq_true_iff.1 hprevious) hparse
      · next hprevious =>
        cases h
        rw [Bool.not_eq_true] at hprevious
        exact .unpaired haddress (any_name_eq_false_iff.1 hprevious)
    · next haddress =>
      split at h
      · next hprograms =>
        split at h
        · next hvalue =>
          cases h
          rw [hprograms]
          exact .programs hprograms (Option.isSome_iff_ne_none.1 hvalue)
        · cases h
      · next hprograms =>
        cases h
        exact .foreign hkey haddress hprograms

theorem breach_of_checkToken (h : checkToken [e] = .error cause) :
    Breach before e after .token cause := by
  rw [checkToken] at h
  rcases hfield : TokenField.ofKey? e.name with _ | f
  · rw [hfield] at h
    cases h
    refine .foreignField fun f hname => ?_
    rw [TokenField.ofKey?_eq_some_iff.2 hname] at hfield
    cases hfield
  · have hname := TokenField.ofKey?_eq_some_iff.1 hfield
    rcases hvalue : e.value with _ | v
    · simp [hfield, hvalue, checkToken] at h
    · rw [hfield, hvalue, hname] at h
      cases h
      exact .valuedField f hname (by simp [hvalue])

theorem checkEntry_of_breach (h : Breach before e after .application cause) :
    checkEntry (before ++ e :: after) before.getLast? e after.head? = .error cause := by
  cases h with
  | key p hname hbad =>
    simp only [checkEntry, keyParam?_eq_some_iff.2 hname, Base64.UrlSafe.check_eq_error_iff.2 hbad]
  | noAddress hname hkey hnext =>
    have hcheck : Base64.UrlSafe.check e.valueText = .ok () := isKey_iff.2 hkey
    have hnone : isAddressEntry after.head? = false := any_name_eq_false_iff.2 hnext
    simp [checkEntry, keyParam?_eq_some_iff.2 hname, hcheck, hnone]
  | unpaired hname hprevious =>
    have hkey : keyParam? addressParam = none := rfl
    have hnone : isLocalEntry before.getLast? = false := any_name_eq_false_iff.2 hprevious
    simp [checkEntry, hname, hkey, hnone]
  | address hname hprevious hbad =>
    have hkey : keyParam? addressParam = none := rfl
    have hlocal : isLocalEntry before.getLast? = true := any_name_eq_true_iff.2 hprevious
    simp [checkEntry, hname, hkey, hlocal, hbad]
  | programs hname hvalue =>
    have hkey : keyParam? programParam = none := rfl
    have hsome : e.value.isSome = true := Option.isSome_iff_ne_none.2 hvalue
    simp [checkEntry, hname, hkey, addressParam_ne_programParam.symm, hsome]
  | foreign hkey haddress hprograms =>
    simp [checkEntry, keyParam?_eq_none hkey, haddress, hprograms]

theorem checkToken_of_breach (h : Breach before e after .token cause) :
    checkToken [e] = .error cause := by
  cases h with
  | foreignField hfield =>
    have hnone : TokenField.ofKey? e.name = none := by
      rw [Option.eq_none_iff_forall_ne_some]
      exact fun f hf => hfield f (TokenField.ofKey?_eq_some_iff.1 hf)
    simp [checkToken, hnone]
  | valuedField f hname hvalue =>
    have hfield : TokenField.ofKey? f.key = some f := TokenField.ofKey?_eq_some_iff.2 rfl
    simp [checkToken, hname, hfield, Option.isSome_iff_ne_none, hvalue]

/-- The check of one entry refuses it for the reason for which it breaks a rule. -/
theorem checkPlace_eq_error_iff :
    checkPlace kind before e after = .error cause ↔ Breach before e after kind cause := by
  cases kind with
  | application => exact ⟨breach_of_checkEntry, checkEntry_of_breach⟩
  | token => exact ⟨breach_of_checkToken, checkToken_of_breach⟩

/-- An entry keeps the rules, or there is a reason why it does not. -/
theorem exists_breach_iff :
    (∃ cause, Breach before e after kind cause) ↔ ¬ Keeps kind before e after := by
  simp only [← checkPlace_eq_error_iff, ← checkPlace_eq_ok_iff]
  rcases checkPlace kind before e after with cause | ⟨⟩ <;> simp

/-! ## All entries -/

/-- The leftmost entry of a query that breaks a rule, and the reason. Those before it keep the
rules, each in its place. -/
def FirstBreach (kind : ResourceKind) (entries : List Entry) (cause : UriError.Cause) : Prop :=
  ∃ before e after, entries = before ++ e :: after ∧
    (∀ left x right, before = left ++ x :: right → Keeps kind left x (right ++ e :: after)) ∧
    Breach before e after kind cause

/-- The check of what is left of a query. -/
def checkRest (kind : ResourceKind) (front rest : List Entry) : Except UriError.Cause Unit :=
  match kind with
  | .application => checkApplicationFrom (front ++ rest) front.getLast? rest
  | .token => checkToken rest

theorem checkRest_nil : checkRest kind front [] = .ok () := by
  cases kind <;> rfl

/-- What is left is checked entry by entry. -/
theorem checkRest_cons :
    checkRest kind front (e :: rest) =
      checkPlace kind front e rest >>= fun _ => checkRest kind (front ++ [e]) rest := by
  cases kind with
  | application =>
    simp only [checkRest, checkPlace, checkApplicationFrom, List.append_assoc,
      List.singleton_append, List.getLast?_concat]
  | token =>
    simp only [checkRest, checkPlace, checkToken]
    split
    · rfl
    · split <;> rfl

/-- What is left of a query fails as its first entry that breaks a rule in its place. -/
theorem checkRest_eq_error_iff :
    checkRest kind front rest = .error cause ↔
      ∃ before e after, rest = before ++ e :: after ∧
        (∀ left x right, before = left ++ x :: right →
          Keeps kind (front ++ left) x (right ++ e :: after)) ∧
        Breach (front ++ before) e after kind cause := by
  induction rest generalizing front with
  | nil => simp [checkRest_nil]
  | cons e rest ih =>
    rw [checkRest_cons, bind_eq_error_iff, checkPlace_eq_error_iff]
    constructor
    · rintro (hbreach | ⟨⟨⟩, hpass, hrest⟩)
      · exact ⟨[], e, rest, rfl, by simp, by simpa using hbreach⟩
      · obtain ⟨before, x, after, rfl, hbefore, hbreach⟩ := ih.1 hrest
        have hkeeps := checkPlace_eq_ok_iff.1 hpass
        refine ⟨e :: before, x, after, rfl, fun left y right heq => ?_, by simpa using hbreach⟩
        rcases left with _ | ⟨z, left⟩
        · obtain ⟨rfl, rfl⟩ := List.cons.inj heq
          simpa using hkeeps
        · obtain ⟨rfl, hrest⟩ := List.cons.inj heq
          simpa using hbefore left y right hrest
    · rintro ⟨_ | ⟨z, before⟩, x, after, heq, hbefore, hbreach⟩
      · obtain ⟨rfl, rfl⟩ := List.cons.inj heq
        exact .inl (by simpa using hbreach)
      · obtain ⟨rfl, rfl⟩ := List.cons.inj heq
        have hkeeps := hbefore [] e before rfl
        refine .inr ⟨(), checkPlace_eq_ok_iff.2 (by simpa using hkeeps),
          ih.2 ⟨before, x, after, rfl, fun left y right hplace => ?_, by simpa using hbreach⟩⟩
        simpa using hbefore (e :: left) y right (congrArg (e :: ·) hplace)

/-- The entries of a resource fail as the first of them that breaks a rule. -/
theorem checkEntries_eq_error_iff :
    checkEntries kind entries = .error cause ↔ FirstBreach kind entries cause := by
  have hrest : checkEntries kind entries = checkRest kind [] entries := by cases kind <;> rfl
  rw [hrest, checkRest_eq_error_iff]
  rfl

/-! ## The whole text -/

/-- The scheme that a text names: what stands in front of its first colon, if it has one. -/
inductive NamesScheme : List Char → Option String → Prop
  /-- there is no colon -/
  | none {uri : List Char} (h : ':' ∉ uri) : NamesScheme uri none
  /-- the text in front of the colon -/
  | some {found rest : List Char} (h : ':' ∉ found) :
      NamesScheme (found ++ ':' :: rest) (some (String.ofList found))

/-- The path names the resource of an id. -/
def GoodPath (path : List Char) (kind : ResourceKind) : Prop :=
  ∃ digits id, path = kind.segment.toList ++ '/' :: digits ∧
    ResourceId.parse (String.ofList digits) = .ok id

/-- The reason why a path names no resource. -/
inductive BadPath : List Char → UriError.Cause → Prop
  /-- there is no slash -/
  | bare {path : List Char} (h : '/' ∉ path) : BadPath path .badPath
  /-- no resource has the segment in front of the first slash -/
  | segment {segment rest : List Char} (hbare : '/' ∉ segment)
      (h : ∀ kind : ResourceKind, segment ≠ kind.segment.toList) :
      BadPath (segment ++ '/' :: rest) .badPath
  /-- what follows the segment of a resource is no id -/
  | id (kind : ResourceKind) {digits : List Char} {error : IdError}
      (h : ResourceId.parse (String.ofList digits) = .error error) :
      BadPath (kind.segment.toList ++ '/' :: digits) (.badId error)

/-- What is wrong with a text first. -/
inductive FirstViolation : List Char → UriError.Cause → Prop
  /-- there is no text -/
  | empty : FirstViolation [] .empty
  /-- the text starts otherwise than a URI -/
  | scheme {uri : List Char} {found : Option String} (hne : uri ≠ [])
      (hstart : ¬ pathStart.toList <+: uri) (hfound : NamesScheme uri found) :
      FirstViolation uri (.foreignScheme found)
  /-- the path names no resource -/
  | path {uri path query : List Char} {cause : UriError.Cause} (hparts : Parts uri path query)
      (hbad : BadPath path cause) : FirstViolation uri cause
  /-- a part of the query spells no text -/
  | escape {uri path query part : List Char} {kind : ResourceKind} (hparts : Parts uri path query)
      (hpath : GoodPath path kind) (hbad : FirstBadPart query part) :
      FirstViolation uri (.badEscape (String.ofList part))
  /-- an entry breaks a rule -/
  | entry {uri path query : List Char} {kind : ResourceKind} {entries : List Entry}
      {cause : UriError.Cause} (hparts : Parts uri path query) (hpath : GoodPath path kind)
      (hentries : List.Forall₂ SpellsEntry (queryPieces query) entries)
      (hbreach : FirstBreach kind entries cause) : FirstViolation uri cause

theorem namesScheme_iff {found : Option String} :
    NamesScheme uri found ↔ foundScheme? uri = found := by
  rw [foundScheme?]
  refine ⟨fun h => ?_, ?_⟩
  · cases h with
    | none h => rw [Text.cutFirst?_eq_none_iff.2 h, Option.map_none]
    | some h => rw [Text.cutFirst?_append h, Option.map_some]
  · rintro rfl
    rcases hcut : Text.cutFirst? ':' uri with _ | ⟨found, rest⟩
    · exact .none (Text.cutFirst?_eq_none_iff.1 hcut)
    · obtain ⟨hfound, rfl⟩ := Text.cutFirst?_eq_some_iff.1 hcut
      exact .some hfound

theorem checkPath_eq_error_iff : checkPath path = .error cause ↔ BadPath path cause := by
  rw [checkPath]
  refine ⟨fun h => ?_, fun h => ?_⟩
  · split at h
    · next hcut =>
      cases h
      exact .bare (Text.cutFirst?_eq_none_iff.1 hcut)
    · next segment digits hcut =>
      obtain ⟨hbare, rfl⟩ := Text.cutFirst?_eq_some_iff.1 hcut
      split at h
      · next hkind =>
        cases h
        refine .segment hbare fun kind hsegment => ?_
        rw [hsegment, String.ofList_toList, kindOfSegment?_eq_some_iff.2 rfl] at hkind
        cases hkind
      · next kind hkind =>
        have hsegment : segment = kind.segment.toList := by
          rw [← kindOfSegment?_eq_some_iff.1 hkind, String.toList_ofList]
        split at h
        · cases h
        · next error hid =>
          cases h
          exact hsegment ▸ .id kind hid
  · cases h with
    | bare h => rw [Text.cutFirst?_eq_none_iff.2 h]
    | @segment segment _ hbare h =>
      have hkind : kindOfSegment? (String.ofList segment) = none := by
        rw [Option.eq_none_iff_forall_ne_some]
        intro kind hkind
        exact h kind (by rw [← kindOfSegment?_eq_some_iff.1 hkind, String.toList_ofList])
      simp only [Text.cutFirst?_append hbare, hkind]
    | id kind h =>
      have hbare : '/' ∉ kind.segment.toList := by cases kind <;> decide
      have hkind : kindOfSegment? (String.ofList kind.segment.toList) = some kind := by
        rw [String.ofList_toList, kindOfSegment?_eq_some_iff]
      simp only [Text.cutFirst?_append hbare, hkind, h]

theorem checkUri_eq_error_iff : checkUri uri = .error cause ↔ FirstViolation uri cause := by
  refine ⟨fun h => ?_, fun h => ?_⟩
  · rcases eq_or_ne uri [] with rfl | hne
    · cases h
      exact .empty
    by_cases hstart : pathStart.toList <+: uri
    · obtain ⟨path, query, hparts⟩ := exists_parts hstart
      rw [hparts.checkUri_eq] at h
      rcases bind_eq_error_iff.1 h with hpath | ⟨kind, hkind, hquery⟩
      · exact .path hparts (checkPath_eq_error_iff.1 hpath)
      · have hpath : GoodPath path kind := checkPath_eq_ok_iff.1 hkind
        rcases bind_eq_error_iff.1 hquery with hescape | ⟨entries, hentries, hcheck⟩
        · obtain ⟨part, hpart, rfl⟩ := readEntries_eq_error_iff.1 hescape
          exact .escape hparts hpath hpart
        · exact .entry hparts hpath (readEntries_eq_ok_iff.1 hentries)
            (checkEntries_eq_error_iff.1 hcheck)
    · rw [checkUri_of_foreign hne hstart] at h
      cases h
      exact .scheme hne hstart (namesScheme_iff.2 rfl)
  · cases h with
    | empty => rfl
    | scheme hne hstart hfound =>
      rw [checkUri_of_foreign hne hstart, namesScheme_iff.1 hfound]
    | path hparts hbad =>
      rw [hparts.checkUri_eq]
      exact bind_eq_error_iff.2 (.inl (checkPath_eq_error_iff.2 hbad))
    | escape hparts hpath hbad =>
      rw [hparts.checkUri_eq]
      exact bind_eq_error_iff.2 (.inr ⟨_, checkPath_eq_ok_iff.2 hpath,
        bind_eq_error_iff.2 (.inl (readEntries_eq_error_iff.2 ⟨_, hbad, rfl⟩))⟩)
    | entry hparts hpath hentries hbreach =>
      rw [hparts.checkUri_eq]
      exact bind_eq_error_iff.2 (.inr ⟨_, checkPath_eq_ok_iff.2 hpath, bind_eq_error_iff.2
        (.inr ⟨_, readEntries_eq_ok_iff.2 hentries, checkEntries_eq_error_iff.2 hbreach⟩)⟩)

/-- **The grammar reports the first violation.** A text is refused with what is wrong with it
first, along with the text. -/
theorem check_eq_error_iff_firstViolation (text : String) (error : UriError) :
    check text = .error error ↔ error.input = text ∧ FirstViolation text.toList error.cause := by
  rw [check, mapError_eq_error_iff]
  simp only [checkUri_eq_error_iff]
  refine ⟨?_, fun ⟨hinput, hcause⟩ => ⟨error.cause, hcause, by rw [← hinput]⟩⟩
  rintro ⟨cause, hcause, rfl⟩
  exact ⟨rfl, hcause⟩

-- four entries break a rule here; the first of them is the local key without an address
example :
    check "algorand://app/1?box=YQ&local=&tealcode=1&local=%&total" =
      .error ⟨"algorand://app/1?box=YQ&local=&tealcode=1&local=%&total", .noAddress 2⟩ := by
  decide +kernel

end LedgerUri.Grammar
