import LedgerUri.Proofs.Uri.Violation
import LedgerUri.Proofs.Uri.Written

/-!
# The documented shape

The grammar is documented as a pattern: for an application any number of boxes, then of global
keys, then of local keys with their addresses, and the request for programs at the end; for a token
each of its fields at most once, in canonical order. That is the shape in which URIs are written.
The grammar itself sees an entry and its neighbours only, so of this pattern it enforces what can be
told in one place. The order of the entries, the repetition of a bare name and the `=` of an empty
key escape it.

* `Documented` — the queries of the pattern, part by part;
* `documented_iff_written` — they are those that are written;
* `Tidy` — what the grammar does not see;
* `documented_iff_tidy` — the pattern is what passes the grammar and is tidy;
* `check_documented_iff_tidy` — so accepted texts follow the pattern as far as they are tidy;
* `check_undocumented` — some are not.
-/

namespace LedgerUri.Grammar

open Uri

variable {entries rest part : List Entry} {e : Entry} {kind : ResourceKind}

/-! ## The pattern -/

/-- An entry that gives a key to a parameter. -/
def GivesKey (p : KeyParam) (e : Entry) : Prop :=
  ∃ key, KeyText key ∧ e = ⟨p.name, some key⟩

/-- Local keys, each with its address directly after it. -/
inductive LocalPairs : List Entry → Prop
  /-- there are none -/
  | nil : LocalPairs []
  /-- a local key and its address -/
  | cons {l : Entry} {address : String} {rest : List Entry} (hl : GivesKey .localKey l)
      (haddress : AddressText address) (h : LocalPairs rest) :
      LocalPairs (l :: ⟨addressParam, some address⟩ :: rest)

/-- The queries of the documentation. -/
inductive Documented : ResourceKind → List Entry → Prop
  /-- boxes, global keys, local keys with addresses, and programs -/
  | application {boxes globals locals programs : List Entry}
      (hboxes : ∀ e ∈ boxes, GivesKey .boxKey e) (hglobals : ∀ e ∈ globals, GivesKey .globalKey e)
      (hlocals : LocalPairs locals)
      (hprograms : programs = [] ∨ programs = [⟨programParam, none⟩]) :
      Documented .application (boxes ++ globals ++ locals ++ programs)
  /-- some fields, in canonical order -/
  | token {fields : List TokenField} (h : fields.Sublist TokenField.all) :
      Documented .token (fields.map fun f => ⟨f.key, none⟩)

/-! ## Documented queries are written -/

theorem forall_givesKey_iff {p : KeyParam} :
    (∀ e ∈ part, GivesKey p e) ↔
      ∃ keys : List String, (∀ key ∈ keys, IsKey key) ∧ part = keys.map (keyEntry p) := by
  refine ⟨fun h => ?_, ?_⟩
  · induction part with
    | nil => exact ⟨[], List.forall_mem_nil _, rfl⟩
    | cons e part ih =>
      obtain ⟨⟨key, hkey, rfl⟩, hpart⟩ := List.forall_mem_cons.1 h
      obtain ⟨keys, hkeys, rfl⟩ := ih hpart
      exact ⟨key :: keys, List.forall_mem_cons.2 ⟨isKey_iff.2 hkey, hkeys⟩, rfl⟩
  · rintro ⟨keys, hkeys, rfl⟩ e he
    obtain ⟨key, hkey, rfl⟩ := List.mem_map.1 he
    exact ⟨key, isKey_iff.1 (hkeys key hkey), rfl⟩

theorem localPairs_iff :
    LocalPairs part ↔
      ∃ reads : List LocalRequest,
        (∀ l ∈ reads, IsKey l.key) ∧ part = reads.flatMap localEntries := by
  refine ⟨fun h => ?_, ?_⟩
  · induction h with
    | nil => exact ⟨[], List.forall_mem_nil _, rfl⟩
    | cons hl haddress _ ih =>
      obtain ⟨key, hkey, rfl⟩ := hl
      obtain ⟨a, rfl⟩ := exists_address_iff.2 haddress
      obtain ⟨reads, hreads, rfl⟩ := ih
      exact ⟨⟨key, a⟩ :: reads, List.forall_mem_cons.2 ⟨isKey_iff.2 hkey, hreads⟩, rfl⟩
  · rintro ⟨reads, hreads, rfl⟩
    induction reads with
    | nil => exact .nil
    | cons l reads ih =>
      obtain ⟨hl, hreads⟩ := List.forall_mem_cons.1 hreads
      exact .cons ⟨l.key, isKey_iff.1 hl, rfl⟩ (exists_address_iff.1 ⟨l.address, rfl⟩) (ih hreads)

/-- **The documented queries are those that are written.** -/
theorem documented_iff_written :
    Documented kind entries ↔
      ∃ request : Request, request.kind = kind ∧ request.Writable ∧ request.entries = entries := by
  refine ⟨fun h => ?_, ?_⟩
  · cases h with
    | application hboxes hglobals hlocals hprograms =>
      obtain ⟨boxKeys, hboxKeys, rfl⟩ := forall_givesKey_iff.1 hboxes
      obtain ⟨globalKeys, hglobalKeys, rfl⟩ := forall_givesKey_iff.1 hglobals
      obtain ⟨reads, hreads, rfl⟩ := localPairs_iff.1 hlocals
      rcases hprograms with rfl | rfl
      · exact ⟨.application ⟨boxKeys, globalKeys, reads, false⟩, rfl,
          ⟨hboxKeys, hglobalKeys, hreads⟩, rfl⟩
      · exact ⟨.application ⟨boxKeys, globalKeys, reads, true⟩, rfl,
          ⟨hboxKeys, hglobalKeys, hreads⟩, rfl⟩
    | @token fields hfields =>
      refine ⟨.token (.ofList fields), rfl, trivial, ?_⟩
      rw [Request.entries, tokenEntries,
        TokenFieldSet.toList_ofList_of_pairwise (TokenField.pairwise_all.sublist hfields)]
  · rintro ⟨request, rfl, hwritable, rfl⟩
    cases request with
    | application r =>
      refine .application (forall_givesKey_iff.2 ⟨_, hwritable.boxKeys, rfl⟩)
        (forall_givesKey_iff.2 ⟨_, hwritable.globalKeys, rfl⟩)
        (localPairs_iff.2 ⟨_, hwritable.localKeys, rfl⟩) ?_
      cases r.programs
      · exact .inl rfl
      · exact .inr rfl
    | token fields => exact .token List.filter_sublist

/-! ## What the grammar does not see -/

/-- The place of a name in the order of the documentation. -/
def place : ResourceKind → String → Nat
  | .application, name =>
    if name = KeyParam.boxKey.name then 0
    else if name = KeyParam.globalKey.name then 1
    else if name = programParam then 3
    else 2
  | .token, name => ((TokenField.ofKey? name).map TokenField.index).getD 11

/-- Entries that stand in order, with no bare name twice and no key parameter without a value. -/
structure Tidy (kind : ResourceKind) (entries : List Entry) : Prop where
  /-- the entries stand in the order of the documentation -/
  ordered : entries.Pairwise fun x y => place kind x.name ≤ place kind y.name
  /-- two bare entries have different names -/
  once : entries.Pairwise fun x y => x.value = none → y.value = none → x.name ≠ y.name
  /-- key parameters have values -/
  valued : ∀ e ∈ entries, ∀ p : KeyParam, e.name = p.name → e.value ≠ none

theorem tidy_cons_iff :
    Tidy kind (e :: rest) ↔
      (∀ x ∈ rest, place kind e.name ≤ place kind x.name) ∧
        (e.value = none → ∀ x ∈ rest, x.value = none → e.name ≠ x.name) ∧
          (∀ p : KeyParam, e.name = p.name → e.value ≠ none) ∧ Tidy kind rest := by
  refine ⟨fun ⟨hordered, honce, hvalued⟩ => ?_, fun ⟨hfirst, hname, hvalue, h⟩ => ?_⟩
  · obtain ⟨hfirst, hordered⟩ := List.pairwise_cons.1 hordered
    obtain ⟨hname, honce⟩ := List.pairwise_cons.1 honce
    obtain ⟨hvalue, hvalued⟩ := List.forall_mem_cons.1 hvalued
    exact ⟨hfirst, fun he x hx => hname x hx he, hvalue, hordered, honce, hvalued⟩
  · exact ⟨List.pairwise_cons.2 ⟨hfirst, h.ordered⟩,
      List.pairwise_cons.2 ⟨fun x hx he => hname he x hx, h.once⟩,
      List.forall_mem_cons.2 ⟨hvalue, h.valued⟩⟩

theorem tidy_nil : Tidy kind [] :=
  ⟨.nil, .nil, List.forall_mem_nil _⟩

theorem place_field (f : TokenField) : place .token f.key = f.index := by
  cases f <;> rfl

/-- Entries with values in one and the same place go in front of tidy entries that have no earlier
place. -/
theorem Tidy.append {n : Nat} (hpart : ∀ e ∈ part, place kind e.name = n ∧ e.value ≠ none)
    (hrest : ∀ e ∈ rest, n ≤ place kind e.name) (h : Tidy kind rest) :
    Tidy kind (part ++ rest) := by
  induction part with
  | nil => exact h
  | cons e part ih =>
    obtain ⟨⟨hplace, hvalue⟩, hpart⟩ := List.forall_mem_cons.1 hpart
    refine tidy_cons_iff.2 ⟨fun x hx => ?_, fun hnone => absurd hnone hvalue, fun _ _ => hvalue,
      ih hpart⟩
    rw [hplace]
    rcases List.mem_append.1 hx with hx | hx
    · exact (hpart x hx).1.ge
    · exact hrest x hx

theorem GivesKey.placed {p : KeyParam} (h : GivesKey p e) :
    place .application e.name = place .application p.name ∧ e.value ≠ none := by
  obtain ⟨key, -, rfl⟩ := h
  exact ⟨rfl, Option.some_ne_none key⟩

theorem LocalPairs.forall (h : LocalPairs part) :
    ∀ e ∈ part, place .application e.name = 2 ∧ e.value ≠ none := by
  induction h with
  | nil => exact List.forall_mem_nil _
  | @cons l address rest hl _ _ ih =>
    exact List.forall_mem_cons.2 ⟨hl.placed,
      List.forall_mem_cons.2 ⟨⟨rfl, Option.some_ne_none address⟩, ih⟩⟩

theorem Documented.tidy (h : Documented kind entries) : Tidy kind entries := by
  cases h with
  | @application boxes globals locals programs hboxes hglobals hlocals hprograms =>
    have hlast : Tidy .application programs ∧ ∀ e ∈ programs, 2 ≤ place .application e.name := by
      rcases hprograms with rfl | rfl
      · exact ⟨tidy_nil, List.forall_mem_nil _⟩
      · refine ⟨tidy_cons_iff.2 ⟨List.forall_mem_nil _, fun _ => List.forall_mem_nil _,
          fun p hp => absurd hp.symm p.name_ne_programParam, tidy_nil⟩, ?_⟩
        exact List.forall_mem_singleton.2 (Nat.le_succ 2)
    have hlater : ∀ e ∈ locals ++ programs, 1 ≤ place .application e.name := by
      intro e he
      rcases List.mem_append.1 he with he | he
      · exact (hlocals.forall e he).1 ▸ Nat.le_succ 1
      · exact Nat.le_of_succ_le (hlast.2 e he)
    rw [List.append_assoc, List.append_assoc]
    refine .append (n := 0) (fun e he => (hboxes e he).placed) (fun _ _ => Nat.zero_le _) ?_
    refine .append (n := 1) (fun e he => (hglobals e he).placed) hlater ?_
    exact .append hlocals.forall hlast.2 hlast.1
  | @token fields hfields =>
    have hsorted := TokenField.pairwise_all.sublist hfields
    refine ⟨?_, ?_, ?_⟩
    · rw [List.pairwise_map]
      exact hsorted.imp fun hlt => by simpa only [place_field] using hlt.le
    · rw [List.pairwise_map]
      exact hsorted.imp fun hlt _ _ hkey =>
        hlt.ne (TokenField.index_inj.2 (TokenField.key_inj.1 hkey))
    · intro e he p hp
      obtain ⟨f, -, rfl⟩ := List.mem_map.1 he
      revert hp
      cases f <;> cases p <;> decide

/-! ## Tidy entries that pass -/

/-- Entries in one place are none if nothing stands in so early a place. -/
theorem eq_nil_of_place {m n : Nat} (hpart : ∀ e ∈ part, place kind e.name = m ∧ e.value ≠ none)
    (hle : ∀ e ∈ part, n ≤ place kind e.name) (hlt : m < n) : part = [] := by
  rw [List.eq_nil_iff_forall_not_mem]
  intro e he
  have hplace := hle e he
  rw [(hpart e he).1] at hplace
  exact absurd hplace (Nat.not_le_of_lt hlt)

namespace Documented

theorem nil : Documented .application [] :=
  .application (List.forall_mem_nil _) (List.forall_mem_nil _) .nil (.inl rfl)

/-- A box goes in front of everything. -/
theorem cons_box (he : GivesKey .boxKey e) (h : Documented .application rest) :
    Documented .application (e :: rest) := by
  cases h with
  | application hboxes hglobals hlocals hprograms =>
    exact .application (List.forall_mem_cons.2 ⟨he, hboxes⟩) hglobals hlocals hprograms

/-- A global key goes in front of everything but boxes. -/
theorem cons_global (he : GivesKey .globalKey e) (h : Documented .application rest)
    (hrest : ∀ x ∈ rest, 1 ≤ place .application x.name) : Documented .application (e :: rest) := by
  cases h with
  | @application boxes globals locals programs hboxes hglobals hlocals hprograms =>
    simp only [List.forall_mem_append] at hrest
    obtain ⟨⟨⟨hbox, -⟩, -⟩, -⟩ := hrest
    obtain rfl := eq_nil_of_place (fun x hx => (hboxes x hx).placed) hbox (by decide)
    have h : Documented .application ([] ++ e :: globals ++ locals ++ programs) :=
      .application hboxes (List.forall_mem_cons.2 ⟨he, hglobals⟩) hlocals hprograms
    exact h

/-- A local key and its address go in front of other local keys and the request for programs. -/
theorem cons_pair {l a : Entry} {address : String} (hl : GivesKey .localKey l)
    (ha : a = ⟨addressParam, some address⟩) (haddress : AddressText address)
    (h : Documented .application rest) (hrest : ∀ x ∈ rest, 2 ≤ place .application x.name) :
    Documented .application (l :: a :: rest) := by
  cases h with
  | @application boxes globals locals programs hboxes hglobals hlocals hprograms =>
    simp only [List.forall_mem_append] at hrest
    obtain ⟨⟨⟨hbox, hglobal⟩, -⟩, -⟩ := hrest
    obtain rfl := eq_nil_of_place (fun x hx => (hboxes x hx).placed) hbox (by decide)
    obtain rfl := eq_nil_of_place (fun x hx => (hglobals x hx).placed) hglobal (by decide)
    have h : Documented .application ([] ++ [] ++ l :: a :: locals ++ programs) :=
      .application hboxes hglobals (ha ▸ .cons hl haddress hlocals) hprograms
    exact h

/-- The request for programs goes behind everything. -/
theorem cons_programs (h : Documented .application rest)
    (hrest : ∀ x ∈ rest, 3 ≤ place .application x.name)
    (honce : ∀ x ∈ rest, x.value = none → programParam ≠ x.name) :
    Documented .application (⟨programParam, none⟩ :: rest) := by
  cases h with
  | @application boxes globals locals programs hboxes hglobals hlocals hprograms =>
    simp only [List.forall_mem_append] at hrest honce
    obtain ⟨⟨⟨hbox, hglobal⟩, hlocal⟩, -⟩ := hrest
    obtain rfl := eq_nil_of_place (fun x hx => (hboxes x hx).placed) hbox (by decide)
    obtain rfl := eq_nil_of_place (fun x hx => (hglobals x hx).placed) hglobal (by decide)
    obtain rfl := eq_nil_of_place hlocals.forall hlocal (by decide)
    rcases hprograms with rfl | rfl
    · have h : Documented .application ([] ++ [] ++ [] ++ [⟨programParam, none⟩]) :=
        .application hboxes hglobals .nil (.inr rfl)
      exact h
    · exact absurd rfl (honce.2 _ (List.mem_singleton_self _) rfl)

end Documented

/-- An entry with a key and a value gives the key. -/
theorem givesKey_of_isKey {p : KeyParam} (hname : e.name = p.name) (hkey : IsKey e.valueText)
    (hvalue : e.value ≠ none) : GivesKey p e := by
  obtain ⟨name, value⟩ := e
  obtain ⟨key, rfl⟩ := Option.ne_none_iff_exists'.1 hvalue
  exact ⟨key, isKey_iff.1 hkey, by rw [← hname]⟩

/-- An address has a value: the empty text is none. -/
theorem exists_eq_address (hname : e.name = addressParam)
    (haddress : ∃ a : Address, e.valueText = a.text) :
    ∃ address, AddressText address ∧ e = ⟨addressParam, some address⟩ := by
  obtain ⟨name, _ | address⟩ := e
  · have hlength := (exists_address_iff.1 haddress).length
    cases hlength
  · exact ⟨address, exists_address_iff.1 haddress, by rw [← hname]⟩

/-- The entries of an application that the grammar accepts are documented when they are tidy. -/
theorem Documented.of_paired (hpaired : Paired entries) (hown : ∀ e ∈ entries, OwnRule e)
    (htidy : Tidy .application entries) : Documented .application entries := by
  induction hpaired with
  | nil => exact .nil
  | @other e rest hlocal haddress _ ih =>
    obtain ⟨he, hrest⟩ := List.forall_mem_cons.1 hown
    obtain ⟨hfirst, honce, hvalue, htidy⟩ := tidy_cons_iff.1 htidy
    have h := ih hrest htidy
    cases he with
    | key p hname hkey =>
      have hgives := givesKey_of_isKey hname hkey (hvalue p hname)
      rw [hname] at hfirst
      cases p with
      | boxKey => exact h.cons_box hgives
      | globalKey => exact h.cons_global hgives hfirst
      | localKey => exact absurd hname hlocal
    | address hname => exact absurd hname haddress
    | programs hname hnone =>
      obtain ⟨name, value⟩ := e
      obtain ⟨rfl, rfl⟩ : name = programParam ∧ value = none := ⟨hname, hnone⟩
      exact h.cons_programs hfirst (honce rfl)
  | @pair l a rest hlocal haddress _ ih =>
    obtain ⟨hl, ha, hrest⟩ := by simpa only [List.forall_mem_cons] using hown
    obtain ⟨hfirst, -, hvalue, htidy⟩ := tidy_cons_iff.1 htidy
    obtain ⟨-, -, -, htidy⟩ := tidy_cons_iff.1 htidy
    have hgives := givesKey_of_isKey hlocal (hl.isKey hlocal) (hvalue _ hlocal)
    obtain ⟨address, htext, heq⟩ := exists_eq_address haddress (ha.exists_address haddress)
    rw [hlocal] at hfirst
    exact (ih hrest htidy).cons_pair hgives heq htext (List.forall_mem_of_forall_mem_cons hfirst)

theorem exists_fields (hrule : ∀ e ∈ entries, ResourceRule .token e) :
    ∃ fields : List TokenField, entries = fields.map fun f => ⟨f.key, none⟩ := by
  induction entries with
  | nil => exact ⟨[], rfl⟩
  | cons e rest ih =>
    obtain ⟨⟨⟨f, hname⟩, hvalue⟩, hrest⟩ := List.forall_mem_cons.1 hrule
    obtain ⟨fields, rfl⟩ := ih hrest
    obtain ⟨name, value⟩ := e
    obtain ⟨rfl, rfl⟩ : name = f.key ∧ value = none := ⟨hname, hvalue⟩
    exact ⟨f :: fields, rfl⟩

/-- Bare keys of fields are documented when they are tidy. -/
theorem Documented.of_fields (hrule : ∀ e ∈ entries, ResourceRule .token e)
    (htidy : Tidy .token entries) : Documented .token entries := by
  obtain ⟨fields, rfl⟩ := exists_fields hrule
  have hordered := List.pairwise_map.1 htidy.ordered
  have honce := List.pairwise_map.1 htidy.once
  have hsorted : fields.Pairwise fun f g => f.index < g.index := by
    refine hordered.imp₂ (fun f g hle hne => ?_) honce
    rw [place_field, place_field] at hle
    exact lt_of_le_of_ne hle fun heq =>
      hne rfl rfl (congrArg TokenField.key (TokenField.index_inj.1 heq))
  rw [← TokenFieldSet.toList_ofList_of_pairwise hsorted]
  exact .token List.filter_sublist

/-- **The documented queries are the tidy ones of those that the grammar accepts.** -/
theorem documented_iff_tidy :
    Documented kind entries ↔ checkEntries kind entries = .ok () ∧ Tidy kind entries := by
  refine ⟨fun h => ⟨?_, h.tidy⟩, fun ⟨hcheck, htidy⟩ => ?_⟩
  · obtain ⟨request, rfl, hwritable, rfl⟩ := documented_iff_written.1 h
    exact checkEntries_entries hwritable
  · cases kind with
    | application =>
      obtain ⟨hown, hpaired⟩ := checkApplication_eq_ok_iff.1 hcheck
      exact .of_paired hpaired hown htidy
    | token => exact .of_fields (checkToken_eq_ok_iff.1 hcheck) htidy

/-! ## Texts -/

/-- The path names a resource of the kind, and the query spells the entries. -/
def Denotes (uri : List Char) (kind : ResourceKind) (entries : List Entry) : Prop :=
  ∃ path query, Parts uri path query ∧ GoodPath path kind ∧
    List.Forall₂ SpellsEntry (queryPieces query) entries

/-- With a resource and entries, a text is checked by its entries. -/
theorem Denotes.checkUri_eq {uri : List Char} (h : Denotes uri kind entries) :
    checkUri uri = checkEntries kind entries := by
  obtain ⟨path, query, hparts, hpath, hentries⟩ := h
  rw [hparts.checkUri_eq, checkPath_eq_ok_iff.2 hpath]
  refine Eq.trans (congrArg (· >>= checkEntries kind) (readEntries_eq_ok_iff.2 hentries)) ?_
  rfl

/-- A text denotes what its path and its query are read as. -/
theorem denotes_of_read {uri : List Char} (path query : List Char)
    (huri : uri = pathStart.toList ++ (path ++ '?' :: query)) (hmark : '?' ∉ path)
    (hpath : checkPath path = .ok kind) (hread : readEntries query = .ok entries) :
    Denotes uri kind entries := by
  subst huri
  exact ⟨path, query, .query hmark, checkPath_eq_ok_iff.1 hpath, readEntries_eq_ok_iff.1 hread⟩

/-- Every text that the grammar accepts names a resource and spells entries. -/
theorem exists_denotes_of_checkUri {uri : List Char} (h : checkUri uri = .ok ()) :
    ∃ kind entries, Denotes uri kind entries := by
  obtain ⟨path, query, kind, entries, hparts, hkind, hentries, -⟩ := exists_parts_of_checkUri h
  exact ⟨kind, entries, path, query, hparts, checkPath_eq_ok_iff.1 hkind,
    readEntries_eq_ok_iff.1 hentries⟩

/-- A text of the documented shape is accepted. -/
theorem check_of_documented {text : String} (htext : Denotes text.toList kind entries)
    (h : Documented kind entries) : check text = .ok () := by
  rw [check_eq_ok_iff, htext.checkUri_eq]
  exact (documented_iff_tidy.1 h).1

/-- **How much of the documented shape is enforced.** A text that the grammar accepts names one
resource and spells entries, and these have the documented shape exactly when they are tidy. -/
theorem check_documented_iff_tidy (text : String) (h : check text = .ok ()) :
    (∃ kind entries, Denotes text.toList kind entries) ∧
      ∀ kind entries, Denotes text.toList kind entries →
        (Documented kind entries ↔ Tidy kind entries) := by
  rw [check_eq_ok_iff] at h
  refine ⟨exists_denotes_of_checkUri h, fun kind entries htext => ?_⟩
  rw [documented_iff_tidy, ← htext.checkUri_eq]
  exact and_iff_right h

/-- A box before the request for programs is tidy. -/
theorem check_documented_iff_tidy_boxAndPrograms :
    ∃ entries, Denotes "algorand://app/1?box=YQ&tealcode".toList .application entries ∧
      Tidy .application entries ∧ Documented .application entries := by
  have htext : Denotes "algorand://app/1?box=YQ&tealcode".toList .application
      [keyEntry .boxKey "YQ", ⟨programParam, none⟩] :=
    denotes_of_read "app/1".toList "box=YQ&tealcode".toList rfl (by decide) (by decide +kernel)
      (by decide +kernel)
  have htidy : Tidy .application [keyEntry .boxKey "YQ", ⟨programParam, none⟩] := by
    refine ⟨by decide, by decide, fun e he p hp => ?_⟩
    rcases List.mem_pair.1 he with rfl | rfl
    · exact Option.some_ne_none "YQ"
    · exact absurd hp.symm p.name_ne_programParam
  exact ⟨_, htext, htidy, ((check_documented_iff_tidy _ (by decide +kernel)).2 _ _ htext).2 htidy⟩

/-- The grammar accepts the text, and its entries do not have the documented shape. -/
def Undocumented (text : String) : Prop :=
  check text = .ok () ∧ ∃ kind entries, Denotes text.toList kind entries ∧ ¬ Documented kind entries

/-- Entries that pass and are not tidy make an accepted text that is not documented. -/
theorem undocumented_of_not_tidy {text : String} (htext : Denotes text.toList kind entries)
    (hcheck : checkEntries kind entries = .ok ()) (htidy : ¬ Tidy kind entries) :
    Undocumented text :=
  ⟨check_eq_ok_iff.2 (htext.checkUri_eq.trans hcheck), kind, entries, htext,
    mt Documented.tidy htidy⟩

/-- A box behind the request for programs, a field asked for twice and a box without a value are
accepted, and none of the three has the documented shape. -/
theorem check_undocumented :
    Undocumented "algorand://app/1?tealcode&box=YQ" ∧ Undocumented "algorand://asset/1?url&url" ∧
      Undocumented "algorand://app/1?box" := by
  refine ⟨?_, ?_, ?_⟩
  · have htext : Denotes "algorand://app/1?tealcode&box=YQ".toList .application
        [⟨programParam, none⟩, keyEntry .boxKey "YQ"] :=
      denotes_of_read "app/1".toList "tealcode&box=YQ".toList rfl (by decide) (by decide +kernel)
        (by decide +kernel)
    exact undocumented_of_not_tidy htext (by decide +kernel) fun h => absurd h.ordered (by decide)
  · have htext : Denotes "algorand://asset/1?url&url".toList .token
        [⟨TokenField.url.key, none⟩, ⟨TokenField.url.key, none⟩] :=
      denotes_of_read "asset/1".toList "url&url".toList rfl (by decide) (by decide +kernel)
        (by decide +kernel)
    exact undocumented_of_not_tidy htext (by decide +kernel) fun h => absurd h.once (by decide)
  · have htext : Denotes "algorand://app/1?box".toList .application
        [⟨KeyParam.boxKey.name, none⟩] :=
      denotes_of_read "app/1".toList "box".toList rfl (by decide) (by decide +kernel)
        (by decide +kernel)
    exact undocumented_of_not_tidy htext (by decide +kernel)
      fun h => h.valued _ List.mem_cons_self .boxKey rfl rfl

end LedgerUri.Grammar
