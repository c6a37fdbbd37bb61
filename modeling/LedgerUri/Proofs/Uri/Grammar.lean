import LedgerUri.Proofs.Uri.Pairing
import LedgerUri.Uri.Grammar

/-!
# What the strict grammar accepts

The checks between neighbours come down to two things: each entry keeps a rule of its own, and
local entries and addresses are paired. `checkApplication_eq_ok_iff` and `checkToken_eq_ok_iff` say
so, and later modules never look at a neighbour again.
-/

namespace LedgerUri

/-! ## Names -/

theorem KeyParam.name_inj {p q : KeyParam} : p.name = q.name ↔ p = q := by
  cases p <;> cases q <;> decide

theorem KeyParam.name_ne_addressParam (p : KeyParam) : p.name ≠ Uri.addressParam := by
  cases p <;> decide

theorem KeyParam.name_ne_programParam (p : KeyParam) : p.name ≠ Uri.programParam := by
  cases p <;> decide

theorem Uri.addressParam_ne_programParam : Uri.addressParam ≠ Uri.programParam := by
  decide

theorem TokenField.key_inj {f g : TokenField} : f.key = g.key ↔ f = g := by
  cases f <;> cases g <;> decide

theorem TokenField.ofKey?_eq_some_iff {key : String} {f : TokenField} :
    ofKey? key = some f ↔ key = f.key := by
  refine ⟨fun h => ?_, ?_⟩
  · have hfound := List.find?_some h
    exact (of_decide_eq_true hfound).symm
  · rintro rfl
    cases f <;> rfl

namespace Grammar

open Uri

theorem keyParam?_eq_some_iff {name : String} {p : KeyParam} :
    keyParam? name = some p ↔ name = p.name := by
  refine ⟨fun h => ?_, ?_⟩
  · have hfound := List.find?_some h
    exact (of_decide_eq_true hfound).symm
  · rintro rfl
    cases p <;> rfl

theorem keyParam?_eq_none {name : String} (h : ∀ p : KeyParam, name ≠ p.name) :
    keyParam? name = none := by
  rcases hp : keyParam? name with _ | p
  · rfl
  · exact absurd (keyParam?_eq_some_iff.1 hp) (h p)

/-! ## One entry -/

/-- What the grammar asks of an entry of an application, whatever stands next to it. -/
inductive OwnRule (e : Entry) : Prop
  /-- a key parameter holds a key -/
  | key (p : KeyParam) (hname : e.name = p.name) (hkey : IsKey e.valueText)
  /-- an address parameter holds an address -/
  | address (hname : e.name = addressParam) (a : Address) (htext : e.valueText = a.text)
  /-- the request for programs is bare -/
  | programs (hname : e.name = programParam) (hvalue : e.value = none)

namespace OwnRule

variable {e : Entry}

theorem isKey {p : KeyParam} (h : OwnRule e) (hname : e.name = p.name) : IsKey e.valueText := by
  cases h with
  | key _ _ hkey => exact hkey
  | address haddress => exact absurd (hname.symm.trans haddress) p.name_ne_addressParam
  | programs hprograms => exact absurd (hname.symm.trans hprograms) p.name_ne_programParam

theorem exists_address (h : OwnRule e) (hname : e.name = addressParam) :
    ∃ a : Address, e.valueText = a.text := by
  cases h with
  | key p hp => exact absurd (hp.symm.trans hname) p.name_ne_addressParam
  | address _ a htext => exact ⟨a, htext⟩
  | programs hprograms =>
    exact absurd (hname.symm.trans hprograms) addressParam_ne_programParam

theorem value_eq_none (h : OwnRule e) (hname : e.name = programParam) : e.value = none := by
  cases h with
  | key p hp => exact absurd (hp.symm.trans hname) p.name_ne_programParam
  | address haddress => exact absurd (haddress.symm.trans hname) addressParam_ne_programParam
  | programs _ hvalue => exact hvalue

end OwnRule

variable {all : List Entry} {previous next : Option Entry} {e : Entry}

theorem checkEntry_eq_ok_iff_of_key {p : KeyParam} (hname : e.name = p.name) :
    checkEntry all previous e next = .ok () ↔
      IsKey e.valueText ∧ (p = .localKey → isAddressEntry next = true) := by
  simp only [checkEntry, keyParam?_eq_some_iff.2 hname, IsKey]
  rcases hcheck : Base64.UrlSafe.check e.valueText with error | ⟨⟩
  · simp
  · by_cases hlocal : p = .localKey <;> by_cases hnext : isAddressEntry next <;>
      simp [hlocal, hnext]

theorem checkEntry_eq_ok_iff_of_address (hname : e.name = addressParam) :
    checkEntry all previous e next = .ok () ↔
      (∃ a : Address, e.valueText = a.text) ∧ isLocalEntry previous = true := by
  have hnone : keyParam? e.name = none :=
    keyParam?_eq_none fun p hp => p.name_ne_addressParam (hp.symm.trans hname)
  simp only [checkEntry, hnone, if_pos hname, ← Address.parse_eq_ok_iff]
  by_cases hprevious : isLocalEntry previous
  · rcases hparse : Address.parse e.valueText with error | a <;> simp [hprevious]
  · simp [hprevious]

theorem checkEntry_eq_ok_iff_of_programs (hname : e.name = programParam) :
    checkEntry all previous e next = .ok () ↔ e.value = none := by
  have hnone : keyParam? e.name = none :=
    keyParam?_eq_none fun p hp => p.name_ne_programParam (hp.symm.trans hname)
  have haddress : e.name ≠ addressParam := hname ▸ addressParam_ne_programParam.symm
  simp only [checkEntry, hnone, if_neg haddress, if_pos hname]
  rcases e.value with _ | v <;> simp

theorem checkEntry_ne_ok_of_foreign (hkey : ∀ p : KeyParam, e.name ≠ p.name)
    (haddress : e.name ≠ addressParam) (hprograms : e.name ≠ programParam) :
    checkEntry all previous e next ≠ .ok () := by
  simp [checkEntry, keyParam?_eq_none hkey, haddress, hprograms]

/-- An entry passes between its neighbours when it keeps its own rule, an address follows it if it
is local, and a local entry precedes it if it is an address. -/
theorem checkEntry_eq_ok_iff :
    checkEntry all previous e next = .ok () ↔
      OwnRule e ∧ (e.name = KeyParam.localKey.name → isAddressEntry next = true) ∧
        (e.name = addressParam → isLocalEntry previous = true) := by
  -- the name tells which of the three rules could apply, if any
  by_cases hkey : ∃ p : KeyParam, e.name = p.name
  · obtain ⟨p, hname⟩ := hkey
    have haddress : e.name ≠ addressParam := hname ▸ p.name_ne_addressParam
    rw [checkEntry_eq_ok_iff_of_key hname, hname, KeyParam.name_inj]
    exact ⟨fun ⟨hk, hnext⟩ => ⟨.key p hname hk, hnext, fun ha => absurd (hname.trans ha) haddress⟩,
      fun ⟨hown, hnext, _⟩ => ⟨hown.isKey hname, hnext⟩⟩
  · have hforeign : ∀ p : KeyParam, e.name ≠ p.name := fun p hp => hkey ⟨p, hp⟩
    by_cases haddress : e.name = addressParam
    · rw [checkEntry_eq_ok_iff_of_address haddress]
      exact ⟨fun ⟨⟨a, ha⟩, hprevious⟩ => ⟨.address haddress a ha, fun hl => absurd hl (hforeign _),
        fun _ => hprevious⟩, fun ⟨hown, _, hprevious⟩ => ⟨hown.exists_address haddress,
          hprevious haddress⟩⟩
    · by_cases hprograms : e.name = programParam
      · rw [checkEntry_eq_ok_iff_of_programs hprograms]
        exact ⟨fun hv => ⟨.programs hprograms hv, fun hl => absurd hl (hforeign _),
          fun ha => absurd ha haddress⟩, fun ⟨hown, _⟩ => hown.value_eq_none hprograms⟩
      · refine iff_of_false (checkEntry_ne_ok_of_foreign hforeign haddress hprograms) ?_
        rintro ⟨hown, -⟩
        cases hown with
        | key p hname => exact hforeign p hname
        | address hname => exact haddress hname
        | programs hname => exact hprograms hname

/-! ## All entries -/

/-- The entries of an application that the grammar accepts. -/
structure Accepted (entries : List Entry) : Prop where
  /-- every entry keeps its own rule -/
  own : ∀ e ∈ entries, OwnRule e
  /-- local entries and addresses are paired -/
  paired : Paired entries

theorem checkApplicationFrom_cons_eq_ok_iff {rest : List Entry} :
    checkApplicationFrom all previous (e :: rest) = .ok () ↔
      checkEntry all previous e rest.head? = .ok () ∧
        checkApplicationFrom all (some e) rest = .ok () := by
  rw [checkApplicationFrom, bind_eq_ok_iff]
  exact ⟨fun ⟨_, he, hrest⟩ => ⟨he, hrest⟩, fun ⟨he, hrest⟩ => ⟨(), he, hrest⟩⟩

/-- Outside of pairs no local entry is the one before, so a scan that starts there can be cut into
pairs and other entries. -/
theorem accepted_of_checkApplicationFrom {previous : Option Entry} :
    ∀ {entries : List Entry}, isLocalEntry previous = false →
      checkApplicationFrom all previous entries = .ok () → Accepted entries
  | [], _, _ => ⟨fun _ he => absurd he List.not_mem_nil, .nil⟩
  | [e], hprevious, h => by
    obtain ⟨he, -⟩ := checkApplicationFrom_cons_eq_ok_iff.1 h
    obtain ⟨hown, hnext, haddress⟩ := checkEntry_eq_ok_iff.1 he
    have hlocal : e.name ≠ KeyParam.localKey.name := fun hl => by cases hnext hl
    have haddress' : e.name ≠ addressParam := fun ha => by
      rw [haddress ha] at hprevious
      cases hprevious
    exact ⟨by simpa using hown, .other hlocal haddress' .nil⟩
  | e :: next :: rest, hprevious, h => by
    obtain ⟨he, htail⟩ := checkApplicationFrom_cons_eq_ok_iff.1 h
    obtain ⟨hown, hnext, haddress⟩ := checkEntry_eq_ok_iff.1 he
    by_cases hlocal : e.name = KeyParam.localKey.name
    · -- a local entry and the address after it leave together
      have hnextaddr : next.name = addressParam := by simpa [isAddressEntry] using hnext hlocal
      obtain ⟨hn, hrest⟩ := checkApplicationFrom_cons_eq_ok_iff.1 htail
      obtain ⟨hnextown, -, -⟩ := checkEntry_eq_ok_iff.1 hn
      have hnotlocal : isLocalEntry (some next) = false := by
        simpa [isLocalEntry] using name_ne_localKey_of_address hnextaddr
      obtain ⟨howns, hpaired⟩ := accepted_of_checkApplicationFrom hnotlocal hrest
      exact ⟨List.forall_mem_cons.2 ⟨hown, List.forall_mem_cons.2 ⟨hnextown, howns⟩⟩,
        .pair hlocal hnextaddr hpaired⟩
    · have haddress' : e.name ≠ addressParam := fun ha => by
        rw [haddress ha] at hprevious
        cases hprevious
      have hnotlocal : isLocalEntry (some e) = false := by simpa [isLocalEntry] using hlocal
      obtain ⟨howns, hpaired⟩ := accepted_of_checkApplicationFrom hnotlocal htail
      exact ⟨List.forall_mem_cons.2 ⟨hown, howns⟩, .other hlocal haddress' hpaired⟩

theorem checkApplicationFrom_of_accepted {entries : List Entry} (hown : ∀ e ∈ entries, OwnRule e)
    (hpaired : Paired entries) : checkApplicationFrom all previous entries = .ok () := by
  induction hpaired generalizing previous with
  | nil => rfl
  | other hlocal haddress _ ih =>
    obtain ⟨he, hrest⟩ := List.forall_mem_cons.1 hown
    exact checkApplicationFrom_cons_eq_ok_iff.2
      ⟨checkEntry_eq_ok_iff.2 ⟨he, fun hl => absurd hl hlocal, fun ha => absurd ha haddress⟩,
        ih hrest⟩
  | @pair l a rest hlocal haddress _ ih =>
    obtain ⟨hl, htail⟩ := List.forall_mem_cons.1 hown
    obtain ⟨ha, hrest⟩ := List.forall_mem_cons.1 htail
    have hl' : l.name ≠ addressParam := hlocal ▸ addressParam_ne_localKey.symm
    have ha' := name_ne_localKey_of_address haddress
    refine checkApplicationFrom_cons_eq_ok_iff.2 ⟨checkEntry_eq_ok_iff.2 ⟨hl, fun _ => ?_,
      fun h => absurd h hl'⟩, checkApplicationFrom_cons_eq_ok_iff.2
        ⟨checkEntry_eq_ok_iff.2 ⟨ha, fun h => absurd h ha', fun _ => ?_⟩, ih hrest⟩⟩
    · simp [isAddressEntry, haddress]
    · simp [isLocalEntry, hlocal]

/-- The grammar accepts paired entries that keep their own rules, and no others. -/
theorem checkApplication_eq_ok_iff {entries : List Entry} :
    checkApplication entries = .ok () ↔ Accepted entries :=
  ⟨accepted_of_checkApplicationFrom rfl,
    fun h => checkApplicationFrom_of_accepted h.own h.paired⟩

/-- The grammar accepts bare keys of fields, and nothing else, of a token. -/
theorem checkToken_eq_ok_iff {entries : List Entry} :
    checkToken entries = .ok () ↔
      ∀ e ∈ entries, (∃ f : TokenField, e.name = f.key) ∧ e.value = none := by
  induction entries with
  | nil => simp [checkToken]
  | cons e es ih =>
    rw [List.forall_mem_cons, ← ih, checkToken]
    rcases hf : TokenField.ofKey? e.name with _ | f
    · have hnot : ¬∃ f : TokenField, e.name = f.key := fun ⟨f, hname⟩ => by
        rw [TokenField.ofKey?_eq_some_iff.2 hname] at hf
        cases hf
      simp [hnot]
    · have hname := TokenField.ofKey?_eq_some_iff.1 hf
      rcases hvalue : e.value with _ | v
      · simpa using fun _ => ⟨f, hname⟩
      · simp

end Grammar

end LedgerUri
