import LedgerUri.Proofs.Uri.Pairing

/-!
# Pairing place by place and by counting

Whether a query is paired can be told in two more ways. One looks at each place of it: what stands
directly after a local entry, and what directly in front of an address. The other runs the scan
after local entries and counts: when it finds as many addresses as there are local entries and as
there are addresses, no entry is left that could be out of place.

* `paired_iff_alternating` — paired queries, place by place;
* `Scan.paired` — paired queries, by counting;
* `countOf_addressParam_front`, `getElem?_valuesOf_append` — the n-th local entry has the n-th
  address.
-/

namespace LedgerUri.Uri

variable {e l a : Entry} {rest entries : List Entry}

/-! ## In every place -/

/-- What pairing says about every place of a query: a local entry has an address entry directly
after it, and an address entry has a local one directly in front of it. -/
structure Alternating (entries : List Entry) : Prop where
  /-- an address follows every local entry -/
  followed : ∀ front l rest, entries = front ++ l :: rest → l.name = KeyParam.localKey.name →
    ∃ a ∈ rest.head?, a.name = addressParam
  /-- a local entry precedes every address -/
  preceded : ∀ front a rest, entries = front ++ a :: rest → a.name = addressParam →
    ∃ l ∈ front.getLast?, l.name = KeyParam.localKey.name

/-- What follows a front that does not end in a local entry alternates by itself. -/
theorem Alternating.drop {front rest : List Entry} (h : Alternating (front ++ rest))
    (hlast : ∀ l ∈ front.getLast?, l.name ≠ KeyParam.localKey.name) : Alternating rest := by
  refine ⟨fun middle l tail heq hlocal => ?_, fun middle a tail heq haddress => ?_⟩
  · exact h.followed (front ++ middle) l tail (by rw [heq, List.append_assoc]) hlocal
  · obtain ⟨l, hl, hlocal⟩ :=
      h.preceded (front ++ middle) a tail (by rw [heq, List.append_assoc]) haddress
    rw [List.getLast?_append] at hl
    rcases hmiddle : middle.getLast? with _ | m
    · rw [hmiddle, Option.none_or] at hl
      exact absurd hlocal (hlast l hl)
    · rw [hmiddle, Option.some_or] at hl
      exact ⟨l, hl, hlocal⟩

theorem Alternating.paired : ∀ {entries : List Entry}, Alternating entries → Paired entries
  | [], _ => .nil
  | [e], h => by
    refine .other (fun hlocal => ?_) (fun haddress => ?_) .nil
    · obtain ⟨a, ha, -⟩ := h.followed [] e [] rfl hlocal
      cases ha
    · obtain ⟨l, hl, -⟩ := h.preceded [] e [] rfl haddress
      cases hl
  | e :: next :: rest, h => by
    by_cases hlocal : e.name = KeyParam.localKey.name
    · -- a local entry and the address after it leave together
      obtain ⟨a, ha, haddress⟩ := h.followed [] e (next :: rest) rfl hlocal
      obtain rfl : next = a := Option.some.inj ha
      have hboth : Alternating ([e, next] ++ rest) := h
      refine .pair hlocal haddress (hboth.drop ?_).paired
      intro l hl
      obtain rfl : next = l := Option.some.inj hl
      exact name_ne_localKey_of_address haddress
    · have hfirst : Alternating ([e] ++ next :: rest) := h
      refine .other hlocal (fun haddress => ?_) (hfirst.drop ?_).paired
      · obtain ⟨l, hl, -⟩ := h.preceded [] e (next :: rest) rfl haddress
        cases hl
      · intro l hl
        obtain rfl : e = l := Option.some.inj hl
        exact hlocal

/-- A place in two queries in a row is a place in one of them. -/
theorem append_eq_place {front rest before after : List Entry} {e : Entry}
    (h : front ++ rest = before ++ e :: after) :
    (∃ middle, front = before ++ e :: middle ∧ after = middle ++ rest) ∨
      ∃ middle, before = front ++ middle ∧ rest = middle ++ e :: after := by
  rcases List.append_eq_append_iff.1 h with ⟨middle, hbefore, hrest⟩ | ⟨middle, hfront, hafter⟩
  · exact .inr ⟨middle, hbefore, hrest⟩
  · rcases middle with _ | ⟨m, middle⟩
    · exact .inr ⟨[], by simpa using hfront.symm, by simpa using hafter.symm⟩
    · obtain ⟨rfl, htail⟩ := List.cons_eq_cons.1 hafter
      exact .inl ⟨middle, hfront, htail⟩

theorem Alternating.append {front rest : List Entry} (hfront : Alternating front)
    (hrest : Alternating rest) : Alternating (front ++ rest) := by
  refine ⟨fun before l after heq hlocal => ?_, fun before a after heq haddress => ?_⟩
  · rcases append_eq_place heq with ⟨middle, hplace, rfl⟩ | ⟨middle, rfl, hplace⟩
    · obtain ⟨a, ha, haddress⟩ := hfront.followed before l middle hplace hlocal
      exact ⟨a, List.mem_head?_append_of_mem_head? ha, haddress⟩
    · exact hrest.followed middle l after hplace hlocal
  · rcases append_eq_place heq with ⟨middle, hplace, rfl⟩ | ⟨middle, rfl, hplace⟩
    · exact hfront.preceded before a middle hplace haddress
    · obtain ⟨l, hl, hlocal⟩ := hrest.preceded middle a after hplace haddress
      exact ⟨l, List.mem_getLast?_append_of_mem_getLast? hl, hlocal⟩

theorem alternating_singleton {e : Entry} (hlocal : e.name ≠ KeyParam.localKey.name)
    (haddress : e.name ≠ addressParam) : Alternating [e] := by
  refine ⟨fun before l after heq hl => ?_, fun before a after heq ha => ?_⟩
  · obtain ⟨rfl, rfl, rfl⟩ : before = [] ∧ l = e ∧ after = [] := by
      simpa [List.cons_eq_append_iff, and_assoc] using heq
    exact absurd hl hlocal
  · obtain ⟨rfl, rfl, rfl⟩ : before = [] ∧ a = e ∧ after = [] := by
      simpa [List.cons_eq_append_iff, and_assoc] using heq
    exact absurd ha haddress

theorem alternating_pair (hlocal : l.name = KeyParam.localKey.name)
    (haddress : a.name = addressParam) : Alternating [l, a] := by
  have hplaces : ∀ before e after, [l, a] = before ++ e :: after →
      before = [] ∧ e = l ∧ after = [a] ∨ before = [l] ∧ e = a ∧ after = [] := by
    intro before e after heq
    rcases before with _ | ⟨b, _ | ⟨c, before⟩⟩ <;> simp_all
  refine ⟨fun before e after heq he => ?_, fun before e after heq he => ?_⟩
  · rcases hplaces before e after heq with ⟨rfl, rfl, rfl⟩ | ⟨rfl, rfl, rfl⟩
    · exact ⟨a, rfl, haddress⟩
    · exact absurd he (name_ne_localKey_of_address haddress)
  · rcases hplaces before e after heq with ⟨rfl, rfl, rfl⟩ | ⟨rfl, rfl, rfl⟩
    · exact absurd hlocal (name_ne_localKey_of_address he)
    · exact ⟨l, rfl, hlocal⟩

theorem Paired.alternating {entries : List Entry} (h : Paired entries) : Alternating entries := by
  induction h with
  | nil => exact ⟨fun front l rest heq => by simp at heq, fun front a rest heq => by simp at heq⟩
  | other hlocal haddress _ ih => exact (alternating_singleton hlocal haddress).append ih
  | pair hlocal haddress _ ih => exact (alternating_pair hlocal haddress).append ih

/-- A query is paired exactly when each place of it is. -/
theorem paired_iff_alternating {entries : List Entry} : Paired entries ↔ Alternating entries :=
  ⟨Paired.alternating, Alternating.paired⟩

/-! ## Counts -/

theorem countOf_cons_of_eq {name : String} (h : e.name = name) :
    countOf name (e :: rest) = countOf name rest + 1 :=
  List.countP_cons_of_pos (decide_eq_true h)

theorem countOf_cons_of_ne {name : String} (h : e.name ≠ name) :
    countOf name (e :: rest) = countOf name rest :=
  List.countP_cons_of_neg (by simpa using h)

theorem countOf_concat_of_ne {name : String} {front : List Entry} (h : e.name ≠ name) :
    countOf name (front ++ [e]) = countOf name front := by
  rw [countOf, List.countP_append, ← countOf, ← countOf, countOf_cons_of_ne h]
  rfl

/-- There is one value for each entry with the name. -/
theorem length_valuesOf (name : String) (entries : List Entry) :
    (valuesOf name entries).length = countOf name entries := by
  rw [valuesOf, List.length_map, countOf, List.countP_eq_length_filter]

/-! ## The scan after local entries -/

/-- What the scan after local entries meets, and the address entries that it finds. -/
inductive Scan : List Entry → List Entry → Prop
  /-- there is nothing left -/
  | nil : Scan [] []
  /-- an entry that is not local is passed over -/
  | skip {e : Entry} {rest found : List Entry} (hlocal : e.name ≠ KeyParam.localKey.name)
      (h : Scan rest found) : Scan (e :: rest) found
  /-- a local entry and the address after it are taken together -/
  | take {l a : Entry} {rest found : List Entry} (hlocal : l.name = KeyParam.localKey.name)
      (haddress : a.name = addressParam) (h : Scan rest found) : Scan (l :: a :: rest) (a :: found)
  /-- a local entry without an address ends the scan -/
  | stop {l : Entry} {rest : List Entry} (hlocal : l.name = KeyParam.localKey.name)
      (hnext : ∀ a ∈ rest.head?, a.name ≠ addressParam) : Scan (l :: rest) []

theorem exists_scan : ∀ entries : List Entry, ∃ found, Scan entries found
  | [] => ⟨[], .nil⟩
  | [e] => by
    by_cases hlocal : e.name = KeyParam.localKey.name
    · exact ⟨[], .stop hlocal (by simp)⟩
    · exact ⟨[], .skip hlocal .nil⟩
  | e :: next :: rest => by
    by_cases hlocal : e.name = KeyParam.localKey.name
    · by_cases haddress : next.name = addressParam
      · obtain ⟨found, h⟩ := exists_scan rest
        exact ⟨next :: found, .take hlocal haddress h⟩
      · exact ⟨[], .stop hlocal (by simpa using haddress)⟩
    · obtain ⟨found, h⟩ := exists_scan (next :: rest)
      exact ⟨found, .skip hlocal h⟩

namespace Scan

variable {found : List Entry}

/-- The scan reads what it finds. -/
theorem addressesAfterLocals_eq (h : Scan entries found) :
    addressesAfterLocals entries = found.mapM fun a => readAddress a.valueText := by
  induction h with
  | nil => rfl
  | skip hlocal _ ih => rw [addressesAfterLocals_cons_of_ne hlocal, ih]
  | @take l a rest found hlocal haddress _ ih =>
    rw [addressesAfterLocals, if_pos hlocal, List.mapM_cons]
    simp only [haddress, if_true]
    rw [addressesAfterLocals_cons_of_ne (name_ne_localKey_of_address haddress), ih]
  | @stop l rest hlocal hnext =>
    rcases rest with _ | ⟨next, rest⟩
    · rw [addressesAfterLocals, if_pos hlocal]
      rfl
    · rw [addressesAfterLocals, if_pos hlocal]
      simp only [if_neg (hnext next rfl)]
      rfl

/-- What the scan finds are address entries, each in a place of its own. -/
theorem sublist (h : Scan entries found) :
    found.Sublist (entries.filter fun e => e.name = addressParam) := by
  induction h with
  | nil => exact List.Sublist.refl _
  | skip _ _ ih => exact ih.trans ((List.sublist_cons_self _ _).filter _)
  | @take l a rest found hlocal haddress _ ih =>
    refine List.Sublist.trans ?_ ((List.sublist_cons_self _ _).filter _)
    simpa [haddress] using ih
  | stop => exact List.nil_sublist _

theorem length_le (h : Scan entries found) : found.length ≤ countOf addressParam entries := by
  rw [countOf, List.countP_eq_length_filter]
  exact h.sublist.length_le

/-- The scan fails nowhere when all addresses can be read. -/
theorem exists_addresses (h : Scan entries found) {addresses : List Address}
    (hread : readAddresses entries = .ok addresses) :
    ∃ paired, addressesAfterLocals entries = .ok paired ∧ paired.length = found.length := by
  have hfound : ∀ a ∈ found, ∃ address, readAddress a.valueText = .ok address := by
    intro a ha
    obtain ⟨hmem, hname⟩ := List.mem_filter.1 (h.sublist.subset ha)
    have hvalue : a.valueText ∈ valuesOf addressParam entries :=
      mem_valuesOf.2 ⟨a, hmem, of_decide_eq_true hname, rfl⟩
    obtain ⟨address, -, haddress⟩ := exists_mem_of_mem_mapM_eq_ok hread hvalue
    exact ⟨address, haddress⟩
  obtain ⟨paired, hpaired⟩ := exists_mapM_eq_ok hfound
  refine ⟨paired, h.addressesAfterLocals_eq.trans hpaired, ?_⟩
  exact (mapM_eq_ok_iff.1 hpaired).length_eq.symm

/-- A scan that finds an address for every local entry, and every address, has met a paired
query. -/
theorem paired (h : Scan entries found)
    (hlocals : found.length = countOf KeyParam.localKey.name entries)
    (haddresses : found.length = countOf addressParam entries) : Paired entries := by
  induction h with
  | nil => exact .nil
  | @skip e rest found hlocal h ih =>
    rw [countOf_cons_of_ne hlocal] at hlocals
    by_cases haddress : e.name = addressParam
    · -- the address that is passed over is one too many
      have hle := h.length_le
      rw [countOf_cons_of_eq haddress] at haddresses
      omega
    · rw [countOf_cons_of_ne haddress] at haddresses
      exact .other hlocal haddress (ih hlocals haddresses)
  | @take l a rest found hlocal haddress _ ih =>
    have hl : l.name ≠ addressParam := hlocal ▸ addressParam_ne_localKey.symm
    rw [countOf_cons_of_eq hlocal, countOf_cons_of_ne (name_ne_localKey_of_address haddress),
      List.length_cons] at hlocals
    rw [countOf_cons_of_ne hl, countOf_cons_of_eq haddress, List.length_cons] at haddresses
    exact .pair hlocal haddress (ih (Nat.succ.inj hlocals) (Nat.succ.inj haddresses))
  | @stop l rest hlocal =>
    rw [countOf_cons_of_eq hlocal] at hlocals
    cases hlocals

end Scan

/-! ## The n-th pair -/

/-- The value of an entry stands behind those of the entries with its name in front of it. -/
theorem getElem?_valuesOf_append {name : String} {front : List Entry} (h : e.name = name) :
    (valuesOf name (front ++ e :: rest))[countOf name front]? = some e.valueText := by
  rw [valuesOf_append, ← length_valuesOf, List.getElem?_append_right (Nat.le_refl _), Nat.sub_self,
    valuesOf_cons_of_eq h]
  rfl

/-- In front of a local entry, a paired query is paired by itself. -/
theorem Paired.front {front : List Entry} (h : Paired (front ++ l :: rest))
    (hl : l.name = KeyParam.localKey.name) : Paired front := by
  generalize hentries : front ++ l :: rest = entries at h
  induction h generalizing front with
  | nil => simp at hentries
  | other hlocal haddress _ ih =>
    rcases front with _ | ⟨e, front⟩
    · exact .nil
    · obtain ⟨rfl, htail⟩ := List.cons_eq_cons.1 hentries
      exact .other hlocal haddress (ih htail)
  | pair hlocal haddress _ ih =>
    rcases front with _ | ⟨k, _ | ⟨b, front⟩⟩
    · exact .nil
    · -- the place of an address is none of a local entry
      obtain ⟨-, htail⟩ := List.cons_eq_cons.1 hentries
      obtain ⟨rfl, -⟩ := List.cons_eq_cons.1 htail
      exact absurd hl (name_ne_localKey_of_address haddress)
    · obtain ⟨rfl, htail⟩ := List.cons_eq_cons.1 hentries
      obtain ⟨rfl, hrest⟩ := List.cons_eq_cons.1 htail
      exact .pair hlocal haddress (ih hrest)

/-- As many addresses as local entries stand in front of a local entry of a paired query. -/
theorem countOf_addressParam_front {front : List Entry} (h : Paired (front ++ l :: rest))
    (hl : l.name = KeyParam.localKey.name) :
    countOf addressParam front = countOf KeyParam.localKey.name front := by
  rw [← length_valuesOf, ← length_valuesOf, length_valuesOf_of_paired (h.front hl)]

end LedgerUri.Uri
