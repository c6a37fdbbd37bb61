import LedgerUri.Proofs.Token.FieldSet
import LedgerUri.Proofs.Uri.Invariance
import Mathlib.Logic.Relation

/-!
# Entries in another order

An application's entries are collected name by name, so it does not matter how the names alternate,
and entries under other names do not matter at all. Only strict pairing looks at places, and it
wants no more than an address right after every local entry. A token's entries are not even
counted: a field is asked for when its key occurs.

* `Piece` — a piece of a query together with the entry that it spells;
* `Rearranged`, `KeepsTogether` — other orders of an application's pieces, with more of them;
* `TokenEdit` — one change to a token's pieces;
* `sameValues_of_rearranged`, `SameValues.paired_of_keepsTogether` — what does not change in an
  application;
* `TokenEdit.mentions_eq`, `readToken_of_edits` — one change to a token, and a run of them;
* `parse_rearranged` — the URIs are read alike.
-/

namespace LedgerUri.Uri

/-- A piece of a query and the entry that it spells. -/
structure Piece where
  /-- the text of the piece -/
  raw : List Char
  /-- the entry -/
  entry : Entry
  /-- pieces are not empty -/
  ne : raw ≠ []
  /-- there is no separator in it -/
  whole : ∀ c ∈ raw, isSeparator c = false
  /-- the text spells the entry -/
  spells : SpellsEntry raw entry

/-- The parameters of applications whose entries have an order. -/
def orderedParams : List String :=
  [KeyParam.boxKey.name, KeyParam.globalKey.name, KeyParam.localKey.name, addressParam]

/-- The pieces in another order and with further ones between them. Pieces under one ordered
parameter stay in order, and the further ones are under names that applications do not know. -/
structure Rearranged (pieces others : List Piece) : Prop where
  /-- no piece is lost, and further ones are foreign -/
  perm : ∃ extra, others.Perm (pieces ++ extra) ∧
    ∀ x ∈ extra, x.entry.name ∉ orderedParams ∧ x.entry.name ≠ programParam
  /-- under one parameter the order is kept -/
  order : ∀ name ∈ orderedParams, others.filter (fun x => x.entry.name = name) =
    pieces.filter fun x => x.entry.name = name

/-- An address stands right after every local entry. Where strict pairing has accepted the entries
in one order, it is what another order keeps that separates none of them from its address. -/
def KeepsTogether (entries : List Entry) : Prop :=
  ∀ front l rest, entries = front ++ l :: rest → l.name = KeyParam.localKey.name →
    ∃ a ∈ rest.head?, a.name = addressParam

/-- A change to the pieces of a token's query. -/
inductive TokenEdit : List Piece → List Piece → Prop
  /-- the pieces are put in another order -/
  | permute {pieces others : List Piece} (h : others.Perm pieces) : TokenEdit pieces others
  /-- a piece is written once more -/
  | duplicate {piece : Piece} {pieces : List Piece} (h : piece ∈ pieces) :
      TokenEdit pieces (piece :: pieces)
  /-- an entry gets another value, or a first one, or loses its value -/
  | revalue {piece other : Piece} {front rest : List Piece}
      (hname : other.entry.name = piece.entry.name) :
      TokenEdit (front ++ piece :: rest) (front ++ other :: rest)
  /-- an entry is added that asks for no field -/
  | insert {piece : Piece} {pieces : List Piece}
      (hforeign : ∀ f : TokenField, piece.entry.name ≠ f.key) : TokenEdit pieces (piece :: pieces)

variable {pieces others : List Piece} {raws : List (List Char)} {entries : List Entry}
  {digits : List Char} {kind : ResourceKind}

/-! ## Pieces of a URI -/

theorem exists_pieces (hwhole : ∀ raw ∈ raws, raw ≠ [] ∧ ∀ c ∈ raw, isSeparator c = false)
    (h : List.Forall₂ SpellsEntry raws entries) :
    ∃ pieces : List Piece, pieces.map Piece.raw = raws ∧ pieces.map Piece.entry = entries := by
  induction h with
  | nil => exact ⟨[], rfl, rfl⟩
  | cons he _ ih =>
    obtain ⟨⟨hne, hraw⟩, hraws⟩ := List.forall_mem_cons.1 hwhole
    obtain ⟨pieces, rfl, rfl⟩ := ih hraws
    exact ⟨⟨_, _, hne, hraw, he⟩ :: pieces, rfl, rfl⟩

theorem forall₂_spellsEntry (pieces : List Piece) :
    List.Forall₂ SpellsEntry (pieces.map Piece.raw) (pieces.map Piece.entry) := by
  rw [List.forall₂_map_left_iff, List.forall₂_map_right_iff, List.forall₂_same]
  exact fun x _ => x.spells

/-- Joined pieces spell their entries. -/
theorem hasEntries_ofPieces (hne : digits ≠ []) (hdigits : ∀ c ∈ digits, c.isDigit = true)
    (pieces : List Piece) :
    HasEntries (ofPieces kind digits (pieces.map Piece.raw)) (pieces.map Piece.entry) := by
  apply ((located_ofPieces hne hdigits).hasEntries_iff_of_pieces _).2 (forall₂_spellsEntry pieces)
  exact List.forall_mem_map.2 fun x _ => ⟨x.ne, x.whole⟩

theorem mentions_map_entry_iff {name : String} :
    mentions name (pieces.map Piece.entry) = true ↔ ∃ x ∈ pieces, x.entry.name = name := by
  rw [mentions_eq_true_iff]
  simp

/-! ## Applications -/

theorem valuesOf_map_entry (name : String) (pieces : List Piece) :
    valuesOf name (pieces.map Piece.entry) =
      (pieces.filter fun x => x.entry.name = name).map fun x => x.entry.valueText := by
  rw [valuesOf, List.filter_map, List.map_map]
  rfl

theorem name_mem_orderedParams (p : KeyParam) : p.name ∈ orderedParams := by
  cases p <;> decide

/-- The same is taken from pieces in another order. -/
theorem sameValues_of_rearranged (h : Rearranged pieces others) :
    SameValues (pieces.map Piece.entry) (others.map Piece.entry) := by
  have hvalues : ∀ name ∈ orderedParams, valuesOf name (others.map Piece.entry) =
      valuesOf name (pieces.map Piece.entry) := by
    intro name hname
    rw [valuesOf_map_entry, valuesOf_map_entry, h.order name hname]
  refine ⟨?_, hvalues addressParam (by decide), ?_⟩
  · intro p
    rw [keysOf, keysOf, hvalues p.name (name_mem_orderedParams p)]
  · obtain ⟨extra, hperm, hforeign⟩ := h.perm
    rw [Bool.eq_iff_iff, mentions_map_entry_iff, mentions_map_entry_iff]
    refine ⟨?_, ?_⟩
    · rintro ⟨x, hx, hname⟩
      rcases List.mem_append.1 (hperm.mem_iff.1 hx) with hx | hx
      · exact ⟨x, hx, hname⟩
      · exact absurd hname (hforeign x hx).2
    · rintro ⟨x, hx, hname⟩
      exact ⟨x, hperm.mem_iff.2 (List.mem_append_left extra hx), hname⟩

theorem KeepsTogether.tail {e : Entry} (h : KeepsTogether (e :: entries)) :
    KeepsTogether entries := by
  intro front l rest heq hlocal
  apply h (e :: front) l rest _ hlocal
  rw [heq, List.cons_append]

/-- Where nothing is separated, the scan finds an address for every local entry. -/
theorem Scan.length_eq_of_keepsTogether {found : List Entry} (hscan : Scan entries found)
    (h : KeepsTogether entries) : found.length = countOf KeyParam.localKey.name entries := by
  induction hscan with
  | nil => rfl
  | skip hlocal _ ih => rw [countOf_cons_of_ne hlocal, ih h.tail]
  | take hlocal haddress _ ih =>
    rw [countOf_cons_of_eq hlocal, countOf_cons_of_ne (name_ne_localKey_of_address haddress),
      List.length_cons, ih h.tail.tail]
  | stop hlocal hnext =>
    obtain ⟨a, ha, haddress⟩ := h [] _ _ rfl hlocal
    exact absurd haddress (hnext a ha)

/-- Paired entries stay paired in any order in which nothing is separated. -/
theorem SameValues.paired_of_keepsTogether {rest : List Entry} (h : SameValues entries rest)
    (hpaired : Paired entries) (htogether : KeepsTogether rest) : Paired rest := by
  obtain ⟨found, hscan⟩ := exists_scan rest
  have hlocals := hscan.length_eq_of_keepsTogether htogether
  refine hscan.paired hlocals ?_
  calc found.length
      = (keysOf .localKey rest).length := by rw [length_keysOf]; exact hlocals
    _ = (valuesOf KeyParam.localKey.name entries).length := by
        rw [h.keys .localKey, keysOf, List.length_map]
    _ = (valuesOf addressParam entries).length := length_valuesOf_of_paired hpaired
    _ = countOf addressParam rest := by rw [← h.addresses, length_valuesOf]

/-! ## Tokens -/

/-- One change to the pieces of a token changes none of the fields that occur. -/
theorem TokenEdit.mentions_eq (h : TokenEdit pieces others) (f : TokenField) :
    mentions f.key (others.map Piece.entry) = mentions f.key (pieces.map Piece.entry) := by
  rw [Bool.eq_iff_iff, mentions_map_entry_iff, mentions_map_entry_iff]
  cases h with
  | permute h => simp only [h.mem_iff]
  | duplicate h =>
    rw [List.exists_mem_cons_iff, or_iff_right_of_imp]
    exact fun hname => ⟨_, h, hname⟩
  | revalue hname => simp only [List.mem_append, List.mem_cons, or_and_right, exists_or,
      exists_eq_left, hname]
  | insert hforeign => rw [List.exists_mem_cons_iff, or_iff_right (hforeign f)]

theorem readToken_congr {rest : List Entry}
    (h : ∀ f : TokenField, mentions f.key rest = mentions f.key entries) :
    readToken rest = readToken entries := by
  simp only [readToken, h]

/-- Nor does a run of changes. -/
theorem readToken_of_edits (h : Relation.ReflTransGen TokenEdit pieces others) :
    readToken (others.map Piece.entry) = readToken (pieces.map Piece.entry) := by
  induction h with
  | refl => rfl
  | tail _ hedit ih => rw [readToken_congr hedit.mentions_eq, ih]

/-! ## URIs -/

variable {uri query other : List Char} {id : ResourceId} {pairing : Pairing} {request : Request}

/-- Every piece of a query that was read spells an entry. -/
theorem exists_pieces_of_read (hdigits : ∀ c ∈ digits, c.isDigit = true)
    (huri : uri = stem kind ++ (digits ++ '?' :: query))
    (hfirst : kind = .token → ¬ ResourceKind.application.marker.toList <:+: uri)
    (h : read pairing uri = .ok (id, request)) :
    ∃ pieces : List Piece, pieces.map Piece.raw = queryPieces query := by
  obtain ⟨hlocated, -, entries, hentries, -⟩ := exists_located_of_read huri hdigits
    (eq_of_mem_head?_query _) hfirst h
  rw [hlocated.queryPart_eq] at hentries
  have hwhole : ∀ raw ∈ queryPieces query, raw ≠ [] ∧ ∀ c ∈ raw, isSeparator c = false := by
    intro raw hraw
    rw [← pieces_eq_queryPieces] at hraw
    exact Text.whole_of_mem_pieces hraw
  obtain ⟨pieces, hpieces, -⟩ := exists_pieces hwhole (readEntries_eq_ok_iff.1 hentries)
  exact ⟨pieces, hpieces⟩

/-- A URI of an application is read like the one with its pieces rearranged. -/
theorem read_rearranged (hdigits : ∀ c ∈ digits, c.isDigit = true)
    (h : read pairing (ofPieces .application digits (pieces.map Piece.raw)) = .ok (id, request))
    (hrearranged : Rearranged pieces others)
    (htogether : pairing = .strict → KeepsTogether (others.map Piece.entry)) :
    read pairing (ofPieces .application digits (others.map Piece.raw)) = .ok (id, request) := by
  obtain ⟨hlocated, -⟩ := exists_located_of_read rfl hdigits (eq_of_mem_head?_query _)
    (by rintro ⟨⟩) h
  have hsame := sameValues_of_rearranged hrearranged
  exact read_of_sameValues hlocated (located_ofPieces hlocated.ne hdigits)
    (hasEntries_ofPieces hlocated.ne hdigits pieces)
    (hasEntries_ofPieces hlocated.ne hdigits others) hsame
    (fun hstrict hpaired => hsame.paired_of_keepsTogether hpaired (htogether hstrict)) h

/-- A URI of a token is read like the one with its pieces edited, unless that names an
application. -/
theorem read_edited (hdigits : ∀ c ∈ digits, c.isDigit = true)
    (huri : uri = stem .token ++ (digits ++ '?' :: query))
    (hfirst : ¬ ResourceKind.application.marker.toList <:+: uri)
    (hpieces : pieces.map Piece.raw = queryPieces query)
    (h : read pairing uri = .ok (id, request))
    (hedits : Relation.ReflTransGen TokenEdit pieces others)
    (hother : ¬ ResourceKind.application.marker.toList <:+:
      ofPieces .token digits (others.map Piece.raw)) :
    read pairing (ofPieces .token digits (others.map Piece.raw)) = .ok (id, request) := by
  obtain ⟨hlocated, hid, entries, hentries, hrequest⟩ := exists_located_of_read huri hdigits
    (eq_of_mem_head?_query _) (fun _ => hfirst) h
  have hspelled : HasEntries uri (pieces.map Piece.entry) :=
    ⟨query, hasQuery_iff.2 hlocated.queryPart_eq, hpieces ▸ forall₂_spellsEntry pieces⟩
  obtain rfl := hspelled.unique (hasEntries_iff.2 hentries)
  have hothers : HasEntries (ofPieces .token digits (others.map Piece.raw))
      (others.map Piece.entry) := hasEntries_ofPieces hlocated.ne hdigits others
  have hsame : readRequest .token pairing (others.map Piece.entry) = .ok request := by
    rw [← hrequest, readRequest, readRequest, readToken_of_edits hedits]
  rw [(located_ofPieces hlocated.ne hdigits).read_eq (fun _ => hother) hid
    (hasEntries_iff.1 hothers), hsame]
  rfl

/-- **Only what should count does.** In a URI of an application, pieces can be put in another order
and foreign ones added, as long as those under one parameter stay in order; strict pairing also
wants an address right after every local entry. In a URI of a token, pieces can be put in any order,
written more than once, given other values, and foreign ones added, as long as no application is
named. The outcome is the same. -/
theorem parse_rearranged :
    (∀ (digits : List Char) (raws : List (List Char)) (pairing : Pairing) (u : String) (q : Query),
      (∀ c ∈ digits, c.isDigit = true) →
      (∀ raw ∈ raws, raw ≠ [] ∧ ∀ c ∈ raw, isSeparator c = false) →
      u.toList = ofPieces .application digits raws → Query.parse pairing u = .ok q →
      (∃ pieces : List Piece, pieces.map Piece.raw = raws) ∧
        ∀ (pieces others : List Piece) (v : String), pieces.map Piece.raw = raws →
          Rearranged pieces others →
          (pairing = .strict → KeepsTogether (others.map Piece.entry)) →
          v.toList = ofPieces .application digits (others.map Piece.raw) →
          Query.parse pairing v = .ok { q with text := v }) ∧
    ∀ (digits query : List Char) (pairing : Pairing) (u : String) (q : Query),
      (∀ c ∈ digits, c.isDigit = true) →
      u.toList = stem .token ++ (digits ++ '?' :: query) →
      ¬ ResourceKind.application.marker.toList <:+: u.toList → Query.parse pairing u = .ok q →
      (∃ pieces : List Piece, pieces.map Piece.raw = queryPieces query) ∧
        ∀ (pieces others : List Piece) (v : String), pieces.map Piece.raw = queryPieces query →
          Relation.ReflTransGen TokenEdit pieces others →
          v.toList = ofPieces .token digits (others.map Piece.raw) →
          ¬ ResourceKind.application.marker.toList <:+: v.toList →
          Query.parse pairing v = .ok { q with text := v } := by
  refine ⟨?_, ?_⟩
  · intro digits raws pairing u q hdigits hwhole hu h
    obtain ⟨hread, -⟩ := Query.parse_eq_ok_iff.1 h
    refine ⟨?_, ?_⟩
    · rw [← queryPieces_intercalate hwhole]
      exact exists_pieces_of_read hdigits hu (by rintro ⟨⟩) hread
    · rintro pieces others v rfl hrearranged htogether hv
      apply parse_eq_ok_of_read h
      intro id request hid
      rw [hu] at hid
      rw [hv]
      exact read_rearranged hdigits hid hrearranged htogether
  · intro digits query pairing u q hdigits hu hfirst h
    obtain ⟨hread, -⟩ := Query.parse_eq_ok_iff.1 h
    refine ⟨exists_pieces_of_read hdigits hu (fun _ => hfirst) hread, ?_⟩
    intro pieces others v hpieces hedits hv hother
    apply parse_eq_ok_of_read h
    intro id request hid
    rw [hv] at hother ⊢
    exact read_edited hdigits hu hfirst hpieces hid hedits hother

/-! ## A reordered and an edited URI -/

/-- The piece that is written for an entry. -/
def Piece.ofEntry (e : Entry) (h : e.Plain) : Piece :=
  ⟨e.write, e, write_ne_nil h, fun _ hc => isSeparator_of_mem_write h hc,
    readEntry_eq_ok_iff.1 (readEntry_write h)⟩

/-- The piece that asks for a key. -/
def Piece.key (p : KeyParam) (key : String) (h : IsKey key) : Piece :=
  .ofEntry (keyEntry p key) (plain_keyEntry h)

/-- A bare piece. -/
def Piece.bare (name : String) (hne : name.toList ≠ []) (hname : Plain name) : Piece :=
  .ofEntry ⟨name, none⟩ (plain_bareEntry hne hname)

def boxPiece : Piece := .key .boxKey "YQ" rfl

def localPiece : Piece := .key .localKey "Yg" rfl

def addressPiece : Piece :=
  .ofEntry ⟨addressParam, some Address.allA.text⟩ (plain_addressEntry .allA)

def totalPiece : Piece := .bare "total" (by decide) (by decide)

def urlPiece : Piece :=
  .ofEntry ⟨"url", some "1"⟩ (plain_valueEntry (by decide) (by decide) (by decide))

def bareUrlPiece : Piece := .bare "url" (by decide) (by decide)

/-- A piece that neither an application nor a token knows. -/
def foreignPiece : Piece := .bare "x" (by decide) (by decide)

theorem rearranged_boxPiece : Rearranged [boxPiece, localPiece, addressPiece]
    [localPiece, addressPiece, foreignPiece, boxPiece] := by
  refine ⟨⟨[foreignPiece], ?_, by decide⟩, ?_⟩
  · have hperm : ([localPiece, addressPiece, foreignPiece] ++ [boxPiece]).Perm
        ([boxPiece] ++ [localPiece, addressPiece, foreignPiece]) := List.perm_append_comm
    exact hperm
  · intro name hname
    simp only [orderedParams, List.mem_cons, List.not_mem_nil, or_false] at hname
    rcases hname with rfl | rfl | rfl | rfl <;> rfl

theorem edits_urlPiece : Relation.ReflTransGen TokenEdit [totalPiece, urlPiece]
    [foreignPiece, bareUrlPiece, totalPiece, totalPiece] := by
  have hvalue : TokenEdit ([totalPiece] ++ urlPiece :: []) ([totalPiece] ++ bareUrlPiece :: []) :=
    .revalue rfl
  have htwice : TokenEdit [totalPiece, bareUrlPiece] [totalPiece, totalPiece, bareUrlPiece] :=
    .duplicate List.mem_cons_self
  have hperm : ([bareUrlPiece] ++ [totalPiece, totalPiece]).Perm
      ([totalPiece, totalPiece] ++ [bareUrlPiece]) := List.perm_append_comm
  have hmore : TokenEdit [bareUrlPiece, totalPiece, totalPiece]
      [foreignPiece, bareUrlPiece, totalPiece, totalPiece] :=
    .insert fun f => by cases f <;> decide
  exact (((Relation.ReflTransGen.single hvalue).tail htwice).tail (.permute hperm)).tail hmore

/-- A box, a local key and its address. -/
def boxAndLocal : ApplicationRequest :=
  ⟨["YQ"], [], [⟨"Yg", .allA⟩], false⟩

/-- The request as it is written, with the box first. -/
def orderedSpelling : String :=
  write .application ⟨7⟩ (Request.application boxAndLocal).entries

/-- The same with the box behind the address, and a foreign entry between them. -/
def shuffledSpelling : String :=
  "algorand://app/7?local=Yg&algorandaddress=" ++ Address.allA.text ++ "&x&box=YQ"

/-- An application with its entries in another order, and a token with other entries. -/
theorem parse_shuffledSpelling :
    Query.parse .strict shuffledSpelling =
        .ok ⟨⟨7⟩, .application boxAndLocal, shuffledSpelling⟩ ∧
      Query.parse .strict "algorand://asset/7?x&url&total&total" =
        .ok ⟨⟨7⟩, .token (TokenFieldSet.ofList [.total, .url]),
          "algorand://asset/7?x&url&total&total"⟩ := by
  have hdigits : ∀ c ∈ "7".toList, c.isDigit = true := List.all_eq_true.1 rfl
  obtain ⟨happlication, htoken⟩ := parse_rearranged
  refine ⟨?_, ?_⟩
  · have hwritable : (Request.application boxAndLocal).Writable :=
      ⟨List.forall_mem_singleton.2 rfl, List.forall_mem_nil _, List.forall_mem_singleton.2 rfl⟩
    obtain ⟨hread, -⟩ := parse_write hwritable ⟨7⟩
    have hpaired : Paired [localPiece.entry, addressPiece.entry, foreignPiece.entry,
        boxPiece.entry] :=
      .pair rfl rfl (.other (by decide) (by decide) (.other (by decide) (by decide) .nil))
    obtain ⟨-, hall⟩ := happlication "7".toList
      ([boxPiece, localPiece, addressPiece].map Piece.raw) .strict orderedSpelling _ hdigits
      (List.forall_mem_map.2 fun x _ => ⟨x.ne, x.whole⟩) (by decide +kernel) hread
    exact hall _ _ shuffledSpelling rfl rearranged_boxPiece (fun _ => hpaired.alternating.followed)
      (by decide +kernel)
  · have hread : Query.parse .strict "algorand://asset/7?total&?url=1" =
        .ok ⟨⟨7⟩, .token (TokenFieldSet.ofList [.total, .url]),
          "algorand://asset/7?total&?url=1"⟩ := rfl
    obtain ⟨-, hall⟩ := htoken "7".toList "total&?url=1".toList .strict _ _ hdigits (by decide)
      (by decide) hread
    exact hall _ _ _ (by decide) edits_urlPiece (by decide) (by decide)

end LedgerUri.Uri
