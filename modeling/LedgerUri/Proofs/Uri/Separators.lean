import LedgerUri.Proofs.Text.Respacing
import LedgerUri.Proofs.Uri.Outline
import LedgerUri.Uri.Grammar

/-!
# Separators are interchangeable

Both `&` and `?` separate the entries of a query, and a run of them separates like one. So a URI can
be written with other runs of separators, and with more of them at either end of the query, and
nothing changes: not what it is read as, not how reading it fails, and not what the grammar says.
This holds of every URI with the scheme and a query. Even a resource that is named inside the query
is found, since neither its marker nor its id has a separator in it.

* `Reseparates` — a URI and the same with other separators in its query;
* `Reseparates.read_eq`, `Reseparates.checkUri_eq` — reading and checking do not tell them apart;
* `parse_of_reseparates` — what that says of texts.
-/

namespace LedgerUri.Uri

/-- The second URI is the first with other runs of separators in its query, and with any separators
added at the start and the end of the query. -/
inductive Reseparates : List Char → List Char → Prop
  | intro {path front query other back : List Char} (hpath : '?' ∉ path)
      (hfront : Text.IsRun isSeparator front) (hback : Text.IsRun isSeparator back)
      (h : Text.Respaced isSeparator back query other) :
      Reseparates (path ++ '?' :: query) (path ++ '?' :: (front ++ other))

variable {uri other back path query : List Char} {pairing : Pairing}

/-! ## Reading -/

theorem isSeparator_eq_false_of_any {text : List Char} (h : text.any isSeparator = false) :
    ∀ c ∈ text, isSeparator c = false :=
  fun c hc => Bool.eq_false_iff.2 (List.any_eq_false.1 h c hc)

theorem foundScheme?_of_prefix (h : schemeStart.toList <+: uri) :
    foundScheme? uri = some scheme := by
  obtain ⟨rest, rfl⟩ := h
  rfl

namespace Reseparates

/-- The whole URI is respaced. -/
theorem exists_respaced (h : Reseparates uri other) :
    ∃ back, Text.IsRun isSeparator back ∧ Text.Respaced isSeparator back uri other := by
  obtain ⟨-, hfront, hback, hquery⟩ := h
  refine ⟨_, hback, Text.Respaced.append ?_ _⟩
  have hmark : Text.IsRun isSeparator ['?'] := List.forall_mem_singleton.2 rfl
  have hplace : Text.IsRun isSeparator ('?' :: _) := List.forall_mem_cons.2 ⟨rfl, hfront⟩
  exact .run hmark hplace (List.cons_ne_nil _ _) (List.cons_ne_nil _ _) hquery

/-- The entries are read alike. -/
theorem readEntries_eq (h : Reseparates uri other) :
    readEntries (queryPart uri) = readEntries (queryPart other) := by
  obtain ⟨hpath, hfront, hback, hquery⟩ := h
  rw [queryPart, queryPart, Text.cutFirst?_append hpath, Text.cutFirst?_append hpath]
  rw [readEntries, readEntries, Text.pieces_run_append hfront, hquery.pieces_eq hback]

theorem prefix_of_prefix (h : Reseparates uri other) (hscheme : schemeStart.toList <+: uri) :
    schemeStart.toList <+: other := by
  obtain ⟨back, hback, hrespaced⟩ := h.exists_respaced
  obtain ⟨rest, rfl⟩ := hscheme
  have hfound : Option.Rel (Text.Respaced isSeparator back)
      (Text.after? schemeStart.toList (schemeStart.toList ++ rest))
      (Text.after? schemeStart.toList other) :=
    hrespaced.after?_rel (isSeparator_eq_false_of_any rfl) hback
  rw [Text.after?_append] at hfound
  rcases hother : Text.after? schemeStart.toList other with _ | rest'
  · rw [hother] at hfound
    cases hfound
  · exact ⟨rest', (Text.after?_eq_some_iff.1 hother).symm⟩

/-- The same resource is found, and the id after it is the same. -/
theorem resource?_rel (h : Reseparates uri other) :
    Option.Rel (fun found found' => found.1 = found'.1 ∧ leadingId found.2 = leadingId found'.2)
      (resource? uri) (resource? other) := by
  obtain ⟨back, hback, hrespaced⟩ := h.exists_respaced
  have hid : ∀ {rest rest'}, Text.Respaced isSeparator back rest rest' →
      leadingId rest = leadingId rest' := by
    intro rest rest' hrest
    have hdigits : ∀ c, isSeparator c = true → c.isDigit = false := by
      intro c hc
      rcases of_decide_eq_true hc with rfl | rfl <;> rfl
    rw [leadingId, leadingId, hrest.takeWhile_eq hdigits hback]
  have happ : Option.Rel (Text.Respaced isSeparator back)
      (Text.afterFirst? ResourceKind.application.marker.toList uri)
      (Text.afterFirst? ResourceKind.application.marker.toList other) :=
    hrespaced.afterFirst?_rel (isSeparator_eq_false_of_any rfl) hback
  have htoken : Option.Rel (Text.Respaced isSeparator back)
      (Text.afterFirst? ResourceKind.token.marker.toList uri)
      (Text.afterFirst? ResourceKind.token.marker.toList other) :=
    hrespaced.afterFirst?_rel (isSeparator_eq_false_of_any rfl) hback
  simp only [resource?, ResourceKind.all, List.findSome?]
  generalize Text.afterFirst? ResourceKind.application.marker.toList uri = app,
    Text.afterFirst? ResourceKind.application.marker.toList other = app' at happ ⊢
  generalize Text.afterFirst? ResourceKind.token.marker.toList uri = token,
    Text.afterFirst? ResourceKind.token.marker.toList other = token' at htoken ⊢
  cases happ with
  | some hrest => exact .some ⟨rfl, hid hrest⟩
  | none =>
    cases htoken with
    | some hrest => exact .some ⟨rfl, hid hrest⟩
    | none => exact .none

/-- **Reading does not tell reseparated URIs apart**, also when it fails. -/
theorem read_eq (h : Reseparates uri other) (hscheme : schemeStart.toList <+: uri)
    (pairing : Pairing) : read pairing uri = read pairing other := by
  have hopen : ∀ {text}, schemeStart.toList <+: text → text.isEmpty = false ∧
      ∃ rest, Text.after? schemeStart.toList text = some rest := by
    rintro text ⟨rest, rfl⟩
    exact ⟨rfl, rest, Text.after?_append _ _⟩
  obtain ⟨hne, rest, hrest⟩ := hopen hscheme
  obtain ⟨hne', rest', hrest'⟩ := hopen (h.prefix_of_prefix hscheme)
  rw [read, read, hne, hne', hrest, hrest', h.readEntries_eq]
  have hresource := h.resource?_rel
  generalize resource? uri = found, resource? other = found' at hresource ⊢
  cases hresource with
  | none => rfl
  | @some found found' hsame =>
    obtain ⟨kind, place⟩ := found
    obtain ⟨kind', place'⟩ := found'
    obtain ⟨rfl, hid⟩ := hsame
    simp only at hid
    simp only [hid]
    rfl

/-! ## Checking -/

/-- **The grammar does not tell reseparated URIs apart**, also when it refuses them. -/
theorem checkUri_eq (h : Reseparates uri other) (hscheme : schemeStart.toList <+: uri) :
    Grammar.checkUri uri = Grammar.checkUri other := by
  have hother := h.prefix_of_prefix hscheme
  have hne : uri.isEmpty = false := by
    obtain ⟨rest, rfl⟩ := hscheme
    rfl
  have hne' : other.isEmpty = false := by
    obtain ⟨rest, rfl⟩ := hother
    rfl
  rw [Grammar.checkUri, Grammar.checkUri, hne, hne', foundScheme?_of_prefix hscheme,
    foundScheme?_of_prefix hother]
  have hentries := h.readEntries_eq
  obtain ⟨hpath, -, -, -⟩ := h
  rw [queryPart, queryPart, Text.cutFirst?_append hpath, Text.cutFirst?_append hpath] at hentries
  rw [Text.after?_append_cons (by decide), Text.after?_append_cons (by decide)]
  rcases hrest : Text.after? pathStart.toList _ with _ | rest
  · rfl
  · have hcut : '?' ∉ rest := by
      rw [Text.eq_append_of_after? hrest] at hpath
      exact fun hmem => hpath (List.mem_append_right _ hmem)
    simp only [Option.map_some, Text.cutFirst?_append hcut, Option.getD_some]
    simp only at hentries
    rw [hentries]

end Reseparates

/-! ## Texts -/

/-- **Separators are interchangeable.** A text with the scheme and the same text with other
separators in its query are read with the same outcome, whatever the pairing, and are checked with
the same outcome. Only the text that is kept with the outcome differs. -/
theorem parse_of_reseparates {u v : String} (hscheme : schemeStart.toList <+: u.toList)
    (h : Reseparates u.toList v.toList) :
    (∀ pairing, Query.parse pairing v =
      ((Query.parse pairing u).map fun q => { q with text := v }).mapError
        fun error => { error with input := v }) ∧
    Grammar.check v = (Grammar.check u).mapError fun error => { error with input := v } := by
  refine ⟨?_, ?_⟩
  · intro pairing
    rw [Query.parse, Query.parse, h.read_eq hscheme pairing]
    rcases read pairing v.toList with cause | ⟨id, request⟩ <;> rfl
  · rw [Grammar.check, Grammar.check, h.checkUri_eq hscheme]
    rcases Grammar.checkUri v.toList with cause | ⟨⟩ <;> rfl

/-- A URI that names its resource inside the query. -/
def namedInQuery : String := "algorand:?box=YQ&//app/7&tealcode"

/-- The same with other separators. -/
def namedBetweenRuns : String := "algorand:?&?box=YQ??//app/7&?&tealcode&"

theorem reseparates_namedInQuery :
    Reseparates namedInQuery.toList namedBetweenRuns.toList := by
  have hlast : Text.Respaced isSeparator "&".toList "tealcode".toList "tealcode&".toList :=
    Text.Respaced.nil.append "tealcode".toList
  have hsecond : Text.Respaced isSeparator "&".toList ("&".toList ++ "tealcode".toList)
      ("&?&".toList ++ "tealcode&".toList) :=
    .run (by decide) (by decide) (by decide) (by decide) hlast
  have hmarker := hsecond.append "//app/7".toList
  have hfirst : Text.Respaced isSeparator "&".toList ("&".toList ++ "//app/7&tealcode".toList)
      ("??".toList ++ "//app/7&?&tealcode&".toList) :=
    .run (by decide) (by decide) (by decide) (by decide) hmarker
  have hpath : '?' ∉ "algorand:".toList := by decide
  have hfront : Text.IsRun isSeparator "&?".toList := by decide
  have hback : Text.IsRun isSeparator "&".toList := by decide
  exact .intro hpath hfront hback (hfirst.append "box=YQ".toList)

/-- The marker and the id are found in both, and so is the box; the grammar wants a path in
both. -/
theorem parse_namedBetweenRuns :
    Query.parse .strict namedBetweenRuns =
      .ok ⟨⟨7⟩, .application ⟨["YQ"], [], [], true⟩, namedBetweenRuns⟩ ∧
    Grammar.check namedBetweenRuns = .error ⟨namedBetweenRuns, .foreignScheme (some scheme)⟩ := by
  have hscheme : schemeStart.toList <+: namedInQuery.toList := ⟨_, rfl⟩
  obtain ⟨hparse, hcheck⟩ := parse_of_reseparates hscheme reseparates_namedInQuery
  have hread : Query.parse .strict namedInQuery =
      .ok ⟨⟨7⟩, .application ⟨["YQ"], [], [], true⟩, namedInQuery⟩ := rfl
  have hrefused : Grammar.check namedInQuery =
      .error ⟨namedInQuery, .foreignScheme (some scheme)⟩ := rfl
  rw [hparse, hcheck, hread, hrefused]
  exact ⟨rfl, rfl⟩

end LedgerUri.Uri
