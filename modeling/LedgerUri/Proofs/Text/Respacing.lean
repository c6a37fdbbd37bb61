import LedgerUri.Proofs.Text.Split

/-!
# Other runs of separators

Two texts are respaced when they differ only in their separators: where one has a run of them, the
other has a run as well, perhaps of other separators and of another length. What lies between the
runs is the same, so the pieces are, and a marker without separators is found at the same place in
both.

* `Respaced` — the relation, with what was added at the end of the second text;
* `Respaced.pieces_eq` — both texts have the same pieces;
* `Respaced.takeWhile_eq` — and the same run of other characters at the start;
* `Respaced.after?_rel`, `Respaced.afterFirst?_rel` — markers are found in both or in none, and what
  follows them is respaced again.
-/

namespace LedgerUri.Text

variable {isSep : Char → Bool}

/-- A run of separators. It may be empty. -/
def IsRun (isSep : Char → Bool) (run : List Char) : Prop :=
  ∀ c ∈ run, isSep c = true

instance (isSep : Char → Bool) (run : List Char) : Decidable (IsRun isSep run) :=
  List.decidableBAll (fun c => isSep c = true) run

/-- The second text is the first with other runs of separators, and with `back` added. -/
inductive Respaced (isSep : Char → Bool) (back : List Char) : List Char → List Char → Prop
  /-- the end of the first text -/
  | nil : Respaced isSep back [] back
  /-- a character that is no separator -/
  | keep {c : Char} {text other : List Char} (hc : isSep c = false)
      (h : Respaced isSep back text other) : Respaced isSep back (c :: text) (c :: other)
  /-- a run of separators, and a run in its place -/
  | run {run place text other : List Char} (hrun : IsRun isSep run) (hplace : IsRun isSep place)
      (hne : run ≠ []) (hplace_ne : place ≠ []) (h : Respaced isSep back text other) :
      Respaced isSep back (run ++ text) (place ++ other)

variable {back run text other : List Char}

/-- A text in front of both is no difference. -/
theorem Respaced.append (h : Respaced isSep back text other) (front : List Char) :
    Respaced isSep back (front ++ text) (front ++ other) := by
  induction front with
  | nil => exact h
  | cons c cs ih =>
    rcases hc : isSep c
    · exact .keep hc ih
    · have hrun : IsRun isSep [c] := List.forall_mem_singleton.2 hc
      change Respaced isSep back ([c] ++ (cs ++ text)) ([c] ++ (cs ++ other))
      exact .run hrun hrun (List.cons_ne_nil c []) (List.cons_ne_nil c []) ih

/-! ## Pieces -/

theorem cuts_run_append (hrun : IsRun isSep run) (text : List Char) :
    cuts isSep (run ++ text) = List.replicate run.length [] ++ cuts isSep text := by
  induction run with
  | nil => rfl
  | cons c cs ih =>
    obtain ⟨hc, hcs⟩ := List.forall_mem_cons.1 hrun
    rw [List.cons_append, cuts, if_pos hc, ih hcs]
    rfl

/-- Separators at the start add no pieces. -/
theorem pieces_run_append (hrun : IsRun isSep run) (text : List Char) :
    pieces isSep (run ++ text) = pieces isSep text := by
  rw [pieces, cuts_run_append hrun, List.filter_append, pieces]
  simp

theorem pieces_run (hrun : IsRun isSep run) : pieces isSep run = [] := by
  have hpieces := pieces_run_append hrun []
  rwa [List.append_nil] at hpieces

theorem head?_cuts_run_append (hrun : IsRun isSep run) (hne : run ≠ []) (text : List Char) :
    (cuts isSep (run ++ text)).head? = some [] := by
  obtain ⟨c, cs, rfl⟩ := List.exists_cons_of_ne_nil hne
  rw [cuts_run_append hrun]
  rfl

theorem head?_cuts_run (hrun : IsRun isSep run) : (cuts isSep run).head? = some [] := by
  rcases run with _ | ⟨c, cs⟩
  · rfl
  · have hhead := head?_cuts_run_append hrun (List.cons_ne_nil c cs) []
    rwa [List.append_nil] at hhead

/-- A character in front of a text becomes part of its first cut. -/
theorem head?_cuts_cons {c : Char} (hc : isSep c = false) (text : List Char) :
    (cuts isSep (c :: text)).head? = (cuts isSep text).head?.map (c :: ·) := by
  rw [cuts, hc, if_neg Bool.false_ne_true, List.head?_modifyHead]

/-- The pieces are the first cut, if it is not empty, and the other pieces. -/
theorem pieces_cons {c : Char} (hc : isSep c = false) (text : List Char) :
    ∃ first rest, (cuts isSep text).head? = some first ∧
      pieces isSep text = (if first = [] then rest else first :: rest) ∧
      pieces isSep (c :: text) = (c :: first) :: rest := by
  obtain ⟨first, rest, hcuts⟩ := List.exists_cons_of_ne_nil (cuts_ne_nil isSep text)
  refine ⟨first, rest.filter (!·.isEmpty), by rw [hcuts]; rfl, ?_, ?_⟩
  · rw [pieces, hcuts]
    rcases first with _ | ⟨d, ds⟩ <;> rfl
  · rw [pieces, cuts, hc, if_neg Bool.false_ne_true, hcuts]
    rfl

namespace Respaced

/-- Respaced texts agree in their first cut and in their pieces. -/
theorem head?_cuts_eq_and_pieces_eq (h : Respaced isSep back text other)
    (hback : IsRun isSep back) :
    (cuts isSep text).head? = (cuts isSep other).head? ∧
      pieces isSep text = pieces isSep other := by
  induction h with
  | nil => exact ⟨(head?_cuts_run hback).symm, (pieces_run hback).symm⟩
  | @keep c text other hc _ ih =>
    obtain ⟨hhead, hpieces⟩ := ih
    refine ⟨by rw [head?_cuts_cons hc, head?_cuts_cons hc, hhead], ?_⟩
    obtain ⟨first, rest, hfirst, hrest, hcons⟩ := pieces_cons hc text
    obtain ⟨first', rest', hfirst', hrest', hcons'⟩ := pieces_cons hc other
    rw [hfirst, hfirst'] at hhead
    obtain rfl := Option.some.inj hhead
    -- the first cut is in both lists of pieces or in none, so the rest is the same
    rw [hrest, hrest'] at hpieces
    rw [hcons, hcons']
    split at hpieces
    · rw [hpieces]
    · rw [(List.cons_eq_cons.1 hpieces).2]
  | run hrun hplace hne hplace_ne _ ih =>
    refine ⟨?_, ?_⟩
    · rw [head?_cuts_run_append hrun hne, head?_cuts_run_append hplace hplace_ne]
    · rw [pieces_run_append hrun, pieces_run_append hplace, ih.2]

/-- **Respaced texts have the same pieces.** -/
theorem pieces_eq (h : Respaced isSep back text other) (hback : IsRun isSep back) :
    pieces isSep text = pieces isSep other :=
  (h.head?_cuts_eq_and_pieces_eq hback).2

/-! ## Markers -/

/-- Text that goes on at most to the first separator is the same. -/
theorem takeWhile_eq {p : Char → Bool} (hp : ∀ c, isSep c = true → p c = false)
    (h : Respaced isSep back text other) (hback : IsRun isSep back) :
    text.takeWhile p = other.takeWhile p := by
  have hstop : ∀ run rest, IsRun isSep run → run ≠ [] → (run ++ rest).takeWhile p = [] := by
    intro run rest hrun hne
    obtain ⟨c, cs, rfl⟩ := List.exists_cons_of_ne_nil hne
    have hc := hp c (hrun c List.mem_cons_self)
    rw [List.cons_append, List.takeWhile_cons, hc, if_neg Bool.false_ne_true]
  induction h with
  | nil =>
    by_cases hne : back = []
    · rw [hne]
    · have hnone := hstop back [] hback hne
      rw [List.append_nil] at hnone
      rw [hnone, List.takeWhile_nil]
  | keep _ _ ih => rw [List.takeWhile_cons, List.takeWhile_cons, ih]
  | run hrun hplace hne hplace_ne _ _ => rw [hstop _ _ hrun hne, hstop _ _ hplace hplace_ne]

theorem after?_cons_run_append {l : Char} (hl : isSep l = false) (lead : List Char)
    (hrun : IsRun isSep run) (hne : run ≠ []) (rest : List Char) :
    after? (l :: lead) (run ++ rest) = none := by
  obtain ⟨c, cs, rfl⟩ := List.exists_cons_of_ne_nil hne
  have hc : l ≠ c := by
    rintro rfl
    have hsep := hrun l List.mem_cons_self
    rw [hl] at hsep
    cases hsep
  rw [List.cons_append, after?, if_neg hc]

/-- Respaced texts start with the same markers. -/
theorem after?_rel {lead : List Char} (hlead : ∀ c ∈ lead, isSep c = false)
    (h : Respaced isSep back text other) (hback : IsRun isSep back) :
    Option.Rel (Respaced isSep back) (after? lead text) (after? lead other) := by
  induction lead generalizing text other with
  | nil => exact .some h
  | cons l lead ih =>
    obtain ⟨hl, hlead⟩ := List.forall_mem_cons.1 hlead
    cases h with
    | nil =>
      have hnone : after? (l :: lead) back = none := by
        by_cases hne : back = []
        · rw [hne, after?]
        · rw [← List.append_nil back, after?_cons_run_append hl lead hback hne]
      rw [hnone]
      exact .none
    | @keep c text other _ h =>
      rw [after?, after?]
      by_cases hc : l = c
      · rw [if_pos hc, if_pos hc]
        exact ih hlead h
      · rw [if_neg hc, if_neg hc]
        exact .none
    | run hrun hplace hne hplace_ne _ =>
      rw [after?_cons_run_append hl lead hrun hne, after?_cons_run_append hl lead hplace hplace_ne]
      exact .none

theorem afterFirst?_run_append {l : Char} (hl : isSep l = false) (lead : List Char)
    (hrun : IsRun isSep run) (rest : List Char) :
    afterFirst? (l :: lead) (run ++ rest) = afterFirst? (l :: lead) rest := by
  induction run with
  | nil => rfl
  | cons c cs ih =>
    have hhere := after?_cons_run_append hl lead hrun (List.cons_ne_nil c cs) rest
    rw [List.cons_append] at hhere
    rw [List.cons_append, afterFirst?, hhere]
    exact ih fun d hd => hrun d (List.mem_cons_of_mem c hd)

/-- **A marker without separators is found in both texts or in none**, and what follows it is
respaced again. -/
theorem afterFirst?_rel {l : Char} {lead : List Char} (hmarker : ∀ c ∈ l :: lead, isSep c = false)
    (h : Respaced isSep back text other) (hback : IsRun isSep back) :
    Option.Rel (Respaced isSep back) (afterFirst? (l :: lead) text)
      (afterFirst? (l :: lead) other) := by
  have hl := hmarker l List.mem_cons_self
  induction h with
  | nil =>
    have hnone := afterFirst?_run_append hl lead hback []
    rw [List.append_nil] at hnone
    rw [hnone]
    exact .none
  | @keep c text other hc h ih =>
    have hhere := (Respaced.keep hc h).after?_rel hmarker hback
    rw [afterFirst?, afterFirst?]
    rcases hfound : after? (l :: lead) (c :: text) with _ | rest <;>
      rcases hfound' : after? (l :: lead) (c :: other) with _ | rest' <;>
      rw [hfound, hfound'] at hhere
    · exact ih
    · cases hhere
    · cases hhere
    · exact hhere
  | run hrun hplace _ _ _ ih =>
    rw [afterFirst?_run_append hl lead hrun, afterFirst?_run_append hl lead hplace]
    exact ih

end Respaced

end LedgerUri.Text
