import Mathlib.Data.List.Forall2

/-!
# Checked steps

Readers and writers fail with an error value. What a composite step yields is what its parts
yield, and a checked list yields one result for each of its items, in order. These inversions let
every other module argue about successes without opening a `do` block.
-/

namespace LedgerUri

universe u v

variable {ε ε' : Type u} {α : Type v} {β : Type v}

/-- A sequence of two steps succeeds when both do. -/
theorem bind_eq_ok_iff {x : Except ε α} {f : α → Except ε β} {b : β} :
    x >>= f = .ok b ↔ ∃ a, x = .ok a ∧ f a = .ok b := by
  refine ⟨fun h => ?_, ?_⟩
  · rcases x with e | a
    · cases h
    · exact ⟨a, rfl, h⟩
  · rintro ⟨a, rfl, h⟩
    exact h

/-- Changing what an error says leaves the successes alone. -/
theorem mapError_eq_ok_iff {x : Except ε α} {f : ε → ε'} {a : α} :
    x.mapError f = .ok a ↔ x = .ok a := by
  rcases x with e | a' <;> simp [Except.mapError]

/-- Changing what an error says fails when there is an error. -/
theorem mapError_eq_error_iff {x : Except ε α} {f : ε → ε'} {e' : ε'} :
    x.mapError f = .error e' ↔ ∃ e, x = .error e ∧ f e = e' := by
  rcases x with e | a <;> simp [Except.mapError]

/-- Changing a result succeeds when there is one. -/
theorem map_eq_ok_iff {x : Except ε α} {f : α → β} {b : β} :
    x.map f = .ok b ↔ ∃ a, x = .ok a ∧ f a = b := by
  rcases x with e | a <;> simp [Except.map]

/-- Changing a result leaves the errors alone. -/
theorem map_eq_error_iff {x : Except ε α} {f : α → β} {e : ε} :
    x.map f = .error e ↔ x = .error e := by
  rcases x with e' | a <;> simp [Except.map]

/-- A checked list yields the results of its items, in order. -/
theorem mapM_eq_ok_iff {f : α → Except ε β} {xs : List α} {ys : List β} :
    xs.mapM f = .ok ys ↔ List.Forall₂ (fun x y => f x = .ok y) xs ys := by
  induction xs generalizing ys with
  | nil =>
    rw [List.mapM_nil, List.forall₂_nil_left_iff]
    exact ⟨fun h => (Except.ok.inj h).symm, fun h => by rw [h]; rfl⟩
  | cons x xs ih =>
    rw [List.mapM_cons, bind_eq_ok_iff, List.forall₂_cons_left_iff]
    refine ⟨fun ⟨y, hy, h⟩ => ?_, ?_⟩
    · obtain ⟨ys', hys', h⟩ := bind_eq_ok_iff.1 h
      exact ⟨y, ys', hy, ih.1 hys', (Except.ok.inj h).symm⟩
    · rintro ⟨y, ys', hy, hys', rfl⟩
      exact ⟨y, hy, bind_eq_ok_iff.2 ⟨ys', ih.2 hys', rfl⟩⟩

/-- Every item of a checked list yields one of its results. -/
theorem exists_mem_of_mem_mapM_eq_ok {f : α → Except ε β} {xs : List α} {ys : List β}
    (h : xs.mapM f = .ok ys) {x : α} (hx : x ∈ xs) : ∃ y ∈ ys, f x = .ok y := by
  rw [mapM_eq_ok_iff] at h
  induction h with
  | nil => cases hx
  | @cons z y zs ys hzy _ ih =>
    rcases List.mem_cons.1 hx with rfl | hx
    · exact ⟨y, List.mem_cons_self, hzy⟩
    · obtain ⟨y', hy', hfy'⟩ := ih hx
      exact ⟨y', List.mem_cons_of_mem _ hy', hfy'⟩

/-- A checked list yields something when each of its items does. -/
theorem exists_mapM_eq_ok {f : α → Except ε β} {xs : List α}
    (h : ∀ x ∈ xs, ∃ y, f x = .ok y) : ∃ ys, xs.mapM f = .ok ys := by
  induction xs with
  | nil => exact ⟨[], rfl⟩
  | cons x xs ih =>
    obtain ⟨⟨y, hy⟩, hxs⟩ := List.forall_mem_cons.1 h
    obtain ⟨ys, hys⟩ := ih hxs
    exact ⟨y :: ys, mapM_eq_ok_iff.2 (.cons hy (mapM_eq_ok_iff.1 hys))⟩

/-- A checked list whose items yield `g` yields the list of `g`. -/
theorem mapM_eq_ok_map {f : α → Except ε β} {g : α → β} {xs : List α}
    (h : ∀ x ∈ xs, f x = .ok (g x)) : xs.mapM f = .ok (xs.map g) := by
  rw [mapM_eq_ok_iff, List.forall₂_map_right_iff, List.forall₂_same]
  exact h

/-! ## Checks alone -/

variable {check : α → Except ε Unit} {xs : List α}

/-- A sequence of two steps fails when the first does, or else the second. -/
theorem bind_eq_error_iff {x : Except ε α} {f : α → Except ε β} {e : ε} :
    x >>= f = .error e ↔ x = .error e ∨ ∃ a, x = .ok a ∧ f a = .error e := by
  rcases x with e' | a <;> simp [bind, Except.bind]

/-- A list passes a check when each of its items does. -/
theorem forM_eq_ok_iff : forM xs check = .ok () ↔ ∀ x ∈ xs, check x = .ok () := by
  induction xs with
  | nil => exact iff_of_true rfl (List.forall_mem_nil _)
  | cons x xs ih =>
    rw [List.forM_cons, bind_eq_ok_iff, List.forall_mem_cons, ← ih]
    exact ⟨fun ⟨(), hx, hxs⟩ => ⟨hx, hxs⟩, fun ⟨hx, hxs⟩ => ⟨(), hx, hxs⟩⟩

/-- The first bad item of a list is its head, or else that of its tail behind a good head. -/
theorem exists_first_cons_iff {good bad : α → Prop} {x : α} :
    (∃ before y after, x :: xs = before ++ y :: after ∧ (∀ z ∈ before, good z) ∧ bad y) ↔
      bad x ∨ good x ∧
        ∃ before y after, xs = before ++ y :: after ∧ (∀ z ∈ before, good z) ∧ bad y := by
  constructor
  · rintro ⟨_ | ⟨z, before⟩, y, after, heq, hbefore, hy⟩
    · obtain ⟨rfl, -⟩ := List.cons.inj heq
      exact .inl hy
    · obtain ⟨rfl, rfl⟩ := List.cons.inj heq
      obtain ⟨hx, hbefore⟩ := List.forall_mem_cons.1 hbefore
      exact .inr ⟨hx, before, y, after, rfl, hbefore, hy⟩
  · rintro (hx | ⟨hx, before, y, after, rfl, hbefore, hy⟩)
    · exact ⟨[], x, xs, rfl, List.forall_mem_nil _, hx⟩
    · exact ⟨x :: before, y, after, rfl, List.forall_mem_cons.2 ⟨hx, hbefore⟩, hy⟩

/-- A list fails a check as its first item that does. -/
theorem forM_eq_error_iff {e : ε} :
    forM xs check = .error e ↔ ∃ before x after, xs = before ++ x :: after ∧
      (∀ y ∈ before, check y = .ok ()) ∧ check x = .error e := by
  induction xs with
  | nil => simp [pure, Except.pure]
  | cons x xs ih =>
    rw [List.forM_cons, bind_eq_error_iff, exists_first_cons_iff, ← ih]
    exact or_congr_right ⟨fun ⟨(), hx, hxs⟩ => ⟨hx, hxs⟩, fun ⟨hx, hxs⟩ => ⟨(), hx, hxs⟩⟩

/-- A checked list fails as its first item that does. -/
theorem mapM_eq_error_iff {f : α → Except ε β} {e : ε} :
    xs.mapM f = .error e ↔ ∃ before x after, xs = before ++ x :: after ∧
      (∀ y ∈ before, ∃ z, f y = .ok z) ∧ f x = .error e := by
  induction xs with
  | nil => simp [pure, Except.pure]
  | cons x xs ih =>
    rw [List.mapM_cons, bind_eq_error_iff, exists_first_cons_iff, ← ih]
    refine or_congr_right ⟨fun ⟨y, hx, h⟩ => ?_, fun ⟨⟨y, hx⟩, hxs⟩ => ?_⟩
    · rcases bind_eq_error_iff.1 h with hxs | ⟨ys, -, hok⟩
      · exact ⟨⟨y, hx⟩, hxs⟩
      · cases hok
    · exact ⟨y, hx, bind_eq_error_iff.2 (.inl hxs)⟩

/-- A list of results fails as a check does that fails as each of them. -/
theorem mapM_eq_error_iff_forM {f : α → Except ε β} {e : ε}
    (h : ∀ x e, f x = .error e ↔ check x = .error e) :
    xs.mapM f = .error e ↔ forM xs check = .error e := by
  have hok (x : α) : (∃ y, f x = .ok y) ↔ check x = .ok () := by
    have hx := h x
    rcases hf : f x with e | y <;> rcases hcheck : check x with e' | ⟨⟩ <;> simp_all
  simp only [mapM_eq_error_iff, forM_eq_error_iff, hok, h]

/-- A check of lists, joined, is a check of their items. -/
theorem forM_flatMap {γ : Type v} {g : γ → List α} {zs : List γ} :
    forM (zs.flatMap g) check = forM zs fun z => forM (g z) check := by
  induction zs with
  | nil => rfl
  | cons z zs ih => rw [List.flatMap_cons, List.forM_append, List.forM_cons, ih]

end LedgerUri
