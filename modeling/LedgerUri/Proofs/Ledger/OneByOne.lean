import LedgerUri.Proofs.Ledger.Window

/-!
# One read at a time

All reads of a list of tasks are made in the end, in order. When some of them are made before the
result of an earlier one is seen depends on the width of the window. With room for one task it does
not: a read is made only after the result of the task before has come out, so a consumer who stops
early has made just the reads whose results were seen.

* `IsBuffering.reads_eq` — every task makes its read, whatever the width;
* `Window.Run.ahead_eq` — with room for one task, nothing is left to choose;
* `IsBuffering.reads_through` — the reads that were made when a consumer stops.
-/

namespace LedgerUri

variable {ρ α : Type}

/-- What is seen of a task that is alone in the window: its read, then its result. -/
def Task.alone (t : Task ρ α) : List (Event ρ α) :=
  Task.starts [t] ++ [.yielded t.result]

/-! ## Runs -/

namespace Window

variable {w₁ w₂ : Window ρ α} {seen : List (Event ρ α)}

/-- What will be seen of a window with room for one task. -/
def ahead (w : Window ρ α) : List (Event ρ α) :=
  w.inFlight.map (fun t => .yielded t.result) ++ w.waiting.flatMap Task.alone

/-- A step shows the first of what will be seen. -/
theorem Step.ahead_eq (h : Step 1 w₁ seen w₂) : w₁.ahead = seen ++ w₂.ahead := by
  cases h with
  | @start t waiting inFlight room =>
    -- there is only room when nothing is in flight
    obtain rfl : inFlight = [] := List.length_eq_zero_iff.1 (Nat.lt_one_iff.1 room)
    simp [ahead, Task.alone]
  | poll pending => simp [ahead, Task.poll]
  | yield ready => simp [ahead]

/-- **With room for one task, a run shows what was ahead.** -/
theorem Run.ahead_eq (h : Run 1 w₁ seen w₂) : w₁.ahead = seen ++ w₂.ahead := by
  induction h with
  | refl w => rfl
  | step hstep _ ih => rw [hstep.ahead_eq, ih, List.append_assoc]

end Window

open Window

section Buffering

variable {buffered : Buffering ρ}

/-- All reads are made, in the order of the tasks. -/
theorem IsBuffering.reads_eq (h : IsBuffering buffered) {width : ℕ} (hwidth : 0 < width)
    (tasks : List (Task ρ α)) :
    Event.reads (buffered width tasks) = tasks.filterMap Task.read := by
  obtain ⟨last, hrun, hstuck⟩ := h width tasks hwidth
  have hreads := hrun.reads_eq
  rw [hstuck.eq_done hwidth] at hreads
  simpa [initial, done, Window.reads] using hreads.symm

/-- With room for one task, each is worked off before the next. -/
theorem IsBuffering.oneByOne (h : IsBuffering buffered) (tasks : List (Task ρ α)) :
    buffered 1 tasks = tasks.flatMap Task.alone := by
  obtain ⟨last, hrun, hstuck⟩ := h 1 tasks Nat.one_pos
  have hahead := hrun.ahead_eq
  rw [hstuck.eq_done Nat.one_pos] at hahead
  simpa [initial, done, ahead] using hahead.symm

end Buffering

/-! ## Stopping early -/

/-- A consumer who stops has seen the first tasks, each with its read and its result. -/
theorem through_flatMap_alone (stop : α → Bool) (tasks : List (Task ρ α)) :
    Event.through stop (tasks.flatMap Task.alone) =
      (upTo (fun t => stop t.result) tasks).flatMap Task.alone := by
  induction tasks with
  | nil => rfl
  | cons t ts ih =>
    rw [List.flatMap_cons, Task.alone, List.append_assoc, through_starts_append, upTo,
      List.flatMap_cons, Task.alone, List.append_assoc]
    cases hstop : stop t.result with
    | true => simp [Event.through, hstop]
    | false => simp [Event.through, hstop, ih]

theorem reads_flatMap_alone (tasks : List (Task ρ α)) :
    Event.reads (tasks.flatMap Task.alone) = tasks.filterMap Task.read := by
  induction tasks with
  | nil => rfl
  | cons t ts ih =>
    have hyield : Event.reads [Event.yielded (ρ := ρ) t.result] = [] := rfl
    rw [List.flatMap_cons, reads_append, ih, Task.alone, reads_append, reads_starts, hyield,
      List.append_nil, ← List.filterMap_append, List.singleton_append]

theorem upTo_map {β : Type} (stop : β → Bool) (f : α → β) (as : List α) :
    upTo stop (as.map f) = (upTo (fun a => stop (f a)) as).map f := by
  induction as with
  | nil => rfl
  | cons a as ih =>
    rw [List.map_cons, upTo, upTo, List.map_cons]
    cases hstop : stop (f a) with
    | true => simp
    | false => simp [ih]

/-- **With room for one task, the reads that were made are those whose results were seen.** -/
theorem IsBuffering.reads_through {buffered : Buffering ρ} (h : IsBuffering buffered)
    (stop : α → Bool) (tasks : List (Task ρ α)) :
    Event.reads (Event.through stop (buffered 1 tasks)) =
      (tasks.take (upTo stop (tasks.map Task.result)).length).filterMap Task.read := by
  have hprefix := List.prefix_iff_eq_take.1 <| upTo_prefix (fun t => stop t.result) tasks
  rw [h.oneByOne, through_flatMap_alone, reads_flatMap_alone, upTo_map, List.length_map, ← hprefix]

end LedgerUri
