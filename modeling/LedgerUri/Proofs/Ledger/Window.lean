import LedgerUri.Ledger.Window
import Mathlib.Data.List.Basic

/-!
# Windows as a step relation

Which read is answered first is up to the ledger and to the executor. Here a window may take any
step that its rules allow: start the next task while there is room, poll some task that is not
ready yet, or let the first task leave when it is ready. The rules keep the order of the tasks, so
every way to work them off yields the same results, and a consumer who stops early has seen the
same part of them.

* `Window.Step`, `Window.Run` — what can happen next, and one after another;
* `Window.Run.results_eq` — results come out in the order of the tasks;
* `Window.Run.through` — stopping early is leaving a run before its end;
* `Window.exists_step`, `Window.exists_run` — a window with room works everything off in the end;
* `IsBuffering` — the ways to work off tasks that follow the rules;
* `isBuffering_trace` — polling all reads in flight together is one of them.
-/

namespace LedgerUri

variable {ρ α : Type}

/-- The tasks that have not left yet. -/
structure Window (ρ α : Type) where
  /-- tasks that were not started, in the order in which they will be -/
  waiting : List (Task ρ α)
  /-- tasks in flight, in the order in which they were started -/
  inFlight : List (Task ρ α)

namespace Window

/-- All tasks are waiting. -/
def initial (tasks : List (Task ρ α)) : Window ρ α := ⟨tasks, []⟩

/-- All tasks have left. -/
def done : Window ρ α := ⟨[], []⟩

/-- One thing that can happen to a window of the given width, with what is seen of it. -/
inductive Step (width : ℕ) : Window ρ α → List (Event ρ α) → Window ρ α → Prop
  /-- the next task is started while there is room -/
  | start {t : Task ρ α} {waiting inFlight : List (Task ρ α)} (room : inFlight.length < width) :
      Step width ⟨t :: waiting, inFlight⟩ (Task.starts [t]) ⟨waiting, inFlight ++ [t]⟩
  /-- any task in flight makes progress -/
  | poll {t : Task ρ α} {waiting before after : List (Task ρ α)} (pending : t.polls ≠ 0) :
      Step width ⟨waiting, before ++ t :: after⟩ [] ⟨waiting, before ++ t.poll :: after⟩
  /-- the first task in flight is ready and leaves -/
  | yield {t : Task ρ α} {waiting inFlight : List (Task ρ α)} (ready : t.polls = 0) :
      Step width ⟨waiting, t :: inFlight⟩ [.yielded t.result] ⟨waiting, inFlight⟩

/-- Some steps one after another, with everything that is seen of them. -/
inductive Run (width : ℕ) : Window ρ α → List (Event ρ α) → Window ρ α → Prop
  /-- nothing happens -/
  | refl (w : Window ρ α) : Run width w [] w
  /-- a first step, and then the others -/
  | step {w₁ w₂ w₃ : Window ρ α} {seen rest : List (Event ρ α)} :
      Step width w₁ seen w₂ → Run width w₂ rest w₃ → Run width w₁ (seen ++ rest) w₃

/-- Nothing can happen any more. -/
def Stuck (width : ℕ) (w : Window ρ α) : Prop :=
  ∀ seen next, ¬ Step width w seen next

variable {width : ℕ} {w w₁ w₂ w₃ : Window ρ α} {seen rest : List (Event ρ α)}

/-! ## Order -/

/-- The results that have not come out, in the order of the tasks. -/
def results (w : Window ρ α) : List α :=
  (w.inFlight ++ w.waiting).map Task.result

/-- The reads that have not been made, in the order of the tasks. -/
def reads (w : Window ρ α) : List ρ :=
  w.waiting.filterMap Task.read

theorem results_starts (tasks : List (Task ρ α)) : Event.results (Task.starts tasks) = [] := by
  rw [Event.results, Task.starts, List.filterMap_filterMap, List.filterMap_eq_nil_iff]
  intro t _
  cases t.read <;> rfl

theorem reads_starts (tasks : List (Task ρ α)) :
    Event.reads (Task.starts tasks) = tasks.filterMap Task.read := by
  rw [Event.reads, Task.starts, List.filterMap_filterMap]
  refine List.filterMap_congr fun t _ => ?_
  cases t.read <;> rfl

theorem results_append (seen rest : List (Event ρ α)) :
    Event.results (seen ++ rest) = Event.results seen ++ Event.results rest :=
  List.filterMap_append

theorem reads_append (seen rest : List (Event ρ α)) :
    Event.reads (seen ++ rest) = Event.reads seen ++ Event.reads rest :=
  List.filterMap_append

/-- A step lets out the first results or none. -/
theorem Step.results_eq (h : Step width w₁ seen w₂) :
    w₁.results = Event.results seen ++ w₂.results := by
  cases h with
  | start room =>
    rw [results_starts]
    simp [results]
  | poll pending => simp [results, Event.results, Task.poll]
  | yield ready => simp [results, Event.results]

/-- A step makes the first reads or none. -/
theorem Step.reads_eq (h : Step width w₁ seen w₂) :
    w₁.reads = Event.reads seen ++ w₂.reads := by
  cases h with
  | @start t waiting _ room =>
    have happend : ([t] ++ waiting).filterMap Task.read = _ := List.filterMap_append
    rw [reads_starts]
    exact happend
  | poll pending => rfl
  | yield ready => rfl

/-- A step keeps to the width of the window. -/
theorem Step.length_le (h : Step width w₁ seen w₂) (hw : w₁.inFlight.length ≤ width) :
    w₂.inFlight.length ≤ width := by
  cases h with
  | start room =>
    rw [List.length_append]
    exact room
  | poll pending => simpa using hw
  | yield ready => exact Nat.le_of_succ_le hw

/-- **Whatever is answered first, results come out in the order of the tasks.** -/
theorem Run.results_eq (h : Run width w₁ seen w₂) :
    w₁.results = Event.results seen ++ w₂.results := by
  induction h with
  | refl w => rfl
  | step hstep _ ih => rw [hstep.results_eq, ih, results_append, List.append_assoc]

/-- Reads are made in the order of the tasks. -/
theorem Run.reads_eq (h : Run width w₁ seen w₂) :
    w₁.reads = Event.reads seen ++ w₂.reads := by
  induction h with
  | refl w => rfl
  | step hstep _ ih => rw [hstep.reads_eq, ih, reads_append, List.append_assoc]

/-- No more tasks than the width are ever in flight. -/
theorem Run.length_le (h : Run width w₁ seen w₂) (hw : w₁.inFlight.length ≤ width) :
    w₂.inFlight.length ≤ width := by
  induction h with
  | refl w => exact hw
  | step hstep _ ih => exact ih (hstep.length_le hw)

/-! ## Stopping early -/

end Window

/-- A list up to the first element at which its consumer stops. -/
def upTo (stop : α → Bool) : List α → List α
  | [] => []
  | a :: as => a :: if stop a then [] else upTo stop as

/-- Stopping early loses nothing but the end. -/
theorem upTo_prefix (stop : α → Bool) (as : List α) : upTo stop as <+: as := by
  induction as with
  | nil => exact List.prefix_rfl
  | cons a as ih =>
    rw [upTo]
    split
    · exact ⟨as, rfl⟩
    · exact (List.prefix_cons_inj a).2 ih

theorem upTo_eq_self {stop : α → Bool} {as : List α} (h : ∀ a ∈ as, stop a = false) :
    upTo stop as = as := by
  induction as with
  | nil => rfl
  | cons a as ih =>
    rw [List.forall_mem_cons] at h
    rw [upTo, if_neg (by rw [h.1]; exact Bool.false_ne_true), ih h.2]

theorem upTo_append_cons {stop : α → Bool} {before after : List α} {last : α}
    (h : ∀ a ∈ before, stop a = false) (hlast : stop last = true) :
    upTo stop (before ++ last :: after) = before ++ [last] := by
  induction before with
  | nil => rw [List.nil_append, upTo, if_pos hlast, List.nil_append]
  | cons a as ih =>
    rw [List.forall_mem_cons] at h
    rw [List.cons_append, upTo, if_neg (by rw [h.1]; exact Bool.false_ne_true), ih h.2,
      List.cons_append]

theorem Event.results_through (stop : α → Bool) (trace : List (Event ρ α)) :
    results (through stop trace) = upTo stop (results trace) := by
  induction trace with
  | nil => rfl
  | cons event rest ih =>
    cases event with
    | started read => exact ih
    | yielded result =>
      change result :: results (if stop result then [] else through stop rest) =
        result :: if stop result then [] else upTo stop (results rest)
      split
      · rfl
      · rw [ih]

namespace Window

variable {width : ℕ} {w w₁ w₂ w₃ : Window ρ α} {seen rest : List (Event ρ α)}

theorem through_starts_append (stop : α → Bool) (tasks : List (Task ρ α))
    (rest : List (Event ρ α)) :
    Event.through stop (Task.starts tasks ++ rest) =
      Task.starts tasks ++ Event.through stop rest := by
  induction tasks with
  | nil => rfl
  | cons t ts ih =>
    obtain ⟨_ | read, polls, result⟩ := t
    · exact ih
    · exact congrArg (Event.started read :: ·) ih

/-- What a consumer sees who stops early is a run that was left before its end. -/
theorem Run.through (stop : α → Bool) (h : Run width w₁ seen w₂) :
    ∃ w, Run width w₁ (Event.through stop seen) w := by
  induction h with
  | refl w => exact ⟨w, .refl w⟩
  | @step w₁ w₂ w₃ _ rest hstep _ ih =>
    obtain ⟨w, hrun⟩ := ih
    cases hstep with
    | start room =>
      rw [through_starts_append]
      exact ⟨w, .step (.start room) hrun⟩
    | poll pending => exact ⟨w, .step (.poll pending) hrun⟩
    | @yield t waiting inFlight ready =>
      cases hstop : stop t.result with
      | true =>
        have hcut : Event.through stop ([.yielded t.result] ++ rest) =
            [.yielded t.result] ++ [] := by
          simp [Event.through, hstop]
        rw [hcut]
        exact ⟨⟨waiting, inFlight⟩, .step (.yield ready) (.refl _)⟩
      | false =>
        have hcut : Event.through stop ([.yielded t.result] ++ rest) =
            [.yielded t.result] ++ Event.through stop rest := by
          simp [Event.through, hstop]
        rw [hcut]
        exact ⟨w, .step (.yield ready) hrun⟩

/-! ## Progress -/

/-- With room for at least one task, only an empty window is stuck. -/
theorem exists_step (hwidth : 0 < width) (hw : w ≠ done) : ∃ seen next, Step width w seen next := by
  obtain ⟨waiting, inFlight⟩ := w
  rcases inFlight with _ | ⟨t, ts⟩
  · rcases waiting with _ | ⟨t, ts⟩
    · exact absurd rfl hw
    · exact ⟨_, _, .start hwidth⟩
  · by_cases ready : t.polls = 0
    · exact ⟨_, _, .yield ready⟩
    · have hpoll : Step width ⟨waiting, [] ++ t :: ts⟩ [] ⟨waiting, [] ++ t.poll :: ts⟩ :=
        .poll ready
      exact ⟨_, _, hpoll⟩

theorem Stuck.eq_done (hwidth : 0 < width) (h : Stuck width w) : w = done := by
  by_contra hne
  obtain ⟨seen, next, hstep⟩ := exists_step hwidth hne
  exact h seen next hstep

/-- The number of steps that a window can still take: a start and a result for each task, and its
polls. -/
def size (w : Window ρ α) : ℕ :=
  w.waiting.length + Task.work w.waiting + Task.work w.inFlight

theorem work_append (front rest : List (Task ρ α)) :
    Task.work (front ++ rest) = Task.work front + Task.work rest := by
  induction front with
  | nil => exact (Nat.zero_add _).symm
  | cons t ts ih =>
    simp only [List.cons_append, Task.work, ih]
    omega

theorem Step.size_lt (h : Step width w₁ seen w₂) : w₂.size < w₁.size := by
  cases h with
  | start room =>
    simp only [size, work_append, Task.work, List.length_cons]
    omega
  | @poll t _ _ _ pending =>
    have hpoll : t.poll.polls + 1 = t.polls := Nat.succ_pred_eq_of_ne_zero pending
    simp only [size, work_append, Task.work]
    omega
  | yield ready =>
    simp only [size, Task.work]
    omega

theorem stuck_done : Stuck width (done : Window ρ α) := by
  intro seen next hstep
  exact absurd hstep.size_lt (Nat.not_lt_zero _)

/-- Whatever has happened, the window can be emptied: a run that stops short can go on. -/
theorem exists_run (hwidth : 0 < width) (w : Window ρ α) : ∃ seen, Run width w seen done := by
  induction hsize : w.size using Nat.strongRecOn generalizing w with
  | ind n ih =>
    by_cases hw : w = done
    · exact ⟨[], hw ▸ .refl w⟩
    · -- any step will do, because each of them leaves fewer to take
      obtain ⟨seen, next, hstep⟩ := exists_step hwidth hw
      obtain ⟨rest, hrun⟩ := ih next.size (hsize ▸ hstep.size_lt) next rfl
      exact ⟨seen ++ rest, .step hstep hrun⟩

end Window

/-! ## Following the rules -/

open Window

/-- Tasks are worked off by the rules of the window, and not left while anything can happen. -/
def IsBuffering (buffered : Buffering ρ) : Prop :=
  ∀ {α : Type} (width : ℕ) (tasks : List (Task ρ α)), 0 < width →
    ∃ last, Run width (initial tasks) (buffered width tasks) last ∧ Stuck width last

/-- All results come out, in the order of the tasks. -/
theorem IsBuffering.results_eq {buffered : Buffering ρ} (h : IsBuffering buffered) {width : ℕ}
    (hwidth : 0 < width) (tasks : List (Task ρ α)) :
    Event.results (buffered width tasks) = tasks.map Task.result := by
  obtain ⟨last, hrun, hstuck⟩ := h width tasks hwidth
  have hresults := hrun.results_eq
  rw [hstuck.eq_done hwidth] at hresults
  simpa [initial, done, Window.results] using hresults.symm

/-! ## Polling everything in flight -/

namespace Window

variable {width : ℕ} {w₁ w₂ w₃ : Window ρ α} {seen rest : List (Event ρ α)}

theorem Run.trans (h₁ : Run width w₁ seen w₂) (h₂ : Run width w₂ rest w₃) :
    Run width w₁ (seen ++ rest) w₃ := by
  induction h₁ with
  | refl w => exact h₂
  | step hstep _ ih =>
    rw [List.append_assoc]
    exact .step hstep (ih h₂)

/-- Tasks for which there is room can be started together. -/
theorem run_start (tasks waiting inFlight : List (Task ρ α))
    (room : inFlight.length + tasks.length ≤ width) :
    Run width ⟨tasks ++ waiting, inFlight⟩ (Task.starts tasks) ⟨waiting, inFlight ++ tasks⟩ := by
  induction tasks generalizing inFlight with
  | nil =>
    rw [List.append_nil]
    exact .refl _
  | cons t ts ih =>
    have hrest := ih (inFlight ++ [t]) (by simp at room ⊢; omega)
    rw [List.append_assoc] at hrest
    have hstarts : Task.starts ([t] ++ ts) = Task.starts [t] ++ Task.starts ts :=
      List.filterMap_append
    change Run width _ (Task.starts ([t] ++ ts)) _
    rw [hstarts]
    exact .step (.start (by simp at room; omega)) hrest

/-- All tasks in flight can be polled together. -/
theorem run_poll (waiting before tasks : List (Task ρ α)) :
    Run width ⟨waiting, before ++ tasks⟩ [] ⟨waiting, before ++ tasks.map Task.poll⟩ := by
  induction tasks generalizing before with
  | nil => exact .refl _
  | cons t ts ih =>
    have hrest := ih (before ++ [t.poll])
    rw [List.append_assoc, List.append_assoc] at hrest
    by_cases ready : t.polls = 0
    · -- polling a task that is ready changes nothing
      have ht : t.poll = t := by
        obtain ⟨read, polls, result⟩ := t
        obtain rfl : polls = 0 := ready
        rfl
      rw [ht] at hrest
      rw [List.map_cons, ht]
      exact hrest
    · exact .step (.poll ready) hrest

theorem take_pollFirst (width : ℕ) (tasks : List (Task ρ α)) :
    (Task.pollFirst width tasks).take width = (tasks.take width).map Task.poll := by
  induction tasks generalizing width with
  | nil => simp [Task.pollFirst]
  | cons t ts ih =>
    cases width with
    | zero => rfl
    | succ n => exact congrArg (t.poll :: ·) (ih n)

theorem drop_pollFirst (width : ℕ) (tasks : List (Task ρ α)) :
    (Task.pollFirst width tasks).drop width = tasks.drop width := by
  induction tasks generalizing width with
  | nil => simp [Task.pollFirst]
  | cons t ts ih =>
    cases width with
    | zero => rfl
    | succ n => exact ih n

/-- A window of which the first `started` tasks are in flight. -/
def splitAt (started : ℕ) (tasks : List (Task ρ α)) : Window ρ α :=
  ⟨tasks.drop started, tasks.take started⟩

theorem run_fill {started : ℕ} (hstarted : started ≤ width) (tasks : List (Task ρ α)) :
    Run width (splitAt started tasks) (Task.starts ((tasks.take width).drop started))
      (splitAt width tasks) := by
  -- what is in flight and what is started now make up the window, and the rest stays waiting
  have htake : tasks.take started ++ (tasks.take width).drop started = tasks.take width := by
    have hsplit := List.take_append_drop started (tasks.take width)
    rw [List.take_take, Nat.min_eq_left hstarted] at hsplit
    exact hsplit
  have hdrop : (tasks.take width).drop started ++ tasks.drop width = tasks.drop started := by
    have hall := List.take_append_drop width tasks
    rw [← htake, List.append_assoc] at hall
    exact List.append_cancel_left (hall.trans (List.take_append_drop started tasks).symm)
  have hroom : (tasks.take started).length + ((tasks.take width).drop started).length ≤ width := by
    rw [← List.length_append, htake]
    exact List.length_take_le width tasks
  have hrun := run_start ((tasks.take width).drop started) (tasks.drop width)
    (tasks.take started) hroom
  rw [htake, hdrop] at hrun
  exact hrun

theorem run_pollFirst (tasks : List (Task ρ α)) :
    Run width (splitAt width tasks) [] (splitAt width (Task.pollFirst width tasks)) := by
  rw [splitAt, splitAt, take_pollFirst, drop_pollFirst]
  exact run_poll (tasks.drop width) [] (tasks.take width)

theorem run_traceFrom {started : ℕ} (hwidth : 0 < width) (hstarted : started ≤ width)
    (tasks : List (Task ρ α)) :
    Run width (splitAt started tasks) (Task.traceFrom width started tasks) done := by
  obtain ⟨n, rfl⟩ := Nat.exists_eq_add_one.2 hwidth
  induction started, tasks using Task.traceFrom.induct (n + 1) with
  | case1 started =>
    rw [splitAt, List.drop_nil, List.take_nil, Task.traceFrom]
    exact .refl done
  | case2 started t ts ihReady ihPending =>
    rw [Task.traceFrom]
    refine (run_fill hstarted (t :: ts)).trans ?_
    split
    -- one round: the window is full, and its first task leaves or everything in it is polled
    · next ready => exact .step (.yield ready) (ihReady n.le_succ)
    · next pending => exact (run_pollFirst (t :: ts)).trans (ihPending pending (Nat.le_refl _))

end Window

/-- Polling everything in flight follows the rules. -/
theorem isBuffering_trace : IsBuffering (ρ := ρ) Task.trace := by
  intro α width tasks hwidth
  exact ⟨done, run_traceFrom hwidth (Nat.zero_le width) tasks, stuck_done⟩

end LedgerUri
