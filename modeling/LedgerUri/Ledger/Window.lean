/-!
# Reads in flight

A list of tasks is worked off through a window: tasks are started in order, no more than the width
of the window are in flight, and results come out in order. All tasks in the window are polled
together, so they may be ready in any order, but only the first of them can leave.

* `Task` — one read with its delay and its result;
* `Event` — a read that is started or a result that comes out;
* `trace` — everything that happens, in order;
* `through` — the part of a trace that a consumer sees who stops after a certain result;
* `Buffering` — any way to work off tasks through a window, of which `trace` is one.
-/

namespace LedgerUri

/-- Something that ends in a result, usually after a read. -/
structure Task (ρ α : Type) where
  /-- the read that is made when the task is started -/
  read : Option ρ
  /-- how many polls find the task pending -/
  polls : Nat
  /-- the result -/
  result : α

/-- One thing that happens while tasks are worked off. -/
inductive Event (ρ α : Type)
  /-- a task was started and made its read -/
  | started (read : ρ)
  /-- the first task in the window was ready and left it -/
  | yielded (result : α)
deriving DecidableEq

namespace Task

variable {ρ α : Type}

/-- The task after one more poll. -/
def poll (t : Task ρ α) : Task ρ α :=
  { t with polls := t.polls - 1 }

/-- Polls the first `width` tasks. -/
def pollFirst (width : Nat) (tasks : List (Task ρ α)) : List (Task ρ α) :=
  (tasks.take width).map poll ++ tasks.drop width

/-- The reads of tasks that are started. -/
def starts (tasks : List (Task ρ α)) : List (Event ρ α) :=
  tasks.filterMap fun t => t.read.map .started

/-- The number of polls and results that tasks still need. -/
def work : List (Task ρ α) → Nat
  | [] => 0
  | t :: ts => t.polls + 1 + work ts

theorem work_pollFirst_le (width : Nat) (tasks : List (Task ρ α)) :
    work (pollFirst width tasks) ≤ work tasks := by
  induction tasks generalizing width with
  | nil => simp [pollFirst]
  | cons t ts ih =>
    cases width with
    | zero => simp [pollFirst]
    | succ n =>
      have hpoll : t.poll.polls ≤ t.polls := Nat.sub_le t.polls 1
      have hrest := ih n
      simp only [pollFirst] at hrest
      simp only [pollFirst, List.take_succ_cons, List.drop_succ_cons, List.map_cons,
        List.cons_append, work]
      omega

/-- What happens while tasks go through a window of the given width, of which the first `started`
are in flight already. -/
def traceFrom (width started : Nat) : List (Task ρ α) → List (Event ρ α)
  | [] => []
  | t :: ts =>
    starts (((t :: ts).take width).drop started) ++
      if t.polls = 0 then .yielded t.result :: traceFrom width (width - 1) ts
      else traceFrom width width (t.poll :: pollFirst (width - 1) ts)
termination_by tasks => work tasks
decreasing_by
  · simp [work]
  · have hrest := work_pollFirst_le (width - 1) ts
    simp only [work, poll]
    omega

/-- What happens while tasks go through a window of the given width. -/
def trace (width : Nat) (tasks : List (Task ρ α)) : List (Event ρ α) :=
  traceFrom width 0 tasks

end Task

namespace Event

variable {ρ α : Type}

/-- The reads that a trace starts. -/
def reads (trace : List (Event ρ α)) : List ρ :=
  trace.filterMap fun
    | started read => some read
    | yielded _ => none

/-- The results that a trace yields. -/
def results (trace : List (Event ρ α)) : List α :=
  trace.filterMap fun
    | started _ => none
    | yielded result => some result

/-- The trace up to the first result at which its consumer stops. -/
def through (stop : α → Bool) : List (Event ρ α) → List (Event ρ α)
  | [] => []
  | started read :: rest => started read :: through stop rest
  | yielded result :: rest =>
    yielded result :: if stop result then [] else through stop rest

end Event

/-- A way to work off tasks of any kind through a window of a given width. -/
abbrev Buffering (ρ : Type) : Type 1 :=
  {α : Type} → Nat → List (Task ρ α) → List (Event ρ α)

end LedgerUri
