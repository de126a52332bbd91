/-
`ParallelEventLoop`: worker threads, a queue for each pool, and `join`.

Every step is one mutex-protected section of `event_loop.cpp`, of
`ConcurrentQueue` or of `ScopedCounter`, by one of the workers or by the main
thread, and the steps come in any order. What the events do is a parameter, a
`Program`: an event is a sequence of actions on a state of its own, each of which
may push another event. The constructor's `starter_pistol` lets the workers go
once each of them has counted itself as not idle, which is where a run starts.

Events are numbered in the order in which they are pushed, and the numbers of
those that have ended are logged with the worker that has run them, as are the
exceptions that have been thrown and handled. `set_nowaiting` is called by the
destructor only, after its `join`, and is not part of a run.
-/
import Kaiu.Library.Census
import Kaiu.Library.History

set_option autoImplicit false

namespace Kaiu
namespace EventLoop

/-- How an event goes on after one of its actions. -/
inductive Then (Task X : Type*) where
  | goes_on (task : Task)
  | returns
  | throws (error : X)

/-- What events do: `act` is the next action of an event of which `task` is left to
do, on a state of the program, and may push an event to a pool. `env` is what
happens outside of the events. -/
structure Program (P C Task X : Type*) where
  act : C → Task → C → Option (P × Task) → Then Task X → Prop
  env : C → C → Option (P × Task) → Prop

/-- The pools of a loop: where each worker belongs, and the order in which `join`
iterates over the queues. -/
structure Pools (P W : Type*) where
  pool : W → P
  queues : List P
  mem_queues : ∀ p, p ∈ queues

/-- Where a worker stands in `do_threaded_loop`, `next` and `pop`. -/
inductive Worker (Task X : Type*) where
  /-- About to lock the queue. -/
  | next
  /-- The queue is locked, `end_wait_condition` is to be evaluated. -/
  | locked
  /-- No event was found, and `guard` is to be constructed. -/
  | guarding
  /-- In `unblock.wait`, with the queue locked. -/
  | waiting
  /-- In `unblock.wait`, with the queue unlocked. -/
  | blocked
  /-- An event was found in `unblock.wait`, and `guard` is to be destroyed. -/
  | unguarding
  /-- The queue is locked and the wait is over. -/
  | popping
  /-- `task` is left to do of the event `id`. -/
  | executing (id : ℕ) (task : Task)
  /-- The event has thrown, and the exception is to be stored. -/
  | caught (id : ℕ) (error : X)
  /-- `next` has returned no event. -/
  | left

/-- Where the main thread stands in `join`. -/
inductive Main where
  /-- Not in `join`. -/
  | running
  /-- In the first `process_exceptions`. -/
  | processing
  /-- In `waitForZero`. -/
  | waiting
  /-- In `lock_many`. -/
  | locking (start counter : ℕ)
  /-- All queues are locked. -/
  | checking
  /-- In the last `process_exceptions`. -/
  | finishing
  | returned

/-- Who has locked a mutex. -/
inductive Owner (W : Type*) where
  | main
  | worker (w : W)
  deriving DecidableEq

/-- The members of `ParallelEventLoop`, and what its threads are doing. -/
structure ParallelEventLoop (P W C Task X : Type*) where
  queues : P → List (ℕ × Task) := fun _ => []
  queue_mutex : P → Option (Owner W) := fun _ => none
  threads_not_idle_counter : ℤ
  exceptions : List (ℕ × X) := []
  workers : W → Worker Task X := fun _ => .next
  main : Main := .running
  state : C
  /-- Not in the source: the pools that the events were pushed to, by number. -/
  pushed : List P := []
  /-- Not in the source: the events that have ended, and who has run them. -/
  ended : List (ℕ × W) := []
  /-- Not in the source: what the events have thrown. -/
  thrown : List (ℕ × X) := []
  /-- Not in the source: what has been passed to the handler. -/
  handled : List (ℕ × X) := []

variable {P W C Task X : Type*}

namespace ParallelEventLoop

/-- A loop whose workers have been let go. -/
def start [Fintype W] (state : C) : ParallelEventLoop P W C Task X :=
  { threads_not_idle_counter := Fintype.card W, state := state }

variable [DecidableEq P] [DecidableEq W]

/-- `push`. -/
def push (p : P) (task : Task) (s : ParallelEventLoop P W C Task X) :
    ParallelEventLoop P W C Task X :=
  { s with
    queues := Function.update s.queues p (s.queues p ++ [(s.pushed.length, task)])
    pushed := s.pushed ++ [p] }

/-- What an action pushes, if anything. -/
def push_some (event : Option (P × Task)) (s : ParallelEventLoop P W C Task X) :
    ParallelEventLoop P W C Task X :=
  match event with
  | none => s
  | some (p, task) => s.push p task

/-- The queue that an action pushes to can be locked. -/
def can_push (event : Option (P × Task)) (s : ParallelEventLoop P W C Task X) : Prop :=
  ∀ p task, event = some (p, task) → s.queue_mutex p = none

omit [DecidableEq P] [DecidableEq W] in
theorem can_push_none (s : ParallelEventLoop P W C Task X) : s.can_push none := by
  intro p task heq
  cases heq

/-- The worker goes on to do something else. -/
def go (w : W) (worker : Worker Task X) (s : ParallelEventLoop P W C Task X) :
    ParallelEventLoop P W C Task X :=
  { s with workers := Function.update s.workers w worker }

/-- A mutex is locked or unlocked. -/
def own (p : P) (owner : Option (Owner W)) (s : ParallelEventLoop P W C Task X) :
    ParallelEventLoop P W C Task X :=
  { s with queue_mutex := Function.update s.queue_mutex p owner }

/-- `threads_not_idle_counter.adjust(delta)`. -/
def adjust (delta : ℤ) (s : ParallelEventLoop P W C Task X) : ParallelEventLoop P W C Task X :=
  { s with threads_not_idle_counter := s.threads_not_idle_counter + delta }

/-- The mutexes that the main thread has locked are unlocked. -/
def unlock_all (s : ParallelEventLoop P W C Task X) : ParallelEventLoop P W C Task X :=
  { s with queue_mutex := fun p => if s.queue_mutex p = some .main then none else s.queue_mutex p }

end ParallelEventLoop

open ParallelEventLoop Relation

section Frame

variable [DecidableEq P] (event : Option (P × Task)) (s : ParallelEventLoop P W C Task X)

@[simp] theorem push_some_queue_mutex : (s.push_some event).queue_mutex = s.queue_mutex := by
  cases event <;> rfl

@[simp] theorem push_some_counter :
    (s.push_some event).threads_not_idle_counter = s.threads_not_idle_counter := by
  cases event <;> rfl

@[simp] theorem push_some_exceptions : (s.push_some event).exceptions = s.exceptions := by
  cases event <;> rfl

@[simp] theorem push_some_workers : (s.push_some event).workers = s.workers := by
  cases event <;> rfl

@[simp] theorem push_some_main : (s.push_some event).main = s.main := by
  cases event <;> rfl

@[simp] theorem push_some_state : (s.push_some event).state = s.state := by
  cases event <;> rfl

@[simp] theorem push_some_ended : (s.push_some event).ended = s.ended := by
  cases event <;> rfl

@[simp] theorem push_some_thrown : (s.push_some event).thrown = s.thrown := by
  cases event <;> rfl

@[simp] theorem push_some_handled : (s.push_some event).handled = s.handled := by
  cases event <;> rfl

theorem push_some_queues_ne {p : P} (h : s.queues p ≠ []) :
    (s.push_some event).queues p ≠ [] := by
  cases event with
  | none => exact h
  | some pt =>
    obtain ⟨p', task⟩ := pt
    by_cases hp : p = p'
    · subst hp
      simp [push_some, push]
    · simpa [push_some, push, hp] using h

/-- Pushing and moving the worker that pushes are independent. -/
theorem go_push_some [DecidableEq W] (w : W) (x : Worker Task X) :
    (s.push_some event).go w x = (s.go w x).push_some event := by
  cases event <;> rfl

end Frame

section Steps

variable [DecidableEq P] [DecidableEq W] (pools : Pools P W) (program : Program P C Task X)

/-- The steps of a worker in `pop`. -/
inductive PopStep (w : W) :
    ParallelEventLoop P W C Task X → ParallelEventLoop P W C Task X → Prop where
  | lock {s : ParallelEventLoop P W C Task X} (hw : s.workers w = .next)
      (hm : s.queue_mutex (pools.pool w) = none) :
      PopStep w s ((s.own (pools.pool w) (some (.worker w))).go w .locked)
  | found {s : ParallelEventLoop P W C Task X} (hw : s.workers w = .locked)
      (hq : s.queues (pools.pool w) ≠ []) : PopStep w s (s.go w .popping)
  | found_none {s : ParallelEventLoop P W C Task X} (hw : s.workers w = .locked)
      (hq : s.queues (pools.pool w) = []) : PopStep w s (s.go w .guarding)
  | guard {s : ParallelEventLoop P W C Task X} (hw : s.workers w = .guarding) :
      PopStep w s ((s.adjust (-1)).go w .waiting)
  | block {s : ParallelEventLoop P W C Task X} (hw : s.workers w = .waiting)
      (hq : s.queues (pools.pool w) = []) :
      PopStep w s ((s.own (pools.pool w) none).go w .blocked)
  | wake {s : ParallelEventLoop P W C Task X} (hw : s.workers w = .blocked)
      (hm : s.queue_mutex (pools.pool w) = none) :
      PopStep w s ((s.own (pools.pool w) (some (.worker w))).go w .waiting)
  | waited {s : ParallelEventLoop P W C Task X} (hw : s.workers w = .waiting)
      (hq : s.queues (pools.pool w) ≠ []) : PopStep w s (s.go w .unguarding)
  | unguard {s : ParallelEventLoop P W C Task X} (hw : s.workers w = .unguarding) :
      PopStep w s ((s.adjust 1).go w .popping)
  | pop {s : ParallelEventLoop P W C Task X} {id : ℕ} {task : Task} {rest : List (ℕ × Task)}
      (hw : s.workers w = .popping) (hq : s.queues (pools.pool w) = (id, task) :: rest) :
      PopStep w s ({ s with queues := Function.update s.queues (pools.pool w) rest }.own
        (pools.pool w) none |>.go w (.executing id task))
  | pop_none {s : ParallelEventLoop P W C Task X} (hw : s.workers w = .popping)
      (hq : s.queues (pools.pool w) = []) :
      PopStep w s (((s.own (pools.pool w) none).adjust (-1)).go w .left)

/-- The steps of a worker that executes an event. -/
inductive RunStep (w : W) :
    ParallelEventLoop P W C Task X → ParallelEventLoop P W C Task X → Prop where
  | goes_on {s : ParallelEventLoop P W C Task X} {id : ℕ} {task task' : Task} {state : C}
      {event : Option (P × Task)} (hw : s.workers w = .executing id task)
      (hpush : s.can_push event) (hact : program.act s.state task state event (.goes_on task')) :
      RunStep w s (({ s with state := state }.push_some event).go w (.executing id task'))
  | returns {s : ParallelEventLoop P W C Task X} {id : ℕ} {task : Task} {state : C}
      {event : Option (P × Task)} (hw : s.workers w = .executing id task)
      (hpush : s.can_push event) (hact : program.act s.state task state event .returns) :
      RunStep w s (({ s with state := state, ended := s.ended ++ [(id, w)] }.push_some event).go w
        .next)
  | throws {s : ParallelEventLoop P W C Task X} {id : ℕ} {task : Task} {state : C} {x : X}
      {event : Option (P × Task)} (hw : s.workers w = .executing id task)
      (hpush : s.can_push event) (hact : program.act s.state task state event (.throws x)) :
      RunStep w s (({ s with
        state := state
        ended := s.ended ++ [(id, w)]
        thrown := s.thrown ++ [(id, x)] }.push_some event).go w (.caught id x))
  | stores {s : ParallelEventLoop P W C Task X} {id : ℕ} {x : X}
      (hw : s.workers w = .caught id x) :
      RunStep w s ({ s with exceptions := s.exceptions ++ [(id, x)] }.go w .next)

/-- The steps of the main thread, and of what happens outside of the loop. -/
inductive MainStep :
    ParallelEventLoop P W C Task X → ParallelEventLoop P W C Task X → Prop where
  | env {s : ParallelEventLoop P W C Task X} {state : C} {event : Option (P × Task)}
      (hmain : event ≠ none → s.main = .running) (hpush : s.can_push event)
      (henv : program.env s.state state event) :
      MainStep s ({ s with state := state }.push_some event)
  /-- `process_exceptions`, in `join` or not. -/
  | process {s : ParallelEventLoop P W C Task X} {y : ℕ × X} {rest : List (ℕ × X)}
      (hmain : s.main = .running ∨ s.main = .processing ∨ s.main = .finishing)
      (hx : s.exceptions = y :: rest) :
      MainStep s { s with exceptions := rest, handled := s.handled ++ [y] }
  | join {s : ParallelEventLoop P W C Task X} (hmain : s.main = .running) :
      MainStep s { s with main := .processing }
  | processed {s : ParallelEventLoop P W C Task X} (hmain : s.main = .processing)
      (hx : s.exceptions = []) : MainStep s { s with main := .waiting }
  | zero {s : ParallelEventLoop P W C Task X} (hmain : s.main = .waiting)
      (hzero : s.threads_not_idle_counter = 0) : MainStep s { s with main := .locking 0 0 }
  | lock {s : ParallelEventLoop P W C Task X} {first counter : ℕ} {p : P}
      (hmain : s.main = .locking first counter) (hlt : counter < pools.queues.length)
      (hp : pools.queues[(first + counter) % pools.queues.length]? = some p)
      (hm : s.queue_mutex p = none) :
      MainStep s ({ s with main := .locking first (counter + 1) }.own p (some .main))
  | retry {s : ParallelEventLoop P W C Task X} {first counter : ℕ} {p : P}
      (hmain : s.main = .locking first counter) (hpos : 0 < counter)
      (hlt : counter < pools.queues.length)
      (hp : pools.queues[(first + counter) % pools.queues.length]? = some p)
      (hm : s.queue_mutex p ≠ none) :
      MainStep s { s with
        main := .locking ((first + counter) % pools.queues.length) 0 }.unlock_all
  | all_locked {s : ParallelEventLoop P W C Task X} {first counter : ℕ}
      (hmain : s.main = .locking first counter) (heq : counter = pools.queues.length) :
      MainStep s { s with main := .checking }
  /-- `all_queues_are_empty && threads_not_idle_counter.isZero()`. -/
  | idle {s : ParallelEventLoop P W C Task X} (hmain : s.main = .checking)
      (hq : ∀ p ∈ pools.queues, s.queues p = []) (hzero : s.threads_not_idle_counter = 0) :
      MainStep s { s with main := .finishing }.unlock_all
  | busy {s : ParallelEventLoop P W C Task X} (hmain : s.main = .checking)
      (h : ¬ ((∀ p ∈ pools.queues, s.queues p = []) ∧ s.threads_not_idle_counter = 0)) :
      MainStep s { s with main := .processing }.unlock_all
  | return {s : ParallelEventLoop P W C Task X} (hmain : s.main = .finishing)
      (hx : s.exceptions = []) : MainStep s { s with main := .returned }
  | resume {s : ParallelEventLoop P W C Task X} (hmain : s.main = .returned) :
      MainStep s { s with main := .running }

/-- The steps of the loop. -/
inductive Step : ParallelEventLoop P W C Task X → ParallelEventLoop P W C Task X → Prop where
  | pop {s s' : ParallelEventLoop P W C Task X} (w : W) (h : PopStep pools w s s') : Step s s'
  | run {s s' : ParallelEventLoop P W C Task X} (w : W) (h : RunStep program w s s') : Step s s'
  | main {s s' : ParallelEventLoop P W C Task X} (h : MainStep pools program s s') : Step s s'

end Steps

section Schedules

variable [DecidableEq P] [DecidableEq W] {pools : Pools P W} {program : Program P C Task X}
  {s : ParallelEventLoop P W C Task X} {w : W}

/-- A worker takes the next event out of its queue. -/
theorem takes_event {id : ℕ} {task : Task} {rest : List (ℕ × Task)} (hw : s.workers w = .next)
    (hm : s.queue_mutex (pools.pool w) = none)
    (hq : s.queues (pools.pool w) = (id, task) :: rest) :
    ReflTransGen (Step pools program) s
      ({ s with queues := Function.update s.queues (pools.pool w) rest }.go w
        (.executing id task)) := by
  have hlock : Step pools program s _ := .pop w (.lock hw hm)
  have hfound : Step pools program _ _ := .pop w
    (@PopStep.found _ _ _ _ _ _ _ pools w
      ((s.own (pools.pool w) (some (.worker w))).go w .locked) (by simp [go])
      (by simp [go, own, hq]))
  have hpop : Step pools program _ _ := .pop w (@PopStep.pop _ _ _ _ _ _ _ pools w
    (((s.own (pools.pool w) (some (.worker w))).go w .locked).go w .popping) id task rest
      (by simp [go]) hq)
  have hrun := ((ReflTransGen.single hlock).tail hfound).tail hpop
  have hsame : Function.update s.queue_mutex (pools.pool w) none = s.queue_mutex := by
    rw [← hm, Function.update_eq_self]
  simpa [go, own, hsame] using hrun

/-- A worker that finds no event waits for one. -/
theorem waits_for_event (hw : s.workers w = .next) (hm : s.queue_mutex (pools.pool w) = none)
    (hq : s.queues (pools.pool w) = []) :
    ReflTransGen (Step pools program) s ((s.adjust (-1)).go w .blocked) := by
  have hlock : Step pools program s _ := .pop w (.lock hw hm)
  have hfound : Step pools program _ _ := .pop w
    (@PopStep.found_none _ _ _ _ _ _ _ pools w
      ((s.own (pools.pool w) (some (.worker w))).go w .locked) (by simp [go]) hq)
  have hguard : Step pools program _ _ := .pop w
    (@PopStep.guard _ _ _ _ _ _ _ pools w
      (((s.own (pools.pool w) (some (.worker w))).go w .locked).go w .guarding) (by simp [go]))
  have hblock : Step pools program _ _ := .pop w
    (@PopStep.block _ _ _ _ _ _ _ pools w
      (((((s.own (pools.pool w) (some (.worker w))).go w .locked).go w .guarding).adjust (-1)).go w
        .waiting) (by simp [go]) hq)
  have hrun := (((ReflTransGen.single hlock).tail hfound).tail hguard).tail hblock
  have hsame : Function.update s.queue_mutex (pools.pool w) none = s.queue_mutex := by
    rw [← hm, Function.update_eq_self]
  simpa [go, own, adjust, hsame] using hrun

end Schedules

end EventLoop
end Kaiu
