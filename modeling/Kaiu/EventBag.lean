/-
The loop as a bag of events.

For what events do to a state that they share it does not matter which queue an
event is in and which worker takes it. What is left of a loop is a `Bag`: the state
and the events that have not ended, in no order, of which any may make its next
step at any time. Every step of the loop is a step of the bag, or leaves it as it is
(`Step.bag`), so that what holds in all runs of the bag holds in all runs of the
loop, for any number of pools and workers.
-/
import Kaiu.EventLoop
import Mathlib.Algebra.Order.Group.Multiset

set_option autoImplicit false

namespace Kaiu
namespace EventLoop

open Census ParallelEventLoop Relation

variable {P W C Task X : Type*}

/-- A state, and the events that have not ended. -/
structure Bag (C Task : Type*) where
  state : C
  events : Multiset Task

/-- What is left of an event after an action. -/
def Then.rest : Then Task X → Multiset Task
  | .goes_on task => {task}
  | .returns | .throws _ => 0

@[simp] theorem rest_goes_on (task : Task) : (Then.goes_on task : Then Task X).rest = {task} := rfl

@[simp] theorem rest_returns : (Then.returns : Then Task X).rest = 0 := rfl

@[simp] theorem rest_throws (x : X) : (Then.throws x : Then Task X).rest = 0 := rfl

/-- What an action pushes. -/
@[simp] def pushes : Option (P × Task) → Multiset Task
  | none => 0
  | some (_, task) => {task}

/-- The number of events that satisfy `p`. -/
def tally (p : Task → Bool) (events : Multiset Task) : ℕ :=
  events.countP fun task => p task = true

/-- What the events carry of something. -/
def gather {α : Type*} (f : Task → List α) (events : Multiset Task) : Multiset α :=
  events.bind fun task => (f task : Multiset α)

section Counting

variable (p : Task → Bool) {α : Type*} (f : Task → List α) (task : Task)
  (events others : Multiset Task)

@[simp] theorem tally_zero : tally p 0 = 0 :=
  Multiset.countP_zero _

@[simp] theorem tally_cons : tally p (task ::ₘ events) = tally p events + (p task).toNat := by
  rw [tally, Multiset.countP_cons]
  cases h : p task <;> simp [tally]

@[simp] theorem tally_singleton : tally p {task} = (p task).toNat := by
  rw [← Multiset.cons_zero, tally_cons, tally_zero, Nat.zero_add]

@[simp] theorem tally_add : tally p (events + others) = tally p events + tally p others :=
  Multiset.countP_add ..

@[simp] theorem gather_zero : gather f 0 = 0 :=
  Multiset.zero_bind _

@[simp] theorem gather_cons : gather f (task ::ₘ events) = f task + gather f events :=
  Multiset.cons_bind ..

@[simp] theorem gather_singleton : gather f {task} = f task :=
  Multiset.singleton_bind ..

@[simp] theorem gather_add : gather f (events + others) = gather f events + gather f others :=
  Multiset.add_bind ..

end Counting

/-- The steps of a bag. -/
inductive Bag.Step (program : Program P C Task X) : Bag C Task → Bag C Task → Prop where
  | act {state state' : C} {task : Task} {rest : Multiset Task} {event : Option (P × Task)}
      {next : Then Task X} (h : program.act state task state' event next) :
      Step program ⟨state, task ::ₘ rest⟩ ⟨state', next.rest + rest + pushes event⟩
  | env {state state' : C} {rest : Multiset Task} {event : Option (P × Task)}
      (h : program.env state state' event) :
      Step program ⟨state, rest⟩ ⟨state', rest + pushes event⟩

/-- What the worker has left to do of an event. -/
def Worker.event : Worker Task X → Multiset Task
  | .executing _ task => {task}
  | _ => 0

/-- The events in a queue. -/
def queued (queue : List (ℕ × Task)) : Multiset Task :=
  (queue.map Prod.snd : List Task)

section Bags

variable [Fintype P] [Fintype W]

/-- The loop as a bag. -/
def ParallelEventLoop.bag (s : ParallelEventLoop P W C Task X) : Bag C Task where
  state := s.state
  events := total queued s.queues + total Worker.event s.workers

theorem start_bag (state : C) :
    (start state : ParallelEventLoop P W C Task X).bag = ⟨state, 0⟩ := by
  simp [bag, start, total, queued, Worker.event]

/-- The bag of an idle loop is empty. -/
theorem bag_eq_zero {s : ParallelEventLoop P W C Task X} (hq : ∀ p, s.queues p = [])
    (hw : ∀ w id task, s.workers w ≠ .executing id task) : s.bag.events = 0 := by
  have hqueues : total queued s.queues = 0 := total_eq_zero fun p => by rw [hq p]; rfl
  have hworkers : total Worker.event s.workers = 0 := total_eq_zero fun w => by
    cases h : s.workers w <;> first | rfl | exact absurd h (hw w _ _)
  rw [bag, hqueues, hworkers, add_zero]

variable [DecidableEq P] {s s' : ParallelEventLoop P W C Task X}

theorem push_some_bag (event : Option (P × Task)) :
    (s.push_some event).bag = ⟨s.state, s.bag.events + pushes event⟩ := by
  cases event with
  | none => simp [push_some, bag]
  | some pt =>
    obtain ⟨p, task⟩ := pt
    have hmove := total_update queued s.queues p (s.queues p ++ [(s.pushed.length, task)])
    have hnew : queued (s.queues p ++ [(s.pushed.length, task)]) = queued (s.queues p) + {task} := by
      simp [queued, ← Multiset.coe_add]
    rw [hnew, ← add_assoc, add_right_comm] at hmove
    have hqueues := add_right_cancel hmove
    simp only [push_some, push, bag, pushes, hqueues]
    rw [add_right_comm]

variable [DecidableEq W] {pools : Pools P W} {program : Program P C Task X} {w : W}

/-- Inside `pop` an event is at most taken from the queue to the worker. -/
theorem PopStep.bag (h : PopStep pools w s s') : s'.bag = s.bag := by
  cases h with
  | pop hw hq =>
    rename_i id task rest
    have hqueue := total_update queued s.queues (pools.pool w) rest
    have hworker := total_update Worker.event s.workers w (.executing id task)
    have hhead : queued ((id, task) :: rest) = queued rest + {task} := by
      rw [queued, List.map_cons, ← Multiset.cons_coe, ← Multiset.singleton_add, add_comm, queued]
    rw [hq, hhead, ← add_assoc, add_right_comm] at hqueue
    rw [hw] at hworker
    have hleaves := add_right_cancel hqueue
    simp only [ParallelEventLoop.bag, go, own, ← hleaves]
    congr 1
    have hcomes : total Worker.event (Function.update s.workers w (.executing id task))
        = total Worker.event s.workers + {task} := by
      simpa [Worker.event] using hworker
    rw [hcomes]
    abel
  | lock hw hm | found hw hq | found_none hw hq | guard hw | block hw hq | wake hw hm
  | waited hw hq | unguard hw | pop_none hw hq =>
    simp only [ParallelEventLoop.bag, go, own, adjust]
    rw [total_update_same]
    rw [hw]
    rfl

omit [DecidableEq P] in
/-- The event that a worker executes, and the others. -/
theorem bag_of_executing {id : ℕ} {task : Task} (hw : s.workers w = .executing id task) :
    ∃ rest, s.bag.events = task ::ₘ rest ∧ ∀ x : Worker Task X,
      total queued s.queues + total Worker.event (Function.update s.workers w x)
        = x.event + rest := by
  have hmem : task ∈ total Worker.event s.workers := by
    have hmove := total_update Worker.event s.workers w .next
    rw [hw] at hmove
    have : total Worker.event s.workers
        = total Worker.event (Function.update s.workers w .next) + {task} := by
      simpa [Worker.event] using hmove.symm
    rw [this]
    simp
  obtain ⟨others, hothers⟩ := Multiset.exists_cons_of_mem hmem
  refine ⟨total queued s.queues + others, ?_, fun x => ?_⟩
  · rw [ParallelEventLoop.bag, hothers, Multiset.add_cons]
  · have hmove := total_update Worker.event s.workers w x
    rw [hw, hothers, ← Multiset.singleton_add] at hmove
    have hx : total Worker.event (Function.update s.workers w x) = others + x.event := by
      apply add_right_cancel (b := {task})
      rw [Worker.event] at hmove
      rw [hmove]
      abel
    rw [hx]
    abel

/-- An action of an event is a step of the bag. -/
theorem act_bag {id : ℕ} {task : Task} {state : C} {event : Option (P × Task)}
    {next : Then Task X} {x : Worker Task X} {t : ParallelEventLoop P W C Task X}
    (hw : s.workers w = .executing id task) (hact : program.act s.state task state event next)
    (hx : x.event = next.rest) (hstate : t.state = state) (hqueues : t.queues = s.queues)
    (hworkers : t.workers = s.workers) :
    Bag.Step program s.bag ((t.push_some event).go w x).bag := by
  obtain ⟨rest, hevents, hmove⟩ := bag_of_executing hw
  have hs : s.bag = ⟨s.state, task ::ₘ rest⟩ := by
    rw [← hevents]
    rfl
  have ht : ((t.push_some event).go w x).bag = ⟨state, next.rest + rest + pushes event⟩ := by
    rw [go_push_some, push_some_bag, ← hx, ← hmove x, ← hstate, ← hqueues, ← hworkers]
    rfl
  rw [hs, ht]
  exact .act hact

theorem RunStep.bag (h : RunStep program w s s') :
    s'.bag = s.bag ∨ Bag.Step program s.bag s'.bag := by
  cases h with
  | goes_on hw hpush hact => exact Or.inr (act_bag hw hact rfl rfl rfl rfl)
  | returns hw hpush hact => exact Or.inr (act_bag hw hact rfl rfl rfl rfl)
  | throws hw hpush hact => exact Or.inr (act_bag hw hact rfl rfl rfl rfl)
  | stores hw =>
    refine Or.inl ?_
    simp only [ParallelEventLoop.bag, go]
    rw [total_update_same]
    rw [hw]
    rfl

theorem MainStep.bag (h : MainStep pools program s s') :
    s'.bag = s.bag ∨ Bag.Step program s.bag s'.bag := by
  cases h with
  | env hmain hpush henv =>
    rw [push_some_bag]
    exact Or.inr (.env henv)
  | _ => exact Or.inl rfl

/-- **Every step of the loop is a step of the bag, or none.** -/
theorem Step.bag (h : Step pools program s s') :
    s'.bag = s.bag ∨ Bag.Step program s.bag s'.bag := by
  cases h with
  | pop w h => exact Or.inl h.bag
  | run w h => exact h.bag
  | main h => exact h.bag

/-- What every step of the bag keeps holds in every run of the loop. -/
theorem run_bag {I : Bag C Task → Prop} {state : C} (hstart : I ⟨state, 0⟩)
    (hstep : ∀ b b', I b → Bag.Step program b b' → I b')
    (hrun : ReflTransGen (Step pools program) (start state) s) : I s.bag := by
  refine History.keeps (I := fun s => I s.bag) (fun s s' hs h => ?_) ?_ hrun
  · rcases h.bag with heq | hbag
    · rwa [heq]
    · exact hstep _ _ hs hbag
  · rwa [start_bag]

end Bags
end EventLoop
end Kaiu
