/-
`SynchronousEventLoop`: a queue of events, and the loop that empties it while the
events push others.

An event is known by what it does to its loop: the events that it pushes, in order, and
the exception that it ends in, if any. Events that are pushed are events, so an event
is a finite tree, and `do_loop` walks through it. The `pool` of a push is ignored.
-/
import Kaiu.Exceptions
import Kaiu.Library.Exit
import Kaiu.Library.LevelOrder

set_option autoImplicit false

namespace Kaiu

open Exit LevelOrder

/-- `EventLoopPool`. -/
inductive EventLoopPool where
  | same
  | unknown
  | invalid
  | reactor
  | interaction
  | service
  | controller
  | calculation
  | io_local
  | io_remote
  deriving DecidableEq, Repr

/-- An `EventFunc`: its name, what it pushes while it runs, and the exception it ends
in. -/
inductive EventFunc (α X : Type*) where
  | event (name : α) (pushes : List (EventLoopPool × EventFunc α X)) (error : Option X)

namespace EventFunc

variable {α X : Type*}

def name : EventFunc α X → α
  | event name _ _ => name

def pushes : EventFunc α X → List (EventLoopPool × EventFunc α X)
  | event _ pushes _ => pushes

def error : EventFunc α X → Option X
  | event _ _ error => error

/-- The events that are pushed by an event. -/
def children (e : EventFunc α X) : List (EventFunc α X) :=
  e.pushes.map Prod.snd

/-- The event returns, and so does every event that it leads to. -/
inductive NoneThrows : EventFunc α X → Prop where
  | intro {e : EventFunc α X} (h : e.error = none) (hpushes : ∀ e' ∈ e.children, NoneThrows e') :
      NoneThrows e

theorem sizeOf_lt_of_mem_children {e e' : EventFunc α X} (h : e' ∈ e.children) :
    sizeOf e' < sizeOf e := by
  obtain ⟨name, pushes, error⟩ := e
  obtain ⟨p, hp, rfl⟩ := List.mem_map.mp h
  have hlt := List.sizeOf_lt_of_mem (show p ∈ pushes from hp)
  obtain ⟨pool, e'⟩ := p
  simp only [Prod.mk.sizeOf_spec, event.sizeOf_spec] at hlt ⊢
  omega

/-- An event leads to finitely many events. -/
theorem acc_children (e : EventFunc α X) :
    Acc (fun e' e : EventFunc α X => e' ∈ e.children) e :=
  Subrelation.accessible (fun h => sizeOf_lt_of_mem_children h)
    (InvImage.accessible sizeOf (Nat.lt_wfRel.wf.apply (sizeOf e)))

end EventFunc

/-- `SynchronousEventLoop`. -/
structure SynchronousEventLoop (α X : Type*) where
  events : List (EventFunc α X) := []
  /-- Not in the source: the events that have been pushed, in order. -/
  pushed : List (EventFunc α X) := []
  /-- Not in the source: the events that have been run, in order. -/
  executed : List (EventFunc α X) := []

namespace SynchronousEventLoop

variable {α X : Type*}

/-- `push`. -/
def push (_pool : EventLoopPool) (event : EventFunc α X) (s : SynchronousEventLoop α X) :
    SynchronousEventLoop α X :=
  { s with events := s.events ++ [event], pushed := s.pushed ++ [event] }

/-- `(*event)(*this)`. -/
def run (event : EventFunc α X) (s : SynchronousEventLoop α X) :
    Ended (SynchronousEventLoop α X) X :=
  (event.pushes.foldl (fun s p => push p.1 p.2 s) { s with executed := s.executed ++ [event] },
    event.error)

/-- `do_loop`, with at most `fuel` evaluations of its condition; `next` takes the event
at the front of the queue. -/
def do_loop : ℕ → SynchronousEventLoop α X → Option (Ended (SynchronousEventLoop α X) X)
  | 0, _ => none
  | fuel + 1, s =>
    match s.events with
    | [] => some (returns s)
    | event :: events =>
      match run event { s with events := events } with
      | (s, none) => do_loop fuel s
      | (s, some x) => some (throws s x)

/-- The constructor. -/
def create (fuel : ℕ) (start : EventFunc α X) : Option (Ended (SynchronousEventLoop α X) X) :=
  do_loop fuel (push .reactor start {})

variable {s : SynchronousEventLoop α X} {event : EventFunc α X} {events : List (EventFunc α X)}

/-- What pushes one after the other leave. -/
theorem foldl_push (pushes : List (EventLoopPool × EventFunc α X))
    (s : SynchronousEventLoop α X) :
    pushes.foldl (fun s p => push p.1 p.2 s) s = { s with
      events := s.events ++ pushes.map Prod.snd, pushed := s.pushed ++ pushes.map Prod.snd } := by
  induction pushes generalizing s with
  | nil => simp
  | cons p pushes ih =>
    rw [List.foldl_cons, ih]
    simp [push]

/-- What an event leaves. -/
theorem run_eq (event : EventFunc α X) (s : SynchronousEventLoop α X) :
    run event s = ({ events := s.events ++ event.children, pushed := s.pushed ++ event.children
                     executed := s.executed ++ [event] }, event.error) := by
  rw [run, foldl_push]
  rfl

/-- One turn of the loop, if the event returns. -/
theorem do_loop_succ (fuel : ℕ) (hevents : s.events = event :: events)
    (herror : event.error = none) :
    do_loop (fuel + 1) s = do_loop fuel
      { events := events ++ event.children, pushed := s.pushed ++ event.children
        executed := s.executed ++ [event] } := by
  rw [do_loop, hevents]
  simp only [run_eq, herror]

theorem do_loop_nil (fuel : ℕ) (hevents : s.events = []) :
    do_loop (fuel + 1) s = some (returns s) := by
  rw [do_loop, hevents]

/-! ## The order of the pushes -/

/-- What has been pushed has been run, or is in the queue, in this order. -/
def InOrder (s : SynchronousEventLoop α X) : Prop :=
  s.executed ++ s.events = s.pushed

/-- A turn of the loop keeps the order. -/
theorem InOrder.run (h : InOrder s) (hevents : s.events = event :: events) :
    InOrder (run event { s with events := events }).1 := by
  rw [run_eq]
  show s.executed ++ [event] ++ (events ++ event.children) = s.pushed ++ event.children
  rw [← h, hevents]
  simp

/-- **The loop runs events in the order of the pushes**, also when one of them throws. -/
theorem do_loop_inOrder (fuel : ℕ) {r : Ended (SynchronousEventLoop α X) X} (h : InOrder s)
    (hr : do_loop fuel s = some r) : InOrder r.1 := by
  induction fuel generalizing s with
  | zero => cases hr
  | succ fuel ih =>
    rw [do_loop] at hr
    cases hevents : s.events with
    | nil =>
      rw [hevents] at hr
      cases hr
      exact h
    | cons event events =>
      have hnext := h.run hevents
      rw [hevents] at hr
      simp only [run_eq] at hr hnext
      cases herror : event.error with
      | none =>
        rw [herror] at hr
        exact ih hnext hr
      | some x =>
        rw [herror] at hr
        cases hr
        exact hnext

/-! ## The walk through the tree -/

/-- **The loop takes events from the queue** as long as there are any: `n` turns run what
`n` takings hand out. -/
theorem do_loop_takings (n : ℕ) (hcalm : ∀ e ∈ s.events, e.NoneThrows)
    (hn : (takings EventFunc.children n s.events).1.length = n) :
    ∃ pushed, ∀ fuel, do_loop (n + fuel) s = do_loop fuel
      { events := (takings EventFunc.children n s.events).2, pushed := pushed
        executed := s.executed ++ (takings EventFunc.children n s.events).1 } := by
  induction n generalizing s with
  | zero =>
    refine ⟨s.pushed, fun fuel => ?_⟩
    rw [Nat.zero_add, takings, List.append_nil]
  | succ n ih =>
    cases hevents : s.events with
    | nil =>
      -- the queue has not run out before
      rw [hevents, takings] at hn
      cases hn
    | cons event events =>
      rw [hevents, takings, List.length_cons, Nat.add_right_cancel_iff] at hn
      obtain ⟨herror, hpushes⟩ := hcalm event (hevents ▸ List.mem_cons_self ..)
      have hnext : ∀ e ∈ events ++ event.children, e.NoneThrows := by
        intro e he
        rcases List.mem_append.mp he with he | he
        · exact hcalm e (hevents ▸ List.mem_cons_of_mem event he)
        · exact hpushes e he
      obtain ⟨pushed, hloop⟩ := ih (s := {
        events := events ++ event.children, pushed := s.pushed ++ event.children
        executed := s.executed ++ [event] }) hnext hn
      refine ⟨pushed, fun fuel => ?_⟩
      rw [Nat.succ_add, do_loop_succ _ hevents herror, hloop, takings]
      simp only [List.append_assoc, List.singleton_append]

/-- **Events run in level order.** From any event that leads to no exception the
constructor returns; the queue is empty then, the events that have run are the levels of
the tree, one after the other, and they are the events that have been pushed, each once,
in the order of the pushes. -/
theorem runs_in_level_order (start : EventFunc α X) (hstart : start.NoneThrows) :
    ∃ fuel s depth, (∀ n, fuel ≤ n → create n start = some (returns s)) ∧ s.events = [] ∧
      level EventFunc.children depth [start] = [] ∧
      s.executed = levels EventFunc.children depth [start] ∧ s.executed = s.pushed := by
  obtain ⟨depth, hdepth⟩ := exists_level_eq_nil start.acc_children
  have htakings :
      takings EventFunc.children (levels EventFunc.children depth [start]).length [start]
        = (levels EventFunc.children depth [start], level EventFunc.children depth [start]) :=
    takings_levels depth [start]
  obtain ⟨pushed, hloop⟩ := do_loop_takings (s := push .reactor start {})
    (levels EventFunc.children depth [start]).length
    (fun e he => by
      obtain rfl : e = start := by simpa [push] using he
      exact hstart)
    (congrArg (fun r => r.1.length) htakings)
  have hreturns : ∀ fuel,
      create ((levels EventFunc.children depth [start]).length + (fuel + 1)) start
        = some (returns {
          events := [], pushed := pushed, executed := levels EventFunc.children depth [start] }) := by
    intro fuel
    have hqueue : takings EventFunc.children (levels EventFunc.children depth [start]).length
        (push .reactor start {}).events = (levels EventFunc.children depth [start], []) :=
      htakings.trans (congrArg _ hdepth)
    rw [create, hloop, do_loop_nil, hqueue]
    · rfl
    · rw [hqueue]
  have hinOrder := do_loop_inOrder _ (s := push .reactor start {}) rfl (hreturns 0)
  refine ⟨(levels EventFunc.children depth [start]).length + 1,
    { events := [], pushed := pushed, executed := levels EventFunc.children depth [start] }, depth,
    fun n hn => ?_, rfl, hdepth, rfl, ?_⟩
  · obtain ⟨fuel, rfl⟩ := Nat.exists_eq_add_of_le hn
    rw [Nat.add_assoc, Nat.add_comm 1 fuel]
    exact hreturns fuel
  · exact (List.append_nil _).symm.trans hinOrder

/-- The events of `test_single`. -/
def test_single : EventFunc String Empty :=
  .event "A" [(.reactor, .event "B1" [] none),
    (.reactor, .event "B2" [(.reactor, .event "C" [] none)] none)] none

theorem runs_in_level_order_test_single :
    ∃ fuel s depth, (∀ n, fuel ≤ n → create n test_single = some (returns s)) ∧ s.events = [] ∧
      level EventFunc.children depth [test_single] = [] ∧
      s.executed = levels EventFunc.children depth [test_single] ∧ s.executed = s.pushed := by
  apply runs_in_level_order
  have hleaf : ∀ name : String, (EventFunc.event name [] none : EventFunc String Empty).NoneThrows :=
    fun name => .intro rfl fun e he => (by cases he)
  refine .intro rfl fun e he => ?_
  rcases List.mem_cons.mp he with rfl | he
  · exact hleaf _
  · obtain rfl := List.mem_singleton.mp he
    refine .intro rfl fun e he => ?_
    obtain rfl := List.mem_singleton.mp he
    exact hleaf _

example : (create 5 test_single).map (fun r => r.1.executed.map EventFunc.name)
    = some ["A", "B1", "B2", "C"] := by
  decide

end SynchronousEventLoop
end Kaiu
