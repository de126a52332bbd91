/-
Where the events of a streaming task are executed, and how many there are.

The producer's event stays in the producer's pool, the event of a datum in the
consumer's and the event of the result in the reaction pool (`at_home`). An event
does not know its pool, and the callbacks of the inner stream push what the state of
the stream tells them to, so that a program that is restricted to the states with an
invariant is needed: there every pushed event is one for a call of the consumer or
for the result. Of these two kinds together there is one at most, and none once the
outer stream has been ended (`one_on_its_way`): the handlers of a stream never run at
the same time, in however many pools and workers.
-/
import Kaiu.EventThreads
import Kaiu.TaskStreamOrder

set_option autoImplicit false

namespace Kaiu

/-! ## Programs with an invariant -/

namespace EventLoop

open ParallelEventLoop Relation

variable {P W C Task X : Type*}

/-- The actions that end in a state with an invariant. -/
def Program.restrict (program : Program P C Task X) (I : C → Prop) : Program P C Task X where
  act state task state' event next := program.act state task state' event next ∧ I state'
  env state state' event := program.env state state' event ∧ I state'

variable [DecidableEq P] [DecidableEq W] {pools : Pools P W} {program : Program P C Task X}
  {I : C → Prop} {s s' : ParallelEventLoop P W C Task X} {w : W}

theorem RunStep.restrict (h : RunStep program w s s') (hI : I s'.state) :
    RunStep (program.restrict I) w s s' := by
  cases h with
  | goes_on hw hpush hact => exact .goes_on hw hpush ⟨hact, by simpa [go] using hI⟩
  | returns hw hpush hact => exact .returns hw hpush ⟨hact, by simpa [go] using hI⟩
  | throws hw hpush hact => exact .throws hw hpush ⟨hact, by simpa [go] using hI⟩
  | stores hw => exact .stores hw

theorem MainStep.restrict (h : MainStep pools program s s') (hI : I s'.state) :
    MainStep pools (program.restrict I) s s' := by
  cases h with
  | env hmain hpush henv => exact .env hmain hpush ⟨henv, by simpa using hI⟩
  | process hmain hx => exact .process hmain hx
  | join hmain => exact .join hmain
  | processed hmain hx => exact .processed hmain hx
  | zero hmain hzero => exact .zero hmain hzero
  | lock hmain hlt hp hm => exact .lock hmain hlt hp hm
  | retry hmain hpos hlt hp hm => exact .retry hmain hpos hlt hp hm
  | all_locked hmain heq => exact .all_locked hmain heq
  | idle hmain hq hzero => exact .idle hmain hq hzero
  | busy hmain h => exact .busy hmain h
  | «return» hmain hx => exact .return hmain hx
  | resume hmain => exact .resume hmain

theorem Step.restrict (h : Step pools program s s') (hI : I s'.state) :
    Step pools (program.restrict I) s s' := by
  cases h with
  | pop w h => exact .pop w h
  | run w h => exact .run w (h.restrict hI)
  | main h => exact .main (h.restrict hI)

/-- **A run through states with an invariant is one of the restricted program.** -/
theorem run_restrict {s₀ : ParallelEventLoop P W C Task X}
    (hI : ∀ t, ReflTransGen (Step pools program) s₀ t → I t.state)
    (hrun : ReflTransGen (Step pools program) s₀ s) :
    ReflTransGen (Step pools (program.restrict I)) s₀ s := by
  induction hrun with
  | refl => exact .refl
  | tail hrun h ih => exact ih.tail (h.restrict (hI _ (hrun.tail h)))

end EventLoop

/-! ## The pools of a streaming task -/

namespace TaskStream

open Exit EventLoop EventLoop.ParallelEventLoop Relation PromiseStreamState

variable {P W R D E K σ : Type*} {b : Build} {call : K → Outcome R E → σ → Ended σ (ExceptionPtr E)}
  {producer_pool consumer_pool reaction_pool : P}

/-- The pool that an event of the task belongs to. -/
@[simp] def Event.home (producer_pool consumer_pool reaction_pool : P) :
    Event R D E → Option P
  | .producer | .stream | .bind => some producer_pool
  | .consumer _ | .data_action | .answer _ => some consumer_pool
  | .result _ => some reaction_pool
  | .other => none

/-- What the callbacks of the inner stream have pushed is where it belongs. -/
def Homed (producer_pool consumer_pool reaction_pool : P) (s : State P R D E K σ) : Prop :=
  ∀ event ∈ s.inner.world,
    event.2.home producer_pool consumer_pool reaction_pool = some event.1

theorem homed_of_feeds (producer_pool : P) {s : State P R D E K σ}
    (hf : Feeds consumer_pool reaction_pool s.inner) :
    Homed producer_pool consumer_pool reaction_pool s := by
  intro event hevent
  rw [hf.noted, List.mem_append, List.mem_map, List.mem_map] at hevent
  rcases hevent with ⟨d, -, rfl⟩ | ⟨o, -, rfl⟩
  · rfl
  · rfl

theorem Homed.pushed_between {s : State P R D E K σ}
    {inner : PromiseStreamState R D E Unit (Pushed P R D E)}
    (hs : Homed producer_pool consumer_pool reaction_pool s) {q : P} {task : Event R D E}
    (h : TaskStream.pushed_between inner s.inner = some (q, task)) :
    task.home producer_pool consumer_pool reaction_pool = some q :=
  hs (q, task) (List.mem_of_mem_drop (List.mem_of_head? h))

/-- What the user's code pushes is where it belongs, or anything else. -/
theorem User.home {s s' : State P R D E K σ} {q : P} {task : Event R D E}
    (h : User b call producer_pool reaction_pool s s' (some (q, task)))
    (hs' : Homed producer_pool consumer_pool reaction_pool s') {p : P}
    (hp : task.home producer_pool consumer_pool reaction_pool = some p) : q = p := by
  generalize hevent : some (q, task) = event at h
  cases h with
  | calls h =>
    cases hevent
    exact Option.some.inj hp
  | pushes =>
    cases hevent
    cases hp
  | produces hop hopen =>
    rw [hs'.pushed_between hevent.symm] at hp
    exact Option.some.inj hp
  | consumes hop => cases hevent

/-- **The task keeps each of its events in its pool.** An event goes on with another
one of its pool, and what it pushes is in the pool of what is pushed. -/
theorem confines (p : P) :
    Confines ((task_stream (R := R) (D := D) b call producer_pool consumer_pool
        reaction_pool).restrict (Homed producer_pool consumer_pool reaction_pool))
      (fun task => task.home producer_pool consumer_pool reaction_pool = some p) p where
  pushes state task state' q task' next h hp := by
    obtain ⟨hact, hs'⟩ := h
    generalize hevent : some (q, task') = event at hact
    cases hact with
    | user h =>
      subst hevent
      exact h.home hs' hp
    | stream h | bind h | answer h =>
      subst h
      rw [hs'.pushed_between hevent.symm] at hp
      exact Option.some.inj hp
    | _ => cases hevent
  becomes state task state' event task' h hp := by
    obtain ⟨hact, -⟩ := h
    generalize hnext : Then.goes_on task' = next at hact
    cases hact with
    | user h | factory_returns | write h | write_throws h | data_action =>
      cases hnext
      exact hp
    | stream h =>
      rename_i r
      obtain ⟨_, x⟩ := r
      cases x with
      | none =>
        cases hnext
        exact hp
      | some error => cases hnext
    | bind h | answer h | result h =>
      rename_i r
      obtain ⟨_, x⟩ := r
      cases x <;> cases hnext
    | factory_throws => cases hnext
    | other_ends =>
      rename_i x
      cases x <;> cases hnext
  env state state' q task' h hp := h.1.home h.2 hp

/-! ## Runs -/

section Runs

variable [Fintype P] [Fintype W] [DecidableEq P] [DecidableEq W] [Inhabited R] {pools : Pools P W}
  {world : σ} {s : ParallelEventLoop P W (State P R D E K σ) (Event R D E) (ExceptionPtr E)}

theorem run_connected
    (hrun : ReflTransGen (Step pools (task_stream b call producer_pool consumer_pool reaction_pool))
      (ParallelEventLoop.start (new world)) s) :
    Connected consumer_pool reaction_pool s.bag :=
  run_bag (connected_new world) (fun _ _ hc h => hc.step h) hrun

/-- The events of the task never leave their pools. -/
theorem at_home
    (hrun : ReflTransGen (Step pools (task_stream b call producer_pool consumer_pool reaction_pool))
      (ParallelEventLoop.start (new world)) s) (p : P) :
    Confined pools (fun task => task.home producer_pool consumer_pool reaction_pool = some p) p s :=
  run_confined (confines p) <| run_restrict
    (fun _ ht => homed_of_feeds producer_pool (run_connected ht).feeds) hrun

omit [Fintype P] [DecidableEq P] [Inhabited R] in
/-- The inner stream waits for the answer to a datum before it gives out the next or
its result, so that what is on its way, and the end of the outer stream, are one at
most. -/
theorem Connected.one_on_its_way {bag : Bag (State P R D E K σ) (Event R D E)}
    (hc : Connected consumer_pool reaction_pool bag) :
    tally Event.answers bag.events + (gather Event.outcomes bag.events).card
      + (ends bag.state.stream.log).length ≤ 1 := by
  have hcard := congrArg Multiset.card hc.results
  simp only [Multiset.card_add, Multiset.coe_card] at hcard
  have htokens := hc.tokens
  have hcount := hc.feeds.count
  omega

/-- **The handlers of a streaming task run in their pools, one at a time.** In every
state that the loop reaches: the event that a worker executes, or that a queue holds,
is in the pool that `task_stream` was given for it; and of the events that write a
datum to the outer stream and answer for it, and of the events that end it, there is
one at most in all queues and workers together, and none once it has been ended. -/
theorem task_stream_pools
    (hrun : ReflTransGen (Step pools (task_stream b call producer_pool consumer_pool reaction_pool))
      (ParallelEventLoop.start (new world)) s) :
    (∀ w id task p, s.workers w = .executing id task →
      task.home producer_pool consumer_pool reaction_pool = some p → pools.pool w = p) ∧
    (∀ q id task p, (id, task) ∈ s.queues q →
      task.home producer_pool consumer_pool reaction_pool = some p → q = p) ∧
    tally Event.answers s.bag.events + (gather Event.outcomes s.bag.events).card
      + (ends s.state.stream.log).length ≤ 1 :=
  ⟨fun w id task p => (at_home hrun p).executing w id task,
    fun q id task p => (at_home hrun p).queued q id task, (run_connected hrun).one_on_its_way⟩

/-- Two pools with a worker each: the worker of the second writes the datum. -/
theorem task_stream_pools_one_datum :
    ∃ s : ParallelEventLoop Bool Bool (State Bool ℕ ℕ Unit Unit Unit) (Event ℕ ℕ Unit)
        (ExceptionPtr Unit),
      s.workers true = .executing 1 (.consumer 1) ∧
      ∀ w id task, s.workers w = .executing id task →
        task.home false true false = some true → w = true := by
  let pools : Pools Bool Bool := ⟨id, [false, true], by decide⟩
  let call : Unit → Outcome ℕ Unit → Unit → Ended Unit (ExceptionPtr Unit) := fun _ _ w => returns w
  let program : Program Bool (State Bool ℕ ℕ Unit Unit Unit) (Event ℕ ℕ Unit)
    (ExceptionPtr Unit) := task_stream Build.debug call false true false
  have hrun : ReflTransGen (Step pools program) (ParallelEventLoop.start (new ()))
      (ParallelEventLoop.start (new ())) := .refl
  have hrun := hrun.tail (.main (@MainStep.env _ _ _ _ _ _ _ pools program _ _
    (some (false, .producer)) (fun _ => rfl) (fun _ _ _ => rfl) (.calls rfl)))
  -- `producer`, in the first pool
  have hrun := hrun.trans (takes_event (w := false) rfl rfl rfl)
  have hrun := hrun.tail (.run false (@RunStep.goes_on _ _ _ _ _ _ _ program false _ 0 .producer
    .stream _ none rfl nofun .factory_returns))
  have hrun := hrun.tail (.run false (@RunStep.goes_on _ _ _ _ _ _ _ program false _ 0 .stream
    .bind _ none rfl nofun (.stream rfl)))
  have hrun := hrun.tail (.run false (@RunStep.returns _ _ _ _ _ _ _ program false _ 0 .bind _
    none rfl nofun (.bind rfl)))
  have hrun := hrun.tail (.main (@MainStep.env _ _ _ _ _ _ _ pools program _ _
    (some (true, .consumer 1)) (fun _ => rfl) (fun _ _ _ => rfl)
    (@User.produces _ _ _ _ _ _ _ _ _ _ _ (.write 1) trivial
      (fun o h => List.not_mem_nil (mem_ends.mpr h)))))
  -- `proxy`, in the second one
  have hrun := hrun.trans (takes_event (w := true) rfl rfl rfl)
  exact ⟨_, rfl, fun w id task hw hhome => (task_stream_pools hrun).1 w id task true hw hhome⟩

end Runs
end TaskStream
end Kaiu
