/-
Where the callbacks of a task run.

The event that settles the task's promise is only ever executed by the workers of
`reaction_pool`, and callbacks that are bound before run in that event. Callbacks
that are bound to the promise when it has been settled already run inside of
`then`, in whichever thread has called it: nothing takes them to `reaction_pool`.
-/
import Kaiu.EventThreads
import Kaiu.Task

set_option autoImplicit false

namespace Kaiu
namespace Task

open Exit EventLoop EventLoop.ParallelEventLoop Relation PromiseState

variable {P W V E K σ : Type*}

/-! ## One promise -/

section Promise

variable {b : Build} {call : K → Outcome V E → σ → Ended σ (ExceptionPtr E)}
  {p : PromiseState V E K} {settled : List (Outcome V E)}

/-- What is bound stays bound while the callbacks run. -/
theorem set_callbacks_assigned (b : Build)
    (call : K → Outcome V E → σ → Ended σ (ExceptionPtr E)) (hp : Settled p settled)
    (ha : p.callbacks_assigned = false) (k : K) (w : σ) :
    (set_callbacks b call k p w).1.1.callbacks_assigned = true ∧
      ((set_callbacks b call k p w).1.1.called = p.called ↔ p.state = .pending) := by
  by_cases hs : p.state = .pending
  · rw [set_callbacks_pending b call k w ha hs]
    exact ⟨rfl, fun _ => hs, fun _ => rfl⟩
  · -- the promise has been settled with something, which is passed to the callbacks
    have hc := hp.unbound ha
    obtain ⟨o, ho⟩ : ∃ o, settled.head? = some o := by
      cases settled with
      | nil => exact absurd (hp.unsettled rfl) hs
      | cons o rest => exact ⟨o, rfl⟩
    have hout := hp.outcome.trans ho
    have hstate : p.state = settled_state o := by
      cases hps : p.state with
      | pending => exact absurd hps hs
      | resolved | rejected =>
        simp only [outcome, hps, Option.some.injEq] at hout
        rw [← hout]
        rfl
      | completed => simp [outcome, hps, hc] at hout
    rw [set_callbacks_settled b call k w ha hstate hout]
    have hbound := (run_callback_outcome b call w (p := bound k p) hc hstate hout).2
    refine ⟨hbound, fun h => ?_, fun h => absurd h hs⟩
    rw [run_callback_eq b call (p := bound k p) w rfl hstate, hc] at h
    rcases hw : call k o w with ⟨w', _ | y⟩ <;>
      simp [hw, returns, throws, PromiseState.complete] at h

/-- Callbacks are not unbound. -/
theorem run_callback_callbacks_assigned (b : Build)
    (call : K → Outcome V E → σ → Ended σ (ExceptionPtr E)) (o : Outcome V E)
    (p : PromiseState V E K) (w : σ) :
    (run_callback b call o p w).1.1.callbacks_assigned = p.callbacks_assigned := by
  cases hk : p.callbacks with
  | none =>
    rw [run_callback, hk]
    rfl
  | some k =>
    rw [run_callback, hk]
    rcases hw : call k o w with ⟨w', _ | y⟩
    · simp only [hw, andThen, set_state_then]
      split <;> simp [throws, release, returns, make_immortal]
    · simp only [hw, andThen]

theorem settle_callbacks_assigned (b : Build)
    (call : K → Outcome V E → σ → Ended σ (ExceptionPtr E)) (o : Outcome V E)
    (p : PromiseState V E K) (w : σ) :
    (settle b call o p w).1.1.callbacks_assigned = p.callbacks_assigned := by
  rw [settle_eq, set_state, set_state_then]
  split
  · simp [throws]
  · rw [update_state]
    split
    · simp [returns, make_immortal]
    · split <;> simp [run_callback_callbacks_assigned, returns, make_immortal]
    · split <;> simp [run_callback_callbacks_assigned, returns, make_immortal]
    · simp [release, returns, make_immortal]

end Promise

/-! ## One step -/

/-- `proxy`. -/
def Event.reacts : Event V E K → Prop
  | .proxy _ => True
  | _ => False

/-- The step runs callbacks that are bound to the task's promise. -/
def RunsCallbacks (step : EventLoop.Made P W (State V E K σ) (Event V E K) (ExceptionPtr E)) :
    Prop :=
  step.after.state.promise.called ≠ step.before.state.promise.called

/-- The step binds callbacks to the task's promise, which has been settled before. -/
def BindsLate (step : EventLoop.Made P W (State V E K σ) (Event V E K) (ExceptionPtr E)) : Prop :=
  step.before.state.promise.state ≠ .pending ∧
    step.before.state.promise.callbacks_assigned = false ∧
    step.after.state.promise.callbacks_assigned = true

/-- The step is made by a worker of the pool. -/
def MadeIn (pools : Pools P W) (p : P)
    (step : EventLoop.Made P W (State V E K σ) (Event V E K) (ExceptionPtr E)) : Prop :=
  ∃ w, step.thread = .worker w ∧ pools.pool w = p

variable {b : Build} {call : K → Outcome V E → σ → Ended σ (ExceptionPtr E)}
  {factory : V → Except (ExceptionPtr E) PromiseId} {x : V} {action_pool reaction_pool : P}

/-- `promise` has been bound to callbacks. -/
def Bound (b : Build) (call : K → Outcome V E → σ → Ended σ (ExceptionPtr E))
    (s s' : State V E K σ) : Prop :=
  s.promise.callbacks_assigned = false ∧
    ∃ k, s'.promise = (set_callbacks b call k s.promise s.world).1.1

/-- The task's promise changes when it is bound and when `proxy` settles it. -/
theorem Act.promise {s s' : State V E K σ} {event : Event V E K}
    {pushed : Option (P × Event V E K)} {next : Then (Event V E K) (ExceptionPtr E)}
    (h : Act b call factory x action_pool reaction_pool s event s' pushed next) :
    s'.promise = s.promise ∨ event.reacts ∨ Bound b call s s' := by
  cases h with
  | proxy => exact .inr (.inl trivial)
  | other_binds h => exact .inr (.inr ⟨h, _, rfl⟩)
  | _ => exact .inl rfl

theorem Env.promise {s s' : State V E K σ} {pushed : Option (P × Event V E K)}
    (h : Env b call action_pool s s' pushed) : s'.promise = s.promise ∨ Bound b call s s' := by
  cases h with
  | calls | pushes => exact .inl rfl
  | binds h => exact .inr ⟨h, _, rfl⟩

theorem goes_on_ne_ended (event : Event V E K) (y : Option (ExceptionPtr E)) :
    Then.goes_on event ≠ ended y := by
  cases y <;> exact nofun

/-- `resolve` and `reject` push to `reaction_pool`. -/
theorem task_confines : Confines (task b call factory x action_pool reaction_pool)
    (Event.reacts : Event V E K → Prop) reaction_pool where
  pushes state event state' q event' next h hreacts := by
    cases h with
    | push => rfl
    | factory_pushes | other_calls | other_pushes => cases hreacts
  becomes state event state' pushed event' h hreacts := by
    generalize hnext : Then.goes_on event' = next at h
    cases h with
    | proxy => trivial
    | factory_throws => cases hnext
    | other_binds | other_ends => exact absurd hnext (goes_on_ne_ended _ _)
    | _ =>
      cases hnext
      cases hreacts
  env state state' q event' h hreacts := by
    cases h <;> cases hreacts

/-- What is bound to the task's promise stays bound. -/
theorem bag_stays_bound {bag bag' : Bag (State V E K σ) (Event V E K)}
    (h : Bag.Step (task b call factory x action_pool reaction_pool) bag bag')
    (ha : bag.state.promise.callbacks_assigned = true) :
    bag'.state.promise.callbacks_assigned = true := by
  cases h with
  | act h =>
    cases h with
    | proxy => rwa [settle_callbacks_assigned]
    | other_binds hunbound =>
      rw [hunbound] at ha
      cases ha
    | _ => exact ha
  | env h =>
    cases h with
    | calls | pushes => exact ha
    | binds hunbound =>
      rw [hunbound] at ha
      cases ha

variable [Fintype P] [Fintype W] [DecidableEq P] [DecidableEq W] {pools : Pools P W}
  {step : EventLoop.Made P W (State V E K σ) (Event V E K) (ExceptionPtr E)}

theorem stays_bound
    {s s' : ParallelEventLoop P W (State V E K σ) (Event V E K) (ExceptionPtr E)}
    (hrun : ReflTransGen (Step pools (task b call factory x action_pool reaction_pool)) s s')
    (ha : s.state.promise.callbacks_assigned = true) :
    s'.state.promise.callbacks_assigned = true := by
  refine History.keeps (I := fun s => s.bag.state.promise.callbacks_assigned = true)
    (fun s s' ha h => ?_) ha hrun
  rcases h.bag with heq | hbag
  · rwa [heq]
  · exact bag_stays_bound hbag ha

/-- **What a step does to the task's promise**, by the thread that makes it. -/
theorem thread_promise
    (hc : Confined pools (Event.reacts : Event V E K → Prop) reaction_pool step.before)
    (h : ThreadStep pools (task b call factory x action_pool reaction_pool) step.thread step.before
      step.after) :
    step.after.state.promise = step.before.state.promise ∨ MadeIn pools reaction_pool step ∨
      Bound b call step.before.state step.after.state := by
  obtain ⟨thread, s, s'⟩ := step
  simp only at hc h ⊢
  -- an event that reacts is executed by a worker of the reaction pool
  have hact : ∀ {w : W} {id : ℕ} {event : Event V E K} {state : State V E K σ}
      {pushed : Option (P × Event V E K)} {next : Then (Event V E K) (ExceptionPtr E)},
      s.workers w = .executing id event →
      (task b call factory x action_pool reaction_pool).act s.state event state pushed next →
      state.promise = s.state.promise ∨ MadeIn pools reaction_pool ⟨.worker w, s, s'⟩ ∨
        Bound b call s.state state := by
    intro w id event state pushed next hw hact
    rcases Act.promise hact with heq | hreacts | hbound
    · exact .inl heq
    · exact .inr (.inl ⟨w, rfl, hc.executing w id event hw hreacts⟩)
    · exact .inr (.inr hbound)
  cases h with
  | pop w h =>
    have hstate : s'.state = s.state := congrArg Bag.state h.bag
    rw [hstate]
    exact .inl rfl
  | run w h =>
    cases h with
    | goes_on hw hpush h | returns hw hpush h | throws hw hpush h =>
      simpa [go] using hact hw h
    | stores hw => exact .inl rfl
  | main h =>
    cases h with
    | env hmain hpush henv =>
      simp only [push_some_state]
      rcases Env.promise henv with heq | hbound
      · exact .inl heq
      · exact .inr (.inr hbound)
    | _ => exact .inl rfl

/-- Outside of the reaction pool callbacks are run by those who bind them late. -/
theorem runs_iff_late (hp : Settled step.before.state.promise step.before.state.settled)
    (hc : Confined pools (Event.reacts : Event V E K → Prop) reaction_pool step.before)
    (h : ThreadStep pools (task b call factory x action_pool reaction_pool) step.thread step.before
      step.after) (hout : ¬ MadeIn pools reaction_pool step) :
    RunsCallbacks step ↔ BindsLate step := by
  unfold RunsCallbacks BindsLate
  rcases thread_promise hc h with heq | hin | ⟨ha, k, heq⟩
  · rw [heq]
    refine ⟨fun hne => absurd rfl hne, fun ⟨_, hunbound, hbound⟩ => ?_⟩
    rw [hunbound] at hbound
    cases hbound
  · exact absurd hin hout
  · obtain ⟨hbound, hsame⟩ := set_callbacks_assigned b call hp ha k step.before.state.world
    rw [heq, hbound, ne_eq, hsame]
    exact ⟨fun hne => ⟨hne, ha, rfl⟩, fun h => h.1⟩

/-! ## Runs -/

/-- **Where callbacks run.** In every run of a loop in which a task is called, the
callbacks that are bound to the task's promise, by any thread, are all executed by
workers of `reaction_pool`, if and only if no thread but such a worker binds them
when the promise has already been settled. -/
theorem callbacks_in_reaction_pool_iff [Inhabited V] (b : Build)
    (call : K → Outcome V E → σ → Ended σ (ExceptionPtr E))
    (factory : V → Except (ExceptionPtr E) PromiseId) (x : V) (pools : Pools P W)
    (action_pool reaction_pool : P) (world : σ)
    {steps : List (EventLoop.Made P W (State V E K σ) (Event V E K) (ExceptionPtr E))}
    {s : ParallelEventLoop P W (State V E K σ) (Event V E K) (ExceptionPtr E)}
    (hrun : Run pools (task b call factory x action_pool reaction_pool)
      (ParallelEventLoop.start (new world)) steps s) :
    (∀ step ∈ steps, RunsCallbacks step → MadeIn pools reaction_pool step) ↔
      ∀ step ∈ steps, BindsLate step → MadeIn pools reaction_pool step := by
  have hstep : ∀ step ∈ steps, ¬ MadeIn pools reaction_pool step →
      (RunsCallbacks step ↔ BindsLate step) := by
    intro step hmem hout
    obtain ⟨hreach, hmade⟩ := hrun.made hmem
    have hcarries : Carries factory x step.before.bag :=
      run_bag (carries_new world) (fun _ _ hc h => hc.step h) hreach
    exact runs_iff_late hcarries.promise (run_confined task_confines hreach) hmade hout
  refine forall₂_congr fun step hmem => ?_
  by_cases hin : MadeIn pools reaction_pool step
  · exact ⟨fun _ _ => hin, fun _ _ => hin⟩
  · rw [hstep step hmem hin]

/-! ## Binding before and after -/

section Schedules

/-- A loop with two pools, of one worker each. -/
abbrev two_pools : Pools Bool Bool := ⟨id, [false, true], by decide⟩

/-- Callbacks that return. -/
abbrev return_at_once : Unit → Outcome ℕ Unit → Unit → Ended Unit (ExceptionPtr Unit) :=
  fun _ _ w => returns w

/-- A task whose factory returns a promise, of which the second pool is the reaction
pool. -/
abbrev two_pools_task : Program Bool (State ℕ Unit Unit Unit) (Event ℕ Unit Unit)
    (ExceptionPtr Unit) :=
  task Build.debug return_at_once (fun _ => .ok 0) 7 false true

/-- The task is called, and its promise is settled, whatever has been bound to it. -/
theorem two_pools_settles (promise : PromiseState ℕ Unit Unit)
    (hreturns : (settle Build.debug return_at_once (.resolved 8) promise ()).2 = none) :
    ∃ s, ReflTransGen (Step two_pools two_pools_task)
        (ParallelEventLoop.start { (new () : State ℕ Unit Unit Unit) with promise := promise }) s ∧
      s.state.promise = (settle Build.debug return_at_once (.resolved 8) promise ()).1.1 := by
  have hrun : ReflTransGen (Step two_pools two_pools_task)
      (ParallelEventLoop.start { (new () : State ℕ Unit Unit Unit) with promise := promise }) _ :=
    .refl
  have hrun := hrun.tail (.main (@MainStep.env _ _ _ _ _ _ _ two_pools two_pools_task _ _
    (some (false, .action)) (fun _ => rfl) (fun _ _ _ => rfl) (.calls rfl)))
  -- `action`, in the first pool
  have hrun := hrun.trans (takes_event (w := false) rfl rfl rfl)
  have hrun := hrun.tail (.run false (@RunStep.goes_on _ _ _ _ _ _ _ two_pools_task false _ 0
    .action .action _ none rfl nofun (.factory_settles (o := .resolved 8) rfl)))
  have hrun := hrun.tail (.run false (@RunStep.goes_on _ _ _ _ _ _ _ two_pools_task false _ 0
    .action .bind _ none rfl nofun (.factory_returns rfl)))
  have hrun := hrun.tail (.run false (@RunStep.goes_on _ _ _ _ _ _ _ two_pools_task false _ 0
    .bind (.pushing [.resolved 8]) _ none rfl nofun .bind))
  have hrun := hrun.tail (.run false (@RunStep.goes_on _ _ _ _ _ _ _ two_pools_task false _ 0
    _ (.pushing []) _ (some (true, .proxy (.resolved 8))) rfl (fun _ _ _ => rfl) .push))
  -- `proxy`, in the second pool
  have hrun := hrun.trans (takes_event (w := true) rfl rfl rfl)
  have hact : ∀ s : State ℕ Unit Unit Unit, s.promise = promise → s.world = () →
      two_pools_task.act s (.proxy (.resolved 8)) { s with
        promise := (settle Build.debug return_at_once (.resolved 8) promise ()).1.1
        world := (settle Build.debug return_at_once (.resolved 8) promise ()).1.2
        settled := s.settled ++ [.resolved 8] } none .returns := by
    intro s hpromise hworld
    have hproxy : two_pools_task.act s (.proxy (.resolved 8)) _ none _ := .proxy
    rwa [hpromise, hworld, hreturns] at hproxy
  have hrun := hrun.tail (.run true (@RunStep.returns _ _ _ _ _ _ _ two_pools_task true _ 1 _ _
    none rfl nofun (hact _ rfl rfl)))
  exact ⟨_, hrun, rfl⟩

/-- Callbacks that are bound before the task is called run in the reaction pool. -/
theorem callbacks_in_reaction_pool_iff_bound_before :
    ∃ steps s, Run two_pools two_pools_task (ParallelEventLoop.start (new ())) steps s ∧
      s.state.promise.called = [.resolved 8] ∧
      ∀ step ∈ steps, RunsCallbacks step → MadeIn two_pools true step := by
  have hbind : Run two_pools two_pools_task (ParallelEventLoop.start (new ())) _ _ :=
    .step .main .start (.main (@MainStep.env _ _ _ _ _ _ _ two_pools two_pools_task _ _ none
      (fun h => absurd rfl h) nofun (.binds (k := ()) rfl)))
  obtain ⟨s, hmore, hs⟩ := two_pools_settles (bound () PromiseState.new) rfl
  obtain ⟨more, hrun, hafter⟩ := hbind.continues hmore
  refine ⟨_, s, hrun, by rw [hs]; rfl, ?_⟩
  rw [callbacks_in_reaction_pool_iff _ _ _ _ _ _ _ _ hrun]
  intro step hstep ⟨hsettled, hunbound, _⟩
  rw [List.nil_append, List.singleton_append, List.mem_cons] at hstep
  rcases hstep with rfl | hstep
  · exact absurd rfl hsettled
  · rw [stays_bound (hafter step hstep) rfl] at hunbound
    cases hunbound

/-- Callbacks that are bound by another thread when the task's promise has been
settled run in that thread. -/
theorem not_in_reaction_pool_bound_after :
    ¬ ∀ steps s, Run two_pools two_pools_task (ParallelEventLoop.start (new ())) steps s →
      ∀ step ∈ steps, RunsCallbacks step → MadeIn two_pools true step := by
  intro h
  obtain ⟨s, hmore, hs⟩ := two_pools_settles PromiseState.new rfl
  obtain ⟨steps, hrun, -⟩ := Run.start.continues hmore
  have hunbound : s.state.promise.callbacks_assigned = false := by rw [hs]; rfl
  obtain ⟨s', hbind, hs'⟩ : ∃ s', ThreadStep two_pools two_pools_task .main s s' ∧
      s'.state.promise.called = [.resolved 8] := by
    refine ⟨_, .main (@MainStep.env _ _ _ _ _ _ _ two_pools two_pools_task s _ none
      (fun h => absurd rfl h) nofun (.binds (k := ()) hunbound)), ?_⟩
    show (set_callbacks Build.debug return_at_once () s.state.promise ()).1.1.called = _
    rw [hs]
    rfl
  have hruns : RunsCallbacks (⟨.main, s, s'⟩ : EventLoop.Made Bool Bool _ _ _) := by
    unfold RunsCallbacks
    rw [hs', hs]
    exact List.cons_ne_nil _ _
  obtain ⟨w, hw, -⟩ := h _ _ (.step .main hrun hbind) _
    (List.mem_append_right _ (List.mem_singleton_self _)) hruns
  cases hw

end Schedules

end Task
end Kaiu
