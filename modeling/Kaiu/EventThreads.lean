/-
Which thread makes which step of a loop, and which pool an event stays in.

`Run` is a run together with its steps, each with the thread that has made it. An
event never leaves the pool that it was pushed to: what is left to do of it is done
by the worker that has taken it out of that pool's queue. So a program that pushes
a kind of event to one pool only, and that makes no event of this kind out of
others, has its actions made by the workers of this pool (`Confined`).
-/
import Kaiu.EventLoop

set_option autoImplicit false

namespace Kaiu
namespace EventLoop

open ParallelEventLoop Relation

variable {P W C Task X : Type*} [DecidableEq P] [DecidableEq W]

section Threads

variable (pools : Pools P W) (program : Program P C Task X)

/-- The steps of a thread: a worker, the main thread, or one outside of the loop. -/
inductive ThreadStep :
    Owner W → ParallelEventLoop P W C Task X → ParallelEventLoop P W C Task X → Prop where
  | pop {s s' : ParallelEventLoop P W C Task X} (w : W) (h : PopStep pools w s s') :
      ThreadStep (.worker w) s s'
  | run {s s' : ParallelEventLoop P W C Task X} (w : W) (h : RunStep program w s s') :
      ThreadStep (.worker w) s s'
  | main {s s' : ParallelEventLoop P W C Task X} (h : MainStep pools program s s') :
      ThreadStep .main s s'

/-- A step of a run, and the thread that has made it. -/
structure Made (P W C Task X : Type*) where
  thread : Owner W
  before : ParallelEventLoop P W C Task X
  after : ParallelEventLoop P W C Task X

/-- A run from a state, with the steps that have been made. -/
inductive Run (s₀ : ParallelEventLoop P W C Task X) :
    List (Made P W C Task X) → ParallelEventLoop P W C Task X → Prop where
  | start : Run s₀ [] s₀
  | step {steps : List (Made P W C Task X)} {s s' : ParallelEventLoop P W C Task X}
      (thread : Owner W) (hrun : Run s₀ steps s) (h : ThreadStep pools program thread s s') :
      Run s₀ (steps ++ [⟨thread, s, s'⟩]) s'

end Threads

variable {pools : Pools P W} {program : Program P C Task X} {thread : Owner W}
  {s₀ s s' : ParallelEventLoop P W C Task X} {steps : List (Made P W C Task X)}

theorem ThreadStep.forget (h : ThreadStep pools program thread s s') : Step pools program s s' := by
  cases h with
  | pop w h => exact .pop w h
  | run w h => exact .run w h
  | main h => exact .main h

theorem Step.thread_exists (h : Step pools program s s') :
    ∃ thread, ThreadStep pools program thread s s' := by
  cases h with
  | pop w h => exact ⟨.worker w, .pop w h⟩
  | run w h => exact ⟨.worker w, .run w h⟩
  | main h => exact ⟨.main, .main h⟩

theorem Run.forget (hrun : Run pools program s₀ steps s) :
    ReflTransGen (Step pools program) s₀ s := by
  induction hrun with
  | start => exact .refl
  | step thread hrun h ih => exact ih.tail h.forget

/-- Each step of a run was made in a state of the run. -/
theorem Run.made (hrun : Run pools program s₀ steps s) {step : Made P W C Task X}
    (hstep : step ∈ steps) : ReflTransGen (Step pools program) s₀ step.before ∧
      ThreadStep pools program step.thread step.before step.after := by
  induction hrun with
  | start => cases hstep
  | step thread hrun h ih =>
    rw [List.mem_append, List.mem_singleton] at hstep
    rcases hstep with hstep | rfl
    · exact ih hstep
    · exact ⟨hrun.forget, h⟩

/-- A run can be continued by any steps, which come after those that were made. -/
theorem Run.continues (hrun : Run pools program s₀ steps s)
    (hmore : ReflTransGen (Step pools program) s s') :
    ∃ more, Run pools program s₀ (steps ++ more) s' ∧
      ∀ step ∈ more, ReflTransGen (Step pools program) s step.before := by
  induction hmore with
  | refl => exact ⟨[], by simpa using hrun, nofun⟩
  | @tail t u hmore h ih =>
    obtain ⟨more, hrun', hafter⟩ := ih
    obtain ⟨thread, hthread⟩ := h.thread_exists
    refine ⟨more ++ [⟨thread, t, u⟩], ?_, fun step hstep => ?_⟩
    · rw [← List.append_assoc]
      exact .step thread hrun' hthread
    · rw [List.mem_append, List.mem_singleton] at hstep
      rcases hstep with hstep | rfl
      · exact hafter step hstep
      · exact hmore

/-! ## Events stay in their pool -/

/-- All events of a kind are in the queue of `p` or executed by its workers. -/
structure Confined (pools : Pools P W) (kind : Task → Prop) (p : P)
    (s : ParallelEventLoop P W C Task X) : Prop where
  queued : ∀ q id task, (id, task) ∈ s.queues q → kind task → q = p
  executing : ∀ w id task, s.workers w = .executing id task → kind task → pools.pool w = p

/-- A program that pushes events of a kind to `p` only, and makes them out of no
others. -/
structure Confines (program : Program P C Task X) (kind : Task → Prop) (p : P) : Prop where
  pushes : ∀ state task state' q task' next,
    program.act state task state' (some (q, task')) next → kind task' → q = p
  becomes : ∀ state task state' event task',
    program.act state task state' event (.goes_on task') → kind task' → kind task
  env : ∀ state state' q task', program.env state state' (some (q, task')) → kind task' → q = p

variable {kind : Task → Prop} {p : P} {w : W}

omit [DecidableEq P] [DecidableEq W] in
theorem Confined.start [Fintype W] (state : C) :
    Confined pools kind p (ParallelEventLoop.start state : ParallelEventLoop P W C Task X) where
  queued q id task h := by cases h
  executing w id task h := by cases h

omit [DecidableEq W] in
theorem Confined.push_some (hc : Confined pools kind p s) {event : Option (P × Task)}
    (hevent : ∀ q task, event = some (q, task) → kind task → q = p) :
    Confined pools kind p (s.push_some event) := by
  refine ⟨fun q id task hmem hkind => ?_, fun w id task hw => ?_⟩
  · cases event with
    | none => exact hc.queued q id task hmem hkind
    | some pt =>
      obtain ⟨q', task'⟩ := pt
      by_cases hq : q = q'
      · subst hq
        simp only [ParallelEventLoop.push_some, push, Function.update_self, List.mem_append,
          List.mem_singleton, Prod.mk.injEq] at hmem
        rcases hmem with hmem | ⟨-, rfl⟩
        · exact hc.queued q id task hmem hkind
        · exact hevent q task rfl hkind
      · refine hc.queued q id task ?_ hkind
        simpa [ParallelEventLoop.push_some, push, hq] using hmem
  · rw [push_some_workers] at hw
    exact hc.executing w id task hw

omit [DecidableEq P] in
/-- A worker goes on, and what it goes on with is confined. -/
theorem Confined.go (hc : Confined pools kind p s) {worker : Worker Task X}
    (hworker : ∀ id task, worker = .executing id task → kind task → pools.pool w = p) :
    Confined pools kind p (s.go w worker) := by
  refine ⟨hc.queued, fun w' id task hw' hkind => ?_⟩
  by_cases hww : w' = w
  · subst hww
    simp only [ParallelEventLoop.go, Function.update_self] at hw'
    exact hworker id task hw' hkind
  · simp only [ParallelEventLoop.go, Function.update_of_ne hww] at hw'
    exact hc.executing w' id task hw' hkind

omit [DecidableEq P] [DecidableEq W] in
/-- Nothing else of the loop matters. -/
theorem Confined.congr (hc : Confined pools kind p s) (hqueues : s'.queues = s.queues)
    (hworkers : s'.workers = s.workers) : Confined pools kind p s' := by
  refine ⟨fun q => ?_, fun w => ?_⟩
  · rw [hqueues]
    exact hc.queued q
  · rw [hworkers]
    exact hc.executing w

/-- The event that is popped stays in the pool. -/
theorem Confined.pop (hc : Confined pools kind p s) {id : ℕ} {task : Task}
    {rest : List (ℕ × Task)} (hq : s.queues (pools.pool w) = (id, task) :: rest) :
    Confined pools kind p
      ({ s with queues := Function.update s.queues (pools.pool w) rest }.own (pools.pool w)
        none |>.go w (.executing id task)) := by
  apply Confined.go
  · refine ⟨fun q id' task' hmem hkind => ?_, hc.executing⟩
    by_cases hqq : q = pools.pool w
    · subst hqq
      simp only [own, Function.update_self] at hmem
      exact hc.queued _ id' task' (by rw [hq]; exact List.mem_cons_of_mem _ hmem) hkind
    · simp only [own, Function.update_of_ne hqq] at hmem
      exact hc.queued q id' task' hmem hkind
  · intro id' task' heq hkind
    cases heq
    exact hc.queued _ id task (by rw [hq]; exact List.mem_cons_self) hkind

/-- An action of an event pushes another one, and the worker goes on. -/
theorem Confined.act (hc : Confined pools kind p s) (hqueues : s'.queues = s.queues)
    (hworkers : s'.workers = s.workers) {event : Option (P × Task)} {worker : Worker Task X}
    (hevent : ∀ q task, event = some (q, task) → kind task → q = p)
    (hworker : ∀ id task, worker = .executing id task → kind task → pools.pool w = p) :
    Confined pools kind p ((s'.push_some event).go w worker) := by
  apply Confined.go
  · exact (hc.congr hqueues hworkers).push_some hevent
  · exact hworker

theorem PopStep.confined (hc : Confined pools kind p s) (h : PopStep pools w s s') :
    Confined pools kind p s' := by
  cases h with
  | pop hw hq => exact hc.pop hq
  | lock | found | found_none | guard | block | wake | waited | unguard | pop_none =>
    apply Confined.go
    · exact hc.congr rfl rfl
    · intro id task heq
      cases heq

theorem RunStep.confined (hprogram : Confines program kind p) (hc : Confined pools kind p s)
    (h : RunStep program w s s') : Confined pools kind p s' := by
  cases h with
  | goes_on hw hpush hact =>
    refine hc.act (by rfl) (by rfl) (fun q task hevent => ?_) (fun id task heq hkind => ?_)
    · subst hevent
      exact hprogram.pushes _ _ _ q task _ hact
    · -- the worker was already executing such an event
      cases heq
      exact hc.executing w _ _ hw (hprogram.becomes _ _ _ _ _ hact hkind)
  | returns hw hpush hact | throws hw hpush hact =>
    refine hc.act (by rfl) (by rfl) (fun q task hevent => ?_) (fun id task heq => ?_)
    · subst hevent
      exact hprogram.pushes _ _ _ q task _ hact
    · cases heq
  | stores hw =>
    apply Confined.go
    · exact hc.congr rfl rfl
    · intro id task heq
      cases heq

theorem MainStep.confined (hprogram : Confines program kind p) (hc : Confined pools kind p s)
    (h : MainStep pools program s s') : Confined pools kind p s' := by
  cases h with
  | env hmain hpush henv =>
    refine (hc.congr (by rfl) (by rfl)).push_some fun q task hevent => ?_
    subst hevent
    exact hprogram.env _ _ q task henv
  | _ => exact hc.congr rfl rfl

/-- **Every step keeps the events of a kind in their pool.** -/
theorem Step.confined (hprogram : Confines program kind p) (hc : Confined pools kind p s)
    (h : Step pools program s s') : Confined pools kind p s' := by
  cases h with
  | pop w h => exact h.confined hc
  | run w h => exact h.confined hprogram hc
  | main h => exact h.confined hprogram hc

/-- In every run the events of a kind are executed by the workers of their pool. -/
theorem run_confined [Fintype W] {state : C} (hprogram : Confines program kind p)
    (hrun : ReflTransGen (Step pools program) (start state) s) : Confined pools kind p s :=
  History.keeps (I := Confined pools kind p) (fun _ _ hc h => h.confined hprogram hc)
    (.start state) hrun

end EventLoop
end Kaiu
