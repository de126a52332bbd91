/-
The order in which the events of a pool are executed.

Events are numbered by their pushes. A pool's queue hands them out in this order, to
whichever worker of the pool comes first, so that each worker executes events in the
order of their pushes, and an event that is still queued was pushed after all of the
pool's that have begun. With several workers a later event may overtake an earlier one;
a pool with one worker is a mutex: its events are executed one after the other, each to
its end, in the order in which they were pushed.
-/
import Kaiu.EventLoop

set_option autoImplicit false

namespace Kaiu
namespace EventLoop

open ParallelEventLoop Relation

variable {P W C Task X : Type*} [DecidableEq P] [DecidableEq W] {pools : Pools P W}
  {program : Program P C Task X} {s s' : ParallelEventLoop P W C Task X} {w : W} {p : P}

/-- The event that the worker executes. -/
def Worker.current : Worker Task X → List ℕ
  | .executing id _ => [id]
  | _ => []

namespace ParallelEventLoop

/-- The events that have been pushed to a pool, in order. -/
def pushed_to (s : ParallelEventLoop P W C Task X) (p : P) : List ℕ :=
  (s.pushed.zipIdx.filter fun push => push.1 = p).map Prod.snd

/-- The events that a worker has begun to execute, in order. -/
def begun (s : ParallelEventLoop P W C Task X) (w : W) : List ℕ :=
  (s.ended.filter fun event => event.2 = w).map Prod.fst ++ (s.workers w).current

end ParallelEventLoop

section Parts

omit [DecidableEq W] in
theorem pushed_to_push (q : P) (task : Task) :
    (s.push q task).pushed_to p = s.pushed_to p ++ if q = p then [s.pushed.length] else [] := by
  simp only [pushed_to, push, List.zipIdx_append, List.filter_append, List.map_append]
  by_cases h : q = p <;> simp [h]

omit [DecidableEq P] in
/-- A worker that does not execute an event goes on to something else. -/
theorem begun_go {x : Worker Task X} (hx : x.current = (s.workers w).current) (v : W) :
    (s.go w x).begun v = s.begun v := by
  by_cases hv : v = w
  · subst hv
    simp [begun, go, hx]
  · simp [begun, go, hv]

omit [DecidableEq P] in
/-- An event that ends has begun. -/
theorem begun_end {id : ℕ} {task : Task} {x : Worker Task X} (hw : s.workers w = .executing id task)
    (hx : x.current = []) (state : C) (thrown : List (ℕ × X)) (v : W) :
    ({ s with state := state, ended := s.ended ++ [(id, w)], thrown := thrown }.go w x).begun v
      = s.begun v := by
  by_cases hv : v = w
  · subst hv
    have hcurrent : (s.workers v).current = [id] := by rw [hw, Worker.current]
    simp [begun, go, hx, hcurrent]
  · simp [begun, go, hv, Ne.symm hv]

end Parts

/-! ## The invariant -/

/-- The events of a pool begin in the order of their pushes. -/
def InOrder (pools : Pools P W) (s : ParallelEventLoop P W C Task X) (p : P) : Prop :=
  ∃ taken, s.pushed_to p = taken ++ (s.queues p).map Prod.fst ∧
    ∀ w, pools.pool w = p →
      (s.begun w).Sublist taken ∧ ((∀ v, pools.pool v = p → v = w) → s.begun w = taken)

theorem InOrder.start [Fintype W] (state : C) :
    InOrder pools (ParallelEventLoop.start state : ParallelEventLoop P W C Task X) p :=
  ⟨[], rfl, fun _ _ => ⟨.slnil, fun _ => rfl⟩⟩

/-- Nothing is pushed, and no event begins. -/
theorem InOrder.congr (h : InOrder pools s p) (hpushed : s'.pushed = s.pushed)
    (hqueues : s'.queues = s.queues) (hbegun : ∀ v, s'.begun v = s.begun v) :
    InOrder pools s' p := by
  obtain ⟨taken, hpushes, htaken⟩ := h
  refine ⟨taken, ?_, fun w hw => ?_⟩
  · rw [pushed_to, hpushed, hqueues]
    exact hpushes
  · rw [hbegun]
    exact htaken w hw

/-- The event that is pushed comes last. -/
theorem InOrder.push_some (h : InOrder pools s p) (event : Option (P × Task)) :
    InOrder pools (s.push_some event) p := by
  cases event with
  | none => exact h
  | some qt =>
    obtain ⟨q, task⟩ := qt
    obtain ⟨taken, hpushes, htaken⟩ := h
    refine ⟨taken, ?_, htaken⟩
    have hpush := pushed_to_push (s := s) (p := p) q task
    rw [hpushes] at hpush
    rw [ParallelEventLoop.push_some, hpush]
    by_cases hq : q = p
    · subst hq
      simp [push]
    · simp [push, hq, Ne.symm hq]

/-- The event that begins is the first of the queue. -/
theorem InOrder.pop (h : InOrder pools s p) {id : ℕ} {task : Task} {rest : List (ℕ × Task)}
    (hw : s.workers w = .popping) (hq : s.queues (pools.pool w) = (id, task) :: rest) :
    InOrder pools ({ s with queues := Function.update s.queues (pools.pool w) rest }.own
      (pools.pool w) none |>.go w (.executing id task)) p := by
  obtain ⟨taken, hpushes, htaken⟩ := h
  by_cases hp : pools.pool w = p
  · subst hp
    refine ⟨taken ++ [id], ?_, fun v hv => ?_⟩
    · simp only [go, own, Function.update_self]
      rw [hq, List.map_cons] at hpushes
      rw [List.append_assoc, List.singleton_append]
      exact hpushes
    · obtain ⟨hsub, hone⟩ := htaken v hv
      by_cases hvw : v = w
      · subst hvw
        have hbegun : (s.begun v ++ [id]) = ({ s with
            queues := Function.update s.queues (pools.pool v) rest }.own (pools.pool v) none |>.go v
              (.executing id task)).begun v := by
          simp [begun, go, own, hw, Worker.current]
        rw [← hbegun]
        exact ⟨hsub.append (.refl _), fun h => by rw [hone h]⟩
      · -- another worker of the pool
        have hbegun : s.begun v = ({ s with
            queues := Function.update s.queues (pools.pool w) rest }.own (pools.pool w) none |>.go w
              (.executing id task)).begun v := by
          simp [begun, go, own, hvw]
        rw [← hbegun]
        exact ⟨hsub.trans (List.sublist_append_left ..), fun h => absurd (h w rfl).symm hvw⟩
  · refine ⟨taken, ?_, fun v hv => ?_⟩
    · simp only [go, own, Function.update_of_ne (Ne.symm hp)]
      exact hpushes
    · have hvw : v ≠ w := by
        rintro rfl
        exact hp hv
      have hbegun : s.begun v = ({ s with
          queues := Function.update s.queues (pools.pool w) rest }.own (pools.pool w) none |>.go w
            (.executing id task)).begun v := by
        simp [begun, go, own, hvw]
      rw [← hbegun]
      exact htaken v hv

theorem PopStep.inOrder (h : InOrder pools s p) (hstep : PopStep pools w s s') :
    InOrder pools s' p := by
  cases hstep with
  | pop hw hq => exact h.pop hw hq
  | lock hw | found hw | found_none hw | guard hw | block hw | wake hw | waited hw | unguard hw
  | pop_none hw =>
    exact h.congr rfl rfl (begun_go (by simp [hw, own, adjust, Worker.current]))

theorem RunStep.inOrder (h : InOrder pools s p) (hstep : RunStep program w s s') :
    InOrder pools s' p := by
  cases hstep with
  | goes_on hw hpush hact =>
    rename_i id task task' state event
    rw [go_push_some]
    refine InOrder.push_some ?_ event
    exact h.congr rfl rfl (begun_go (s := { s with state := state }) (by simp [hw, Worker.current]))
  | returns hw hpush hact | throws hw hpush hact =>
    rw [go_push_some]
    refine InOrder.push_some ?_ _
    exact h.congr rfl rfl (begun_end hw rfl _ _)
  | stores hw =>
    exact h.congr rfl rfl (begun_go (s := { s with exceptions := _ })
      (by simp [hw, Worker.current]))

theorem MainStep.inOrder (h : InOrder pools s p) (hstep : MainStep pools program s s') :
    InOrder pools s' p := by
  cases hstep with
  | env hmain hpush henv =>
    refine InOrder.push_some ?_ _
    exact h.congr rfl rfl fun _ => rfl
  | _ => exact h.congr rfl rfl fun _ => rfl

/-- **Every step keeps the events of a pool in order.** -/
theorem Step.inOrder (h : InOrder pools s p) (hstep : Step pools program s s') :
    InOrder pools s' p := by
  cases hstep with
  | pop w hstep => exact hstep.inOrder h
  | run w hstep => exact hstep.inOrder h
  | main hstep => exact hstep.inOrder h

/-! ## Runs -/

/-- **Events begin in the order of their pushes.** In every run, whatever the events do
and in whatever order the threads make their steps: the events that have been pushed to
a pool are those that have been taken and, behind them, those in its queue; each worker
of the pool has begun events that have been taken, in the order of their pushes; and if
the pool has no other worker, it has begun all of them, and ended all but the last. -/
theorem events_begin_in_order [Fintype W] (program : Program P C Task X) (state : C)
    (hrun : ReflTransGen (Step pools program) (start state) s) (p : P) :
    ∃ taken, s.pushed_to p = taken ++ (s.queues p).map Prod.fst ∧
      ∀ w, pools.pool w = p →
        (s.begun w).Sublist taken ∧ ((∀ v, pools.pool v = p → v = w) → s.begun w = taken) :=
  History.keeps (I := fun s => InOrder pools s p) (fun _ _ h hstep => hstep.inOrder h)
    (.start state) hrun

/-- One pool with one worker, and three events that return: while it executes the second
one, the third is in the queue. -/
theorem events_begin_in_order_three_events :
    ∃ s : ParallelEventLoop Unit Unit Unit Unit Empty,
      s.begun () = [0, 1] ∧ s.pushed_to () = s.begun () ++ [2] := by
  let pools : Pools Unit Unit := ⟨id, [()], by simp⟩
  let program : Program Unit Unit Unit Empty :=
    ⟨fun _ _ _ event next => event = none ∧ next = .returns, fun _ _ _ => True⟩
  have hpush : ∀ s : ParallelEventLoop Unit Unit Unit Unit Empty, s.main = .running →
      s.can_push (some ((), ())) → Step pools program s (s.push () ()) := fun s hmain hpush =>
    .main (@MainStep.env _ _ _ _ _ _ _ pools program s () (some ((), ())) (fun _ => hmain) hpush
      trivial)
  have hrun : ReflTransGen (Step pools program) (start ()) (start ()) := .refl
  have hrun := hrun.tail (hpush _ rfl fun _ _ _ => rfl)
  have hrun := hrun.tail (hpush _ rfl fun _ _ _ => rfl)
  have hrun := hrun.tail (hpush _ rfl fun _ _ _ => rfl)
  have hrun := hrun.trans (takes_event (w := ()) rfl rfl rfl)
  have hrun := hrun.tail (.run () (@RunStep.returns _ _ _ _ _ _ _ program () _ 0 () () none rfl
    nofun ⟨rfl, rfl⟩))
  have hrun := hrun.trans (takes_event (w := ()) rfl rfl rfl)
  obtain ⟨taken, hpushes, hworkers⟩ := events_begin_in_order program () hrun ()
  refine ⟨_, by rfl, hpushes.trans ?_⟩
  rw [(hworkers () rfl).2 fun _ _ => rfl]
  rfl

end EventLoop
end Kaiu
