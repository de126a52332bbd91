/-
`SynchronousEventLoop` with events that throw.

An exception leaves `do_loop` at once, and the constructor with it. What has been run by
then is the level order of the tree up to the first event that throws, this one included;
what has been pushed, by this event as well, is a longer beginning of the level order, of
which the rest is destroyed with the queue.
-/
import Kaiu.SynchronousLoop

set_option autoImplicit false

namespace Kaiu

open Exit LevelOrder

variable {α X : Type*}

/-- The events up to the first one that throws, and what it throws. -/
def EventFunc.until_throw : List (EventFunc α X) → List (EventFunc α X) × Option X
  | [] => ([], none)
  | e :: events =>
    match e.error with
    | some x => ([e], some x)
    | none => (e :: (until_throw events).1, (until_throw events).2)

theorem EventFunc.until_throw_initial (events : List (EventFunc α X)) :
    (until_throw events).1 <+: events := by
  induction events with
  | nil => exact List.nil_prefix
  | cons e events ih =>
    rw [until_throw]
    cases e.error with
    | some x => exact List.prefix_append [e] events
    | none => exact (List.prefix_cons_inj e).mpr ih

namespace SynchronousEventLoop

open EventFunc (children until_throw)

variable {s : SynchronousEventLoop α X} {event : EventFunc α X} {events : List (EventFunc α X)}

theorem until_throw_cons_none (herror : event.error = none) : until_throw (event :: events)
    = (event :: (until_throw events).1, (until_throw events).2) := by
  rw [until_throw, herror]

theorem until_throw_cons_some {x : X} (herror : event.error = some x) :
    until_throw (event :: events) = ([event], some x) := by
  rw [until_throw, herror]

theorem until_throw_none (h : (until_throw events).2 = none) : (until_throw events).1 = events := by
  induction events with
  | nil => rfl
  | cons event events ih =>
    cases herror : event.error with
    | none =>
      rw [until_throw_cons_none herror] at h ⊢
      rw [ih h]
    | some x =>
      rw [until_throw_cons_some herror] at h
      cases h

/-- One turn of the loop, if the event throws. -/
theorem do_loop_throws (fuel : ℕ) {x : X} (hevents : s.events = event :: events)
    (herror : event.error = some x) :
    do_loop (fuel + 1) s = some (throws
      { events := events ++ event.children, pushed := s.pushed ++ event.children
        executed := s.executed ++ [event] } x) := by
  rw [do_loop, hevents]
  simp only [run_eq, herror, throws]

/-- The state of the loop after `n` turns, apart from what has been pushed. -/
def Turned (n : ℕ) (s s' : SynchronousEventLoop α X) : Prop :=
  s'.executed = s.executed ++ (takings children n s.events).1 ∧
    s'.events = (takings children n s.events).2

theorem Turned.of_next {n : ℕ} {s' : SynchronousEventLoop α X} {pushed : List (EventFunc α X)}
    (hevents : s.events = event :: events)
    (h : Turned n { events := events ++ event.children, pushed := pushed
                    executed := s.executed ++ [event] } s') : Turned (n + 1) s s' := by
  obtain ⟨hexecuted, hqueue⟩ := h
  rw [Turned, hevents, takings]
  refine ⟨?_, hqueue⟩
  rw [hexecuted, List.append_assoc, List.singleton_append]

/-- **The loop takes events from the queue up to the first one that throws.** Of `n`
turns, either all return, or the one that throws is the last one. -/
theorem do_loop_until_throw (n : ℕ) (hn : (takings children n s.events).1.length = n) :
    ∃ s', Turned (until_throw (takings children n s.events).1).1.length s s' ∧
      match (until_throw (takings children n s.events).1).2 with
      | some x => ∀ fuel, do_loop (n + fuel) s = some (throws s' x)
      | none => ∀ fuel, do_loop (n + fuel) s = do_loop fuel s' := by
  induction n generalizing s with
  | zero =>
    refine ⟨s, ⟨(List.append_nil _).symm, rfl⟩, fun fuel => ?_⟩
    rw [Nat.zero_add]
  | succ n ih =>
    cases hevents : s.events with
    | nil =>
      -- the queue has not run out before
      rw [hevents, takings] at hn
      cases hn
    | cons event events =>
      rw [hevents, takings, List.length_cons, Nat.add_right_cancel_iff] at hn
      rw [takings]
      cases herror : event.error with
      | some x =>
        rw [until_throw_cons_some herror]
        refine ⟨{ events := events ++ event.children, pushed := s.pushed ++ event.children
                  executed := s.executed ++ [event] }, ?_, fun fuel => ?_⟩
        · rw [List.length_singleton, Turned, hevents]
          exact ⟨rfl, rfl⟩
        · rw [Nat.succ_add]
          exact do_loop_throws _ hevents herror
      | none =>
        obtain ⟨s', hturned, hloop⟩ := ih (s := {
          events := events ++ event.children, pushed := s.pushed ++ event.children
          executed := s.executed ++ [event] }) hn
        rw [until_throw_cons_none herror]
        refine ⟨s', hturned.of_next hevents, ?_⟩
        have hnext : ∀ fuel, do_loop (n + 1 + fuel) s = do_loop (n + fuel)
            { events := events ++ event.children, pushed := s.pushed ++ event.children
              executed := s.executed ++ [event] } := fun fuel => by
          rw [Nat.succ_add, do_loop_succ _ hevents herror]
        simp only [hnext]
        exact hloop

/-- **Events run in level order until one throws.** From every event the constructor comes
to an end: it throws what the first event of the level order that throws has thrown, and
returns if there is none; the events that have been run are those up to that one, or all;
and they, followed by what is left in the queue, are the events that have been pushed, in
the order of the pushes, and the beginning of the level order. -/
theorem runs_until_throw (start : EventFunc α X) :
    ∃ fuel s depth, level children depth [start] = [] ∧
      (∀ n, fuel ≤ n → create n start
        = some (s, (until_throw (levels children depth [start])).2)) ∧
      s.executed = (until_throw (levels children depth [start])).1 ∧
      s.executed ++ s.events = s.pushed ∧ s.pushed <+: levels children depth [start] := by
  obtain ⟨depth, hdepth⟩ := exists_level_eq_nil start.acc_children
  let order := levels children depth [start]
  have htakings : takings children order.length [start] = (order, []) :=
    (takings_levels depth [start]).trans (congrArg _ hdepth)
  obtain ⟨s, hturned, hloop⟩ := do_loop_until_throw (s := push .reactor start {}) order.length
    (congrArg (fun r => r.1.length) htakings)
  have hqueue : (push .reactor start {} : SynchronousEventLoop α X).events = [start] := rfl
  rw [hqueue, htakings] at hturned hloop
  obtain ⟨hexecuted, hevents⟩ := hturned
  rw [hqueue] at hexecuted hevents
  have hcreate : ∀ fuel, create (order.length + (fuel + 1)) start
      = some (s, (until_throw order).2) := by
    intro fuel
    cases hx : (until_throw order).2 with
    | some x =>
      simp only [hx] at hloop
      exact hloop _
    | none =>
      simp only [hx] at hloop
      rw [until_throw_none hx, htakings] at hevents
      rw [create, hloop, do_loop_nil _ hevents]
      rfl
  have hpushed : s.executed ++ s.events = s.pushed :=
    do_loop_inOrder _ (s := push .reactor start {}) rfl (hcreate 0)
  have huntil := EventFunc.until_throw_initial order
  have hinitial := takings_initial huntil.length_le [start] (congrArg Prod.snd htakings)
  rw [htakings] at hinitial
  have htaken : (takings children (until_throw order).1.length [start]).1 = _ :=
    takings_take huntil.length_le [start]
  rw [htakings, ← List.prefix_iff_eq_take.mp huntil] at htaken
  refine ⟨order.length + 1, s, depth, hdepth, fun n hn => ?_, ?_, hpushed, ?_⟩
  · obtain ⟨fuel, rfl⟩ := Nat.exists_eq_add_of_le hn
    rw [Nat.add_assoc, Nat.add_comm 1 fuel]
    exact hcreate fuel
  · exact hexecuted.trans htaken
  · rw [← hpushed, hexecuted, hevents]
    exact hinitial

example : (create 5 (.event "A" [(.reactor, .event "B1" [(.reactor, .event "C" [] none)] (some 7)),
      (.reactor, .event "B2" [] none)] none : EventFunc String ℕ)).map
    (fun r => (r.1.executed.map EventFunc.name, r.1.events.map EventFunc.name, r.2))
    = some (["A", "B1"], ["B2", "C"], some 7) := by
  decide

end SynchronousEventLoop
end Kaiu
