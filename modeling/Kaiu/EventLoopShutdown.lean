/-
`~ParallelEventLoop`: whether the workers that wait for an event are woken.

The destructor stores `nowaiting` for each queue and notifies the workers that are
blocked in `pop`, and does neither with the queue locked. So the wait of `pop`,
which is a single step of the loop while only events can end it, has its steps
apart here: the evaluation of `end_wait_condition`, the atomic release-and-block,
the wake-up, by `notify_one`, `notify_all` or nobody, and the locking that follows
it. Everything else is as in the loop, whose steps are used as they are.

What decides is where a worker stands when `notify_all` is called. One that has
evaluated the condition before the store and has not blocked yet is not notified,
and blocks for good (`NotifyAll.strands`). If there is no such worker then there
will be none, since the condition is true from the store on, and all that were
blocked have a wake-up (`Woken`).
-/
import Kaiu.EventLoopJoin

set_option autoImplicit false

namespace Kaiu
namespace EventLoop

open ParallelEventLoop Relation

variable {P W C Task X : Type*}

/-- The worker is in `unblock.wait` or evaluates `end_wait_condition`. -/
def Worker.waits : Worker Task X → Bool
  | .locked | .waiting | .blocked => true
  | _ => false

/-- The worker is blocked in `unblock.wait`. -/
def Worker.is_blocked : Worker Task X → Bool
  | .blocked => true
  | _ => false

@[simp] theorem Worker.is_blocked_iff {x : Worker Task X} :
    x.is_blocked = true ↔ x = .blocked := by
  cases x <;> simp [Worker.is_blocked]

/-- Where the main thread stands in `~ParallelEventLoop`. -/
inductive Destructor where
  /-- The destructor has not been called. -/
  | alive
  /-- In `join(nullptr)`. -/
  | joining
  /-- `nowaiting` of the queue number `n` is to be stored or, when there is no such
  queue, the threads are to be joined. -/
  | storing (n : ℕ)
  /-- `unblock.notify_all` of the queue number `n` is to be called. -/
  | notifying (n : ℕ)
  | returned

/-- `set_nowaiting(true)` has finished on the queue number `n`. -/
def Destructor.finished (n : ℕ) : Destructor → Prop
  | .alive | .joining => False
  | .storing k | .notifying k => n < k
  | .returned => True

/-- A loop with what its condition variables know of its threads. -/
structure Shutdown (P W C Task X : Type*) where
  loop : ParallelEventLoop P W C Task X
  nowaiting : P → Bool := fun _ => false
  /-- In `unblock.wait`, `end_wait_condition` was false. -/
  checked : W → Bool := fun _ => false
  /-- Blocked in `unblock.wait`, with a wake-up pending. -/
  woken : W → Bool := fun _ => false
  destructor : Destructor := .alive

namespace Shutdown

/-- A loop whose workers have been let go. -/
def start [Fintype W] (state : C) : Shutdown P W C Task X :=
  { loop := ParallelEventLoop.start state }

/-- `end_wait_condition` in `pop`. -/
def end_wait_condition (p : P) (s : Shutdown P W C Task X) : Prop :=
  s.nowaiting p = true ∨ s.loop.queues p ≠ []

theorem not_ends_wait {p : P} {s : Shutdown P W C Task X} (hn : s.nowaiting p = false)
    (hq : s.loop.queues p = []) : ¬ s.end_wait_condition p := by
  simp [end_wait_condition, hn, hq]

/-- `unblock.notify_one()`: what becomes of the pending wake-ups. -/
def notify_one (pools : Pools P W) [DecidableEq W] (p : P) (s : Shutdown P W C Task X)
    (woken : W → Bool) : Prop :=
  (∃ w, pools.pool w = p ∧ s.loop.workers w = .blocked ∧ s.woken w = false ∧
    woken = Function.update s.woken w true) ∨
  (∀ w, pools.pool w = p → s.loop.workers w = .blocked → s.woken w = true) ∧ woken = s.woken

/-- What becomes of the pending wake-ups when the loop goes on to `loop`: a push
notifies one worker. -/
def notifies (pools : Pools P W) [DecidableEq W] (loop : ParallelEventLoop P W C Task X)
    (s : Shutdown P W C Task X) (woken : W → Bool) : Prop :=
  loop.pushed = s.loop.pushed ∧ woken = s.woken ∨
  ∃ p, loop.pushed = s.loop.pushed ++ [p] ∧ s.notify_one pools p woken

/-- `unblock.notify_all()`. -/
def notify_all (pools : Pools P W) [DecidableEq P] (p : P) (s : Shutdown P W C Task X) :
    Shutdown P W C Task X :=
  { s with woken := fun w =>
      s.woken w || (decide (pools.pool w = p) && (s.loop.workers w).is_blocked) }

section Steps

variable [DecidableEq P] [DecidableEq W] (pools : Pools P W) (program : Program P C Task X)

/-- The steps of a worker in `pop`. -/
inductive PopStep (w : W) : Shutdown P W C Task X → Shutdown P W C Task X → Prop where
  /-- Outside of the wait. -/
  | pop {s : Shutdown P W C Task X} {loop : ParallelEventLoop P W C Task X}
      (hw : (s.loop.workers w).waits = false) (h : EventLoop.PopStep pools w s.loop loop) :
      PopStep w s { s with loop := loop }
  | found {s : Shutdown P W C Task X} (hw : s.loop.workers w = .locked)
      (hend : s.end_wait_condition (pools.pool w)) :
      PopStep w s { s with loop := s.loop.go w .popping }
  | found_none {s : Shutdown P W C Task X} (hw : s.loop.workers w = .locked)
      (hend : ¬ s.end_wait_condition (pools.pool w)) :
      PopStep w s { s with loop := s.loop.go w .guarding }
  /-- `end_wait_condition` is false in `unblock.wait`. -/
  | check {s : Shutdown P W C Task X} (hw : s.loop.workers w = .waiting)
      (hend : ¬ s.end_wait_condition (pools.pool w)) (hchecked : s.checked w = false) :
      PopStep w s { s with checked := Function.update s.checked w true }
  /-- The atomic release-and-block. -/
  | block {s : Shutdown P W C Task X} (hw : s.loop.workers w = .waiting)
      (hchecked : s.checked w = true) :
      PopStep w s { s with
        loop := (s.loop.own (pools.pool w) none).go w .blocked
        checked := Function.update s.checked w false
        woken := Function.update s.woken w false }
  /-- A wake-up for no reason. -/
  | spurious {s : Shutdown P W C Task X} (hw : s.loop.workers w = .blocked) :
      PopStep w s { s with woken := Function.update s.woken w true }
  | wake {s : Shutdown P W C Task X} (hw : s.loop.workers w = .blocked)
      (hwoken : s.woken w = true) (hm : s.loop.queue_mutex (pools.pool w) = none) :
      PopStep w s { s with
        loop := (s.loop.own (pools.pool w) (some (.worker w))).go w .waiting
        woken := Function.update s.woken w false }
  | waited {s : Shutdown P W C Task X} (hw : s.loop.workers w = .waiting)
      (hend : s.end_wait_condition (pools.pool w)) (hchecked : s.checked w = false) :
      PopStep w s { s with loop := s.loop.go w .unguarding }

/-- The steps of the destructor. -/
inductive DestructorStep : Shutdown P W C Task X → Shutdown P W C Task X → Prop where
  | called {s : Shutdown P W C Task X} (hd : s.destructor = .alive)
      (hmain : s.loop.main = .running) :
      DestructorStep s { s with
        loop := { s.loop with main := .processing }, destructor := .joining }
  | joined {s : Shutdown P W C Task X} (hd : s.destructor = .joining)
      (hmain : s.loop.main = .returned) : DestructorStep s { s with destructor := .storing 0 }
  /-- `nowaiting = value`. -/
  | store {s : Shutdown P W C Task X} {n : ℕ} {p : P} (hd : s.destructor = .storing n)
      (hp : pools.queues[n]? = some p) :
      DestructorStep s { s with
        nowaiting := Function.update s.nowaiting p true, destructor := .notifying n }
  /-- `unblock.notify_all()`. -/
  | notify {s : Shutdown P W C Task X} {n : ℕ} {p : P} (hd : s.destructor = .notifying n)
      (hp : pools.queues[n]? = some p) :
      DestructorStep s { s.notify_all pools p with destructor := .storing (n + 1) }
  /-- `thread.join()` of all threads. -/
  | joins {s : Shutdown P W C Task X} {n : ℕ} (hd : s.destructor = .storing n)
      (hn : pools.queues.length ≤ n) (hw : ∀ w, s.loop.workers w = .left) :
      DestructorStep s { s with destructor := .returned }

/-- The steps of a loop that is going to be destroyed. -/
inductive Step : Shutdown P W C Task X → Shutdown P W C Task X → Prop where
  | pop {s s' : Shutdown P W C Task X} (w : W) (h : PopStep pools w s s') : Step s s'
  | run {s : Shutdown P W C Task X} {loop : ParallelEventLoop P W C Task X} {woken : W → Bool}
      (w : W) (h : RunStep program w s.loop loop) (hnotify : s.notifies pools loop woken) :
      Step s { s with loop := loop, woken := woken }
  /-- The main thread does not go on with anything else once the destructor has been
  called. -/
  | main {s : Shutdown P W C Task X} {loop : ParallelEventLoop P W C Task X} {woken : W → Bool}
      (hd : loop.main = .running → s.destructor = .alive)
      (h : MainStep pools program s.loop loop) (hnotify : s.notifies pools loop woken) :
      Step s { s with loop := loop, woken := woken }
  | destructor {s s' : Shutdown P W C Task X} (h : DestructorStep pools s s') : Step s s'

end Steps

/-- A worker is blocked for good: `set_nowaiting(true)` has finished on its queue and
no wake-up is pending for it. -/
structure Stranded (pools : Pools P W) (s : Shutdown P W C Task X) (w : W) : Prop where
  finished : ∃ n, pools.queues[n]? = some (pools.pool w) ∧ s.destructor.finished n
  blocked : s.loop.workers w = .blocked
  not_woken : s.woken w = false

/-- If the step is that of `notify_all`, then no worker of the queue stands between
the evaluation of `end_wait_condition` and the release-and-block. -/
def Prompt (pools : Pools P W) (s s' : Shutdown P W C Task X) : Prop :=
  ∀ n p, s.destructor = .notifying n → s'.destructor = .storing (n + 1) →
    pools.queues[n]? = some p → ∀ w, pools.pool w = p → s.checked w = false

section Workers

variable [DecidableEq P] [DecidableEq W] {pools : Pools P W} {program : Program P C Task X}
  {l l' : ParallelEventLoop P W C Task X} {w v : W}

/-- No worker gets blocked, except in the wait. -/
theorem blocked_of_pop (hw : (l.workers w).waits = false) (h : EventLoop.PopStep pools w l l')
    (hv : l'.workers v = .blocked) : l.workers v = .blocked := by
  by_cases hvw : v = w
  · subst hvw
    cases h <;> simp_all [go, own, adjust, Worker.waits]
  · cases h <;> simpa [go, own, adjust, hvw] using hv

theorem blocked_of_run (h : RunStep program w l l') (hv : l'.workers v = .blocked) :
    l.workers v = .blocked := by
  by_cases hvw : v = w
  · subst hvw
    cases h <;> simp [go] at hv
  · cases h <;> simpa [go, hvw] using hv

/-- No worker leaves the wait, except in it. -/
theorem waiting_of_pop (hw : (l.workers w).waits = false) (h : EventLoop.PopStep pools w l l')
    (hv : l.workers v = .waiting) : l'.workers v = .waiting := by
  have hvw : v ≠ w := by
    rintro rfl
    simp [hv, Worker.waits] at hw
  cases h <;> simpa [go, own, adjust, hvw] using hv

theorem waiting_of_run (h : RunStep program w l l') (hv : l.workers v = .waiting) :
    l'.workers v = .waiting := by
  by_cases hvw : v = w
  · subst hvw
    cases h <;> simp_all
  · cases h <;> simpa [go, hvw] using hv

theorem workers_of_main (h : MainStep pools program l l') : l'.workers = l.workers := by
  cases h <;> simp [own, unlock_all]

end Workers

section Invariants

variable [DecidableEq P] [DecidableEq W] {pools : Pools P W} {program : Program P C Task X}
  {s s' : Shutdown P W C Task X} {w : W}

omit [DecidableEq P] in
/-- A pending wake-up stays pending when others are notified. -/
theorem notifies_mono {loop : ParallelEventLoop P W C Task X} {woken : W → Bool}
    (h : s.notifies pools loop woken) (hw : s.woken w = true) : woken w = true := by
  rcases h with ⟨-, rfl⟩ | ⟨p, -, ⟨v, -, -, -, rfl⟩ | ⟨-, rfl⟩⟩
  · exact hw
  · by_cases hwv : w = v
    · simp [hwv]
    · simpa [hwv] using hw
  · exact hw

/-- A worker that is about to block is in the wait. -/
def Checked (s : Shutdown P W C Task X) : Prop :=
  ∀ w, s.checked w = true → s.loop.workers w = .waiting

theorem PopStep.keeps_checked (hc : Checked s) (h : PopStep pools w s s') : Checked s' := by
  intro v hv
  cases h with
  | pop hw h => exact waiting_of_pop hw h (hc v hv)
  | spurious hw => exact hc v hv
  | check hw hend hchecked =>
    by_cases hvw : v = w
    · rw [hvw]
      exact hw
    · exact hc v (by simpa [hvw] using hv)
  | block hw hchecked =>
    have hvw : v ≠ w := by
      rintro rfl
      simp at hv
    have hwait := hc v (by simpa [hvw] using hv)
    simpa [go, own, hvw] using hwait
  | found hw hend | found_none hw hend | wake hw hwoken hm | waited hw hend hchecked =>
    have hwait := hc v hv
    have hvw : v ≠ w := by
      rintro rfl
      simp_all
    simpa [go, own, hvw] using hwait

theorem Step.keeps_checked (hc : Checked s) (h : Step pools program s s') : Checked s' := by
  cases h with
  | pop w h => exact h.keeps_checked hc
  | run w h hnotify => exact fun v hv => waiting_of_run h (hc v hv)
  | main hd h hnotify =>
    intro v hv
    rw [workers_of_main h]
    exact hc v hv
  | destructor h => cases h <;> exact hc

/-- What holds of the workers of the queues that have been set to no-waiting mode. -/
structure Woken (pools : Pools P W) (s : Shutdown P W C Task X) : Prop where
  stored : ∀ n p, s.destructor = .notifying n → pools.queues[n]? = some p → s.nowaiting p = true
  nowaiting : ∀ n p, s.destructor.finished n → pools.queues[n]? = some p → s.nowaiting p = true
  not_checked : ∀ n w, s.destructor.finished n → pools.queues[n]? = some (pools.pool w) →
    s.checked w = false
  woken : ∀ n w, s.destructor.finished n → pools.queues[n]? = some (pools.pool w) →
    s.loop.workers w = .blocked → s.woken w = true

omit [DecidableEq P] [DecidableEq W] in
/-- The loop goes on, and no worker gets blocked. -/
theorem Woken.goes_on (hw : Woken pools s) (hn : s'.nowaiting = s.nowaiting)
    (hd : s'.destructor = s.destructor) (hc : s'.checked = s.checked)
    (hb : ∀ v, s'.loop.workers v = .blocked → s.woken v = true ∨ s.loop.workers v ≠ .blocked →
      s'.woken v = true) : Woken pools s' := by
  refine ⟨?_, ?_, ?_, fun n v hf hv hblocked => ?_⟩
  · rw [hn, hd]
    exact hw.stored
  · rw [hn, hd]
    exact hw.nowaiting
  · rw [hc, hd]
    exact hw.not_checked
  · rw [hd] at hf
    by_cases hbefore : s.loop.workers v = .blocked
    · exact hb v hblocked (Or.inl (hw.woken n v hf hv hbefore))
    · exact hb v hblocked (Or.inr hbefore)

theorem PopStep.keeps_woken (hs : Woken pools s) (h : PopStep pools w s s') : Woken pools s' := by
  cases h with
  | pop hw h =>
    refine hs.goes_on rfl rfl rfl fun v hv hor => hor.resolve_right (not_not_intro ?_)
    exact blocked_of_pop hw h hv
  | found hw hend | found_none hw hend | waited hw hend hchecked =>
    refine hs.goes_on rfl rfl rfl fun v hv hor => hor.resolve_right (not_not_intro ?_)
    have hvw : v ≠ w := by
      rintro rfl
      simp [go] at hv
    simpa [go, hvw] using hv
  | spurious hw =>
    refine hs.goes_on rfl rfl rfl fun v hv hor => ?_
    by_cases hvw : v = w
    · simp [hvw]
    · simpa [hvw] using hor.resolve_right (not_not_intro hv)
  | wake hw hwoken hm =>
    refine hs.goes_on rfl rfl rfl fun v hv hor => ?_
    have hvw : v ≠ w := by
      rintro rfl
      simp [go] at hv
    have hbefore : s.loop.workers v = .blocked := by simpa [go, own, hvw] using hv
    simpa [hvw] using hor.resolve_right (not_not_intro hbefore)
  | check hw hend hchecked =>
    -- the condition is true for the queues that are in no-waiting mode
    refine ⟨hs.stored, hs.nowaiting, fun n v hf hv => ?_, hs.woken⟩
    have hvw : v ≠ w := by
      rintro rfl
      exact hend (Or.inl (hs.nowaiting n _ hf hv))
    simpa [hvw] using hs.not_checked n v hf hv
  | block hw hchecked =>
    -- no worker of such a queue is about to block
    have hne : ∀ n v, s.destructor.finished n → pools.queues[n]? = some (pools.pool v) →
        v ≠ w := by
      rintro n v hf hv rfl
      rw [hs.not_checked n v hf hv] at hchecked
      cases hchecked
    refine ⟨hs.stored, hs.nowaiting, fun n v hf hv => ?_, fun n v hf hv hblocked => ?_⟩
    · simpa [hne n v hf hv] using hs.not_checked n v hf hv
    · have hvw := hne n v hf hv
      have hbefore : s.loop.workers v = .blocked := by simpa [go, own, hvw] using hblocked
      simpa [hvw] using hs.woken n v hf hv hbefore

omit [DecidableEq W] in
theorem DestructorStep.keeps_woken (hs : Woken pools s) (hprompt : Prompt pools s s')
    (h : DestructorStep pools s s') : Woken pools s' := by
  cases h with
  | called hd hmain =>
    refine ⟨nofun, ?_, ?_, ?_⟩ <;> exact fun n _ hf => hf.elim
  | joined hd hmain =>
    refine ⟨nofun, ?_, ?_, ?_⟩ <;> exact fun n _ hf => absurd hf (Nat.not_lt_zero n)
  | store hd hp =>
    rename_i n p
    have hfinished : ∀ m, (Destructor.notifying n).finished m → s.destructor.finished m := by
      intro m hm
      rw [hd]
      exact hm
    have hmono : ∀ q, s.nowaiting q = true → Function.update s.nowaiting p true q = true := by
      intro q hq
      by_cases hqp : q = p
      · simp [hqp]
      · simpa [hqp] using hq
    refine ⟨fun m q hm hq => ?_, fun m q hm hq => hmono q (hs.nowaiting m q (hfinished m hm) hq),
      fun m v hm hv => hs.not_checked m v (hfinished m hm) hv,
      fun m v hm hv hblocked => hs.woken m v (hfinished m hm) hv hblocked⟩
    cases hm
    rw [hp] at hq
    cases hq
    simp
  | notify hd hp =>
    rename_i n p
    -- the queues that were finished before, and the one that has been notified
    have hfinished : ∀ m, (Destructor.storing (n + 1)).finished m →
        s.destructor.finished m ∨ m = n := by
      intro m hm
      rw [hd]
      exact Nat.lt_succ_iff_lt_or_eq.mp hm
    refine ⟨nofun, fun m q hm hq => ?_, fun m v hm hv => ?_, fun m v hm hv hblocked => ?_⟩
    · rcases hfinished m hm with hm | rfl
      · exact hs.nowaiting m q hm hq
      · exact hs.stored m q hd hq
    · rcases hfinished m hm with hm | rfl
      · exact hs.not_checked m v hm hv
      · exact hprompt m _ hd rfl hv v rfl
    · rcases hfinished m hm with hm | rfl
      · have := hs.woken m v hm hv hblocked
        simp [notify_all, this]
      · rw [hp] at hv
        have hblocked' : (s.loop.workers v).is_blocked = true := by
          simpa [notify_all] using hblocked
        simp [notify_all, hblocked', Option.some.inj hv]
  | joins hd hn hw =>
    -- every queue has been notified
    have hfinished : ∀ m p, pools.queues[m]? = some p → s.destructor.finished m := by
      intro m p hm
      rw [hd]
      obtain ⟨hlt, -⟩ := List.getElem?_eq_some_iff.mp hm
      exact hlt.trans_le hn
    exact ⟨nofun, fun m p _ hp => hs.nowaiting m p (hfinished m p hp) hp,
      fun m v _ hv => hs.not_checked m v (hfinished m _ hv) hv,
      fun m v _ hv hblocked => hs.woken m v (hfinished m _ hv) hv hblocked⟩

/-- **A prompt step strands nobody.** -/
theorem Step.keeps_woken (hs : Woken pools s) (hprompt : Prompt pools s s')
    (h : Step pools program s s') : Woken pools s' := by
  cases h with
  | pop w h => exact h.keeps_woken hs
  | run w h hnotify =>
    refine hs.goes_on rfl rfl rfl fun v hv hor => notifies_mono hnotify ?_
    exact hor.resolve_right (not_not_intro (blocked_of_run h hv))
  | main hd h hnotify =>
    refine hs.goes_on rfl rfl rfl fun v hv hor => notifies_mono hnotify ?_
    refine hor.resolve_right (not_not_intro ?_)
    rwa [workers_of_main h] at hv
  | destructor h => exact h.keeps_woken hs hprompt

end Invariants

section Join

variable [DecidableEq P] [DecidableEq W] [Fintype W] {pools : Pools P W}
  {program : Program P C Task X} {state : C} {s s' : Shutdown P W C Task X} {w : W}

/-- Nothing has been stored yet. -/
def Open (s : Shutdown P W C Task X) : Prop :=
  s.destructor = .alive ∨ s.destructor = .joining

/-- Until the destructor's `join` has returned, the loop is one of which the
destructor is not called. -/
structure Opened (pools : Pools P W) (program : Program P C Task X) (state : C)
    (s : Shutdown P W C Task X) : Prop where
  loop : ReflTransGen (EventLoop.Step pools program) (ParallelEventLoop.start state) s.loop
  nowaiting : ∀ p, s.nowaiting p = false
  empty : ∀ w, s.checked w = true → s.loop.queues (pools.pool w) = []

/-- The invariant of the loop holds of it. -/
theorem Opened.sound (ho : Opened pools program state s) :
    Locks pools s.loop ∧ Quiet s.loop := by
  classical
  have : Fintype P := Fintype.ofList pools.queues pools.mem_queues
  have hsound := run_sound ho.loop
  exact ⟨hsound.locks, hsound.quiet⟩

theorem Opened.ends_wait_iff (ho : Opened pools program state s) {p : P} :
    s.end_wait_condition p ↔ s.loop.queues p ≠ [] := by
  simp [end_wait_condition, ho.nowaiting p]

/-- The queue of a worker that is about to block is locked, so nothing is pushed to
it. -/
theorem Opened.stays_empty (ho : Opened pools program state s) (hc : Checked s)
    {event : Option (P × Task)} (hpush : s.loop.can_push event) (hw : s.checked w = true) :
    ∀ {l : ParallelEventLoop P W C Task X}, l.queues = s.loop.queues →
      (l.push_some event).queues (pools.pool w) = [] := by
  intro l hl
  have hholds : (s.loop.workers w).holds = true := by
    rw [hc w hw]
    rfl
  have hm := ho.sound.1.holds w hholds
  have hempty := ho.empty w hw
  cases event with
  | none => simpa [push_some, hl] using hempty
  | some pt =>
    obtain ⟨p, task⟩ := pt
    have hne : pools.pool w ≠ p := by
      rintro rfl
      rw [hpush _ task rfl] at hm
      cases hm
    simpa [push_some, push, hl, hne] using hempty

theorem PopStep.opened (ho : Opened pools program state s) (h : PopStep pools w s s') :
    Opened pools program state s' := by
  have hloop := ho.loop
  cases h with
  | pop hw h =>
    refine ⟨hloop.tail (.pop w h), ho.nowaiting, fun v hv => ?_⟩
    have hempty := ho.empty v hv
    cases h with
    | pop hw hq =>
      -- a queue that was found empty is not the one that the event is taken from
      have hne : pools.pool v ≠ pools.pool w := by
        intro heq
        rw [heq, hq] at hempty
        cases hempty
      simpa [go, own, hne] using hempty
    | _ => exact hempty
  | found hw hend =>
    exact ⟨hloop.tail (.pop w (.found hw (ho.ends_wait_iff.mp hend))), ho.nowaiting, ho.empty⟩
  | found_none hw hend =>
    have hq := not_not.mp fun hq => hend (ho.ends_wait_iff.mpr hq)
    exact ⟨hloop.tail (.pop w (.found_none hw hq)), ho.nowaiting, ho.empty⟩
  | check hw hend hchecked =>
    refine ⟨hloop, ho.nowaiting, fun v hv => ?_⟩
    by_cases hvw : v = w
    · rw [hvw]
      exact not_not.mp fun hq => hend (ho.ends_wait_iff.mpr hq)
    · exact ho.empty v (by simpa [hvw] using hv)
  | block hw hchecked =>
    refine ⟨hloop.tail (.pop w (.block hw (ho.empty w hchecked))), ho.nowaiting, fun v hv => ?_⟩
    have hvw : v ≠ w := by
      rintro rfl
      simp at hv
    exact ho.empty v (by simpa [hvw] using hv)
  | spurious hw => exact ⟨hloop, ho.nowaiting, ho.empty⟩
  | wake hw hwoken hm => exact ⟨hloop.tail (.pop w (.wake hw hm)), ho.nowaiting, ho.empty⟩
  | waited hw hend hchecked =>
    exact ⟨hloop.tail (.pop w (.waited hw (ho.ends_wait_iff.mp hend))), ho.nowaiting, ho.empty⟩

/-- **The refinement.** Before the store, a step is one of the loop's or is not seen
there. -/
theorem Step.opened (hc : Checked s) (ho : Opened pools program state s)
    (h : Step pools program s s') (hopen : Open s') : Opened pools program state s' := by
  cases h with
  | pop w h => exact h.opened ho
  | run w h hnotify =>
    refine ⟨ho.loop.tail (.run w h), ho.nowaiting, fun v hv => ?_⟩
    have hempty := ho.empty v hv
    cases h with
    | goes_on hw hpush hact => exact ho.stays_empty hc hpush hv rfl
    | returns hw hpush hact => exact ho.stays_empty hc hpush hv rfl
    | throws hw hpush hact => exact ho.stays_empty hc hpush hv rfl
    | stores hw => exact hempty
  | main hd h hnotify =>
    refine ⟨ho.loop.tail (.main h), ho.nowaiting, fun v hv => ?_⟩
    have hempty := ho.empty v hv
    cases h with
    | env hmain hpush henv => exact ho.stays_empty hc hpush hv rfl
    | _ => exact hempty
  | destructor h =>
    cases h with
    | called hd hmain => exact ⟨ho.loop.tail (.main (.join hmain)), ho.nowaiting, ho.empty⟩
    | joined hd hmain | store hd hp | notify hd hp | joins hd hn hw =>
      rcases hopen with hopen | hopen <;> cases hopen

end Join

section Runs

variable [DecidableEq P] [DecidableEq W] [Fintype W] {pools : Pools P W}
  {program : Program P C Task X} {state : C} {s s' : Shutdown P W C Task X} {w : W}

theorem run_checked (hrun : ReflTransGen (Step pools program) (start state) s) : Checked s :=
  History.keeps (fun _ _ hc h => h.keeps_checked hc) (fun _ h => by cases h) hrun

omit [Fintype W] in
/-- The destructor does not go back. -/
theorem Step.open_before (h : Step pools program s s') (hopen : Open s') : Open s := by
  cases h with
  | pop w h => cases h <;> exact hopen
  | run w h hnotify => exact hopen
  | main hd h hnotify => exact hopen
  | destructor h =>
    cases h with
    | called hd hmain => exact Or.inl hd
    | joined hd hmain | store hd hp | notify hd hp | joins hd hn hw =>
      rcases hopen with hopen | hopen <;> cases hopen

theorem run_opened (hrun : ReflTransGen (Step pools program) (start state) s) (hopen : Open s) :
    Opened pools program state s := by
  induction hrun with
  | refl => exact ⟨.refl, fun _ => rfl, nofun⟩
  | tail hrun h ih => exact h.opened (run_checked hrun) (ih (h.open_before hopen)) hopen

/-- The worker has nothing left to do but to leave. -/
def Worker.is_done : Worker Task X → Bool
  | .waiting | .blocked | .unguarding | .popping | .left => true
  | _ => false

/-- What the destructor's `join` has left. -/
structure Emptied (s : Shutdown P W C Task X) : Prop where
  main : s.loop.main = .returned
  queues : ∀ p, s.loop.queues p = []
  workers : ∀ w, Worker.is_done (s.loop.workers w) = true

omit [Fintype W] in
theorem PopStep.keeps_emptied (he : Emptied s) (h : PopStep pools w s s') : Emptied s' := by
  obtain ⟨hmain, hqueues, hworkers⟩ := he
  have hw' := hworkers w
  have hmove : ∀ x : Worker Task X, Worker.is_done x = true → ∀ v,
      Worker.is_done (Function.update s.loop.workers w x v) = true := by
    intro x hx v
    by_cases hvw : v = w
    · simpa [hvw] using hx
    · simpa [hvw] using hworkers v
  cases h with
  | pop hw h =>
    cases h with
    | unguard hw => exact ⟨hmain, hqueues, hmove _ rfl⟩
    | pop_none hw hq => exact ⟨hmain, hqueues, hmove _ rfl⟩
    | pop hw hq =>
      rw [hqueues] at hq
      cases hq
    | _ => simp_all [Worker.is_done, Worker.waits]
  | found hw hend | found_none hw hend => simp [hw, Worker.is_done] at hw'
  | check hw hend hchecked | spurious hw => exact ⟨hmain, hqueues, hworkers⟩
  | block hw hchecked | wake hw hwoken hm | waited hw hend hchecked =>
    exact ⟨hmain, hqueues, hmove _ rfl⟩

/-- "There should be no events left since we just came back from a `join()`": from
there on all queues are empty, and no worker executes anything. -/
theorem no_events_left (hrun : ReflTransGen (Step pools program) (start state) s)
    (hd : ¬ Open s) : Emptied s := by
  induction hrun with
  | refl => exact absurd (Or.inl rfl) hd
  | @tail s s' hrun h ih =>
    by_cases hopen : Open s
    · -- the step is the return of `join`
      have ho := run_opened hrun hopen
      cases h with
      | pop w h =>
        refine absurd ?_ hd
        cases h <;> exact hopen
      | run w h hnotify => exact absurd hopen hd
      | main hd' h hnotify => exact absurd hopen hd
      | destructor h =>
        cases h with
        | called hd' hmain => exact absurd (Or.inr rfl) hd
        | joined hd' hmain =>
          obtain ⟨hqueues, hworkers⟩ := ho.sound.2 (Or.inr hmain)
          refine ⟨hmain, hqueues, fun w => ?_⟩
          rcases hworkers w with hw | hw <;> simp [hw, Worker.is_done]
        | store hd' hp | notify hd' hp | joins hd' hn hw =>
          rcases hopen with hopen | hopen <;> rw [hd'] at hopen <;> cases hopen
    · have he := ih hopen
      have hmain := he.main
      have hqueues := he.queues
      have hworkers := he.workers
      cases h with
      | pop w h => exact h.keeps_emptied he
      | run w h hnotify =>
        have := hworkers w
        cases h <;> simp_all [Worker.is_done]
      | main hd' h hnotify =>
        have hnot : s.destructor ≠ .alive := fun h => hopen (Or.inl h)
        cases h with
        | env hmain' hpush henv =>
          rename_i state event
          cases event with
          | none => exact ⟨hmain, hqueues, hworkers⟩
          | some pt =>
            have := hmain' (by simp)
            rw [hmain] at this
            cases this
        | resume hmain' => exact absurd (hd' rfl) hnot
        | _ => simp_all
      | destructor h =>
        cases h with
        | called hd' hmain' => exact absurd (Or.inl hd') hopen
        | joined hd' hmain' => exact absurd (Or.inr hd') hopen
        | store hd' hp | notify hd' hp | joins hd' hn hw => exact ⟨hmain, hqueues, hworkers⟩

omit [DecidableEq P] [DecidableEq W] in
theorem woken_start : Woken pools (start state : Shutdown P W C Task X) :=
  ⟨nofun, fun _ _ hf => hf.elim, fun _ _ hf => hf.elim, fun _ _ hf => hf.elim⟩

omit [DecidableEq P] [DecidableEq W] [Fintype W] in
theorem Woken.not_stranded (hs : Woken pools s) (w : W) : ¬ Stranded pools s w := by
  rintro ⟨⟨n, hn, hf⟩, hblocked, hnot⟩
  rw [hs.woken n w hf hn hblocked] at hnot
  cases hnot

omit [Fintype W] in
/-- **The lost wake-up.** A worker that is about to block when `notify_all` is called
blocks for good. -/
theorem strands_of_checked (hc : Checked s) (h : Step pools program s s')
    (hprompt : ¬ Prompt pools s s') :
    ∃ t w, ReflTransGen (Step pools program) s' t ∧ Stranded pools t w := by
  unfold Prompt at hprompt
  push Not at hprompt
  obtain ⟨n, p, hd, hd', hp, w, hpool, hne⟩ := hprompt
  have hchecked : s.checked w = true := by simpa using hne
  have hwait := hc w hchecked
  -- the step is that of `notify_all`, which is not for workers that are not blocked
  have hloop : s'.loop = s.loop ∧ s'.checked = s.checked := by
    cases h with
    | pop w h => cases h <;> simp [hd] at hd'
    | run w h hnotify => simp [hd] at hd'
    | main hdes h hnotify => simp [hd] at hd'
    | destructor h => cases h <;> simp_all [notify_all]
  have hstep : PopStep pools w s' { s' with
      loop := (s'.loop.own (pools.pool w) none).go w .blocked
      checked := Function.update s'.checked w false
      woken := Function.update s'.woken w false } :=
    .block (by rw [hloop.1, hwait]) (by rw [hloop.2, hchecked])
  refine ⟨_, w, .single (.pop w hstep), ⟨n, hpool ▸ hp, ?_⟩, by simp [go], by simp⟩
  rw [hd']
  exact Nat.lt_succ_self n

/-- **Shutdown.** As long as no worker of a queue stands between the evaluation of
`end_wait_condition` and the release-and-block when `unblock.notify_all` of that queue
is called, no worker is ever blocked in `pop` without a wake-up pending for it once
`set_nowaiting(true)` has finished on its queue. And whenever there is such a worker,
it can be left blocked so. -/
theorem never_strands_iff (pools : Pools P W) (program : Program P C Task X) (state : C) :
    (∀ s, ReflTransGen (fun s s' => Step pools program s s' ∧ Prompt pools s s') (start state) s →
      ∀ w, ¬ Stranded pools s w) ∧
    ∀ s s', ReflTransGen (Step pools program) (start state) s → Step pools program s s' →
      ¬ Prompt pools s s' →
      ∃ t w, ReflTransGen (Step pools program) s' t ∧ Stranded pools t w := by
  refine ⟨fun s hrun => ?_, fun s s' hrun h hprompt => ?_⟩
  · have hwoken : Woken pools s :=
      History.keeps (fun _ _ hs h => h.1.keeps_woken hs h.2) woken_start hrun
    exact hwoken.not_stranded
  · exact strands_of_checked (run_checked hrun) h hprompt

end Runs

section Example

/-- A loop with one pool of one worker. -/
def one_worker : Pools Unit Unit := { pool := id, queues := [()], mem_queues := by simp }

/-- No events. -/
def no_events : Program Unit Unit Unit Unit where
  act _ _ _ _ _ := False
  env _ _ _ := False

/-- A worker is stranded: it is woken for no reason, evaluates the condition before
the store, and blocks after `notify_all`. -/
theorem strands_spuriously_woken :
    ¬ ∀ s, ReflTransGen (Step one_worker no_events) (start ()) s →
      ∀ w, ¬ Stranded one_worker s w := by
  intro h
  -- the worker finds no event, and blocks
  have hlock : Step one_worker no_events (start ()) _ := .pop () (.pop rfl (.lock rfl rfl))
  have hfound := (ReflTransGen.single hlock).tail
    (.pop () (.found_none rfl (not_ends_wait rfl rfl)))
  have hguard := hfound.tail (.pop () (.pop rfl (.guard rfl)))
  have hcheck := hguard.tail (.pop () (.check rfl (not_ends_wait rfl rfl) rfl))
  have hblock := hcheck.tail (.pop () (.block rfl rfl))
  -- the destructor's `join` finds the loop idle
  have hcalled := hblock.tail (.destructor (.called rfl rfl))
  have hprocessed := hcalled.tail
    (.main (by intro h; cases h) (.processed rfl rfl) (Or.inl ⟨rfl, rfl⟩))
  have hzero := hprocessed.tail
    (.main (by intro h; cases h) (.zero rfl (by decide)) (Or.inl ⟨rfl, rfl⟩))
  have hlocked := hzero.tail
    (.main (by intro h; cases h) (.lock (p := ()) rfl Nat.one_pos rfl rfl) (Or.inl ⟨rfl, rfl⟩))
  have hall := hlocked.tail
    (.main (by intro h; cases h) (.all_locked rfl rfl) (Or.inl ⟨rfl, rfl⟩))
  have hidle := hall.tail
    (.main (by intro h; cases h) (.idle rfl (fun _ _ => rfl) (by decide)) (Or.inl ⟨rfl, rfl⟩))
  have hreturn := hidle.tail
    (.main (by intro h; cases h) (.return rfl rfl) (Or.inl ⟨rfl, rfl⟩))
  have hjoined := hreturn.tail (.destructor (.joined rfl rfl))
  -- the worker wakes up, and evaluates the condition
  have hspurious := hjoined.tail (.pop () (.spurious rfl))
  have hwake := hspurious.tail (.pop () (.wake rfl rfl rfl))
  have hcheck' := hwake.tail (.pop () (.check rfl (not_ends_wait rfl rfl) rfl))
  -- the destructor stores and notifies, and the worker blocks
  have hstore := hcheck'.tail (.destructor (.store (p := ()) rfl rfl))
  have hnotify := hstore.tail (.destructor (.notify (p := ()) rfl rfl))
  have hblock' := hnotify.tail (.pop () (.block rfl rfl))
  exact h _ hblock' () ⟨⟨0, rfl, Nat.one_pos⟩, rfl, rfl⟩

end Example

end Shutdown
end EventLoop
end Kaiu
