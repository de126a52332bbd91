/-
`ConcurrentQueue`: a queue whose `pop` waits for an item.

Any number of threads push, pop, lock the queue from outside and change the no-waiting
mode, and their steps come in any order. `unblock.wait` evaluates its condition, releases
the mutex and blocks in one step, and locks the mutex again after a wake-up, which may be
spurious. `notify_one` wakes one of the threads that are blocked, if there are any.

An item that is pushed is followed by a `notify_one` before the queue is unlocked, and a
thread blocks only where there is no item. So as long as there are items, a worker is
not blocked: the one that was woken, or one that has taken an item since.
-/
import Kaiu.Library.History
import Kaiu.Library.Mutex

set_option autoImplicit false

namespace Kaiu

open Mutex Relation Function

namespace ConcurrentQueue

/-- Where a thread stands in the functions of the queue. -/
inductive Point (α : Type*) where
  | outside
  /-- In `push` or `emplace`, about to lock the queue. -/
  | pushing (item : α)
  /-- In `push`, the queue is locked. -/
  | push_locked (item : α)
  /-- In `notify`, about to call `notify_one`; the queue is locked. -/
  | notifying
  /-- The lock of `push` is to be destroyed. -/
  | pushed
  /-- In `pop`, about to lock the queue. -/
  | popping
  /-- The queue is locked, `end_wait_condition` is to be evaluated. -/
  | locked
  /-- `guard` is to be constructed. -/
  | guarding
  /-- In `unblock.wait`, the queue is locked and `end_wait_condition` is to be evaluated. -/
  | checking
  /-- In `unblock.wait`, about to release the queue and to block at once. -/
  | blocking
  /-- Blocked in `unblock.wait`. -/
  | blocked
  /-- Woken, and about to lock the queue again. -/
  | woken
  /-- The wait is over, and `guard` is to be destroyed. -/
  | unguarding
  /-- The queue is locked, and an item is to be taken if there is one. -/
  | taking
  /-- `pop` returns `result`, and its lock is to be destroyed. -/
  | popped (result : Bool)
  /-- The queue is locked by `isEmpty`, or by a caller that uses `queue_mutex`. -/
  | examining
  /-- In `set_nowaiting`, about to call `notify_all`. -/
  | waking

variable {α : Type*}

/-- The queue is locked by the thread. -/
@[simp] def Point.critical : Point α → Bool
  | push_locked _ | notifying | pushed => true
  | locked | guarding | checking | blocking | unguarding | taking | popped _ => true
  | examining => true
  | outside | pushing _ | popping | blocked | woken | waking => false

/-- The thread is in `pop`. -/
@[simp] def Point.in_pop : Point α → Bool
  | popping | locked | guarding | checking | blocking | blocked | woken => true
  | unguarding | taking | popped _ => true
  | _ => false

/-- What `notify_all` does to a thread. -/
@[simp] def Point.wake : Point α → Point α
  | blocked => woken
  | p => p

end ConcurrentQueue

/-- The members of `ConcurrentQueue`, and what the threads are doing. -/
structure ConcurrentQueue (T α : Type*) where
  events : List α := []
  nowaiting : Bool := false
  queue_mutex : Option T := none
  threads : T → ConcurrentQueue.Point α := fun _ => .outside
  /-- Not in the source: the items that have been pushed. -/
  pushed : List α := []
  /-- Not in the source: the items that have been popped. -/
  popped : List α := []

namespace ConcurrentQueue

variable {T α : Type*}

def is_nowaiting (s : ConcurrentQueue T α) : Bool :=
  s.nowaiting

/-- `end_wait_condition`. -/
def end_wait_condition (s : ConcurrentQueue T α) : Bool :=
  s.is_nowaiting || !s.events.isEmpty

section Steps

variable [DecidableEq T]

/-- A thread goes on. -/
def go (t : T) (p : Point α) (s : ConcurrentQueue T α) : ConcurrentQueue T α :=
  { s with threads := update s.threads t p }

/-- A thread locks the queue. -/
def lock (t : T) (p : Point α) (s : ConcurrentQueue T α) : ConcurrentQueue T α :=
  { s.go t p with queue_mutex := some t }

/-- A thread unlocks the queue. -/
def unlock (t : T) (p : Point α) (s : ConcurrentQueue T α) : ConcurrentQueue T α :=
  { s.go t p with queue_mutex := none }

/-- `events.push`. -/
def append (item : α) (s : ConcurrentQueue T α) : ConcurrentQueue T α :=
  { s with events := s.events ++ [item], pushed := s.pushed ++ [item] }

/-- `out` is the front of the queue, which is popped. -/
def take (item : α) (rest : List α) (s : ConcurrentQueue T α) : ConcurrentQueue T α :=
  { s with events := rest, popped := s.popped ++ [item] }

/-- `unblock.notify_all()`. -/
def notify_all (s : ConcurrentQueue T α) : ConcurrentQueue T α :=
  { s with threads := fun t => (s.threads t).wake }

@[simp] theorem go_threads (t : T) (p : Point α) (s : ConcurrentQueue T α) :
    (s.go t p).threads = update s.threads t p := rfl

@[simp] theorem unlock_threads (t : T) (p : Point α) (s : ConcurrentQueue T α) :
    (s.unlock t p).threads = update s.threads t p := rfl

omit [DecidableEq T] in
@[simp] theorem append_threads (item : α) (s : ConcurrentQueue T α) :
    (s.append item).threads = s.threads := rfl

omit [DecidableEq T] in
@[simp] theorem take_threads (item : α) (rest : List α) (s : ConcurrentQueue T α) :
    (s.take item rest).threads = s.threads := rfl

omit [DecidableEq T] in
@[simp] theorem notify_all_threads (s : ConcurrentQueue T α) (t : T) :
    s.notify_all.threads t = (s.threads t).wake := rfl

variable (workers : Set T)

/-- The steps of a thread; those that pop are the workers. -/
inductive Step : ConcurrentQueue T α → ConcurrentQueue T α → Prop where
  | push (s : ConcurrentQueue T α) (t : T) (item : α) (h : s.threads t = .outside) :
      Step s (s.go t (.pushing item))
  | push_lock (s : ConcurrentQueue T α) (t : T) {item : α} (h : s.threads t = .pushing item)
      (hfree : s.queue_mutex = none) : Step s (s.lock t (.push_locked item))
  | append (s : ConcurrentQueue T α) (t : T) {item : α} (h : s.threads t = .push_locked item) :
      Step s ((s.append item).go t .notifying)
  | notify_one (s : ConcurrentQueue T α) (t u : T) (h : s.threads t = .notifying)
      (hu : s.threads u = .blocked) : Step s ((s.go u .woken).go t .pushed)
  | notify_nobody (s : ConcurrentQueue T α) (t : T) (h : s.threads t = .notifying)
      (hnobody : ∀ u, s.threads u ≠ .blocked) : Step s (s.go t .pushed)
  | push_unlock (s : ConcurrentQueue T α) (t : T) (h : s.threads t = .pushed) :
      Step s (s.unlock t .outside)
  | pop (s : ConcurrentQueue T α) (t : T) (ht : t ∈ workers) (h : s.threads t = .outside) :
      Step s (s.go t .popping)
  | pop_lock (s : ConcurrentQueue T α) (t : T) (h : s.threads t = .popping)
      (hfree : s.queue_mutex = none) : Step s (s.lock t .locked)
  /-- There is no need to wait. -/
  | ready (s : ConcurrentQueue T α) (t : T) (h : s.threads t = .locked)
      (hready : s.end_wait_condition = true) : Step s (s.go t .taking)
  | not_ready (s : ConcurrentQueue T α) (t : T) (h : s.threads t = .locked)
      (hready : s.end_wait_condition = false) : Step s (s.go t .guarding)
  | guard (s : ConcurrentQueue T α) (t : T) (h : s.threads t = .guarding) :
      Step s (s.go t .checking)
  /-- The wait is over. -/
  | waited (s : ConcurrentQueue T α) (t : T) (h : s.threads t = .checking)
      (hready : s.end_wait_condition = true) : Step s (s.go t .unguarding)
  | wait (s : ConcurrentQueue T α) (t : T) (h : s.threads t = .checking)
      (hready : s.end_wait_condition = false) : Step s (s.go t .blocking)
  | block (s : ConcurrentQueue T α) (t : T) (h : s.threads t = .blocking) :
      Step s (s.unlock t .blocked)
  /-- A wake-up that nobody has asked for. -/
  | wake (s : ConcurrentQueue T α) (t : T) (h : s.threads t = .blocked) : Step s (s.go t .woken)
  | relock (s : ConcurrentQueue T α) (t : T) (h : s.threads t = .woken)
      (hfree : s.queue_mutex = none) : Step s (s.lock t .checking)
  | unguard (s : ConcurrentQueue T α) (t : T) (h : s.threads t = .unguarding) :
      Step s (s.go t .taking)
  | take (s : ConcurrentQueue T α) (t : T) {item : α} {rest : List α}
      (h : s.threads t = .taking) (hevents : s.events = item :: rest) :
      Step s ((s.take item rest).go t (.popped true))
  | nothing (s : ConcurrentQueue T α) (t : T) (h : s.threads t = .taking)
      (hevents : s.events = []) : Step s (s.go t (.popped false))
  | pop_unlock (s : ConcurrentQueue T α) (t : T) {result : Bool}
      (h : s.threads t = .popped result) : Step s (s.unlock t .outside)
  /-- `isEmpty`, or a caller that locks `queue_mutex`. -/
  | examine (s : ConcurrentQueue T α) (t : T) (h : s.threads t = .outside)
      (hfree : s.queue_mutex = none) : Step s (s.lock t .examining)
  | examined (s : ConcurrentQueue T α) (t : T) (h : s.threads t = .examining) :
      Step s (s.unlock t .outside)
  | set_nowaiting (s : ConcurrentQueue T α) (t : T) (value : Bool) (h : s.threads t = .outside) :
      Step s ({ s with nowaiting := value }.go t .waking)
  | notify_all (s : ConcurrentQueue T α) (t : T) (h : s.threads t = .waking) :
      Step s (s.notify_all.go t .outside)

end Steps

/-! ## The invariant -/

/-- The queue is locked by the thread that is in a critical section; what has not been
popped is in the queue; no thread is about to block while there is an item; threads in
`pop` are workers; and as long as there are items, one of the workers is not blocked, or
is going to be woken. -/
structure Inv (workers : Set T) (s : ConcurrentQueue T α) : Prop where
  guards : Guards (Point.critical ·) s.queue_mutex s.threads
  items : s.popped ++ s.events = s.pushed
  blocking : ∀ t, s.threads t = .blocking → s.events = []
  in_pop : ∀ t, (s.threads t).in_pop → t ∈ workers
  awake : s.events ≠ [] →
    (∃ w ∈ workers, s.threads w ≠ .blocked) ∨ ∃ t, s.threads t = .notifying

variable {workers : Set T} {s s' : ConcurrentQueue T α} {t : T} {p : Point α} {item : α}

theorem inv_start : Inv workers ({} : ConcurrentQueue T α) where
  guards t := iff_of_false Bool.false_ne_true (Option.some_ne_none t ∘ Eq.symm)
  items := rfl
  blocking t ht := by cases ht
  in_pop t ht := by cases ht
  awake hevents := absurd rfl hevents

section Steps

variable [DecidableEq T]

/-- Where a thread may go without a change of the queue: it does not block, or it has
found the queue empty, and it has not yet to notify. -/
structure MayGo (workers : Set T) (s : ConcurrentQueue T α) (t : T) (p : Point α) : Prop where
  in_pop : p.in_pop → t ∈ workers
  not_blocked : p ≠ .blocked
  blocking : p = .blocking → s.events = []
  not_notifying : s.threads t ≠ .notifying

omit [DecidableEq T] in
/-- Where a thread may go that blocks neither now nor next. -/
theorem Inv.may (h : Inv workers s) {q : Point α} (ht : s.threads t = q)
    (hp : (p.in_pop → q.in_pop) ∧ p ≠ .blocked ∧ p ≠ .blocking ∧ q ≠ .notifying) :
    MayGo workers s t p where
  in_pop hin := h.in_pop t (ht ▸ hp.1 hin)
  not_blocked := hp.2.1
  blocking heq := absurd heq hp.2.2.1
  not_notifying := ht ▸ hp.2.2.2

/-- A thread goes on; who owns the mutex then is left to the caller. -/
theorem Inv.goes (h : Inv workers s) (hgo : MayGo workers s t p) {owner : Option T}
    (hguards : Guards (Point.critical ·) owner (update s.threads t p)) :
    Inv workers { s.go t p with queue_mutex := owner } where
  guards := hguards
  items := h.items
  blocking u hu := by
    by_cases heq : u = t
    · subst heq
      exact hgo.blocking (by simpa using hu)
    · exact h.blocking u (by simpa [heq] using hu)
  in_pop u hu := by
    by_cases heq : u = t
    · subst heq
      exact hgo.in_pop (by simpa using hu)
    · exact h.in_pop u (by simpa [heq] using hu)
  awake hevents := by
    rcases h.awake hevents with ⟨w, hw, hawake⟩ | ⟨u, hu⟩
    · refine .inl ⟨w, hw, ?_⟩
      by_cases heq : w = t
      · subst heq
        simpa using hgo.not_blocked
      · simpa [heq] using hawake
    · have hne : u ≠ t := fun heq => hgo.not_notifying (heq ▸ hu)
      exact .inr ⟨u, by simpa [hne] using hu⟩

theorem Inv.go (h : Inv workers s) (hgo : MayGo workers s t p)
    (hcritical : p.critical = (s.threads t).critical) : Inv workers (s.go t p) :=
  h.goes hgo (h.guards.move (by rw [hcritical]))

theorem Inv.lock (h : Inv workers s) (hfree : s.queue_mutex = none) (hgo : MayGo workers s t p)
    (hcritical : p.critical = true) : Inv workers (s.lock t p) :=
  h.goes hgo ((hfree ▸ h.guards).lock hcritical)

theorem Inv.unlock (h : Inv workers s) (hcritical : (s.threads t).critical = true)
    (hgo : MayGo workers s t p) (hp : p.critical = false) : Inv workers (s.unlock t p) :=
  h.goes hgo (h.guards.unlock hcritical (by rw [hp]; exact Bool.false_ne_true))

/-- An item has been appended, and the thread is going to notify. -/
theorem Inv.append (h : Inv workers s) (ht : s.threads t = .push_locked item) :
    Inv workers ((s.append item).go t .notifying) where
  guards := h.guards.move (by rw [ht]; exact Iff.rfl)
  items := by
    show s.popped ++ (s.events ++ [item]) = s.pushed ++ [item]
    rw [← List.append_assoc, h.items]
  blocking u hu := by
    have hne : u ≠ t := by
      rintro rfl
      simp at hu
    have hu' : s.threads u = .blocking := by simpa [hne] using hu
    -- the mutex is owned by the thread that pushes
    exact absurd (h.guards.eq (by simp [hu']) (by simp [ht])) hne
  in_pop u hu := by
    have hne : u ≠ t := by
      rintro rfl
      simp at hu
    exact h.in_pop u (by simpa [hne] using hu)
  awake _ := .inr ⟨t, update_self ..⟩

/-- An item has been popped, by a worker that is not blocked. -/
theorem Inv.take (h : Inv workers s) {rest : List α} (ht : s.threads t = .taking)
    (hevents : s.events = item :: rest) :
    Inv workers ((s.take item rest).go t (.popped true)) where
  guards := h.guards.move (by rw [ht]; exact Iff.rfl)
  items := by
    show s.popped ++ [item] ++ rest = s.pushed
    rw [List.append_assoc, List.singleton_append, ← hevents, h.items]
  blocking u hu := by
    have hne : u ≠ t := by
      rintro rfl
      simp at hu
    have hu' : s.threads u = .blocking := by simpa [hne] using hu
    exact absurd (h.blocking u hu') (by simp [hevents])
  in_pop u hu := by
    by_cases heq : u = t
    · exact heq ▸ h.in_pop t (by rw [ht]; rfl)
    · exact h.in_pop u (by simpa [heq] using hu)
  awake _ := .inl ⟨t, h.in_pop t (by rw [ht]; rfl), by simp⟩

/-- A worker blocks, which has found the queue empty. -/
theorem Inv.block (h : Inv workers s) (ht : s.threads t = .blocking) :
    Inv workers (s.unlock t .blocked) where
  guards := h.guards.unlock (t := t) (by simp [ht]) (by simp)
  items := h.items
  blocking _ _ := h.blocking t ht
  in_pop u hu := by
    by_cases heq : u = t
    · exact heq ▸ h.in_pop t (by rw [ht]; rfl)
    · exact h.in_pop u (by simpa [heq] using hu)
  awake hevents := absurd (h.blocking t ht) hevents

/-- A thread that is blocked is woken. -/
theorem Inv.wake (h : Inv workers s) (ht : s.threads t = .blocked) :
    Inv workers (s.go t .woken) :=
  h.go (h.may ht (by simp)) (by simp [ht])

/-- `notify_one` is called, and a worker is awake then. -/
theorem Inv.notify (h : Inv workers s) (ht : s.threads t = .notifying)
    (hawake : ∃ w ∈ workers, s.threads w ≠ .blocked) : Inv workers (s.go t .pushed) where
  guards := h.guards.move (by rw [ht]; exact Iff.rfl)
  items := h.items
  blocking u hu := by
    have hne : u ≠ t := by
      rintro rfl
      simp at hu
    exact h.blocking u (by simpa [hne] using hu)
  in_pop u hu := by
    have hne : u ≠ t := by
      rintro rfl
      simp at hu
    exact h.in_pop u (by simpa [hne] using hu)
  awake _ := by
    obtain ⟨w, hw, hawake⟩ := hawake
    refine .inl ⟨w, hw, ?_⟩
    by_cases heq : w = t
    · subst heq
      simp
    · simpa [heq] using hawake

omit [DecidableEq T] in
/-- All threads that are blocked are woken. -/
theorem Inv.notify_all (h : Inv workers s) : Inv workers s.notify_all where
  guards u := by
    refine Iff.trans ?_ (h.guards u)
    cases hu : s.threads u <;> simp [hu]
  items := h.items
  blocking u hu := by
    refine h.blocking u ?_
    cases hu' : s.threads u <;> simp [hu'] at hu ⊢
  in_pop u hu := by
    refine h.in_pop u ?_
    cases hu' : s.threads u <;>
      simp [hu'] at hu ⊢
  awake hevents := by
    rcases h.awake hevents with ⟨w, hw, hawake⟩ | ⟨u, hu⟩
    · refine .inl ⟨w, hw, ?_⟩
      cases hw' : s.threads w <;> simp [hw']
    · exact .inr ⟨u, by simp [hu]⟩

omit [DecidableEq T] in
theorem end_wait_condition_eq_false (h : s.end_wait_condition = false) : s.events = [] := by
  simpa using (Bool.or_eq_false_iff.mp h).2

/-- **Every step** keeps the invariant. -/
theorem Step.inv (hworkers : workers.Nonempty) (h : Inv workers s) (hstep : Step workers s s') :
    Inv workers s' := by
  cases hstep with
  | push t item ht => exact h.go (h.may ht (by simp)) (by simp [ht])
  | push_lock t ht hfree => exact h.lock hfree (h.may ht (by simp)) (by simp)
  | append t ht => exact h.append ht
  | notify_one t u ht hu =>
    have hne : t ≠ u := by
      rintro rfl
      simp [ht] at hu
    exact (h.wake hu).notify (by simpa [hne] using ht) ⟨u, h.in_pop u (by simp [hu]), by simp⟩
  | notify_nobody t ht hnobody =>
    obtain ⟨w, hw⟩ := hworkers
    exact h.notify ht ⟨w, hw, hnobody w⟩
  | push_unlock t ht => exact h.unlock (by simp [ht]) (h.may ht (by simp)) (by simp)
  | pop t hworker ht =>
    exact h.go ⟨fun _ => hworker, by simp, by simp, by simp [ht]⟩ (by simp [ht])
  | pop_lock t ht hfree => exact h.lock hfree (h.may ht (by simp)) (by simp)
  | ready t ht hready => exact h.go (h.may ht (by simp)) (by simp [ht])
  | not_ready t ht hready => exact h.go (h.may ht (by simp)) (by simp [ht])
  | guard t ht => exact h.go (h.may ht (by simp)) (by simp [ht])
  | waited t ht hready => exact h.go (h.may ht (by simp)) (by simp [ht])
  | wait t ht hready =>
    -- the thread is going to block, on an empty queue
    have hempty : s.events = [] := end_wait_condition_eq_false hready
    exact h.go ⟨fun _ => h.in_pop t (by simp [ht]), by simp, fun _ => hempty, by simp [ht]⟩
      (by simp [ht])
  | block t ht => exact h.block ht
  | wake t ht => exact h.wake ht
  | relock t ht hfree => exact h.lock hfree (h.may ht (by simp)) (by simp)
  | unguard t ht => exact h.go (h.may ht (by simp)) (by simp [ht])
  | take t ht hevents => exact h.take ht hevents
  | nothing t ht hevents => exact h.go (h.may ht (by simp)) (by simp [ht])
  | pop_unlock t ht => exact h.unlock (by simp [ht]) (h.may ht (by simp)) (by simp)
  | examine t ht hfree => exact h.lock hfree (h.may ht (by simp)) (by simp)
  | examined t ht => exact h.unlock (by simp [ht]) (h.may ht (by simp)) (by simp)
  | set_nowaiting t value ht =>
    have hset : Inv workers { s with nowaiting := value } := { h with }
    exact hset.go (hset.may ht (by simp)) (by simp [ht])
  | notify_all t ht =>
    have hall := h.notify_all
    have ht' : s.notify_all.threads t = .waking := by simp [ht]
    exact hall.go (hall.may ht' (by simp)) (by simp [ht])

theorem inv_of_reachable (hworkers : workers.Nonempty)
    (h : ReflTransGen (Step workers) {} s) : Inv workers s :=
  History.keeps (fun _ _ => Step.inv hworkers) inv_start h

/-- **No item waits while all workers sleep.** In every state that is reached and in which
the queue is not locked, there is no item in the queue or one of the workers is not
blocked; and the items that have been popped, followed by those in the queue, are those
that have been pushed, in the order of the pushes. -/
theorem no_item_waits (hworkers : workers.Nonempty) (h : ReflTransGen (Step workers) {} s) :
    (s.queue_mutex = none → ¬ (s.events ≠ [] ∧ ∀ w ∈ workers, s.threads w = .blocked)) ∧
      s.popped ++ s.events = s.pushed := by
  have hinv := inv_of_reachable hworkers h
  refine ⟨fun hfree ⟨hevents, hasleep⟩ => ?_, hinv.items⟩
  rcases hinv.awake hevents with ⟨w, hw, hawake⟩ | ⟨t, ht⟩
  · exact hawake (hasleep w hw)
  · -- a thread that is going to notify has locked the queue
    exact (hfree ▸ hinv.guards).not_critical t (by simp [ht])

end Steps

/-- One worker has blocked, and one item has been pushed since. -/
def pushed_to_sleeper : ConcurrentQueue Bool ℕ :=
  let blocked : ConcurrentQueue Bool ℕ :=
    ((((((({} : ConcurrentQueue Bool ℕ).go true .popping).lock true .locked).go
      true .guarding).go true .checking).go true .blocking).unlock true .blocked)
  let appended := (((blocked.go false (.pushing 1)).lock false (.push_locked 1)).append 1).go
    false .notifying
  ((appended.go true .woken).go false .pushed).unlock false .outside

theorem reaches_pushed_to_sleeper : ReflTransGen (Step {true}) {} pushed_to_sleeper := by
  refine .tail ?_ (.push_unlock _ false rfl)
  refine .tail ?_ (.notify_one _ false true rfl rfl)
  refine .tail ?_ (.append _ false rfl)
  refine .tail ?_ (.push_lock _ false rfl rfl)
  refine .tail ?_ (.push _ false 1 rfl)
  refine .tail ?_ (.block _ true rfl)
  refine .tail ?_ (.wait _ true rfl rfl)
  refine .tail ?_ (.guard _ true rfl)
  refine .tail ?_ (.not_ready _ true rfl rfl)
  refine .tail ?_ (.pop_lock _ true rfl rfl)
  exact .single (.pop _ true rfl rfl)

/-- There is an item, the queue is not locked, and the worker has been woken. -/
theorem no_item_waits_sleeper :
    pushed_to_sleeper.events = [1] ∧ pushed_to_sleeper.queue_mutex = none ∧
      (∃ w, w = true ∧ pushed_to_sleeper.threads w ≠ .blocked) ∧
      pushed_to_sleeper.popped ++ pushed_to_sleeper.events = pushed_to_sleeper.pushed := by
  obtain ⟨hawake, hitems⟩ := no_item_waits (Set.singleton_nonempty true) reaches_pushed_to_sleeper
  refine ⟨rfl, rfl, ⟨true, rfl, fun hblocked => ?_⟩, hitems⟩
  refine hawake rfl ⟨List.cons_ne_nil 1 [], fun w hw => ?_⟩
  obtain rfl : w = true := hw
  exact hblocked

end ConcurrentQueue
end Kaiu
