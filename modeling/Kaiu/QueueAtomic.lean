/-
`ConcurrentQueue` as an object whose operations take effect at once.

To its callers a queue is a list of items and a mode. `push` appends an item; `pop` takes
the first one, and returns nothing only if there is none and the mode is no-waiting;
`set_nowaiting` sets the mode. The queue does each of these in several steps, and the steps
of the threads come in any order, but what its callers see is what they would see if each
operation took effect at one point between its call and its return (`traces_atomic`).

For `push` this is the point at which the item is appended, for `pop` the one at which an
item is taken. A `pop` that returns nothing takes effect when it stops waiting: the mode is
no-waiting then, and might not be any more when it finds the queue empty.
-/
import Kaiu.ConcurrentQueue
import Kaiu.Library.Refinement

set_option autoImplicit false

namespace Kaiu

open Mutex Refinement Relation Function

namespace ConcurrentQueue

variable {T α : Type*}

/-- The operations, as their callers see them. -/
inductive Operation (α : Type*) where
  | push (item : α)
  | pop
  | set_nowaiting (value : Bool)

/-- What an operation does to the items and the mode, and what it returns. -/
inductive Effect : Operation α → List α × Bool → Option α → List α × Bool → Prop where
  | push (item : α) (events : List α) (nowaiting : Bool) :
      Effect (.push item) (events, nowaiting) none (events ++ [item], nowaiting)
  | pop (item : α) (events : List α) (nowaiting : Bool) :
      Effect .pop (item :: events, nowaiting) (some item) (events, nowaiting)
  | pop_nothing : Effect .pop ([], true) none ([], true)
  | set_nowaiting (value : Bool) (events : List α) (nowaiting : Bool) :
      Effect (.set_nowaiting value) (events, nowaiting) none (events, value)

/-- What the callers of a thread at this point know: in which function it is, and what that
has come to. -/
inductive Stage where
  | outside
  | push
  | pop
  | popped (result : Bool)
  | set_nowaiting

/-- The function that a thread is in; `isEmpty` is not seen. -/
@[simp] def Point.stage : Point α → Stage
  | outside | examining => .outside
  | pushing _ | push_locked _ | notifying | pushed => .push
  | popping | locked | guarding | checking | blocking | blocked | woken => .pop
  | unguarding | taking => .pop
  | popped result => .popped result
  | waking => .set_nowaiting

/-- A queue, and the variables `out` that `pop` moves an item to. -/
structure Called (T α : Type*) where
  queue : ConcurrentQueue T α := {}
  out : T → Option α := fun _ => none

section Steps

variable [DecidableEq T]

/-- The steps of a queue that any thread may pop, with what is seen of them. -/
inductive Seen :
    Called T α → Option (Action T (Operation α) (Option α)) → Called T α → Prop where
  | push (c : Called T α) (t : T) (item : α) (h : c.queue.threads t = .outside) :
      Seen c (some (.call t (.push item))) { c with queue := c.queue.go t (.pushing item) }
  | push_returns (c : Called T α) (t : T) (h : c.queue.threads t = .pushed) :
      Seen c (some (.ret t none)) { c with queue := c.queue.unlock t .outside }
  | pop (c : Called T α) (t : T) (h : c.queue.threads t = .outside) :
      Seen c (some (.call t .pop)) { c with queue := c.queue.go t .popping }
  | take (c : Called T α) (t : T) {item : α} {rest : List α} (h : c.queue.threads t = .taking)
      (hevents : c.queue.events = item :: rest) :
      Seen c none ⟨(c.queue.take item rest).go t (.popped true), update c.out t (some item)⟩
  | nothing (c : Called T α) (t : T) (h : c.queue.threads t = .taking)
      (hevents : c.queue.events = []) :
      Seen c none { c with queue := c.queue.go t (.popped false) }
  | pop_returns (c : Called T α) (t : T) {result : Bool} (h : c.queue.threads t = .popped result) :
      Seen c (some (.ret t (if result then c.out t else none)))
        { c with queue := c.queue.unlock t .outside }
  | set_nowaiting (c : Called T α) (t : T) (value : Bool) (h : c.queue.threads t = .outside) :
      Seen c (some (.call t (.set_nowaiting value)))
        { c with queue := { c.queue with nowaiting := value }.go t .waking }
  | set_returns (c : Called T α) (t : T) (h : c.queue.threads t = .waking) :
      Seen c (some (.ret t none)) { c with queue := c.queue.notify_all.go t .outside }
  /-- The other steps stay in their functions. -/
  | inside (c : Called T α) {s : ConcurrentQueue T α} (h : Step Set.univ c.queue s)
      (hstage : ∀ t, (s.threads t).stage = (c.queue.threads t).stage) :
      Seen c none { c with queue := s }

variable {c c' : Called T α} {s s' : ConcurrentQueue T α} {t : T} {p : Point α}
  {e : Option (Action T (Operation α) (Option α))}

/-- These are the steps of the queue. -/
theorem Seen.step (h : Seen c e c') : Step Set.univ c.queue c'.queue := by
  cases h with
  | push t item h => exact .push _ t item h
  | push_returns t h => exact .push_unlock _ t h
  | pop t h => exact .pop _ t (Set.mem_univ t) h
  | take t h hevents => exact .take _ t h hevents
  | nothing t h hevents => exact .nothing _ t h hevents
  | pop_returns t h => exact .pop_unlock _ t h
  | set_nowaiting t value h => exact .set_nowaiting _ t value h
  | set_returns t h => exact .notify_all _ t h
  | inside h hstage => exact h

/-- A thread goes on in its function. -/
theorem stage_update {threads : T → Point α} (hp : p.stage = (threads t).stage) (u : T) :
    (update threads t p u).stage = (threads u).stage := by
  by_cases heq : u = t
  · subst heq
    rw [update_self, hp]
  · rw [update_of_ne heq]

/-- **Every step** of the queue is seen as one of these. -/
theorem Step.seen (h : Step Set.univ s s') (out : T → Option α) :
    ∃ e out', Seen ⟨s, out⟩ e ⟨s', out'⟩ := by
  have hstep := h
  cases h with
  | push t item h => exact ⟨_, _, .push ⟨s, out⟩ t item h⟩
  | push_unlock t h => exact ⟨_, _, .push_returns ⟨s, out⟩ t h⟩
  | pop t ht h => exact ⟨_, _, .pop ⟨s, out⟩ t h⟩
  | take t h hevents => exact ⟨_, _, .take ⟨s, out⟩ t h hevents⟩
  | nothing t h hevents => exact ⟨_, _, .nothing ⟨s, out⟩ t h hevents⟩
  | pop_unlock t h => exact ⟨_, _, .pop_returns ⟨s, out⟩ t h⟩
  | set_nowaiting t value h => exact ⟨_, _, .set_nowaiting ⟨s, out⟩ t value h⟩
  | notify_all t h => exact ⟨_, _, .set_returns ⟨s, out⟩ t h⟩
  | notify_one t u ht hu =>
    have hne : t ≠ u := by
      rintro rfl
      simp [ht] at hu
    have hpushed : (Point.pushed : Point α).stage = ((s.go u .woken).threads t).stage := by
      simp [hne, ht]
    refine ⟨none, out, .inside ⟨s, out⟩ hstep fun v => ?_⟩
    exact (stage_update hpushed v).trans (stage_update (by simp [hu]) v)
  | push_lock t h | append t h | notify_nobody t h | pop_lock t h | ready t h | not_ready t h
  | guard t h | waited t h | wait t h | block t h | wake t h | relock t h | unguard t h
  | examine t h | examined t h =>
    exact ⟨none, out, .inside ⟨s, out⟩ hstep (stage_update (by simp [h]))⟩

end Steps

/-! ## The map -/

/-- Where a thread stands with its operation: a `pop` that has stopped waiting for an item
has taken effect if there is none. -/
def phase (events : List α) (out : Option α) : Point α → Phase (Operation α) (Option α)
  | .outside | .examining => .idle
  | .pushing item | .push_locked item => .called (.push item)
  | .notifying | .pushed => .done none
  | .popping | .locked | .guarding | .checking | .blocking | .blocked | .woken => .called .pop
  | .unguarding | .taking => if events.isEmpty then .done none else .called .pop
  | .popped result => .done (if result then out else none)
  | .waking => .done none

/-- A queue as an object whose operations take effect at once. -/
def atomic (c : Called T α) : Atomic T (List α × Bool) (Operation α) (Option α) where
  object := (c.queue.events, c.queue.nowaiting)
  phases t := phase c.queue.events (c.out t) (c.queue.threads t)

variable {c d : Called T α} {s : ConcurrentQueue T α} {t : T} {p : Point α}
  {e : Option (Action T (Operation α) (Option α))}

theorem phase_of_not_critical (h : p.critical = false) (events events' : List α)
    (out : Option α) : phase events out p = phase events' out p := by
  cases p <;> first | rfl | cases h

section Steps

variable [DecidableEq T]

/-- A thread goes on, in a queue whose items change only if it is locked by the thread. -/
theorem atomic_update (hguards : Guards (Point.critical ·) c.queue.queue_mutex c.queue.threads)
    (hthreads : d.queue.threads = update c.queue.threads t p)
    (hevents : d.queue.events = c.queue.events ∨ (c.queue.threads t).critical)
    (hout : ∀ u ≠ t, d.out u = c.out u) :
    atomic d = { (atomic c).go t (phase d.queue.events (d.out t) p) with
      object := (d.queue.events, d.queue.nowaiting) } := by
  refine congrArg (Atomic.mk _) (funext fun u => ?_)
  show phase d.queue.events (d.out u) (d.queue.threads u)
    = update (atomic c).phases t (phase d.queue.events (d.out t) p) u
  rw [hthreads]
  by_cases heq : u = t
  · subst heq
    rw [update_self, update_self]
  · rw [update_of_ne heq, update_of_ne heq, hout u heq]
    rcases hevents with hsame | hcritical
    · rw [hsame]
      rfl
    · refine phase_of_not_critical (Bool.eq_false_iff.mpr fun hu => ?_) ..
      exact heq (hguards.eq hu hcritical)

/-- A thread goes on, and no item comes or goes. -/
theorem atomic_go (hguards : Guards (Point.critical ·) c.queue.queue_mutex c.queue.threads)
    (hs : s.threads = update c.queue.threads t p ∧ s.events = c.queue.events
      ∧ s.nowaiting = c.queue.nowaiting) :
    atomic { c with queue := s } = (atomic c).go t (phase c.queue.events (c.out t) p) := by
  rw [atomic_update (d := { c with queue := s }) hguards hs.1 (.inl hs.2.1) fun _ _ => rfl,
    hs.2.1, hs.2.2]
  rfl

/-- A step that is not seen: the thread is where it was with its operation. -/
theorem atomic_stays (hguards : Guards (Point.critical ·) c.queue.queue_mutex c.queue.threads)
    (hs : s.threads = update c.queue.threads t p ∧ s.events = c.queue.events
      ∧ s.nowaiting = c.queue.nowaiting)
    (h : phase c.queue.events (c.out t) p
      = phase c.queue.events (c.out t) (c.queue.threads t)) :
    atomic { c with queue := s } = atomic c := by
  rw [atomic_go hguards hs, h]
  exact congrArg (Atomic.mk _) (update_eq_self ..)

omit [DecidableEq T] in
/-- `notify_all` is not seen. -/
theorem atomic_notify_all (c : Called T α) :
    atomic { c with queue := c.queue.notify_all } = atomic c := by
  refine congrArg (Atomic.mk _) (funext fun u => ?_)
  show phase c.queue.events (c.out u) (c.queue.threads u).wake
    = phase c.queue.events (c.out u) (c.queue.threads u)
  cases c.queue.threads u <;> rfl

omit [DecidableEq T] in
theorem phases_of (h : c.queue.threads t = p) :
    (atomic c).phases t = phase c.queue.events (c.out t) p :=
  congrArg (phase c.queue.events (c.out t)) h

/-- A `pop` stops waiting: if there is no item, then the mode is no-waiting, and it takes
effect. -/
theorem stops_waiting (hinv : Inv Set.univ c.queue) (hready : c.queue.end_wait_condition = true)
    (hbefore : (atomic c).phases t = .called .pop) (hp : p = .unguarding ∨ p = .taking) :
    Trace (Atomic.Step Effect) (atomic c) [] (atomic { c with queue := c.queue.go t p }) := by
  refine Trace.to ?_ (atomic_go hinv.guards ⟨rfl, rfl, rfl⟩)
  have hphase : phase c.queue.events (c.out t) p
      = if c.queue.events.isEmpty then .done none else .called .pop := by
    rcases hp with rfl | rfl <;> rfl
  rw [hphase]
  cases hevents : c.queue.events with
  | nil =>
    have hnowaiting : c.queue.nowaiting = true := by
      simpa [end_wait_condition, is_nowaiting, hevents] using hready
    have heffect : Effect .pop (atomic c).object none (c.queue.events, c.queue.nowaiting) := by
      show Effect .pop (c.queue.events, c.queue.nowaiting) none (c.queue.events, c.queue.nowaiting)
      rw [hevents, hnowaiting]
      exact .pop_nothing
    exact Trace.single (e := none) (.commit _ t hbefore heffect)
  | cons item rest =>
    refine Trace.start.to ?_
    rw [List.isEmpty_cons, if_neg Bool.false_ne_true, ← hbefore]
    exact congrArg (Atomic.mk _) (update_eq_self ..)

/-- A step that stays in its function. -/
theorem simulates_inside (hinv : Inv Set.univ c.queue) (h : Step Set.univ c.queue s)
    (hstage : ∀ t, (s.threads t).stage = (c.queue.threads t).stage) :
    Trace (Atomic.Step Effect) (atomic c) [] (atomic { c with queue := s }) := by
  -- what is seen changes the function
  have hnot {t : T} {p q : Point α} (ht : c.queue.threads t = p) (hs : s.threads t = q)
      (hne : p.stage ≠ q.stage) : False := hne (ht ▸ hs ▸ (hstage t).symm)
  cases h with
  | append t ht =>
    refine Trace.to (.single (e := none) (.commit _ t (phases_of ht) (.push _ _ _))) ?_
    exact atomic_update (p := .notifying) hinv.guards rfl (.inr (by simp [ht])) fun _ _ => rfl
  | ready t ht hready => exact stops_waiting hinv hready (phases_of ht) (.inr rfl)
  | waited t ht hready => exact stops_waiting hinv hready (phases_of ht) (.inl rfl)
  | notify_one t u ht hu =>
    have hne : t ≠ u := by
      rintro rfl
      simp [ht] at hu
    have hwoken : atomic { c with queue := c.queue.go u .woken } = atomic c :=
      atomic_stays hinv.guards ⟨rfl, rfl, rfl⟩ (by rw [hu]; rfl)
    have hpushed : atomic { c with queue := (c.queue.go u .woken).go t .pushed }
        = atomic { c with queue := c.queue.go u .woken } :=
      atomic_stays (c := { c with queue := c.queue.go u .woken }) (hinv.wake hu).guards
        ⟨rfl, rfl, rfl⟩ (by simp [hne, ht, phase])
    exact Trace.start.to (hpushed.trans hwoken)
  | push t item ht | push_unlock t ht | pop t _ ht | take t ht hevents | nothing t ht hevents
  | pop_unlock t ht | set_nowaiting t value ht | notify_all t ht =>
    exact (hnot ht (update_self ..) (by simp)).elim
  | push_lock t ht | notify_nobody t ht | pop_lock t ht | not_ready t ht
  | guard t ht | wait t ht | block t ht | wake t ht | relock t ht | unguard t ht
  | examine t ht | examined t ht =>
    exact Trace.start.to (atomic_stays hinv.guards ⟨rfl, rfl, rfl⟩ (by rw [ht]; rfl))

/-- **Every step** is one that a queue could make whose operations take effect at once. -/
theorem Seen.simulates (hinv : Inv Set.univ c.queue) (h : Seen c e d) :
    Trace (Atomic.Step Effect) (atomic c) e.toList (atomic d) := by
  have hguards := hinv.guards
  cases h with
  | push t item ht =>
    exact Trace.single (.call _ t _ (phases_of ht)) |>.to (atomic_go hguards ⟨rfl, rfl, rfl⟩)
  | pop t ht =>
    exact Trace.single (.call _ t _ (phases_of ht)) |>.to (atomic_go hguards ⟨rfl, rfl, rfl⟩)
  | push_returns t ht =>
    exact Trace.single (.ret _ t (phases_of ht)) |>.to (atomic_go hguards ⟨rfl, rfl, rfl⟩)
  | pop_returns t ht =>
    exact Trace.single (.ret _ t (phases_of ht)) |>.to (atomic_go hguards ⟨rfl, rfl, rfl⟩)
  | @take t item rest ht hevents =>
    have hphase : (atomic c).phases t = .called .pop := by
      rw [phases_of ht, hevents]
      rfl
    have heffect : Effect .pop (atomic c).object (some item) (rest, c.queue.nowaiting) := by
      show Effect .pop (c.queue.events, c.queue.nowaiting) (some item) (rest, c.queue.nowaiting)
      rw [hevents]
      exact .pop ..
    refine Trace.to (.single (e := none) (.commit _ t hphase heffect)) ?_
    refine (atomic_update hguards rfl (.inr (by simp [ht])) fun u hu => update_of_ne hu ..).trans ?_
    simp [phase, ConcurrentQueue.take, ConcurrentQueue.go]
  | nothing t ht hevents =>
    exact Trace.start.to (atomic_stays hguards ⟨rfl, rfl, rfl⟩ (by simp [ht, hevents, phase]))
  | set_nowaiting t value ht =>
    -- the mode is set at once when the function is called
    have hcall : Atomic.Step Effect (atomic c) (some (.call t (.set_nowaiting value)))
        ((atomic c).go t (.called (.set_nowaiting value))) := .call _ t _ (phases_of ht)
    have heffect : Effect (.set_nowaiting value) (atomic c).object none
      (c.queue.events, value) := .set_nowaiting ..
    refine Trace.to ((Trace.single hcall).inside (.commit _ t (update_self ..) heffect)) ?_
    rw [Atomic.go_go]
    exact atomic_update (p := .waking) hguards rfl (.inl rfl) fun _ _ => rfl
  | set_returns t ht =>
    have hgo : atomic { c with queue := c.queue.notify_all.go t .outside }
        = (atomic { c with queue := c.queue.notify_all }).go t .idle :=
      atomic_go (c := { c with queue := c.queue.notify_all }) (p := .outside)
        hinv.notify_all.guards ⟨rfl, rfl, rfl⟩
    rw [atomic_notify_all] at hgo
    exact Trace.single (.ret _ t (phases_of ht)) |>.to hgo
  | inside h hstage => exact simulates_inside hinv h hstage

/-- A thread makes the step. -/
theorem Step.nonempty {workers : Set T} {s s' : ConcurrentQueue T α}
    (h : Step workers s s') : Nonempty T := by
  cases h <;> exact ⟨‹T›⟩

/-- A queue that any thread may pop refines one whose operations take effect at once. -/
theorem refines : Refines Seen (Atomic.Step Effect) (fun c : Called T α => Inv Set.univ c.queue)
    atomic where
  keeps _ _ _ hinv h :=
    have := h.step.nonempty
    Step.inv Set.univ_nonempty hinv h.step
  simulates _ _ _ := Seen.simulates

end Steps

end ConcurrentQueue
end Kaiu
