/-
`self_managing`: how long a promise lives.

A promise is an object that shared pointers refer to. Any number of threads have such
references in their hands, hand copies to each other and drop them, and call `resolve`,
`reject`, `then`, `forward_to` and `finish` through them; their steps come in any order.
While a callback runs, with the mutex of the promise locked, its thread may drop the very
reference through which the operation was called, and so may `on_resolve = nullptr` drop
one that the callback has captured. What the thread does next, `set_state(completed)` and
the unlocking of the mutex, would then be done to a promise that has been destroyed.

The validating build makes a settled promise refer to itself (`make_immortal`), and has
that reference dropped after the mutex has been unlocked (`make_mortal`, whose effect is
deferred to the destructor of the lock helper). With it no destroyed promise is in use, and
without it one can be (`destroyed_unused_iff`). The price is that a promise that is
settled and not completed is never destroyed (`destroyed_iff`).
-/
import Kaiu.Library.Exit
import Kaiu.Library.History
import Kaiu.Library.Mutex
import Kaiu.PromiseOnce

set_option autoImplicit false

namespace Kaiu

open Exit Mutex Relation Function

namespace PromiseState

section Interrupted

variable {V E K W X : Type*} [Throws E X]

/-! ## An operation up to the call of a callback, and from there on -/

/-- At the call of a callback, which is noted, the operation is interrupted. -/
def interrupt (callback : K) (o : Outcome V E) (_ : Option (K × Outcome V E)) :
    Ended (Option (K × Outcome V E)) (ExceptionPtr E) :=
  throws (some (callback, o)) .null

/-- An operation up to the call of a callback, or to its end if it calls none. -/
def Op.enter (b : Build) (op : Op V E K) (p : PromiseState V E K) :
    Ended (PromiseState V E K × Option (K × Outcome V E)) (ExceptionPtr E) :=
  op.apply b interrupt (p, none)

/-- `update_state` in state `completed`. The self-reference is not dropped yet: `make_mortal`
leaves that to the destructor of the lock helper. -/
def make_mortal (p : PromiseState V E K) (w : W) : Ended (PromiseState V E K × W) X :=
  returns ({ p with callbacks := none }, w)

/-- `set_state(completed)` in `update_state`, when the callback has returned. -/
def finish_state (b : Build) (p : PromiseState V E K) :
    Ended (PromiseState V E K × Unit) (ExceptionPtr E) :=
  set_state_then b make_mortal .completed p ()

/-- The self-reference is dropped at the end of the lock scope. -/
def reset (p : PromiseState V E K) : PromiseState V E K :=
  { p with self_reference := false }

/-- What is left of an operation where it was interrupted: the callback is called, and the
promise completed if it returns. -/
def go_on (b : Build) (call : K → Outcome V E → W → Ended W X) (w : W) :
    Ended (PromiseState V E K × Option (K × Outcome V E)) (ExceptionPtr E) →
      Ended (PromiseState V E K × W) X
  | ((p, some (callback, o)), _) =>
      let (w, x) := call callback o w
      andThen ((p, w), x) fun (p, w) => set_state_then b release .completed p w
  | ((p, none), x) => ((p, w), x.map Throws.throw)

variable {b : Build} {call : K → Outcome V E → W → Ended W X} {w : W} {p : PromiseState V E K}

theorem go_on_run_callback (o : Outcome V E) :
    go_on b call w (run_callback b interrupt o p none) = run_callback b call o p w := by
  unfold run_callback
  cases p.callbacks with
  | none => rfl
  | some callback => rfl

theorem go_on_update_state :
    go_on b call w (update_state b interrupt p none) = update_state b call p w := by
  unfold update_state
  cases p.state with
  | pending | completed => rfl
  | rejected | resolved =>
    cases p.callbacks_assigned with
    | false => rfl
    | true => exact go_on_run_callback _

theorem go_on_set_state (next_state : promise_state) :
    go_on b call w (set_state b interrupt next_state p none) = set_state b call next_state p w := by
  unfold set_state set_state_then
  cases check_transition b p.state next_state with
  | none => exact go_on_update_state
  | some what => rfl

/-- **The parts make up the operation**: what it does up to the call of a callback, the
callback, and what it does from there on. -/
theorem go_on_enter (op : Op V E K) :
    go_on b call w (op.enter b p) = op.apply b call (p, w) := by
  cases op with
  | resolve result => exact go_on_set_state .resolved
  | reject error => exact go_on_set_state .rejected
  | bind callbacks =>
    show go_on b call w (set_callbacks b interrupt callbacks p none) = _
    unfold set_callbacks
    cases hrefused : b.SAFE_PROMISES && p.callbacks_assigned with
    | true =>
      simp only [Op.apply, set_callbacks, hrefused, if_true]
      rfl
    | false =>
      simp only [Op.apply, set_callbacks, hrefused, Bool.false_eq_true, if_false]
      exact go_on_update_state

/-- The promise is completed, and then the self-reference is dropped. -/
theorem release_eq_reset :
    set_state_then b (release (X := X)) .completed p w =
      match finish_state b p with
      | ((p, _), none) => ((p.reset, w), none)
      | ((p, _), some x) => ((p, w), some (Throws.throw x)) := by
  unfold finish_state set_state_then
  cases check_transition b p.state .completed with
  | none => rfl
  | some what => rfl

end Interrupted

/-! ## The self-reference -/

section Safe

variable {V E K : Type*} {b : Build} {p q : PromiseState V E K} {op : Op V E K}

/-- Settled, and not completed. -/
def Unfinished (p : PromiseState V E K) : Prop :=
  p.state ≠ .pending ∧ p.state ≠ .completed

theorem Unfinished.exists_outcome (h : p.Unfinished) :
    ∃ o, p.state = settled_state o ∧ outcome p = some o := by
  unfold Unfinished at h
  cases hs : p.state with
  | pending => exact absurd hs h.1
  | completed => exact absurd hs h.2
  | resolved => exact ⟨.resolved p.result, rfl, by simp [outcome, hs]⟩
  | rejected => exact ⟨.rejected p.error, rfl, by simp [outcome, hs]⟩

theorem unfinished_of_settled_state {o : Outcome V E} (h : p.state = settled_state o) :
    p.Unfinished := by
  unfold Unfinished
  rw [h]
  cases o <;> exact ⟨nofun, nofun⟩

/-- A promise refers to itself while it is settled and not completed; it is completed only
when it has been bound, and has no callbacks then. -/
structure Immortal (p : PromiseState V E K) : Prop where
  pending : p.state = .pending → p.self_reference = false
  unfinished : p.Unfinished → p.self_reference = true
  completed : p.state = .completed → p.callbacks_assigned = true ∧ p.callbacks = none

theorem immortal_new [Inhabited V] : (new : PromiseState V E K).Immortal where
  pending _ := rfl
  unfinished h := absurd rfl h.1
  completed h := nomatch h

/-- What an operation has done to a promise when it calls a callback or ends. -/
structure Entered (p : PromiseState V E K)
    (r : Ended (PromiseState V E K × Option (K × Outcome V E)) (ExceptionPtr E)) : Prop where
  immortal : r.1.1.Immortal
  completed : p.state = .completed →
    r.1.1.state = .completed ∧ r.1.1.self_reference = p.self_reference
  uncompleted : p.state ≠ .completed → r.1.1.state ≠ .completed
  called : ∀ callback o, r.1.2 = some (callback, o) →
    r.1.1.Unfinished ∧ r.1.1.callbacks_assigned = true ∧ r.1.1.callbacks = some callback
  returned : r.2 = none → r.1.1.state ≠ .completed

/-- An operation that is refused leaves the state as it is. -/
theorem Entered.refused (h : p.Immortal) (hstate : q.state = p.state)
    (hself : q.self_reference = p.self_reference)
    (hcallbacks : q.callbacks = p.callbacks)
    (hassigned : q.callbacks_assigned = p.callbacks_assigned) (x : ExceptionPtr E) :
    Entered p (throws (q, none) x) where
  immortal := by
    refine ⟨?_, ?_, ?_⟩
    · rw [throws_fst, hstate, hself]
      exact h.pending
    · rw [throws_fst, Unfinished, hstate, hself]
      exact h.unfinished
    · rw [throws_fst, hstate, hassigned, hcallbacks]
      exact h.completed
  completed hp := ⟨hstate.trans hp, hself⟩
  uncompleted hp := by
    rw [throws_fst, hstate]
    exact hp
  called _ _ hnone := nomatch hnone
  returned hthrew := nomatch hthrew

/-- An operation that calls no callback leaves a promise that has not been completed. -/
theorem Entered.stored (hp : p.state ≠ .completed) (hq : q.Immortal)
    (hstate : q.state ≠ .completed) : Entered p (returns (q, none)) where
  immortal := hq
  completed h := absurd h hp
  uncompleted _ := hstate
  called _ _ hnone := nomatch hnone
  returned _ := hstate

theorem run_callback_interrupted {callback : K} (hcallbacks : q.callbacks = some callback)
    (o : Outcome V E) :
    run_callback b interrupt o q none =
      throws ({ q with called := q.called ++ [o] }, some (callback, o)) .null := by
  unfold run_callback
  rw [hcallbacks]
  rfl

/-- The callback of a settled promise is called. -/
theorem Entered.run_callback (hp : p.state ≠ .completed) (hq : q.Unfinished)
    (hself : q.self_reference = true) (hassigned : q.callbacks_assigned = true)
    (o : Outcome V E) : Entered p (run_callback b interrupt o q none) := by
  cases hcallbacks : q.callbacks with
  | none =>
    have hnone : PromiseState.run_callback b interrupt o q none =
        throws (q, none) .bad_function_call := by
      unfold PromiseState.run_callback
      rw [hcallbacks]
      rfl
    rw [hnone]
    exact ⟨⟨fun h => absurd h hq.1, fun _ => hself, fun h => absurd h hq.2⟩,
      fun h => absurd h hp, fun _ => hq.2, nofun, nofun⟩
  | some callback =>
    rw [run_callback_interrupted hcallbacks]
    refine ⟨⟨fun h => absurd h hq.1, fun _ => hself, fun h => absurd h hq.2⟩,
      fun h => absurd h hp, fun _ => hq.2, fun callback' o' h => ?_, nofun⟩
    cases h
    exact ⟨hq, hassigned, hcallbacks⟩

/-- The first settlement makes the promise immortal. -/
theorem immortal_settled (hb : b.SAFE_PROMISES = true) (o : Outcome V E)
    (hp : p.state = .pending) :
    (settled b o p).self_reference = true ∧ (settled b o p).Unfinished := by
  refine ⟨?_, unfinished_of_settled_state (settled_state_settled b o p)⟩
  show ((with_outcome o p).self_reference || (b.SAFE_PROMISES && (with_outcome o p).state == _)) = _
  rw [hb, with_outcome_state, hp]
  simp

@[simp] theorem with_outcome_self_reference (o : Outcome V E) (p : PromiseState V E K) :
    (with_outcome o p).self_reference = p.self_reference := by
  cases o <;> rfl

theorem Entered.settle (hb : b.SAFE_PROMISES = true) (h : p.Immortal) (o : Outcome V E) :
    Entered p (settle b interrupt o p none) := by
  by_cases hpending : p.state = .pending
  · have hne : p.state ≠ .completed := by simp [hpending]
    obtain ⟨hself, hunfinished⟩ := immortal_settled hb o hpending
    rw [settle_pending b _ o _ hpending]
    split
    · rename_i hassigned
      exact .run_callback hne hunfinished hself (by simpa using hassigned) o
    · refine .stored hne ⟨fun hs => ?_, fun _ => hself, fun hs => ?_⟩ hunfinished.2
      · exact absurd hs hunfinished.1
      · exact absurd hs hunfinished.2
  · by_cases hsame : p.state = settled_state o
    · have hunfinished := unfinished_of_settled_state hsame
      have hself := h.unfinished hunfinished
      have hq : (with_outcome o p).Unfinished := by
        rwa [Unfinished, with_outcome_state]
      rw [settle_repeated b _ _ hsame]
      split
      · rename_i hassigned
        exact .run_callback hunfinished.2 hq (by simpa using hself) (by simpa using hassigned) o
      · have hself' : (with_outcome o p).self_reference = true := by simpa using hself
        refine .stored hunfinished.2 ⟨fun hs => ?_, fun _ => hself', fun hs => ?_⟩ hq.2
        · exact absurd hs hq.1
        · exact absurd hs hq.2
    · rw [settle_refused hb _ _ hpending hsame]
      exact .refused h (by simp) (by simp) (by simp) (by simp) _

theorem Entered.set_callbacks (hb : b.SAFE_PROMISES = true) (h : p.Immortal) (callbacks : K) :
    Entered p (set_callbacks b interrupt callbacks p none) := by
  cases hassigned : p.callbacks_assigned with
  | true =>
    rw [set_callbacks_refused hb _ _ _ hassigned]
    exact .refused h rfl rfl rfl rfl _
  | false =>
    have hne : p.state ≠ .completed := by
      intro hs
      rw [(h.completed hs).1] at hassigned
      cases hassigned
    by_cases hpending : p.state = .pending
    · rw [set_callbacks_pending b _ _ _ hassigned hpending]
      exact .stored hne ⟨h.pending, h.unfinished, fun hs => absurd hs hne⟩ hne
    · obtain ⟨o, hs, ho⟩ := Unfinished.exists_outcome ⟨hpending, hne⟩
      rw [set_callbacks_settled b _ _ _ hassigned hs ho]
      have hq : (bound callbacks p).Unfinished := ⟨hpending, hne⟩
      exact .run_callback hne hq (h.unfinished ⟨hpending, hne⟩) rfl o

/-- What an operation of the validating build does up to the call of a callback. -/
theorem Entered.enter (hb : b.SAFE_PROMISES = true) (h : p.Immortal) (op : Op V E K) :
    Entered p (op.enter b p) := by
  cases op with
  | resolve result => exact .settle hb h (.resolved result)
  | reject error => exact .settle hb h (.rejected error)
  | bind callbacks => exact .set_callbacks hb h callbacks

/-- A settled promise is completed when the callback has returned; the self-reference is
still there. -/
theorem finish_state_eq (b : Build) (h : p.Unfinished) :
    finish_state b p = returns ({ p with state := .completed, callbacks := none }, ()) := by
  obtain ⟨o, hs, -⟩ := h.exists_outcome
  have hcheck : check_transition b p.state .completed = none := by
    rw [hs]
    cases o <;> simp [check_transition, settled_state]
  have hself : (p.self_reference || (b.SAFE_PROMISES && p.state == .pending))
      = p.self_reference := by
    rw [hs]
    cases o <;> simp [settled_state]
  simp only [finish_state, set_state_then, hcheck, make_mortal, make_immortal, hself]

end Safe

end PromiseState

/-! ## Threads -/

namespace PromiseLifetime

/-- Where a thread stands in an operation of the promise. -/
inductive Point (V E K : Type*) where
  | outside
  /-- In `get_lock`, about to lock the mutex. -/
  | locking (op : PromiseState.Op V E K)
  /-- The mutex is locked, and the operation is to be carried out. -/
  | locked (op : PromiseState.Op V E K)
  /-- In a copy of the callback, which `update_state` has on its stack. -/
  | calling (callback : K)
  /-- In the destructor of the lock helper, with the mutex still locked. -/
  | unlocking (immortality : Bool)
  /-- The mutex has been unlocked, and the self-reference is to be dropped. -/
  | resetting

namespace Point

variable {V E K : Type*}

/-- The mutex is locked by the thread. -/
@[simp] def critical : Point V E K → Bool
  | locked _ | calling _ | unlocking _ => true
  | outside | locking _ | resetting => false

/-- The thread is going to drop the self-reference. -/
@[simp] def immortality : Point V E K → Bool
  | unlocking immortality => immortality
  | resetting => true
  | outside | locking _ | locked _ | calling _ => false

/-- The code that runs is not that of the promise, and may do with references as it likes. -/
@[simp] def own : Point V E K → Bool
  | outside | calling _ => true
  | locking _ | locked _ | unlocking _ | resetting => false

/-- Where a thread stands when an operation has called a callback or ended. -/
def entered : Ended (PromiseState V E K × Option (K × Outcome V E)) (ExceptionPtr E) → Point V E K
  | ((_, some (callback, _)), _) => calling callback
  | ((p, none), none) => unlocking (p.state == .completed)
  | ((_, none), some _) => unlocking false

/-- Where a thread stands when `set_state(completed)` has ended. -/
def finished : Ended (PromiseState V E K × Unit) (ExceptionPtr E) → Point V E K
  | (_, none) => unlocking true
  | (_, some _) => unlocking false

end Point

end PromiseLifetime

/-- A promise, its mutex, the references that the threads have in their hands, and what the
threads are doing. -/
structure PromiseLifetime (T V E K : Type*) where
  promise : PromiseState V E K
  mx : Option T := none
  references : T → ℕ
  threads : T → PromiseLifetime.Point V E K := fun _ => .outside

namespace PromiseLifetime

open PromiseState

variable {T V E K : Type*}

section Steps

variable [DecidableEq T] (b : Build) (captures : K → Bool)

/-- A promise that a thread has just made. -/
def new [Inhabited V] (t : T) : PromiseLifetime T V E K :=
  { promise := .new, references := update (fun _ => 0) t 1 }

/-- A thread goes on. -/
def go (t : T) (point : Point V E K) (s : PromiseLifetime T V E K) : PromiseLifetime T V E K :=
  { s with threads := update s.threads t point }

/-- The number of references in the hands of a thread changes. -/
def set_references (t : T) (n : ℕ) (s : PromiseLifetime T V E K) : PromiseLifetime T V E K :=
  { s with references := update s.references t n }

/-- A thread can make a copy of a reference in its hands, and a callback can make one of a
reference that it has captured. -/
def CanCopy (s : PromiseLifetime T V E K) (t : T) : Prop :=
  0 < s.references t ∨ ∃ callback, s.threads t = .calling callback ∧ captures callback = true

/-- The steps of the threads. -/
inductive Step : PromiseLifetime T V E K → PromiseLifetime T V E K → Prop where
  /-- A thread makes a copy, for itself or for another thread. -/
  | copy (s : PromiseLifetime T V E K) (t u : T) (h : (s.threads t).own = true)
      (hcopy : s.CanCopy captures t) : Step s (s.set_references u (s.references u + 1))
  | drop (s : PromiseLifetime T V E K) (t : T) (h : (s.threads t).own = true)
      (href : 0 < s.references t) : Step s (s.set_references t (s.references t - 1))
  | call (s : PromiseLifetime T V E K) (t : T) (op : Op V E K) (h : s.threads t = .outside)
      (href : 0 < s.references t) : Step s (s.go t (.locking op))
  | lock (s : PromiseLifetime T V E K) (t : T) {op : Op V E K} (h : s.threads t = .locking op)
      (hfree : s.mx = none) : Step s { s.go t (.locked op) with mx := some t }
  | enter (s : PromiseLifetime T V E K) (t : T) {op : Op V E K} (h : s.threads t = .locked op) :
      Step s { s.go t (.entered (op.enter b s.promise)) with
        promise := (op.enter b s.promise).1.1 }
  | callback_returned (s : PromiseLifetime T V E K) (t : T) {callback : K}
      (h : s.threads t = .calling callback) :
      Step s { s.go t (.finished (finish_state b s.promise)) with
        promise := (finish_state b s.promise).1.1 }
  | callback_threw (s : PromiseLifetime T V E K) (t : T) {callback : K}
      (h : s.threads t = .calling callback) : Step s (s.go t (.unlocking false))
  | unlock (s : PromiseLifetime T V E K) (t : T) {immortality : Bool}
      (h : s.threads t = .unlocking immortality) :
      Step s { s.go t (if immortality then .resetting else .outside) with mx := none }
  | reset (s : PromiseLifetime T V E K) (t : T) (h : s.threads t = .resetting) :
      Step s { s.go t .outside with promise := s.promise.reset }

end Steps

/-- The last shared pointer to the promise is gone: there is none in the hands of a thread,
the promise does not refer to itself, and neither its callback nor a copy of a callback that
is being called has captured one. -/
def Destroyed (captures : K → Bool) (s : PromiseLifetime T V E K) : Prop :=
  (∀ t, s.references t = 0) ∧ s.promise.self_reference = false ∧
    (∀ callback, s.promise.callbacks = some callback → captures callback = false) ∧
    ∀ t callback, s.threads t = .calling callback → captures callback = false

/-- The exception of the destructor, which only the validating build has. Not modelled: it
throws nothing while the stack is being unwound. -/
def destructor (b : Build) (p : PromiseState V E K) : Option String :=
  if b.SAFE_PROMISES && p.callbacks_assigned && p.state != .completed then
    some "Promise destructor called on bound but uncompleted promise"
  else none

/-! ## The invariant -/

/-- What is known where a thread stands: an operation begins with a reference, and ends with
one or with the self-reference. -/
def Point.expects (references : ℕ) (p : PromiseState V E K) : Point V E K → Prop
  | outside => True
  | locking _ | locked _ => 0 < references
  | calling callback =>
    p.Unfinished ∧ p.callbacks_assigned = true ∧ p.callbacks = some callback
  | unlocking false => 0 < references ∨ p.Unfinished
  | unlocking true | resetting => p.state = .completed ∧ p.self_reference = true

/-- The mutex is locked by the thread that is in a critical section; the promise is immortal
while it is settled and not completed, and from then on until one thread has dropped the
self-reference. -/
structure Inv (s : PromiseLifetime T V E K) : Prop where
  guards : Guards (Point.critical ·) s.mx s.threads
  expects : ∀ t, (s.threads t).expects (s.references t) s.promise
  immortal : s.promise.Immortal
  mortal : ∃ keeper, Guards (Point.immortality ·) keeper s.threads ∧
    (s.promise.state = .completed → s.promise.self_reference = true → keeper ≠ none)

section Invariant

variable [DecidableEq T] {s s' : PromiseLifetime T V E K} {t : T} {b : Build}
  {captures : K → Bool}

theorem inv_new [Inhabited V] (t : T) : Inv (new t : PromiseLifetime T V E K) where
  guards _ := ⟨nofun, nofun⟩
  expects _ := trivial
  immortal := immortal_new
  mortal := ⟨none, fun _ => ⟨nofun, nofun⟩, nofun⟩

omit [DecidableEq T] in
/-- What a thread outside of the critical sections expects of the promise is left by one
that locks the mutex, as long as the self-reference stays. -/
theorem Point.expects_of_not_critical {references : ℕ} {p q : PromiseState V E K}
    {point : Point V E K} (h : point.expects references p) (hpoint : point.critical ≠ true)
    (hkeeps : p.state = .completed ∧ p.self_reference = true →
      q.state = .completed ∧ q.self_reference = true) : point.expects references q := by
  cases point with
  | outside => trivial
  | locking op => exact h
  | resetting => exact hkeeps h
  | locked op | calling callback | unlocking immortality => exact absurd rfl hpoint

/-- A thread goes on, and nothing else changes than who owns the mutex. -/
theorem Inv.go (h : Inv s) {point : Point V E K} {mx : Option T}
    (hexpects : point.expects (s.references t) s.promise)
    (hguards : Guards (Point.critical ·) mx (update s.threads t point))
    (himmortality : point.immortality = (s.threads t).immortality) :
    Inv { s.go t point with mx := mx } where
  guards := hguards
  expects u := by
    show (update s.threads t point u).expects (s.references u) s.promise
    by_cases hu : u = t
    · subst hu
      rw [update_self]
      exact hexpects
    · rw [update_of_ne hu]
      exact h.expects u
  immortal := h.immortal
  mortal := by
    obtain ⟨keeper, hkeeper, hself⟩ := h.mortal
    exact ⟨keeper, hkeeper.move (by rw [himmortality]), hself⟩

omit [DecidableEq T] in
/-- A thread that has no reference to lose stands where it stood. -/
theorem Point.expects_of_own {point : Point V E K} {p : PromiseState V E K} {m n : ℕ}
    (h : point.expects m p) (hpoint : point.own = true ∨ m ≤ n) : point.expects n p := by
  cases point with
  | outside => trivial
  | calling callback => exact h
  | resetting => exact h
  | locking op | locked op =>
    exact lt_of_lt_of_le h (hpoint.resolve_left Bool.false_ne_true)
  | unlocking immortality =>
    cases immortality with
    | true => exact h
    | false => exact h.imp_left fun hm => lt_of_lt_of_le hm (hpoint.resolve_left Bool.false_ne_true)

/-- References are copied and dropped where they are not needed. -/
theorem Inv.set_references (h : Inv s) (t : T) (n : ℕ)
    (hn : (s.threads t).own = true ∨ s.references t ≤ n) : Inv (s.set_references t n) where
  guards := h.guards
  expects u := by
    show (s.threads u).expects (update s.references t n u) s.promise
    by_cases hu : u = t
    · subst hu
      rw [update_self]
      exact Point.expects_of_own (h.expects u) hn
    · rw [update_of_ne hu]
      exact h.expects u
  immortal := h.immortal
  mortal := h.mortal

omit [DecidableEq T] in
/-- A thread that is to drop the self-reference does so of a completed promise. -/
theorem Inv.completed_of_immortality (h : Inv s) (ht : (s.threads t).immortality = true) :
    s.promise.state = .completed ∧ s.promise.self_reference = true := by
  have hexpects := h.expects t
  cases hthread : s.threads t with
  | outside | locking op | locked op | calling callback =>
    rw [hthread] at ht
    cases ht
  | resetting =>
    rw [hthread] at hexpects
    exact hexpects
  | unlocking immortality =>
    rw [hthread] at hexpects ht
    cases ht
    exact hexpects

/-- The thread that has locked the mutex changes the promise. -/
theorem Inv.change (h : Inv s) {point : Point V E K} {q : PromiseState V E K}
    (ht : (s.threads t).critical = true) (hpoint : point.critical = true)
    (hexpects : point.expects (s.references t) q) (himmortal : q.Immortal)
    (hkeeps : s.promise.state = .completed ∧ s.promise.self_reference = true →
      q.state = .completed ∧ q.self_reference = true)
    (hmortal : ∃ keeper, Guards (Point.immortality ·) keeper (update s.threads t point) ∧
      (q.state = .completed → q.self_reference = true → keeper ≠ none)) :
    Inv { s.go t point with promise := q } where
  guards := h.guards.move (by rw [hpoint, ht])
  expects u := by
    show (update s.threads t point u).expects (s.references u) q
    by_cases hu : u = t
    · subst hu
      rw [update_self]
      exact hexpects
    · rw [update_of_ne hu]
      exact Point.expects_of_not_critical (h.expects u) (fun hcrit => hu (h.guards.eq hcrit ht))
        hkeeps
  immortal := himmortal
  mortal := hmortal

/-- An operation is carried out, up to the call of a callback. -/
theorem Inv.enter (hb : b.SAFE_PROMISES = true) (h : Inv s) {op : Op V E K}
    (ht : s.threads t = .locked op) :
    Inv { s.go t (.entered (op.enter b s.promise)) with
      promise := (op.enter b s.promise).1.1 } := by
  have hentered := Entered.enter hb h.immortal op
  have href : 0 < s.references t := by simpa [ht, Point.expects] using h.expects t
  have hcritical : (s.threads t).critical = true := by rw [ht]; rfl
  revert hentered
  generalize op.enter b s.promise = r
  intro hentered
  obtain ⟨⟨q, called⟩, x⟩ := r
  have hpoint : (Point.entered ((q, called), x)).critical = true ∧
      (Point.entered ((q, called), x)).immortality = false ∧
      (Point.entered ((q, called), x)).expects (s.references t) q := by
    rcases called with _ | ⟨callback, o⟩
    · rcases x with _ | x
      · have hstate : (q.state == .completed) = false := by simpa using hentered.returned rfl
        simp only [Point.entered, hstate]
        exact ⟨rfl, rfl, .inl href⟩
      · exact ⟨rfl, rfl, .inl href⟩
    · exact ⟨rfl, rfl, hentered.called callback o rfl⟩
  obtain ⟨keeper, hkeeper, hself⟩ := h.mortal
  refine h.change hcritical hpoint.1 hpoint.2.2 hentered.immortal (fun hcompleted => ?_)
    ⟨keeper, hkeeper.move (by rw [hpoint.2.1, ht]; rfl), fun hstate hreference => ?_⟩
  · obtain ⟨hstate, hreference⟩ := hentered.completed hcompleted.1
    exact ⟨hstate, hreference.trans hcompleted.2⟩
  · have hcompleted : s.promise.state = .completed :=
      not_not.mp fun hne => hentered.uncompleted hne hstate
    exact hself hcompleted ((hentered.completed hcompleted).2.symm.trans hreference)

/-- A callback has returned, and the promise is completed. -/
theorem Inv.callback_returned (h : Inv s) {callback : K} (ht : s.threads t = .calling callback) :
    Inv { s.go t (.finished (finish_state b s.promise)) with
      promise := (finish_state b s.promise).1.1 } := by
  have hcritical : (s.threads t).critical = true := by rw [ht]; rfl
  have hexpects := h.expects t
  rw [ht] at hexpects
  obtain ⟨hunfinished, hassigned, -⟩ := hexpects
  have hself := h.immortal.unfinished hunfinished
  obtain ⟨keeper, hkeeper, -⟩ := h.mortal
  have hnobody : keeper = none := by
    cases keeper with
    | none => rfl
    | some u =>
      exact absurd (h.completed_of_immortality ((hkeeper u).mpr rfl)).1 hunfinished.2
  subst hnobody
  rw [finish_state_eq b hunfinished]
  exact h.change hcritical rfl ⟨rfl, hself⟩
    ⟨nofun, fun hq => absurd rfl hq.2, fun _ => ⟨hassigned, rfl⟩⟩
    (fun hcompleted => absurd hcompleted.1 hunfinished.2)
    ⟨some t, hkeeper.lock rfl, fun _ _ => Option.some_ne_none t⟩

/-- The self-reference is dropped. -/
theorem Inv.reset (h : Inv s) (ht : s.threads t = .resetting) :
    Inv { s.go t .outside with promise := s.promise.reset } := by
  have himmortality : (s.threads t).immortality = true := by rw [ht]; rfl
  obtain ⟨hcompleted, -⟩ := h.completed_of_immortality himmortality
  obtain ⟨keeper, hkeeper, -⟩ := h.mortal
  refine ⟨h.guards.move (by rw [ht]; rfl), fun u => ?_, ⟨fun _ => rfl, fun hq => ?_, ?_⟩,
    ⟨none, hkeeper.unlock himmortality Bool.false_ne_true, nofun⟩⟩
  · show (update s.threads t .outside u).expects (s.references u) s.promise.reset
    by_cases hu : u = t
    · subst hu
      rw [update_self]
      trivial
    · rw [update_of_ne hu]
      have hother : (s.threads u).immortality ≠ true := fun h' => hu (hkeeper.eq h' himmortality)
      have hexpects := h.expects u
      cases hthread : s.threads u with
      | outside => trivial
      | locking op | locked op | calling callback =>
        rw [hthread] at hexpects
        exact hexpects
      | resetting =>
        rw [hthread] at hother
        exact absurd rfl hother
      | unlocking immortality =>
        rw [hthread] at hexpects hother
        cases immortality with
        | true => exact absurd rfl hother
        | false => exact hexpects
  · exact absurd hcompleted hq.2
  · exact h.immortal.completed

/-- **Every step of the validating build keeps the invariant.** -/
theorem Inv.step (hb : b.SAFE_PROMISES = true) (h : Inv s) (hstep : Step b captures s s') :
    Inv s' := by
  cases hstep with
  | copy t u hown hcopy => exact h.set_references u _ (.inr (Nat.le_succ _))
  | drop t hown href => exact h.set_references t _ (.inl hown)
  | call t op ht href =>
    exact h.go href (h.guards.move (by simp [ht])) (by simp [ht])
  | lock t ht hfree =>
    have href := h.expects t
    rw [ht] at href
    exact h.go href ((hfree ▸ h.guards).lock rfl) (by simp [ht])
  | enter t ht => exact h.enter hb ht
  | callback_returned t ht => exact h.callback_returned ht
  | callback_threw t ht =>
    have hexpects := h.expects t
    rw [ht] at hexpects
    exact h.go (.inr hexpects.1) (h.guards.move (by simp [ht])) (by simp [ht])
  | unlock t ht =>
    rename_i immortality
    have hexpects := h.expects t
    rw [ht] at hexpects
    cases immortality with
    | true => exact h.go hexpects (h.guards.unlock (by simp [ht]) Bool.false_ne_true) (by simp [ht])
    | false => exact h.go trivial (h.guards.unlock (by simp [ht]) Bool.false_ne_true) (by simp [ht])
  | reset t ht => exact h.reset ht

theorem Inv.run (hb : b.SAFE_PROMISES = true) (h : Inv s)
    (hrun : ReflTransGen (Step b captures) s s') : Inv s' :=
  History.keeps (fun _ _ h hstep => h.step hb hstep) h hrun

omit [DecidableEq T] in
/-- A thread that is in an operation keeps the promise alive. -/
theorem Inv.outside_of_destroyed (h : Inv s) (hdestroyed : Destroyed captures s) (t : T) :
    s.threads t = .outside := by
  obtain ⟨hreferences, hself, -, -⟩ := hdestroyed
  have hexpects := h.expects t
  rw [hreferences t] at hexpects
  have hunfinished : ¬ s.promise.Unfinished := by
    intro hunfinished
    rw [h.immortal.unfinished hunfinished] at hself
    cases hself
  cases hthread : s.threads t with
  | outside => rfl
  | locking op | locked op =>
    rw [hthread] at hexpects
    exact absurd hexpects (lt_irrefl 0)
  | calling callback =>
    rw [hthread] at hexpects
    exact absurd hexpects.1 hunfinished
  | resetting =>
    rw [hthread] at hexpects
    exact absurd (hself.symm.trans hexpects.2) Bool.false_ne_true
  | unlocking immortality =>
    rw [hthread] at hexpects
    cases immortality with
    | true => exact absurd (hself.symm.trans hexpects.2) Bool.false_ne_true
    | false => exact (hexpects.elim (lt_irrefl 0) hunfinished).elim

/-! ## Destroyed promises -/

/-- A promise that only one thread uses. -/
def alone (t : T) (p : PromiseState V E K) (mx : Option T) (references : ℕ)
    (point : Point V E K) : PromiseLifetime T V E K where
  promise := p
  mx := mx
  references := update (fun _ => 0) t references
  threads := update (fun _ => .outside) t point

section Alone

variable (b captures) {p : PromiseState V E K} {mx : Option T} {n : ℕ} {callback : K}

theorem new_eq_alone [Inhabited V] :
    (new t : PromiseLifetime T V E K) = alone t .new none 1 .outside := by
  simp [new, alone]

theorem alone_threads {point : Point V E K} : (alone t p mx n point).threads t = point := by
  simp only [alone, update_self]

theorem alone_references {point : Point V E K} : (alone t p mx n point).references t = n := by
  simp only [alone, update_self]

theorem alone_enter (op : Op V E K) :
    ReflTransGen (Step b captures) (alone t p none (n + 1) .outside)
      (alone t (op.enter b p).1.1 (some t) (n + 1) (.entered (op.enter b p))) := by
  have href : 0 < (alone t p none (n + 1) .outside).references t := by simp [alone_references]
  have hcall : Step b captures (alone t p none (n + 1) .outside) _ :=
    .call _ t op alone_threads href
  have hlock : Step b captures (alone t p none (n + 1) (.locking op)) _ :=
    .lock _ t alone_threads rfl
  have henter : Step b captures (alone t p (some t) (n + 1) (.locked op)) _ :=
    .enter _ t alone_threads
  simp only [alone, go, update_idem] at hcall hlock henter ⊢
  exact ((ReflTransGen.single hcall).tail hlock).tail henter

theorem alone_unlock (immortality : Bool) :
    Step b captures (alone t p (some t) n (.unlocking immortality))
      (alone t p none n (if immortality then .resetting else .outside)) := by
  have hunlock : Step b captures (alone t p (some t) n (.unlocking immortality)) _ :=
    .unlock _ t alone_threads
  simp only [alone, go, update_idem] at hunlock ⊢
  exact hunlock

theorem alone_drop {point : Point V E K} (hown : point.own = true) :
    Step b captures (alone t p mx (n + 1) point) (alone t p mx n point) := by
  have hdrop : Step b captures (alone t p mx (n + 1) point) _ :=
    .drop _ t (by rwa [alone_threads]) (by simp [alone_references])
  simpa [alone, PromiseLifetime.set_references] using hdrop

theorem alone_callback_returned :
    Step b captures (alone t p mx n (.calling callback))
      (alone t (finish_state b p).1.1 mx n (.finished (finish_state b p))) := by
  have hreturned : Step b captures (alone t p mx n (.calling callback)) _ :=
    .callback_returned _ t alone_threads
  simp only [alone, go, update_idem] at hreturned ⊢
  exact hreturned

theorem alone_callback_threw :
    Step b captures (alone t p mx n (.calling callback)) (alone t p mx n (.unlocking false)) := by
  have hthrew : Step b captures (alone t p mx n (.calling callback)) _ :=
    .callback_threw _ t alone_threads
  simp only [alone, go, update_idem] at hthrew ⊢
  exact hthrew

theorem alone_reset :
    Step b captures (alone t p mx n .resetting) (alone t p.reset mx n .outside) := by
  have hreset : Step b captures (alone t p mx n .resetting) _ := .reset _ t alone_threads
  simp only [alone, go, update_idem] at hreset ⊢
  exact hreset

/-- **The steps make up the operation**: without other threads, and with a callback that does
what `call` says, they lead where the operation on a promise leads. -/
theorem alone_applies {W X : Type*} [Throws E X] (hb : b.SAFE_PROMISES = true)
    (himmortal : p.Immortal) (call : K → Outcome V E → W → Ended W X) (w : W) (op : Op V E K) :
    ReflTransGen (Step b captures) (alone t p none (n + 1) .outside)
      (alone t (op.apply b call (p, w)).1.1 none (n + 1) .outside) := by
  have henter := alone_enter b captures op (t := t) (p := p) (n := n)
  have hentered := Entered.enter hb himmortal op
  rw [← go_on_enter op]
  revert henter hentered
  generalize op.enter b p = r
  intro henter hentered
  obtain ⟨⟨q, _ | ⟨callback, o⟩⟩, x⟩ := r
  · have hpoint : Point.entered ((q, none), x) = .unlocking false := by
      cases x with
      | none =>
        have hstate : (q.state == .completed) = false := by simpa using hentered.returned rfl
        simp only [Point.entered, hstate]
      | some x => rfl
    rw [hpoint] at henter
    exact henter.tail (alone_unlock b captures false)
  · obtain ⟨hunfinished, -⟩ := hentered.called callback o rfl
    rcases hcall : call callback o w with ⟨w', _ | x'⟩
    · have hfinish := finish_state_eq b hunfinished
      have hresult : go_on b call w ((q, some (callback, o)), x) =
          set_state_then b release .completed q w' := by
        simp only [go_on, hcall, andThen]
      have hreturned : Step b captures (alone t q (some t) (n + 1) (.calling callback)) _ :=
        alone_callback_returned b captures
      rw [hresult, release_eq_reset]
      rw [hfinish] at hreturned ⊢
      exact ((henter.tail hreturned).tail (alone_unlock b captures true)).tail
        (alone_reset b captures)
    · have hresult : go_on b call w ((q, some (callback, o)), x) = throws (q, w') x' := by
        simp only [go_on, hcall, andThen, throws]
      rw [hresult]
      exact (henter.tail (alone_callback_threw b captures)).tail (alone_unlock b captures false)

end Alone

/-- Without the self-reference: a callback drops the last reference, and its thread goes on
to complete the promise and to unlock the mutex. -/
theorem release_destroyed_in_use [Inhabited V] [Inhabited K] (SAFE_PROMISE_STREAMS : Bool)
    (captures : K → Bool) (t : T) :
    ∃ s, ReflTransGen (Step ⟨false, SAFE_PROMISE_STREAMS⟩ captures)
      (new t : PromiseLifetime T V E K) s ∧ Destroyed captures s ∧
        s.threads t = .unlocking true := by
  let b : Build := ⟨false, SAFE_PROMISE_STREAMS⟩
  let bound_promise : PromiseState V E K := bound default .new
  let settled_promise : PromiseState V E K :=
    { settled b (.resolved default) bound_promise with called := [.resolved default] }
  have hbind := alone_enter b captures (Op.bind default) (t := t)
    (p := (.new : PromiseState V E K)) (n := 0)
  have hresolve := alone_enter b captures (.resolve default) (t := t) (p := bound_promise) (n := 0)
  have hdrop : Step b captures (alone t settled_promise (some t) 1 (.calling default)) _ :=
    alone_drop b captures rfl
  refine ⟨alone t (finish_state b settled_promise).1.1 (some t) 0 (.unlocking true), ?_, ?_,
    alone_threads⟩
  · rw [new_eq_alone]
    exact ((hbind.tail (alone_unlock b captures false)).trans hresolve).tail hdrop |>.tail
      (alone_callback_returned b captures)
  · refine ⟨fun u => ?_, rfl, nofun, fun u callback hu => ?_⟩
    · simp [alone]
    · by_cases heq : u = t
      · subst heq
        simp [alone] at hu
      · simp [alone, heq] at hu

/-- **No destroyed promise is in use**, whatever callbacks and other threads do with their
references, in the builds that make a settled promise refer to itself, and in no other. -/
theorem destroyed_unused_iff [Inhabited V] [Inhabited K] (b : Build) (captures : K → Bool)
    (t : T) :
    (∀ s, ReflTransGen (Step b captures) (new t : PromiseLifetime T V E K) s →
      Destroyed captures s → s.mx = none ∧ ∀ u, s.threads u = .outside) ↔
        b.SAFE_PROMISES = true := by
  constructor
  · intro hunused
    by_contra hb
    obtain ⟨SAFE_PROMISES, SAFE_PROMISE_STREAMS⟩ := b
    obtain rfl : SAFE_PROMISES = false := Bool.eq_false_iff.mpr hb
    obtain ⟨s, hrun, hdestroyed, ht⟩ :=
      release_destroyed_in_use (V := V) (E := E) SAFE_PROMISE_STREAMS captures t
    rw [(hunused s hrun hdestroyed).2 t] at ht
    cases ht
  · intro hb s hrun hdestroyed
    have h := (inv_new t).run hb hrun
    have houtside := h.outside_of_destroyed hdestroyed
    refine ⟨?_, houtside⟩
    cases howner : s.mx with
    | none => rfl
    | some u =>
      have hcritical := (h.guards u).mpr howner
      rw [houtside u] at hcritical
      cases hcritical

end Invariant

end PromiseLifetime

end Kaiu
