/-
`promise::task`: a promise factory that is run in one pool and reacts in another.

The factory runs inside an event of the loop, and what its promise is settled with
is carried to the task's promise by the callbacks `resolve` and `reject` and by the
event that they push. The invariant `Carries` says that nothing is lost or doubled
on the way: what is carried by events, and what has been delivered, is what the
callbacks have been called with. An exception that leaves the factory bypasses the
callbacks: it goes to the loop, and the task's promise is never settled.
-/
import Kaiu.ChainReference
import Kaiu.EventBag
import Kaiu.EventLoopJoin
import Kaiu.PromiseSends

set_option autoImplicit false

namespace Kaiu
namespace Task

open Exit EventLoop EventLoop.ParallelEventLoop Relation PromiseState

variable {P W V E K σ : Type*}

/-- What is left to do of the events of a loop in which a task is called. -/
inductive Event (V E K : Type*) where
  /-- `action`. -/
  | action
  /-- `->then(resolve, reject)`, in `action`. -/
  | bind
  /-- What `resolve` or `reject` has been called with is to be pushed. -/
  | pushing (proxies : List (Outcome V E))
  /-- `proxy`. -/
  | proxy (o : Outcome V E)
  /-- Anything else, which may settle the factory's promise and bind callbacks to
  the task's promise. -/
  | other

/-- The promises of a task, and the world of the user's code. -/
structure State (V E K σ : Type*) where
  called : Bool := false
  /-- Not in the source: the factory has thrown. -/
  threw : Bool := false
  /-- Not in the source: the factory has returned its promise. -/
  returned : Bool := false
  /-- The factory's promise. -/
  inner : PromiseState V E Unit
  /-- The task's promise. -/
  promise : PromiseState V E K
  world : σ
  /-- Not in the source: the settlements of the task's promise. -/
  settled : List (Outcome V E) := []

/-- Before the task is called. -/
def new [Inhabited V] (world : σ) : State V E K σ :=
  { inner := .new, promise := .new, world := world }

/-- `resolve` and `reject`: a `proxy` is to be pushed. -/
abbrev callbacks : Unit → Outcome V E → List (Outcome V E) →
    Ended (List (Outcome V E)) (ExceptionPtr E) :=
  sends id

/-- An event that ends with what a function has ended with. -/
def ended (x : Option (ExceptionPtr E)) : Then (Event V E K) (ExceptionPtr E) :=
  match x with
  | none => .returns
  | some error => .throws error

@[simp] theorem ended_rest (x : Option (ExceptionPtr E)) :
    (ended x : Then (Event V E K) (ExceptionPtr E)).rest = 0 := by
  cases x <;> rfl

section Program

variable (b : Build) (call : K → Outcome V E → σ → Ended σ (ExceptionPtr E))
  (factory : V → Except (ExceptionPtr E) PromiseId) (x : V) (action_pool reaction_pool : P)

/-- The actions of the events. The factory's promise is settled once, by the factory
itself or by any event, and nobody else binds callbacks to it. -/
inductive Act : State V E K σ → Event V E K → State V E K σ → Option (P × Event V E K) →
    Then (Event V E K) (ExceptionPtr E) → Prop where
  | factory_pushes {s : State V E K σ} {p : P} : Act s .action s (some (p, .other)) (.goes_on .action)
  | factory_settles {s : State V E K σ} {o : Outcome V E} (h : s.inner.state = .pending) :
      Act s .action { s with inner := (settle b callbacks o s.inner []).1.1 } none (.goes_on .action)
  | factory_throws {s : State V E K σ} {e : ExceptionPtr E} (h : factory x = .error e) :
      Act s .action { s with threw := true } none (.throws e)
  | factory_returns {s : State V E K σ} {id : PromiseId} (h : factory x = .ok id) :
      Act s .action { s with returned := true } none (.goes_on .bind)
  | bind {s : State V E K σ} :
      Act s .bind { s with inner := (set_callbacks b callbacks () s.inner []).1.1 } none
        (.goes_on (.pushing (set_callbacks b callbacks () s.inner []).1.2))
  | push {s : State V E K σ} {o : Outcome V E} {proxies : List (Outcome V E)} :
      Act s (.pushing (o :: proxies)) s (some (reaction_pool, .proxy o)) (.goes_on (.pushing proxies))
  | pushed {s : State V E K σ} : Act s (.pushing []) s none (.goes_on .other)
  | proxy {s : State V E K σ} {o : Outcome V E} :
      Act s (.proxy o) { s with
        promise := (settle b call o s.promise s.world).1.1
        world := (settle b call o s.promise s.world).1.2
        settled := s.settled ++ [o] } none (ended (settle b call o s.promise s.world).2)
  | other_calls {s : State V E K σ} (h : s.called = false) :
      Act s .other { s with called := true } (some (action_pool, .action)) (.goes_on .other)
  | other_pushes {s : State V E K σ} {p : P} : Act s .other s (some (p, .other)) (.goes_on .other)
  | other_settles {s : State V E K σ} {o : Outcome V E} (h : s.inner.state = .pending) :
      Act s .other { s with inner := (settle b callbacks o s.inner []).1.1 } none
        (.goes_on (.pushing (settle b callbacks o s.inner []).1.2))
  | other_binds {s : State V E K σ} {k : K} (h : s.promise.callbacks_assigned = false) :
      Act s .other { s with
        promise := (set_callbacks b call k s.promise s.world).1.1
        world := (set_callbacks b call k s.promise s.world).1.2 } none
        (ended (set_callbacks b call k s.promise s.world).2)
  | other_ends {s : State V E K σ} {y : Option (ExceptionPtr E)} : Act s .other s none (ended y)

/-- What other threads do. -/
inductive Env : State V E K σ → State V E K σ → Option (P × Event V E K) → Prop where
  | calls {s : State V E K σ} (h : s.called = false) :
      Env s { s with called := true } (some (action_pool, .action))
  | pushes {s : State V E K σ} {p : P} : Env s s (some (p, .other))
  | binds {s : State V E K σ} {k : K} (h : s.promise.callbacks_assigned = false) :
      Env s { s with
        promise := (set_callbacks b call k s.promise s.world).1.1
        world := (set_callbacks b call k s.promise s.world).1.2 } none

/-- `promise::task`, called once, by any event or thread, in a loop with other events. -/
def task : Program P (State V E K σ) (Event V E K) (ExceptionPtr E) where
  act := Act b call factory x action_pool reaction_pool
  env := Env b call action_pool

end Program

/-- What `promise::resolved(x)->then(factory)` is settled with, if the factory's
promise is settled with `o`. -/
def direct (factory : V → Except (ExceptionPtr E) PromiseId) (x : V) (o : Outcome V E) :
    Outcome V E :=
  (chain (fun _ => o) (.resolved x) [(0, { next := .promise factory })]).1

/-- The task's promise has been settled once, as the direct call would be. -/
def Transparent (factory : V → Except (ExceptionPtr E) PromiseId) (x : V) (o : Outcome V E)
    (s : State V E K σ) : Prop :=
  s.settled = [direct factory x o] ∧ outcome s.promise = some (direct factory x o)

/-! ## The task's promise -/

/-- What the task's promise is settled with stays. -/
structure Settled (p : PromiseState V E K) (settled : List (Outcome V E)) : Prop where
  unsettled : settled = [] → p.state = .pending
  outcome : outcome p = settled.head?
  unbound : p.callbacks_assigned = false → p.called = []
  pending : p.state = .pending → p.called = []

variable {b : Build} {call : K → Outcome V E → σ → Ended σ (ExceptionPtr E)}

/-- A settled promise runs its callbacks, which may throw. -/
theorem run_callback_outcome (b : Build) (call : K → Outcome V E → σ → Ended σ (ExceptionPtr E))
    {p : PromiseState V E K} {o : Outcome V E} (w : σ) (hc : p.called = [])
    (hs : p.state = settled_state o) (ho : outcome p = some o) :
    outcome (run_callback b call o p w).1.1 = some o ∧
      (run_callback b call o p w).1.1.callbacks_assigned = p.callbacks_assigned := by
  cases hk : p.callbacks with
  | none =>
    rw [run_callback, hk]
    exact ⟨ho, rfl⟩
  | some k =>
    rw [run_callback_eq b call w hk hs]
    rcases call k o w with ⟨w', _ | y⟩
    · exact ⟨by simp [returns, PromiseState.complete, outcome, hc], rfl⟩
    · refine ⟨?_, rfl⟩
      cases o <;> simp_all [throws, outcome, settled_state]

theorem Settled.settle {p : PromiseState V E K} (hp : Settled p []) (o : Outcome V E) (w : σ) :
    Settled (PromiseState.settle b call o p w).1.1 [o] := by
  have hpending := hp.unsettled rfl
  have hc := hp.pending hpending
  have hne := settle_settled b call o w hpending
  rw [settle_pending b call o w hpending] at hne ⊢
  by_cases ha : p.callbacks_assigned
  · rw [if_pos ha] at hne ⊢
    obtain ⟨ho, hassigned⟩ := run_callback_outcome b call w
      (p := PromiseState.settled b o p) (by simpa using hc) rfl (outcome_settled b o p)
    refine ⟨nofun, ho, fun h => ?_, fun h => absurd h hne⟩
    rw [hassigned, settled_callbacks_assigned, ha] at h
    cases h
  · rw [if_neg ha] at hne ⊢
    exact ⟨nofun, outcome_settled b o p, fun _ => by simpa using hc, fun h => absurd h hne⟩

theorem Settled.bind {p : PromiseState V E K} {settled : List (Outcome V E)}
    (hp : Settled p settled) (ha : p.callbacks_assigned = false) (k : K) (w : σ) :
    Settled (set_callbacks b call k p w).1.1 settled := by
  have hc := hp.unbound ha
  obtain ⟨hpending, hworld⟩ := set_callbacks_state b call k p w
  have hsettled : ∀ o, p.state = settled_state o → PromiseState.outcome p = some o →
      Settled (set_callbacks b call k p w).1.1 settled := by
    intro o hs ho
    have hne : p.state ≠ .pending := hs ▸ settled_state_ne o
    have hne' := mt hpending.mp hne
    rw [set_callbacks_settled b call k w ha hs ho] at hne' ⊢
    obtain ⟨ho', hassigned⟩ := run_callback_outcome b call w
      (p := bound k p) hc hs ho
    refine ⟨fun h => absurd (hp.unsettled h) hne, ?_, fun h => ?_, fun h => absurd h hne'⟩
    · rw [ho', ← ho, hp.outcome]
    · rw [hassigned] at h
      cases h
  cases hs : p.state with
  | pending =>
    rw [set_callbacks_pending b call k w ha hs]
    exact ⟨fun _ => hs, hp.outcome, fun h => (by cases h), fun _ => hc⟩
  | resolved => exact hsettled (.resolved p.result) hs (by simp [PromiseState.outcome, hs])
  | rejected => exact hsettled (.rejected p.error) hs (by simp [PromiseState.outcome, hs])
  | completed =>
    have hreleased : set_callbacks b call k p w
        = release { p with callbacks := some k, callbacks_assigned := true } w := by
      simp [set_callbacks, ha, update_state, hs]
    rw [hreleased]
    exact ⟨hp.unsettled, hp.outcome, fun h => (by cases h), fun _ => hc⟩

/-! ## The invariant -/

/-- The event is about to call the factory. -/
@[simp] def Event.calls : Event V E K → Bool
  | .action => true
  | _ => false

/-- The event is about to bind the callbacks. -/
@[simp] def Event.binds : Event V E K → Bool
  | .bind => true
  | _ => false

/-- The outcomes that the event carries to the task's promise. -/
@[simp] def Event.carried : Event V E K → List (Outcome V E)
  | .pushing proxies => proxies
  | .proxy o => [o]
  | _ => []

/-- The factory is called once, and what its promise is settled with arrives. -/
structure Carries (factory : V → Except (ExceptionPtr E) PromiseId) (x : V)
    (bag : Bag (State V E K σ) (Event V E K)) : Prop where
  calls : tally Event.calls bag.events + bag.state.returned.toNat + bag.state.threw.toNat
    = bag.state.called.toNat
  binds : tally Event.binds bag.events + bag.state.inner.callbacks_assigned.toNat
    = bag.state.returned.toNat
  threw : bag.state.threw = true → ∃ e, factory x = .error e
  returned : bag.state.returned = true → ∃ id, factory x = .ok id
  inner : Sends bag.state.inner
  carried : gather Event.carried bag.events + bag.state.settled = bag.state.inner.called
  promise : Settled bag.state.promise bag.state.settled

variable {factory : V → Except (ExceptionPtr E) PromiseId} {x : V} {action_pool reaction_pool : P}

theorem carries_new [Inhabited V] (world : σ) :
    Carries factory x ⟨(new world : State V E K σ), 0⟩ := by
  refine ⟨rfl, rfl, nofun, nofun, Sends.new, rfl, ?_⟩
  exact ⟨fun _ => rfl, rfl, fun _ => rfl, fun _ => rfl⟩

/-- What happens once has not happened while it is still to be done. -/
theorem not_yet {n : ℕ} {p q r : Bool} (h : n + 1 + p.toNat + q.toNat = r.toNat) :
    p = false ∧ q = false := by
  have := r.toNat_le
  refine ⟨?_, ?_⟩ <;> rw [← Bool.toNat_eq_zero] <;> omega

variable {bag bag' : Bag (State V E K σ) (Event V E K)}

/-- A step that is none of the task's, but may run what is bound to its promise. -/
theorem Carries.other (hc : Carries factory x bag) {promise : PromiseState V E K} {world : σ}
    (hstate : bag'.state = { bag.state with promise := promise, world := world })
    (hpromise : Settled promise bag.state.settled)
    (hcalls : tally Event.calls bag'.events = tally Event.calls bag.events)
    (hbinds : tally Event.binds bag'.events = tally Event.binds bag.events)
    (hcarried : gather Event.carried bag'.events = gather Event.carried bag.events) :
    Carries factory x bag' := by
  obtain ⟨s', events'⟩ := bag'
  simp only at hstate hcalls hbinds hcarried
  subst hstate
  refine ⟨?_, ?_, hc.threw, hc.returned, hc.inner, ?_, hpromise⟩
  · rw [hcalls]
    exact hc.calls
  · rw [hbinds]
    exact hc.binds
  · rw [hcarried]
    exact hc.carried

/-- **Every step carries on.** -/
theorem Carries.step (hc : Carries factory x bag)
    (h : Bag.Step (task b call factory x action_pool reaction_pool) bag bag') :
    Carries factory x bag' := by
  have ⟨hcalls, hbinds, hthrew, hreturned, hinner, hcarried, hpromise⟩ := hc
  cases h with
  | act h =>
    rename_i s s' event rest pushed next
    simp only [tally_cons, gather_cons] at hcalls hbinds hcarried
    cases h with
    | factory_pushes | pushed | other_pushes | other_ends =>
      exact hc.other rfl hpromise (by simp) (by simp) (by simp)
    | push =>
      refine hc.other rfl hpromise (by simp) (by simp) ?_
      simp [← Multiset.cons_coe, ← Multiset.singleton_add]
      abel
    | other_binds h => exact hc.other rfl (hpromise.bind h _ _) (by simp) (by simp) (by simp)
    | factory_settles h =>
      rename_i o
      obtain ⟨⟨sent, hinner', hcalled, hsent⟩, hassigned, -⟩ := hinner.settle id b [] o h
      obtain ⟨hret, -⟩ := not_yet hcalls
      have hunbound : s.inner.callbacks_assigned = false := by
        rw [hret, Bool.toNat_false, Nat.add_eq_zero_iff] at hbinds
        exact Bool.toNat_eq_zero.mp hbinds.2
      -- the callbacks are not bound yet
      have hsame : s.inner.called = (settle b callbacks o s.inner []).1.1.called := by
        rw [hinner.unbound hunbound, hinner'.unbound (hassigned.trans hunbound)]
      refine ⟨?_, ?_, hthrew, hreturned, hinner', ?_, hpromise⟩
      · simpa using hcalls
      · simpa [hassigned] using hbinds
      · simpa [← hsame] using hcarried
    | factory_throws h =>
      obtain ⟨-, hth⟩ := not_yet hcalls
      refine ⟨?_, ?_, fun _ => ⟨_, h⟩, hreturned, hinner, ?_, hpromise⟩
      · simp [hth] at hcalls ⊢
        omega
      · simpa using hbinds
      · simpa using hcarried
    | factory_returns h =>
      obtain ⟨hret, -⟩ := not_yet hcalls
      refine ⟨?_, ?_, hthrew, fun _ => ⟨_, h⟩, hinner, ?_, hpromise⟩
      · simp [hret] at hcalls ⊢
        omega
      · simp [hret] at hbinds ⊢
        simp [hbinds]
      · simpa using hcarried
    | bind =>
      have hunbound := (not_yet (q := false) hbinds).1
      obtain ⟨⟨sent, hinner', hcalled, hsent⟩, hassigned, -⟩ := hinner.bind id b [] hunbound
      refine ⟨?_, ?_, hthrew, hreturned, hinner', ?_, hpromise⟩
      · simpa using hcalls
      · simpa [hassigned, hunbound] using hbinds
      · simp only [hcalled, hsent, ← Multiset.coe_add, ← hcarried]
        simp
        abel
    | proxy =>
      rename_i o
      -- a second settlement would be one too many
      have hnil : s.settled = [] := by
        have hcard := congrArg Multiset.card hcarried
        have hle := hinner.called_le
        simp only [Event.carried, Multiset.card_add, Multiset.coe_card, List.length_singleton]
          at hcard hle
        exact List.length_eq_zero_iff.mp (by omega)
      refine ⟨?_, ?_, hthrew, hreturned, hinner, ?_, ?_⟩
      · simpa using hcalls
      · simpa using hbinds
      · rw [← hcarried]
        simp only [← Multiset.coe_add, Multiset.coe_singleton, Event.carried, ended_rest, pushes,
          zero_add, add_zero]
        abel
      · rw [hnil] at hpromise ⊢
        exact hpromise.settle o _
    | other_calls h =>
      refine ⟨?_, ?_, hthrew, hreturned, hinner, ?_, hpromise⟩
      · simp [h] at hcalls ⊢
        simp [hcalls]
      · simpa using hbinds
      · simpa using hcarried
    | other_settles h =>
      obtain ⟨⟨sent, hinner', hcalled, hsent⟩, hassigned, -⟩ := hinner.settle id b [] _ h
      refine ⟨?_, ?_, hthrew, hreturned, hinner', ?_, hpromise⟩
      · simpa using hcalls
      · simpa [hassigned] using hbinds
      · simp only [hcalled, hsent, ← Multiset.coe_add, ← hcarried]
        simp
        abel
  | env h =>
    cases h with
    | calls h =>
      refine ⟨?_, ?_, hthrew, hreturned, hinner, ?_, hpromise⟩
      · simp [h] at hcalls ⊢
        simp [hcalls]
      · simpa using hbinds
      · simpa using hcarried
    | pushes => exact hc.other rfl hpromise (by simp) (by simp) (by simp)
    | binds h => exact hc.other rfl (hpromise.bind h _ _) (by simp) (by simp) (by simp)

/-! ## Transparency -/

theorem direct_returns {id : PromiseId} (h : factory x = .ok id) (o : Outcome V E) :
    direct factory x o = o := by
  simp [direct, chain, callback_pack.result, callback_pack.callback_result, Callback.result, h,
    StageResult.outcome]

variable [Fintype P] [Fintype W] [DecidableEq P] [DecidableEq W] [Inhabited V]
  {s : ParallelEventLoop P W (State V E K σ) (Event V E K) (ExceptionPtr E)}

/-- **When a task is transparent.** In every run after which the queues are empty and
the workers idle: the task's promise has been settled once, with what
`promise::resolved(x)->then(factory)` would be settled with, if and only if the
factory returns a promise. What its promise is settled with may be an exception; but
an exception that leaves the factory itself never arrives. -/
theorem task_transparent_iff (b : Build) (call : K → Outcome V E → σ → Ended σ (ExceptionPtr E))
    (factory : V → Except (ExceptionPtr E) PromiseId) (x : V) (pools : Pools P W)
    (action_pool reaction_pool : P) (world : σ)
    (hrun : ReflTransGen (Step pools (task b call factory x action_pool reaction_pool))
      (ParallelEventLoop.start (new world)) s)
    (hqueues : ∀ p, s.queues p = []) (hworkers : ∀ w, (s.workers w).not_idle = false)
    (hcalled : s.state.called = true) (o : Outcome V E)
    (hsettled : ∀ id, factory x = .ok id → outcome s.state.inner = some o) :
    Transparent factory x o s.state ↔ ∃ id, factory x = .ok id := by
  have hc : Carries factory x s.bag := run_bag (carries_new world) (fun _ _ hc h => hc.step h) hrun
  have hempty : s.bag.events = 0 := by
    refine bag_eq_zero hqueues fun w id task h => ?_
    have := hworkers w
    rw [h] at this
    cases this
  obtain ⟨hcalls, hbinds, hthrew, hreturned, hinner, hcarried, hpromise⟩ := hc
  rw [hempty] at hcalls hbinds hcarried
  simp only [tally_zero, zero_add, gather_zero] at hcalls hbinds hcarried
  have hstate : s.bag.state = s.state := rfl
  rw [hstate] at hcalls hbinds hcarried hpromise hthrew hreturned hinner
  have hlist : s.state.settled.Perm s.state.inner.called := Multiset.coe_eq_coe.mp hcarried
  constructor
  · rintro ⟨harrived, -⟩
    rw [harrived] at hlist
    -- something has arrived, so the callbacks were bound
    have hassigned : s.state.inner.callbacks_assigned = true := by
      by_contra hne
      rw [hinner.unbound (by simpa using hne)] at hlist
      simpa using hlist.length_eq
    rw [hassigned] at hbinds
    exact hreturned (Bool.toNat_eq_one.mp hbinds.symm)
  · rintro ⟨id, hid⟩
    have hth : s.state.threw = false := by
      by_contra hne
      obtain ⟨e, he⟩ := hthrew (by simpa using hne)
      rw [hid] at he
      cases he
    have hret : s.state.returned = true := by
      rw [hth, hcalled] at hcalls
      exact Bool.toNat_eq_one.mp hcalls
    have hassigned : s.state.inner.callbacks_assigned = true := by
      rw [hret] at hbinds
      exact Bool.toNat_eq_one.mp hbinds
    rw [hinner.called_eq hassigned (hsettled id hid)] at hlist
    have harrived := List.perm_singleton.mp hlist
    rw [Transparent, direct_returns hid, hpromise.outcome, harrived]
    exact ⟨rfl, rfl⟩

/-- One pool with one worker, and a factory that settles the promise it returns. -/
theorem task_transparent_iff_settled_promise :
    ∃ s : ParallelEventLoop Unit Unit (State ℕ Unit Unit Unit) (Event ℕ Unit Unit)
        (ExceptionPtr Unit),
      s.state.settled = [.resolved 8] ∧ outcome s.state.promise = some (.resolved 8) := by
  let pools : Pools Unit Unit := ⟨id, [()], by simp⟩
  let call : Unit → Outcome ℕ Unit → Unit → Ended Unit (ExceptionPtr Unit) := fun _ _ w => returns w
  let factory : ℕ → Except (ExceptionPtr Unit) PromiseId := fun _ => .ok 0
  let program := task Build.debug call factory 7 () ()
  have hrun : ReflTransGen (Step pools program) (ParallelEventLoop.start (new ()))
      (ParallelEventLoop.start (new ())) := .refl
  have hrun := hrun.tail (.main (@MainStep.env _ _ _ _ _ _ _ pools program _ _ (some ((), .action))
    (fun _ => rfl) (fun _ _ _ => rfl) (.calls rfl)))
  -- `action`: the factory settles its promise and returns it
  have hrun := hrun.trans (takes_event (w := ()) rfl rfl rfl)
  have hrun := hrun.tail (.run () (@RunStep.goes_on _ _ _ _ _ _ _ program () _ 0 .action .action _
    none rfl nofun (.factory_settles (o := .resolved 8) rfl)))
  have hrun := hrun.tail (.run () (@RunStep.goes_on _ _ _ _ _ _ _ program () _ 0 .action .bind _
    none rfl nofun (.factory_returns rfl)))
  have hrun := hrun.tail (.run () (@RunStep.goes_on _ _ _ _ _ _ _ program () _ 0 .bind
    (.pushing [.resolved 8]) _ none rfl nofun .bind))
  have hrun := hrun.tail (.run () (@RunStep.goes_on _ _ _ _ _ _ _ program () _ 0 _ (.pushing []) _
    (some ((), .proxy (.resolved 8))) rfl (fun _ _ _ => rfl) .push))
  have hrun := hrun.tail (.run () (@RunStep.goes_on _ _ _ _ _ _ _ program () _ 0 _ .other _
    none rfl nofun .pushed))
  have hrun := hrun.tail (.run () (@RunStep.returns _ _ _ _ _ _ _ program () _ 0 .other _
    none rfl nofun (.other_ends (y := none))))
  -- `proxy`
  have hrun := hrun.trans (takes_event (w := ()) rfl rfl rfl)
  have hrun := hrun.tail (.run () (@RunStep.returns _ _ _ _ _ _ _ program () _ 1 _ _
    none rfl nofun .proxy))
  have hrun := hrun.trans (waits_for_event (w := ()) rfl rfl rfl)
  have := (task_transparent_iff Build.debug call factory 7 pools () () () hrun (fun _ => rfl)
    (fun _ => rfl) rfl (.resolved 8) (fun _ _ => rfl)).mpr ⟨0, rfl⟩
  exact ⟨_, this⟩

/-- A factory that throws: the exception goes to the loop, and the task's promise is
pending when everything has been done. -/
theorem not_transparent_throwing_factory :
    let pools : Pools Unit Unit := ⟨id, [()], by simp⟩
    let call : Unit → Outcome ℕ String → Unit → Ended Unit (ExceptionPtr String) :=
      fun _ _ w => returns w
    let factory : ℕ → Except (ExceptionPtr String) PromiseId := fun _ => .error (.user "thrown")
    ∃ s : ParallelEventLoop Unit Unit (State ℕ String Unit Unit) (Event ℕ String Unit)
        (ExceptionPtr String),
      ReflTransGen (Step pools (task Build.debug call factory 7 () ()))
        (ParallelEventLoop.start (new ())) s ∧
      (∀ p, s.queues p = []) ∧ (∀ w, (s.workers w).not_idle = false) ∧ s.state.called = true ∧
      s.exceptions = [(0, .user "thrown")] ∧ outcome s.state.promise = none ∧
      ∀ o, ¬ Transparent factory 7 o s.state := by
  intro pools call factory
  let program := task Build.debug call factory 7 () ()
  have hrun : ReflTransGen (Step pools program) (ParallelEventLoop.start (new ()))
      (ParallelEventLoop.start (new ())) := .refl
  have hrun := hrun.tail (.main (@MainStep.env _ _ _ _ _ _ _ pools program _ _ (some ((), .action))
    (fun _ => rfl) (fun _ _ _ => rfl) (.calls rfl)))
  have hrun := hrun.trans (takes_event (w := ()) rfl rfl rfl)
  have hrun := hrun.tail (.run () (@RunStep.throws _ _ _ _ _ _ _ program () _ 0 .action _
    _ none rfl nofun (.factory_throws rfl)))
  have hrun := hrun.tail (.run () (.stores rfl))
  have hrun := hrun.trans (waits_for_event (w := ()) rfl rfl rfl)
  refine ⟨_, hrun, fun _ => rfl, fun _ => rfl, rfl, rfl, rfl, fun o h => ?_⟩
  exact absurd h.1 (List.cons_ne_nil _ _).symm

end Task
end Kaiu
