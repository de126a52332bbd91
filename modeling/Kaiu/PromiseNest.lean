/-
The nest of calls that an operation on a promise runs: what taking the lock of
one promise does to the store, and what the callbacks that `then` binds do.

The rules about `then_callback` and `call_callback_carries` are where the code of `then`
is read; everything later sees a stage through `callback_pack.result`,
`callback_pack.events` and `callback_pack.crashes`.
-/
import Kaiu.ChainReference
import Kaiu.PromiseHeap

set_option autoImplicit false

namespace Kaiu

open Exit

/-! ## Ways to end -/

section Ends

variable {S T E : Type*} {crash : Bool} {P : S → Prop} {Q : T → Prop} {r : Ended S (Halt E)}
  {r' : Ended T (Halt E)}

/-- The operation returns, with `P`, or ends the program, which it does only if `crash`
says so. -/
def Ends (crash : Bool) (P : S → Prop) (r : Ended S (Halt E)) : Prop :=
  (∃ s, r = returns s ∧ P s) ∨ (crash = true ∧ r.2 = some .crashed)

theorem Ends.returns (hr : Ends false P r) : ∃ s, r = Exit.returns s ∧ P s :=
  hr.resolve_right fun ⟨hcrash, _⟩ => Bool.noConfusion hcrash

theorem Ends.mono {crash' : Bool} (hr : Ends crash P r) (hcrash : crash = true → crash' = true) :
    Ends crash' P r :=
  hr.imp_right fun ⟨hc, hr⟩ => ⟨hcrash hc, hr⟩

/-- An operation that ends as another one does. -/
theorem Ends.lift (hr : Ends crash P r)
    (hreturns : ∀ s, r = Exit.returns s → P s → ∃ t, r' = Exit.returns t ∧ Q t)
    (hexit : r'.2 = r.2) : Ends crash Q r' := by
  rcases hr with ⟨s, hs, hP⟩ | ⟨hcrash, hr⟩
  · exact .inl (hreturns s hs hP)
  · exact .inr ⟨hcrash, hexit.trans hr⟩

end Ends

namespace Store

variable {V E K : Type*}

/-! ## One lock -/

/-- An operation leaves the locks as it found them. -/
theorem with_lock_held (p : PromiseId)
    (f : PromiseState V E K → Store V E K → Ended (PromiseState V E K × Store V E K) (Halt E))
    (st : Store V E K) : (with_lock p f st).1.held = st.held := by
  unfold with_lock
  split <;> rfl

/-- A promise whose lock is free is changed in place. -/
theorem with_lock_returns {p : PromiseId}
    {f : PromiseState V E K → Store V E K → Ended (PromiseState V E K × Store V E K) (Halt E)}
    {st : Store V E K} (st' : Store V E K) {cell : PromiseState V E K} (hp : p ∉ st.held)
    (hf : f (st.cells p) { st with held := p :: st.held } = returns (cell, st')) :
    with_lock p f st
      = returns { st' with cells := Function.update st'.cells p cell, held := st.held } := by
  rw [with_lock, if_neg hp, hf]
  rfl

/-- A promise whose lock is free and whose operation throws at once. -/
theorem with_lock_throws {p : PromiseId}
    {f : PromiseState V E K → Store V E K → Ended (PromiseState V E K × Store V E K) (Halt E)}
    {st : Store V E K} {cell : PromiseState V E K} {x : Halt E} (hp : p ∉ st.held)
    (hf : f (st.cells p) { st with held := p :: st.held }
      = throws (cell, { st with held := p :: st.held }) x) :
    with_lock p f st = throws { st with cells := Function.update st.cells p cell } x := by
  rw [with_lock, if_neg hp, hf]
  rfl

variable {b : Build} {call : K → Outcome V E → Store V E K → Ended (Store V E K) (Halt E)}
  {p : PromiseId} {o : Outcome V E} {k : K} {st st' : Store V E K}

theorem settle_held (hst : settle b call o p st = returns st') : st'.held = st.held := by
  have hheld := with_lock_held p (PromiseState.settle b call o) st
  rwa [← settle, hst] at hheld

theorem bind_held (hst : set_callbacks b call p k st = returns st') : st'.held = st.held := by
  have hheld := with_lock_held p (PromiseState.set_callbacks b call k) st
  rwa [← set_callbacks, hst] at hheld

/-- Settling a promise that nothing is bound to. -/
theorem settle_unbound (hp : p ∉ st.held) (hs : (st.cells p).state = .pending)
    (ha : (st.cells p).callbacks_assigned = false) :
    settle b call o p st
      = returns { st with
          cells := Function.update st.cells p (PromiseState.settled b o (st.cells p)) } := by
  refine with_lock_returns { st with held := p :: st.held } hp ?_
  rw [PromiseState.settle_pending b call o _ hs, ha]
  rfl

/-- Settling a promise that is bound: the callback runs with the lock held. -/
theorem settle_bound (hp : p ∉ st.held) (hs : (st.cells p).state = .pending)
    (ha : (st.cells p).callbacks_assigned = true) (hk : (st.cells p).callbacks = some k)
    (hcall : call k o { st with held := p :: st.held } = returns st') :
    settle b call o p st
      = returns { st' with
          cells := Function.update st'.cells p
            (PromiseState.complete o (PromiseState.settled b o (st.cells p)))
          held := st.held } := by
  refine with_lock_returns st' hp ?_
  rw [PromiseState.settle_pending b call o _ hs, if_pos ha,
    PromiseState.run_callback_eq b call _ (by simpa using hk) rfl, hcall]
  rfl

/-- It ends as its callback does. -/
theorem settle_bound_exit (hp : p ∉ st.held) (hs : (st.cells p).state = .pending)
    (ha : (st.cells p).callbacks_assigned = true) (hk : (st.cells p).callbacks = some k) :
    (settle b call o p st).2 = (call k o { st with held := p :: st.held }).2 := by
  rw [settle, with_lock, if_neg hp, PromiseState.settle_pending b call o _ hs, if_pos ha,
    PromiseState.run_callback_eq b call _ (by simpa using hk) rfl]
  rcases call k o { st with held := p :: st.held } with ⟨st', _ | x⟩ <;> rfl

/-- Settling a promise once more in the same way, while nothing is bound to it. -/
theorem settle_again (hp : p ∉ st.held) (hs : (st.cells p).state = PromiseState.settled_state o)
    (ha : (st.cells p).callbacks_assigned = false) :
    settle b call o p st
      = returns { st with
          cells := Function.update st.cells p (PromiseState.with_outcome o (st.cells p)) } := by
  refine with_lock_returns { st with held := p :: st.held } hp ?_
  rw [PromiseState.settle_repeated b call _ hs, ha]
  rfl

/-- The validating build refuses any other settlement. -/
theorem settle_other (hb : b.SAFE_PROMISES = true) (hp : p ∉ st.held)
    (hs : (st.cells p).state ≠ .pending) (hne : (st.cells p).state ≠ PromiseState.settled_state o) :
    settle b call o p st
      = throws { st with
          cells := Function.update st.cells p (PromiseState.with_outcome o (st.cells p)) }
        (.threw (.logic_error
          "Cannot resolve/reject promise: it is already resolved/rejected")) :=
  with_lock_throws hp (PromiseState.settle_refused hb call _ hs hne)

/-- The validating build refuses a second binding. -/
theorem bind_twice (hb : b.SAFE_PROMISES = true) (hp : p ∉ st.held)
    (ha : (st.cells p).callbacks_assigned = true) :
    set_callbacks b call p k st
      = throws st (.threw (.logic_error "Attempted to double-bind to promise")) := by
  rw [set_callbacks, with_lock_throws hp (PromiseState.set_callbacks_refused hb call k _ ha),
    Function.update_eq_self]
  rfl

/-- Binding a promise that is not settled yet. -/
theorem bind_pending (hp : p ∉ st.held) (hs : (st.cells p).state = .pending)
    (ha : (st.cells p).callbacks_assigned = false) :
    set_callbacks b call p k st
      = returns { st with
          cells := Function.update st.cells p (PromiseState.bound k (st.cells p)) } := by
  refine with_lock_returns { st with held := p :: st.held } hp ?_
  rw [PromiseState.set_callbacks_pending b call k _ ha hs]

/-- Binding a promise that is settled: the callback runs at once. -/
theorem bind_settled (hp : p ∉ st.held) (ha : (st.cells p).callbacks_assigned = false)
    (hs : (st.cells p).state = PromiseState.settled_state o)
    (ho : PromiseState.outcome (st.cells p) = some o)
    (hcall : call k o { st with held := p :: st.held } = returns st') :
    set_callbacks b call p k st
      = returns { st' with
          cells := Function.update st'.cells p
            (PromiseState.complete o (PromiseState.bound k (st.cells p)))
          held := st.held } := by
  refine with_lock_returns st' hp ?_
  rw [PromiseState.set_callbacks_settled b call k _ ha hs ho,
    PromiseState.run_callback_eq b call (p := PromiseState.bound k (st.cells p)) _ rfl hs, hcall]
  rfl

/-- It ends as the callback does. -/
theorem bind_settled_exit (hp : p ∉ st.held) (ha : (st.cells p).callbacks_assigned = false)
    (hs : (st.cells p).state = PromiseState.settled_state o)
    (ho : PromiseState.outcome (st.cells p) = some o) :
    (set_callbacks b call p k st).2 = (call k o { st with held := p :: st.held }).2 := by
  rw [set_callbacks, with_lock, if_neg hp, PromiseState.set_callbacks_settled b call k _ ha hs ho,
    PromiseState.run_callback_eq b call (p := PromiseState.bound k (st.cells p)) _ rfl hs]
  rcases call k o { st with held := p :: st.held } with ⟨st', _ | x⟩ <;> rfl

/-! ## New promises -/

variable [Inhabited V]

/-- `promise::resolved` and `promise::rejected` are what their bodies say: a new
promise, settled. -/
theorem immediate_eq (b : Build)
    (call : K → Outcome V E → Store V E K → Ended (Store V E K) (Halt E))
    (o : Outcome V E) (st : Store V E K) (hfresh : st.size ∉ st.held) :
    settle b call o (alloc st).1 (alloc st).2 = returns (immediate b o st).2 := by
  have hcell : (alloc st).2.cells (alloc st).1 = PromiseState.new := by simp [alloc]
  rw [settle_unbound (by simpa [alloc] using hfresh) (by rw [hcell]; rfl) (by rw [hcell]; rfl)]
  simp [alloc, immediate]

omit [Inhabited V] in
@[simp] theorem logged_nil (st : Store V E K) : st.logged [] = st := by
  simp [logged]

theorem immediate_logged (b : Build) (o : Outcome V E) (st : Store V E K)
    (events last : List (Event V E)) :
    ((immediate b o (st.logged events)).2).logged last
      = (immediate b o (st.logged (events ++ last))).2 := by
  simp [immediate, logged]

/-! ## The callbacks of a pack -/

/-- `r`, the result of calling a callback when the store has become `st`, carries
what the callback comes to: an outcome is wrapped in a new promise, or is the
exception that was thrown; an inner promise is returned as it is. -/
def Carries (b : Build) (st : Store V E K) (r : Called V E K) : StageResult V E → Prop
  | .settled o => r = (.ok (immediate b o st).1, (immediate b o st).2) ∨
      ∃ error, o = .rejected error ∧ r = (.error (.threw error), st)
  | .inner inner => r = (.ok inner, st)

theorem call_function_carries {A : Type*} {callback : Callback A V E} {arg : A}
    {event : Event V E} {default : Store V E K → Called V E K} {skipped : Outcome V E}
    (hdefault : callback.events event = [] → Carries b st (default st) (.settled skipped)) :
    Carries b (st.logged (callback.events event))
      (call_function b callback arg event default st) (callback.result arg skipped) := by
  cases callback with
  | null =>
    rw [Callback.events, logged_nil]
    exact hdefault rfl
  | value func =>
    cases hf : func arg with
    | ok v => simp [Carries, Callback.result, Callback.events, call_function, factory, hf]
    | error error => simp [Carries, Callback.result, Callback.events, call_function, factory, hf]
  | promise func =>
    cases hf : func arg with
    | ok inner =>
      rw [Callback.result, call_function, hf]
      rfl
    | error error =>
      rw [Callback.result, call_function, hf]
      exact Or.inr ⟨error, rfl, rfl⟩

theorem default_next_carries (b : Build) (pack : callback_pack V E) (value : V)
    (st : Store V E K) :
    Carries b st (default_next b pack.same_type value st) (.settled (pack.passed_on value)) := by
  cases hsame : pack.same_type with
  | true => simp [Carries, default_next, forward_result, callback_pack.passed_on, hsame]
  | false => simp [Carries, default_next, forward_result, callback_pack.passed_on, hsame]

/-- **What `then` calls**, unless a null pointer would have to be rethrown. -/
theorem call_callback_carries (b : Build) {pack : callback_pack V E} (name : PromiseId)
    {o : Outcome V E} (st : Store V E K) (hpack : pack.crashes o = false) :
    Carries b (st.logged (pack.callback_events name o)) (call_callback b pack name o st)
      (pack.callback_result o) := by
  cases o with
  | resolved value => exact call_function_carries fun _ => default_next_carries b pack value st
  | rejected error =>
    refine call_function_carries fun hnull => .inr ⟨error, rfl, ?_⟩
    -- a handler that calls nothing is null, so the error is not
    have hhandler : pack.handler = .null := by
      cases hh : pack.handler <;> simp_all [Callback.events]
    cases error with
    | null => simp [callback_pack.crashes, hhandler] at hpack
    | user error => rfl
    | logic_error what => rfl
    | bad_function_call => rfl

theorem call_callback_crashes (b : Build) {pack : callback_pack V E} (name : PromiseId)
    {o : Outcome V E} (st : Store V E K) (hpack : pack.crashes o = true) :
    call_callback b pack name o st = (.error .crashed, st) := by
  unfold callback_pack.crashes at hpack
  split at hpack
  · rename_i hhandler
    simp only [call_callback, call_handler, hhandler, call_function, default_except]
  · cases hpack

/-- The callback has returned, or has thrown an exception that a `catch` sees. -/
def Caught (r : Called V E K) : Prop := ∀ halt, r.1 = .error halt → ∃ error, halt = .threw error

theorem Carries.caught {r : Called V E K} {res : StageResult V E} (hr : Carries b st r res) :
    Caught r := by
  intro halt hhalt
  cases res with
  | inner inner =>
    rw [hr] at hhalt
    cases hhalt
  | settled o =>
    rcases hr with hr | ⟨error, -, hr⟩
    · rw [hr] at hhalt
      cases hhalt
    · rw [hr] at hhalt
      cases hhalt
      exact ⟨error, rfl⟩

omit [Inhabited V] in
/-- An exception of the finalizer is what the promise of `then` is rejected with,
whatever the callback has come to. -/
theorem after_callback_finalizer {promise : PromiseId} {r : Called V E K} {error : ExceptionPtr E}
    {finalize : Store V E K → Option (ExceptionPtr E) × Store V E K} (hr : Caught r)
    (hfinally : finalize r.2 = (some error, st')) :
    after_callback b call promise k finalize r = settle b call (.rejected error) promise st' := by
  obtain ⟨_ | inner, st⟩ := r
  · obtain ⟨error', rfl⟩ := hr _ rfl
    simp only [after_callback, hfinally]
  · simp only [after_callback, hfinally]

/-- The store a stage has made when it comes to settle its promise: the events of
the stage are logged, and there may be one more promise, the one in which
`promise::factory` or `default_next` wrapped a value, whose lock may be held. -/
structure Prepared (b : Build) (events : List (Event V E)) (st st₁ : Store V E K) : Prop where
  log_eq : st₁.log = st.log ++ events
  cells_eq : ∀ x, x ≠ st.size → st₁.cells x = st.cells x
  size_eq : st₁.size = st.size ∨
    st₁.size = st.size + 1 ∧ ∃ o, st₁.cells st.size = PromiseState.settled b o .new
  held_eq : st₁.held = st.held ∨ st₁.size = st.size + 1 ∧ st₁.held = st.size :: st.held

variable {st₁ st₂ : Store V E K} {events : List (Event V E)}

theorem Prepared.size_le (hp : Prepared b events st st₁) : st.size ≤ st₁.size := by
  rcases hp.size_eq with he | ⟨he, -⟩ <;> omega

/-- The stage can also be holding the lock of the promise it has made. -/
theorem Prepared.holding (hp : Prepared b events st st₁) (hsize : st₁.size = st.size + 1)
    (heq : { st₁ with held := st.size :: st.held } = st₂) : Prepared b events st st₂ := by
  subst heq
  exact ⟨hp.log_eq, hp.cells_eq, hp.size_eq, Or.inr ⟨hsize, rfl⟩⟩

theorem Carries.prepared {r : Called V E K} {res : StageResult V E}
    (hr : Carries b (st.logged events) r res) (last : List (Event V E)) :
    Prepared b (events ++ last) st (r.2.logged last) := by
  have hplain : Prepared b (events ++ last) st ((st.logged events).logged last) :=
    ⟨by simp [logged], fun x _ => rfl, Or.inl rfl, Or.inl rfl⟩
  cases res with
  | inner inner => rw [hr]; exact hplain
  | settled o =>
    rcases hr with hr | ⟨error, -, hr⟩
    · rw [hr]
      refine ⟨by simp [logged, immediate], fun x hx => ?_, Or.inr ⟨rfl, o, ?_⟩, Or.inl rfl⟩
      · simp [logged, immediate, Function.update_of_ne hx]
      · simp [logged, immediate]
    · rw [hr]; exact hplain

end Store

/-! ## The callbacks of `then` -/

namespace Heap

open Store

variable {V E : Type*} {b : Build}

/-- The wrapping promise after its value has been forwarded to `promise`. -/
def forwarded [Inhabited V] (b : Build) (o : Outcome V E) (promise : PromiseId) :
    PromiseState V E (Callbacks V E) :=
  PromiseState.complete o
    (PromiseState.bound (.forward_to promise) (PromiseState.settled b o .new))

variable [Inhabited V] {h : Heap V E} {o o' : Outcome V E} {promise : PromiseId}
  {pack : callback_pack V E} {crash : Bool} {n : ℕ}

/-- A fresh promise that is settled and forwarded passes its outcome on. -/
theorem forward_immediate {P : Heap V E → Prop} (hfresh : h.size ∉ h.held)
    (hforwarded : ∀ (h₂ : Heap V E) held, P h₂ →
      P { h₂ with cells := Function.update h₂.cells h.size (forwarded b o promise), held := held })
    (hsettle : Ends crash P (settle b (invoke b n) o promise
      { (immediate b o h).2 with held := h.size :: h.held })) :
    Ends crash P
      (forward_to b (invoke b (n + 1)) (immediate b o h).1 promise (immediate b o h).2) := by
  have hcell : (immediate b o h).2.cells (immediate b o h).1 = PromiseState.settled b o .new := by
    simp [immediate]
  have ha : ((immediate b o h).2.cells (immediate b o h).1).callbacks_assigned = false := by
    rw [hcell, PromiseState.settled_callbacks_assigned]; rfl
  have hs : ((immediate b o h).2.cells (immediate b o h).1).state
      = PromiseState.settled_state o := by rw [hcell]; rfl
  have ho : PromiseState.outcome ((immediate b o h).2.cells (immediate b o h).1) = some o := by
    rw [hcell, PromiseState.outcome_settled]
  have hfree : (immediate b o h).1 ∉ (immediate b o h).2.held := by simpa [immediate] using hfresh
  refine hsettle.lift (fun h₂ hh₂ hP => ⟨_, bind_settled hfree ha hs ho hh₂, ?_⟩)
    (bind_settled_exit hfree ha hs ho)
  rw [hcell]
  exact hforwarded h₂ h.held hP

/-- **The callback of `then`, when the stage settles.** If settling the promise
that `then` returned comes back from every heap the stage can have prepared, with
`P`, then so does the callback. -/
theorem then_callback_settled {P : Heap V E → Prop} (hpack : pack.crashes o = false)
    (hres : pack.result o = .settled o') (hfresh : h.size ∉ h.held)
    (hforwarded : ∀ (h₂ : Heap V E) held, P h₂ →
      P { h₂ with cells := Function.update h₂.cells h.size (forwarded b o' promise), held := held })
    (hsettle : ∀ m h₁, n ≤ m → Prepared b (pack.events promise o) h h₁ →
      Ends crash P (settle b (invoke b m) o' promise h₁)) :
    Ends crash P (then_callback b (invoke b (n + 1)) promise pack o h) := by
  have hcarries := call_callback_carries b promise h hpack
  have hprepared := hcarries.prepared (if pack.finalizer.isSome then [.finalizer promise] else [])
  rw [then_callback]
  cases hfin : pack.finalizer.join with
  | some error =>
    -- the finalizer threw: whatever the callback carries is dropped
    obtain rfl : Outcome.rejected error = o' := by
      simpa [callback_pack.result, hfin] using hres
    rw [after_callback_finalizer hcarries.caught (by rw [call_finally, hfin])]
    exact hsettle (n + 1) _ (by omega) hprepared
  | none =>
    simp only [callback_pack.result, hfin] at hres
    rw [hres] at hcarries
    rcases hcarries with hr | ⟨error, rfl, hr⟩
    · -- the value travels through the promise of `promise::factory`
      rw [hr] at hprepared ⊢
      have hforward := forward_immediate (h := h.logged (pack.events promise o)) hfresh hforwarded
        (hsettle n _ (Nat.le_refl n)
          (hprepared.holding rfl (by simp [immediate, logged, callback_pack.events])))
      rw [callback_pack.events, ← immediate_logged] at hforward
      simp only [after_callback, call_finally, hfin]
      exact hforward
    · rw [hr] at hprepared ⊢
      simpa only [after_callback, call_finally, hfin] using hsettle (n + 1) _ (by omega) hprepared

/-- **The callback of `then`, when a callback returned a promise**: that promise
is forwarded to the one that `then` returned. -/
theorem then_callback_inner
    (call : Callbacks V E → Outcome V E → Heap V E → Ended (Heap V E) (Halt E))
    {inner : PromiseId} (h : Heap V E) (hpack : pack.crashes o = false)
    (hres : pack.result o = .inner inner) :
    then_callback b call promise pack o h
      = forward_to b call inner promise (h.logged (pack.events promise o)) := by
  have hcarries := call_callback_carries b promise h hpack
  rw [then_callback]
  cases hfin : pack.finalizer.join with
  | some error => simp [callback_pack.result, hfin] at hres
  | none =>
    simp only [callback_pack.result, hfin] at hres
    rw [hres] at hcarries
    rw [hcarries]
    simp [after_callback, call_finally, hfin, callback_pack.events, logged, forward_to]

/-- **The callback of `then`, when a null pointer comes to a stage without a handler.** -/
theorem then_callback_crashes
    (call : Callbacks V E → Outcome V E → Heap V E → Ended (Heap V E) (Halt E)) (h : Heap V E)
    (hpack : pack.crashes o = true) :
    then_callback b call promise pack o h = throws h .crashed := by
  rw [then_callback, call_callback_crashes b promise h hpack]
  rfl

end Heap
end Kaiu
