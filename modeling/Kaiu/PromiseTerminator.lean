/-
`finish()` at the end of a nest of calls.

An operation on one promise calls at most one callback, and this is the last thing
it does that touches another promise: afterwards the promises on the way are marked
as completed, or an exception passes through all of them. So a promise at the end
of a nest may as well be bound to its terminator before the nest as after it:
`invoke_follows` says that the nest takes the same course, and that it ends with
what the terminator makes of the outcome that the promise is settled with.
-/
import Kaiu.PromiseChain

set_option autoImplicit false

namespace Kaiu

open Exit Store

variable {V E : Type*}

/-- How calls of the callbacks are run. -/
abbrev Caller (V E : Type*) := Callbacks V E → Outcome V E → Heap V E → Ended (Heap V E) (Halt E)

/-! ## One promise -/

/-- An operation on one promise comes to its end by itself, or by calling the
callbacks. -/
inductive Calls (f : Caller V E → Heap V E →
    Ended (PromiseState V E (Callbacks V E) × Heap V E) (Halt E)) : Prop where
  | quiet (p : PromiseState V E (Callbacks V E)) (x : Option (Halt E))
      (hf : ∀ call h, f call h = ((p, h), x)) : Calls f
  | calls (k : Callbacks V E) (o : Outcome V E) (p₁ p₂ : PromiseState V E (Callbacks V E))
      (hf : ∀ call h, f call h = match call k o h with
        | (h', none) => returns (p₁, h')
        | (h', some x) => throws (p₂, h') x) : Calls f

namespace PromiseState

theorem run_callback_calls (b : Build) {o : Outcome V E} {p : PromiseState V E (Callbacks V E)}
    (hs : p.state = settled_state o) : Calls fun call h => run_callback b call o p h := by
  cases hk : p.callbacks with
  | none =>
    refine .quiet p (some (Throws.throw .bad_function_call)) fun call h => ?_
    rw [run_callback, hk]
    rfl
  | some k =>
    refine .calls k o (complete o p) { p with called := p.called ++ [o] } fun call h => ?_
    rw [run_callback_eq b call h hk hs]
    rcases call k o h with ⟨h', _ | x⟩ <;> rfl

theorem update_state_calls (b : Build) (p : PromiseState V E (Callbacks V E)) :
    Calls fun call h => update_state b call p h := by
  have hquiet : Calls fun (_ : Caller V E) (h : Heap V E) =>
      (returns (p, h) : Ended _ (Halt E)) := .quiet p none fun _ _ => rfl
  unfold update_state
  cases hs : p.state with
  | pending => exact hquiet
  | resolved =>
    by_cases ha : p.callbacks_assigned
    · simp only [ha, if_true]
      exact run_callback_calls b hs
    · simp only [ha, Bool.false_eq_true, if_false]
      exact hquiet
  | rejected =>
    by_cases ha : p.callbacks_assigned
    · simp only [ha, if_true]
      exact run_callback_calls b hs
    · simp only [ha, Bool.false_eq_true, if_false]
      exact hquiet
  | completed => exact .quiet _ none fun _ _ => rfl

theorem settle_calls (b : Build) (o : Outcome V E) (p : PromiseState V E (Callbacks V E)) :
    Calls fun call h => settle b call o p h := by
  simp only [settle_eq, set_state, set_state_then]
  cases check_transition b (with_outcome o p).state (settled_state o) with
  | some what => exact .quiet _ (some (Throws.throw (.logic_error what))) fun _ _ => rfl
  | none => exact update_state_calls b _

theorem set_callbacks_calls (b : Build) (k : Callbacks V E)
    (p : PromiseState V E (Callbacks V E)) : Calls fun call h => set_callbacks b call k p h := by
  unfold set_callbacks
  split
  · exact .quiet p _ fun _ _ => rfl
  · exact update_state_calls b _

end PromiseState

namespace Heap

variable {b : Build} {call : Caller V E} {p q t : PromiseId} {o : Outcome V E} {h h₁ h₂ : Heap V E}
  {k : Callbacks V E}

/-! ## One lock -/

/-- The lock of `q` is released, after callbacks that have returned or not. -/
def unlocked (q : PromiseId) (held : List PromiseId)
    (p₁ p₂ : PromiseState V E (Callbacks V E)) (r : Ended (Heap V E) (Halt E)) :
    Ended (Heap V E) (Halt E) :=
  match r with
  | (h, none) => returns { h with cells := Function.update h.cells q p₁, held := held }
  | (h, some x) => throws { h with cells := Function.update h.cells q p₂, held := held } x

variable {f : Caller V E → PromiseState V E (Callbacks V E) → Heap V E →
    Ended (PromiseState V E (Callbacks V E) × Heap V E) (Halt E)}

theorem with_lock_quiet {cell : PromiseState V E (Callbacks V E)} {x : Option (Halt E)}
    (hq : q ∉ h.held) (hf : ∀ call h', f call (h.cells q) h' = ((cell, h'), x))
    (call : Caller V E) :
    with_lock q (f call) h = ({ h with cells := Function.update h.cells q cell }, x) := by
  rw [with_lock, if_neg hq, hf]

theorem with_lock_calls {p₁ p₂ : PromiseState V E (Callbacks V E)} (hq : q ∉ h.held)
    (hf : ∀ call h', f call (h.cells q) h' = match call k o h' with
      | (h', none) => returns (p₁, h')
      | (h', some x) => throws (p₂, h') x) (call : Caller V E) :
    with_lock q (f call) h = unlocked q h.held p₁ p₂ (call k o { h with held := q :: h.held }) := by
  rw [with_lock, if_neg hq, hf]
  rcases call k o { h with held := q :: h.held } with ⟨h', _ | x⟩ <;> rfl

/-- A lock that is held cannot be taken. -/
theorem not_held_of_returns
    {g : PromiseState V E (Callbacks V E) → Heap V E →
      Ended (PromiseState V E (Callbacks V E) × Heap V E) (Halt E)}
    (hret : with_lock q g h = returns h₂) : q ∉ h.held := by
  intro hq
  rw [with_lock, if_pos hq] at hret
  cases hret

theorem unlocked_returns {held : List PromiseId} {p₁ p₂ : PromiseState V E (Callbacks V E)}
    {r : Ended (Heap V E) (Halt E)} (hret : unlocked q held p₁ p₂ r = returns h₂) :
    ∃ h₁, r = returns h₁ ∧
      h₂ = { h₁ with cells := Function.update h₁.cells q p₁, held := held } := by
  rcases r with ⟨h', _ | x⟩
  · exact ⟨h', rfl, (congrArg Prod.fst hret).symm⟩
  · cases hret

/-! ## More depth -/

/-- `call'` returns what `call` returns. -/
def Refines (call call' : Caller V E) : Prop :=
  ∀ k o h h₂, call k o h = returns h₂ → call' k o h = returns h₂

variable {call' : Caller V E}

theorem Refines.with_lock (hcall : Refines call call')
    (hf : ∀ p, Calls fun call h => f call p h) (hret : with_lock q (f call) h = returns h₂) :
    with_lock q (f call') h = returns h₂ := by
  have hq := not_held_of_returns hret
  cases hf (h.cells q) with
  | quiet cell x hf => rwa [with_lock_quiet hq hf] at hret ⊢
  | calls k o p₁ p₂ hf =>
    rw [with_lock_calls hq hf] at hret ⊢
    obtain ⟨h₁, hcalled, rfl⟩ := unlocked_returns hret
    rw [hcall k o _ h₁ hcalled]
    rfl

/-- The callbacks of `then` end with one operation on one promise, unless the callback has
ended the program or never returns. -/
theorem after_callback_cases (b : Build) (promise : PromiseId) (pack : callback_pack V E)
    (result : Except (Halt E) PromiseId) :
    (∃ error, ∀ (call : Caller V E) h,
      after_callback b call promise (.forward_to promise) (call_finally pack promise) (result, h)
        = settle b call (.rejected error) promise
            (h.logged (if pack.finalizer.isSome then [.finalizer promise] else []))) ∨
    (∃ inner, ∀ (call : Caller V E) h,
      after_callback b call promise (.forward_to promise) (call_finally pack promise) (result, h)
        = set_callbacks b call inner (.forward_to promise)
            (h.logged (if pack.finalizer.isSome then [.finalizer promise] else []))) ∨
    ∃ halt, ∀ (call : Caller V E) h,
      after_callback b call promise (.forward_to promise) (call_finally pack promise) (result, h)
        = throws h halt := by
  cases hfin : pack.finalizer.join with
  | some error =>
    rcases result with (error' | - | -) | inner
    · exact .inl ⟨error, fun call h => by simp only [after_callback, call_finally, hfin]⟩
    · exact .inr (.inr ⟨.deadlock, fun call h => rfl⟩)
    · exact .inr (.inr ⟨.crashed, fun call h => rfl⟩)
    · exact .inl ⟨error, fun call h => by simp only [after_callback, call_finally, hfin]⟩
  | none =>
    rcases result with (error' | - | -) | inner
    · exact .inl ⟨error', fun call h => by simp only [after_callback, call_finally, hfin]⟩
    · exact .inr (.inr ⟨.deadlock, fun call h => rfl⟩)
    · exact .inr (.inr ⟨.crashed, fun call h => rfl⟩)
    · exact .inr (.inl ⟨inner, fun call h => by simp only [after_callback, call_finally, hfin]⟩)

variable [Inhabited V]

/-- **A deeper bound changes nothing** of a nest that returns. -/
theorem invoke_refines (b : Build) (n : ℕ) :
    Refines (invoke b n : Caller V E) (invoke b (n + 1)) := by
  induction n with
  | zero =>
    intro k o h h₂ hret
    cases hret
  | succ n ih =>
    intro k o h h₂ hret
    cases k with
    | terminator => cases o <;> exact hret
    | forward_to next =>
      exact ih.with_lock (f := fun call p => PromiseState.settle b call o p)
        (PromiseState.settle_calls b o) hret
    | then_to promise pack =>
      simp only [invoke, then_callback] at hret ⊢
      rcases after_callback_cases b promise pack (call_callback b pack promise o h).1 with
        ⟨error, hafter⟩ | ⟨inner, hafter⟩ | ⟨halt, hafter⟩
      · rw [hafter] at hret ⊢
        exact ih.with_lock (f := fun call p => PromiseState.settle b call (.rejected error) p)
          (PromiseState.settle_calls b _) hret
      · rw [hafter] at hret ⊢
        exact ih.with_lock (f := fun call p => PromiseState.set_callbacks b call _ p)
          (PromiseState.set_callbacks_calls b _) hret
      · rw [hafter] at hret
        cases hret

/-! ## The terminator -/

omit [Inhabited V] in
/-- What `finish()` rethrows. -/
def rethrown (o : Outcome V E) : Option (ExceptionPtr E) :=
  match o with
  | .resolved _ | .rejected .null => none
  | .rejected error => some error

/-- The promise `t` is bound to its terminator. -/
def terminated (t : PromiseId) (h : Heap V E) : Heap V E :=
  { h with cells := Function.update h.cells t (PromiseState.bound .terminator (h.cells t)) }

/-- The terminator of the promise `t`, which has been settled with `o`, has returned. -/
def finished (t : PromiseId) (o : Outcome V E) (h : Heap V E) : Heap V E :=
  { h with
    cells := Function.update h.cells t
      (PromiseState.complete o (PromiseState.bound .terminator (h.cells t))) }

theorem invoke_terminator (b : Build) (n : ℕ) (o : Outcome V E) (h : Heap V E) :
    invoke b (n + 1) .terminator o h = (h, (rethrown o).map Halt.threw) := by
  cases o with
  | resolved value => rfl
  | rejected error => cases error <;> rfl

/-- The promise `t` is settled and bound. -/
def BoundAndSettled (t : PromiseId) (h : Heap V E) : Prop :=
  (h.cells t).state ≠ .pending ∧ (h.cells t).callbacks_assigned = true

/-- The terminator of `t` has been called with `o`, and has thrown or not; without
it the operation would have returned and left `h₂` behind. -/
structure Terminates (t : PromiseId) (o : Outcome V E) (h₂ : Heap V E)
    (r : Ended (Heap V E) (Halt E)) : Prop where
  settled : SettledWith (h₂.cells t) o
  rethrows : r.2 = (rethrown o).map Halt.threw
  returned : rethrown o = none → r.1 = finished t o h₂
  bound : BoundAndSettled t r.1

/-- How an operation ends with a terminator, if it returns and leaves `h₂` behind
without. -/
def Follows (t : PromiseId) (h₂ : Heap V E) (r : Ended (Heap V E) (Halt E)) : Prop :=
  (Unbound (h₂.cells t) ∧ r = returns (terminated t h₂)) ∨ ∃ o, Terminates t o h₂ r

/-- `call'`, with a terminator, follows `call`. -/
def Simulates (t : PromiseId) (call call' : Caller V E) : Prop :=
  ∀ k o h h₂, call k o h = returns h₂ → t < h.size → Unbound (h.cells t) →
    (h₂.cells t).callbacks_assigned = false → Follows t h₂ (call' k o (terminated t h))

omit [Inhabited V] in
/-- Another promise is marked as completed, or not. -/
theorem Follows.unlocked {r : Ended (Heap V E) (Halt E)} (hr : Follows t h₁ r) (hq : q ≠ t)
    (held : List PromiseId) (p₁ p₂ : PromiseState V E (Callbacks V E)) :
    Follows t { h₁ with cells := Function.update h₁.cells q p₁, held := held }
      (unlocked q held p₁ p₂ r) := by
  have hcell : Function.update h₁.cells q p₁ t = h₁.cells t := Function.update_of_ne hq.symm ..
  rcases hr with ⟨hu, rfl⟩ | ⟨o, hs, hx, hfinished, hbound⟩
  · refine .inl ⟨by simpa only [hcell] using hu, ?_⟩
    simp only [Heap.unlocked, returns, terminated, hcell, Function.update_comm hq]
  · obtain ⟨h', x⟩ := r
    simp only at hx hfinished hbound
    refine .inr ⟨o, by simpa only [hcell] using hs, ?_, fun hnone => ?_, ?_⟩
    · rw [← hx]
      cases x <;> rfl
    · rw [hnone, Option.map_none] at hx
      subst hx
      rw [hfinished hnone]
      simp only [Heap.unlocked, returns, finished, hcell, Function.update_comm hq]
    · unfold BoundAndSettled at hbound ⊢
      cases x with
      | none => simpa only [Heap.unlocked, returns, Function.update_of_ne hq.symm] using hbound
      | some x => simpa only [Heap.unlocked, throws, Function.update_of_ne hq.symm] using hbound

omit [Inhabited V] in
theorem Simulates.with_lock (hcall : Simulates t call call')
    (hf : ∀ p, Calls fun call h => f call p h) (hq : q ≠ t)
    (hret : with_lock q (f call) h = returns h₂) (ht : t < h.size) (hu : Unbound (h.cells t))
    (ha : (h₂.cells t).callbacks_assigned = false) :
    Follows t h₂ (with_lock q (f call') (terminated t h)) := by
  have hfree := not_held_of_returns hret
  have hcell : (terminated t h).cells q = h.cells q := Function.update_of_ne hq ..
  cases hf (h.cells q) with
  | quiet cell x hf =>
    rw [with_lock_quiet hfree hf] at hret
    obtain ⟨rfl, rfl⟩ : _ = h₂ ∧ x = none := ⟨congrArg Prod.fst hret, congrArg Prod.snd hret⟩
    rw [with_lock_quiet (h := terminated t h) hfree (by rw [hcell]; exact hf)]
    have hcell' : Function.update h.cells q cell t = h.cells t := Function.update_of_ne hq.symm ..
    refine .inl ⟨by simpa only [hcell'] using hu, ?_⟩
    simp only [terminated, returns, hcell', Function.update_comm hq]
  | calls k o p₁ p₂ hf =>
    rw [with_lock_calls hfree hf] at hret
    obtain ⟨h₁, hcalled, rfl⟩ := unlocked_returns hret
    rw [with_lock_calls (h := terminated t h) hfree (by rw [hcell]; exact hf)]
    have ha' : (h₁.cells t).callbacks_assigned = false := by
      simpa only [Function.update_of_ne hq.symm] using ha
    exact (hcall k o _ h₁ hcalled ht hu ha').unlocked hq h.held p₁ p₂

variable {n : ℕ}

omit [Inhabited V] in
/-- Settling and binding are independent. -/
theorem settled_bound (b : Build) (o : Outcome V E) (k : Callbacks V E)
    (c : PromiseState V E (Callbacks V E)) :
    PromiseState.settled b o (PromiseState.bound k c)
      = PromiseState.bound k (PromiseState.settled b o c) := by
  cases o <;> rfl

/-- The terminator of a promise is called. -/
theorem run_terminator {c : PromiseState V E (Callbacks V E)} (b : Build) (hs : SettledWith c o)
    (h : Heap V E) :
    PromiseState.run_callback b (invoke b (n + 1)) o (PromiseState.bound .terminator c) h
      = match rethrown o with
        | none => returns (PromiseState.complete o (PromiseState.bound .terminator c), h)
        | some error => throws
            ({ PromiseState.bound .terminator c with called := c.called ++ [o] }, h)
            (.threw error) := by
  rw [PromiseState.run_callback_eq b _ (p := PromiseState.bound .terminator c) _ rfl hs.state,
    invoke_terminator]
  cases rethrown o <;> rfl

omit [Inhabited V] in
/-- What is left when the terminator of a promise has been called. -/
theorem terminates_cell {c : PromiseState V E (Callbacks V E)} (hs : SettledWith c o)
    (h : Heap V E) :
    Terminates t o { h with cells := Function.update h.cells t c }
      (match rethrown o with
        | none => returns { h with
            cells := Function.update h.cells t
              (PromiseState.complete o (PromiseState.bound .terminator c)) }
        | some error => throws { h with
            cells := Function.update h.cells t
              { PromiseState.bound .terminator c with called := c.called ++ [o] } }
            (.threw error)) := by
  refine ⟨by simpa using hs, ?_, fun hnone => ?_, ?_⟩
  · cases rethrown o <;> rfl
  · rw [hnone]
    simp [returns, finished]
  · have hpending := hs.not_pending
    unfold BoundAndSettled
    cases rethrown o with
    | none => simp [returns, PromiseState.complete, PromiseState.bound]
    | some error => simpa [throws, PromiseState.bound] using hpending

/-- A promise that is bound to its terminator is settled. -/
theorem settle_terminated (hp : t ∉ h.held) (hu : Unbound (h.cells t)) :
    Terminates t o
      { h with cells := Function.update h.cells t (PromiseState.settled b o (h.cells t)) }
      (settle b (invoke b (n + 1)) o t (terminated t h)) := by
  have hcell : (terminated t h).cells t = PromiseState.bound .terminator (h.cells t) :=
    Function.update_self ..
  have hheld : t ∉ (terminated t h).held := hp
  have hpending : (PromiseState.bound (.terminator : Callbacks V E) (h.cells t)).state = .pending :=
    hu.state
  have hs : SettledWith (PromiseState.settled b o (h.cells t)) o := hu.settledWith b o
  have hleft := terminates_cell (t := t) hs h
  rw [settle, with_lock, if_neg hheld, hcell, PromiseState.settle_pending b _ o _ hpending,
    if_pos (by rfl), settled_bound, run_terminator b hs]
  cases hr : rethrown o with
  | none => simpa [hr, returns, terminated] using hleft
  | some error => simpa [hr, throws, terminated] using hleft

/-- `finish()` on a promise that has been settled. -/
theorem finish_settled (hp : t ∉ h.held) (hs : SettledWith (h.cells t) o) :
    Terminates t o h (finish b t h) := by
  have hleft := terminates_cell (t := t) hs h
  simp only [Function.update_eq_self] at hleft
  rw [finish, set_callbacks, with_lock, if_neg hp,
    PromiseState.set_callbacks_settled b _ .terminator _ hs.unbound hs.state hs.outcome, depth,
    run_terminator b hs]
  cases hr : rethrown o with
  | none => simpa [hr, returns] using hleft
  | some error => simpa [hr, throws] using hleft

/-- `finish()` on a promise that has not been settled. -/
theorem finish_unbound (hp : t ∉ h.held) (hu : Unbound (h.cells t)) :
    finish b t h = returns (terminated t h) :=
  bind_pending hp hu.state hu.unbound

theorem Simulates.settle (hcall : Simulates t (invoke b n : Caller V E) (invoke b (n + 1)))
    (hret : Store.settle b (invoke b n) o q h = returns h₂) (ht : t < h.size)
    (hu : Unbound (h.cells t)) (ha : (h₂.cells t).callbacks_assigned = false) :
    Follows t h₂ (Store.settle b (invoke b (n + 1)) o q (terminated t h)) := by
  by_cases hq : q = t
  · subst hq
    have hfree := not_held_of_returns hret
    rw [settle_unbound hfree hu.state hu.unbound] at hret
    obtain rfl : _ = h₂ := congrArg Prod.fst hret
    exact .inr ⟨o, settle_terminated hfree hu⟩
  · exact hcall.with_lock (f := fun call p => PromiseState.settle b call o p)
      (PromiseState.settle_calls b o) hq hret ht hu ha

theorem Simulates.bind (hcall : Simulates t (invoke b n : Caller V E) (invoke b (n + 1)))
    (hret : set_callbacks b (invoke b n) q k h = returns h₂) (ht : t < h.size)
    (hu : Unbound (h.cells t)) (ha : (h₂.cells t).callbacks_assigned = false) :
    Follows t h₂ (set_callbacks b (invoke b (n + 1)) q k (terminated t h)) := by
  by_cases hq : q = t
  · -- the promise would be bound
    subst hq
    have hfree := not_held_of_returns hret
    rw [bind_pending hfree hu.state hu.unbound] at hret
    obtain rfl : _ = h₂ := congrArg Prod.fst hret
    simp [PromiseState.bound] at ha
  · exact hcall.with_lock (f := fun call p => PromiseState.set_callbacks b call k p)
      (PromiseState.set_callbacks_calls b k) hq hret ht hu ha

theorem immediate_terminated (b : Build) (o : Outcome V E) (ht : t ≠ h.size) :
    immediate b o (terminated t h)
      = ((immediate b o h).1, terminated t (immediate b o h).2) := by
  simp [immediate, terminated, Function.update_of_ne ht, Function.update_comm ht]

theorem call_function_terminated {A : Type*} (b : Build) (callback : Callback A V E) (arg : A)
    (event : Event V E) (default : Heap V E → Called V E (Callbacks V E)) (ht : t ≠ h.size)
    (hdefault : default (terminated t h) = ((default h).1, terminated t (default h).2)) :
    call_function b callback arg event default (terminated t h)
      = ((call_function b callback arg event default h).1,
          terminated t (call_function b callback arg event default h).2) := by
  cases callback with
  | null => exact hdefault
  | value func =>
    have hlogged : (terminated t h).logged [event] = terminated t (h.logged [event]) := rfl
    simp only [call_function, factory, hlogged]
    cases func arg with
    | ok value => simp [immediate_terminated (h := h.logged [event]) b _ ht]
    | error error => simp [immediate_terminated (h := h.logged [event]) b _ ht]
  | promise func => rfl

/-- The callbacks do not look at the promise. -/
theorem call_callback_terminated (b : Build) (pack : callback_pack V E) (promise : PromiseId)
    (o : Outcome V E) (ht : t ≠ h.size) :
    call_callback b pack promise o (terminated t h)
      = ((call_callback b pack promise o h).1,
          terminated t (call_callback b pack promise o h).2) := by
  cases o with
  | resolved value =>
    refine call_function_terminated b _ _ _ _ ht ?_
    unfold default_next
    cases forward_result pack.same_type value with
    | ok value => simp [immediate_terminated b _ ht]
    | error error => rfl
  | rejected error =>
    refine call_function_terminated b _ _ _ _ ht ?_
    cases error <;> rfl

/-- **The nest takes the same course.** The induction is on the depth. -/
theorem invoke_follows (b : Build) (t : PromiseId) (n : ℕ) :
    Simulates t (invoke b n : Caller V E) (invoke b (n + 1)) := by
  induction n with
  | zero =>
    intro k o h h₂ hret
    cases hret
  | succ n ih =>
    intro k o h h₂ hret ht hu ha
    cases k with
    | terminator =>
      rw [invoke_terminator] at hret ⊢
      obtain ⟨rfl, hnone⟩ : h = h₂ ∧ (rethrown o).map Halt.threw = none :=
        ⟨congrArg Prod.fst hret, congrArg Prod.snd hret⟩
      rw [hnone]
      exact .inl ⟨hu, rfl⟩
    | forward_to next => exact Simulates.settle ih hret ht hu ha
    | then_to promise pack =>
      by_cases hpack : pack.crashes o = true
      · rw [invoke, then_callback_crashes _ h hpack] at hret
        cases hret
      rw [Bool.not_eq_true] at hpack
      have hprepared := (call_callback_carries b promise h hpack).prepared
        (if pack.finalizer.isSome then [.finalizer promise] else [])
      have hlt := Nat.lt_of_lt_of_le ht hprepared.size_le
      have hcell := hprepared.cells_eq t (Nat.ne_of_lt ht)
      simp only [invoke, then_callback] at hret ⊢
      rw [call_callback_terminated b pack promise o (Nat.ne_of_lt ht)]
      rcases after_callback_cases b promise pack (call_callback b pack promise o h).1 with
        ⟨error, hafter⟩ | ⟨inner, hafter⟩ | ⟨halt, hafter⟩
      · rw [hafter] at hret ⊢
        exact Simulates.settle ih hret hlt (by rwa [hcell]) ha
      · rw [hafter] at hret ⊢
        exact Simulates.bind ih hret hlt (by rwa [hcell]) ha
      · rw [hafter] at hret
        cases hret

/-! ## Nests that end the program -/

/-- `call'`, with a terminator, ends the program where `call` does. -/
def Crashes (t : PromiseId) (call call' : Caller V E) : Prop :=
  ∀ k o h, (call k o h).2 = some .crashed → t < h.size → Unbound (h.cells t) →
    (call' k o (terminated t h)).2 = some .crashed

omit [Inhabited V] in
/-- A lock that is held is waited for. -/
theorem not_held_of_crashed
    {g : PromiseState V E (Callbacks V E) → Heap V E →
      Ended (PromiseState V E (Callbacks V E) × Heap V E) (Halt E)}
    (hcrash : (with_lock q g h).2 = some .crashed) : q ∉ h.held := by
  intro hq
  rw [with_lock, if_pos hq] at hcrash
  cases hcrash

omit [Inhabited V] in
theorem unlocked_snd (held : List PromiseId) (p₁ p₂ : PromiseState V E (Callbacks V E))
    (r : Ended (Heap V E) (Halt E)) : (unlocked q held p₁ p₂ r).2 = r.2 := by
  rcases r with ⟨h', _ | x⟩ <;> rfl

omit [Inhabited V] in
theorem Crashes.with_lock (hcall : Crashes t call call')
    (hf : ∀ p, Calls fun call h => f call p h) (hq : q ≠ t)
    (hcrash : (with_lock q (f call) h).2 = some .crashed) (ht : t < h.size)
    (hu : Unbound (h.cells t)) : (with_lock q (f call') (terminated t h)).2 = some .crashed := by
  have hfree := not_held_of_crashed hcrash
  have hcell : (terminated t h).cells q = h.cells q := Function.update_of_ne hq ..
  cases hf (h.cells q) with
  | quiet cell x hf =>
    rw [with_lock_quiet hfree hf] at hcrash
    rw [with_lock_quiet (h := terminated t h) hfree (by rw [hcell]; exact hf)]
    exact hcrash
  | calls k o p₁ p₂ hf =>
    rw [with_lock_calls hfree hf, unlocked_snd] at hcrash
    rw [with_lock_calls (h := terminated t h) hfree (by rw [hcell]; exact hf), unlocked_snd]
    exact hcall k o _ hcrash ht hu

theorem Crashes.settle (hcall : Crashes t (invoke b n : Caller V E) (invoke b (n + 1)))
    (hcrash : (Store.settle b (invoke b n) o q h).2 = some .crashed) (ht : t < h.size)
    (hu : Unbound (h.cells t)) :
    (Store.settle b (invoke b (n + 1)) o q (terminated t h)).2 = some .crashed := by
  by_cases hq : q = t
  · subst hq
    rw [settle_unbound (not_held_of_crashed hcrash) hu.state hu.unbound] at hcrash
    cases hcrash
  · exact hcall.with_lock (f := fun call p => PromiseState.settle b call o p)
      (PromiseState.settle_calls b o) hq hcrash ht hu

theorem Crashes.bind (hcall : Crashes t (invoke b n : Caller V E) (invoke b (n + 1)))
    (hcrash : (set_callbacks b (invoke b n) q k h).2 = some .crashed) (ht : t < h.size)
    (hu : Unbound (h.cells t)) :
    (set_callbacks b (invoke b (n + 1)) q k (terminated t h)).2 = some .crashed := by
  by_cases hq : q = t
  · subst hq
    rw [bind_pending (not_held_of_crashed hcrash) hu.state hu.unbound] at hcrash
    cases hcrash
  · exact hcall.with_lock (f := fun call p => PromiseState.set_callbacks b call k p)
      (PromiseState.set_callbacks_calls b k) hq hcrash ht hu

/-- **A nest that ends the program does so with a terminator as well.** The induction is on
the depth. -/
theorem invoke_crashes (b : Build) (t : PromiseId) (n : ℕ) :
    Crashes t (invoke b n : Caller V E) (invoke b (n + 1)) := by
  induction n with
  | zero =>
    intro k o h hcrash
    cases hcrash
  | succ n ih =>
    intro k o h hcrash ht hu
    cases k with
    | terminator =>
      rw [invoke_terminator] at hcrash
      cases hr : rethrown o <;> simp [hr] at hcrash
    | forward_to next => exact Crashes.settle ih hcrash ht hu
    | then_to promise pack =>
      by_cases hpack : pack.crashes o = true
      · rw [invoke, then_callback_crashes _ _ hpack]
        rfl
      rw [Bool.not_eq_true] at hpack
      have hprepared := (call_callback_carries b promise h hpack).prepared
        (if pack.finalizer.isSome then [.finalizer promise] else [])
      have hlt := Nat.lt_of_lt_of_le ht hprepared.size_le
      have hcell := hprepared.cells_eq t (Nat.ne_of_lt ht)
      simp only [invoke, then_callback] at hcrash ⊢
      rw [call_callback_terminated b pack promise o (Nat.ne_of_lt ht)]
      rcases after_callback_cases b promise pack (call_callback b pack promise o h).1 with
        ⟨error, hafter⟩ | ⟨inner, hafter⟩ | ⟨halt, hafter⟩
      · rw [hafter] at hcrash ⊢
        exact Crashes.settle ih hcrash hlt (by rwa [hcell])
      · rw [hafter] at hcrash ⊢
        exact Crashes.bind ih hcrash hlt (by rwa [hcell])
      · rw [hafter] at hcrash ⊢
        exact hcrash

end Heap
end Kaiu
