/-
`PromiseStateBase` and the part of `PromiseState<Result>` that does not look at
other promises: the four-state machine of `promise.cpp`, with the lock held.

The two callbacks a promise is bound to are closures over *other* promises, so
this file does not say what they do. It takes the type `K` of pairs of
callbacks and a function `call : K → Outcome V E → W → Ended W X` that runs the
one of the pair the outcome selects on the rest of the world `W`. The lock of
the promise is held while a callback runs, so `call` cannot touch the promise
itself, which is why the promise and `W` are separate components of the state.
-/
import Kaiu.Library.Exit
import Kaiu.Exceptions

set_option autoImplicit false

namespace Kaiu

open Exit

/-- `PromiseStateBase::promise_state`. -/
inductive promise_state where
  | pending
  | rejected
  | resolved
  | completed
  deriving DecidableEq, Repr

/-- The members of `PromiseStateBase` and `PromiseState<Result>`. `on_resolve`
and `on_reject` are assigned together by `set_callbacks` and released together
by `update_state`, so the pair is one member here. -/
structure PromiseState (V E K : Type*) where
  state : promise_state := .pending
  error : ExceptionPtr E := .null
  result : V
  callbacks_assigned : Bool := false
  callbacks : Option K := none
  self_reference : Bool := false
  /-- Not in the source: the outcomes the callbacks have been called with. -/
  called : List (Outcome V E) := []

namespace PromiseState

section Machine

variable {V E K W X : Type*} [Throws E X]

/-- A promise as its constructor leaves it. -/
def new [Inhabited V] : PromiseState V E K := { result := default }

/-- The validation at the head of `set_state`: the message of the exception it
throws, if it throws. -/
def check_transition (b : Build) (state next_state : promise_state) : Option String :=
  if b.SAFE_PROMISES then
    match next_state with
    | .pending => some "Cannot explicitly mark a promise as pending"
    | .rejected | .resolved =>
        if state = .pending then none
        else if state = next_state then none
        else some "Cannot resolve/reject promise: it is already resolved/rejected"
    | .completed =>
        if state = .rejected ∨ state = .resolved then none
        else some "Cannot mark promise as completed: promise has not been resolved/rejected"
  else none

/-- `make_immortal`, which only the validating build calls. -/
def make_immortal (b : Build) (p : PromiseState V E K) : PromiseState V E K :=
  { p with self_reference := p.self_reference || (b.SAFE_PROMISES && p.state == .pending) }

/-- `set_state`, with the `update_state` it ends in as a parameter. -/
def set_state_then (b : Build)
    (update : PromiseState V E K → W → Ended (PromiseState V E K × W) X)
    (next_state : promise_state) (p : PromiseState V E K) (w : W) :
    Ended (PromiseState V E K × W) X :=
  match check_transition b p.state next_state with
  | some what => throws (p, w) (Throws.throw (.logic_error what))
  | none => update { make_immortal b p with state := next_state } w

/-- `update_state` in state `completed`. The self-reference is dropped when the
lock is, which is the end of the operation. -/
def release (p : PromiseState V E K) (w : W) : Ended (PromiseState V E K × W) X :=
  returns ({ p with callbacks := none, self_reference := false }, w)

/-- The two middle branches of `update_state`: run the callback, then mark the
promise as completed. -/
def run_callback (b : Build) (call : K → Outcome V E → W → Ended W X)
    (o : Outcome V E) (p : PromiseState V E K) (w : W) : Ended (PromiseState V E K × W) X :=
  match p.callbacks with
  | none => throws (p, w) (Throws.throw .bad_function_call)
  | some callback =>
      let p := { p with called := p.called ++ [o] }
      let (w, x) := call callback o w
      andThen ((p, w), x) fun (p, w) => set_state_then b release .completed p w

/-- `update_state`. -/
def update_state (b : Build) (call : K → Outcome V E → W → Ended W X)
    (p : PromiseState V E K) (w : W) : Ended (PromiseState V E K × W) X :=
  match p.state with
  | .pending => returns (p, w)
  | .rejected =>
      if p.callbacks_assigned then run_callback b call (.rejected p.error) p w
      else returns (p, w)
  | .resolved =>
      if p.callbacks_assigned then run_callback b call (.resolved p.result) p w
      else returns (p, w)
  | .completed => release p w

/-- `set_state`. -/
def set_state (b : Build) (call : K → Outcome V E → W → Ended W X)
    (next_state : promise_state) (p : PromiseState V E K) (w : W) :
    Ended (PromiseState V E K × W) X :=
  set_state_then b (update_state b call) next_state p w

/-- `PromiseState::resolve`. -/
def resolve (b : Build) (call : K → Outcome V E → W → Ended W X) (result : V)
    (p : PromiseState V E K) (w : W) : Ended (PromiseState V E K × W) X :=
  set_state b call .resolved { p with result := result } w

/-- `PromiseStateBase::reject`. -/
def reject (b : Build) (call : K → Outcome V E → W → Ended W X) (error : ExceptionPtr E)
    (p : PromiseState V E K) (w : W) : Ended (PromiseState V E K × W) X :=
  set_state b call .rejected { p with error := error } w

/-- `set_callbacks`. Its callers never pass an empty callback. -/
def set_callbacks (b : Build) (call : K → Outcome V E → W → Ended W X) (callbacks : K)
    (p : PromiseState V E K) (w : W) : Ended (PromiseState V E K × W) X :=
  if b.SAFE_PROMISES && p.callbacks_assigned then
    throws (p, w) (Throws.throw (.logic_error "Attempted to double-bind to promise"))
  else
    update_state b call { p with callbacks := some callbacks, callbacks_assigned := true } w

/-- `resolve` or `reject`, as the outcome says. -/
def settle (b : Build) (call : K → Outcome V E → W → Ended W X) (o : Outcome V E)
    (p : PromiseState V E K) (w : W) : Ended (PromiseState V E K × W) X :=
  match o with
  | .resolved value => resolve b call value p w
  | .rejected error => reject b call error p w

/-! ## What the functions do, by state -/

/-- The state a settlement leads to. -/
def settled_state : Outcome V E → promise_state
  | .resolved _ => .resolved
  | .rejected _ => .rejected

/-- The members `resolve` and `reject` write before anything is validated. -/
def with_outcome (o : Outcome V E) (p : PromiseState V E K) : PromiseState V E K :=
  match o with
  | .resolved value => { p with result := value }
  | .rejected error => { p with error := error }

/-- The outcome a promise stands for. A completed promise has passed it on. -/
def outcome (p : PromiseState V E K) : Option (Outcome V E) :=
  match p.state with
  | .pending => none
  | .resolved => some (.resolved p.result)
  | .rejected => some (.rejected p.error)
  | .completed => p.called.head?

@[simp] theorem with_outcome_state (o : Outcome V E) (p : PromiseState V E K) :
    (with_outcome o p).state = p.state := by
  cases o <;> rfl

@[simp] theorem with_outcome_callbacks (o : Outcome V E) (p : PromiseState V E K) :
    (with_outcome o p).callbacks = p.callbacks := by
  cases o <;> rfl

@[simp] theorem with_outcome_callbacks_assigned (o : Outcome V E) (p : PromiseState V E K) :
    (with_outcome o p).callbacks_assigned = p.callbacks_assigned := by
  cases o <;> rfl

@[simp] theorem with_outcome_called (o : Outcome V E) (p : PromiseState V E K) :
    (with_outcome o p).called = p.called := by
  cases o <;> rfl

theorem settle_eq (b : Build) (call : K → Outcome V E → W → Ended W X) (o : Outcome V E)
    (p : PromiseState V E K) (w : W) :
    settle b call o p w = set_state b call (settled_state o) (with_outcome o p) w := by
  cases o <;> rfl

/-- The promise a callback has returned to. -/
def complete (o : Outcome V E) (p : PromiseState V E K) : PromiseState V E K :=
  { p with
    state := .completed, callbacks := none, self_reference := false
    called := p.called ++ [o] }

/-- A settled promise calls its callback and is completed if the callback
returns; if the callback throws, the promise stays as it is. -/
theorem run_callback_eq (b : Build) (call : K → Outcome V E → W → Ended W X) {o : Outcome V E}
    {p : PromiseState V E K} {k : K} (w : W)
    (hk : p.callbacks = some k) (hs : p.state = settled_state o) :
    run_callback b call o p w =
      match call k o w with
      | (w', none) => returns (complete o p, w')
      | (w', some x) => throws ({ p with called := p.called ++ [o] }, w') x := by
  have hcheck : check_transition b p.state .completed = none := by
    cases o <;> simp [check_transition, hs, settled_state]
  rcases hw : call k o w with ⟨w', _ | x⟩
  · simp [run_callback, hk, hw, andThen, set_state_then, hcheck, make_immortal, release, complete]
  · simp [run_callback, hk, hw, andThen, throws]

/-- `update_state` on a settled promise. -/
theorem update_state_settled (b : Build) (call : K → Outcome V E → W → Ended W X)
    {o : Outcome V E} {p : PromiseState V E K} (w : W)
    (hs : p.state = settled_state o) (ho : outcome p = some o) :
    update_state b call p w =
      if p.callbacks_assigned then run_callback b call o p w else returns (p, w) := by
  cases o <;> simp_all [update_state, outcome, settled_state]

/-- A pending promise after its first settlement, callbacks aside. -/
def settled (b : Build) (o : Outcome V E) (p : PromiseState V E K) : PromiseState V E K :=
  { make_immortal b (with_outcome o p) with state := settled_state o }

/-- A promise bound to `k`. -/
def bound (k : K) (p : PromiseState V E K) : PromiseState V E K :=
  { p with callbacks := some k, callbacks_assigned := true }

@[simp] theorem settled_state_settled (b : Build) (o : Outcome V E) (p : PromiseState V E K) :
    (settled b o p).state = settled_state o := rfl

@[simp] theorem settled_callbacks (b : Build) (o : Outcome V E) (p : PromiseState V E K) :
    (settled b o p).callbacks = p.callbacks := by
  simp [settled, make_immortal]

@[simp] theorem settled_callbacks_assigned (b : Build) (o : Outcome V E)
    (p : PromiseState V E K) :
    (settled b o p).callbacks_assigned = p.callbacks_assigned := by
  simp [settled, make_immortal]

@[simp] theorem settled_called (b : Build) (o : Outcome V E) (p : PromiseState V E K) :
    (settled b o p).called = p.called := by
  simp [settled, make_immortal]

@[simp] theorem outcome_settled (b : Build) (o : Outcome V E) (p : PromiseState V E K) :
    outcome (settled b o p) = some o := by
  cases o <;> rfl

/-- The first settlement. -/
theorem settle_pending (b : Build) (call : K → Outcome V E → W → Ended W X) (o : Outcome V E)
    {p : PromiseState V E K} (w : W) (hp : p.state = .pending) :
    settle b call o p w =
      if p.callbacks_assigned then run_callback b call o (settled b o p) w
      else returns (settled b o p, w) := by
  have hcheck : check_transition b (with_outcome o p).state (settled_state o) = none := by
    cases o <;> simp [check_transition, hp, settled_state]
  rw [settle_eq, set_state, set_state_then, hcheck]
  change update_state b call (settled b o p) w = _
  rw [update_state_settled b call w (settled_state_settled b o p) (outcome_settled b o p),
    settled_callbacks_assigned]

/-- The validating build refuses a settlement of the other kind, and any
settlement of a completed promise; the value or error is overwritten though. -/
theorem settle_refused {b : Build} (hb : b.SAFE_PROMISES = true)
    (call : K → Outcome V E → W → Ended W X) {o : Outcome V E} {p : PromiseState V E K} (w : W)
    (hp : p.state ≠ .pending) (hne : p.state ≠ settled_state o) :
    settle b call o p w = throws (with_outcome o p, w)
      (Throws.throw (.logic_error
        "Cannot resolve/reject promise: it is already resolved/rejected")) := by
  have hcheck : check_transition b (with_outcome o p).state (settled_state o)
      = some "Cannot resolve/reject promise: it is already resolved/rejected" := by
    cases o <;> simp_all [check_transition, settled_state]
  rw [settle_eq, set_state, set_state_then, hcheck]

/-- A settlement of the kind the promise already has is let through, by either
build: the value or error is replaced, and a callback that is bound is called. -/
theorem settle_repeated (b : Build) (call : K → Outcome V E → W → Ended W X) {o : Outcome V E}
    {p : PromiseState V E K} (w : W) (hs : p.state = settled_state o) :
    settle b call o p w =
      if p.callbacks_assigned then run_callback b call o (with_outcome o p) w
      else returns (with_outcome o p, w) := by
  have hcheck : check_transition b (with_outcome o p).state (settled_state o) = none := by
    cases o <;> simp [check_transition, hs, settled_state]
  have hsame : { make_immortal b (with_outcome o p) with state := settled_state o }
      = with_outcome o p := by
    cases o <;> cases p <;> simp_all [make_immortal, with_outcome, settled_state]
  have hout : outcome (with_outcome o p) = some o := by
    cases o <;> simp_all [outcome, with_outcome, settled_state]
  rw [settle_eq, set_state, set_state_then, hcheck]
  simp only [hsame]
  rw [update_state_settled b call w (by simpa using hs) hout, with_outcome_callbacks_assigned]

/-- The validating build refuses a second binding. -/
theorem set_callbacks_refused {b : Build} (hb : b.SAFE_PROMISES = true)
    (call : K → Outcome V E → W → Ended W X) (k : K) {p : PromiseState V E K} (w : W)
    (ha : p.callbacks_assigned = true) :
    set_callbacks b call k p w = throws (p, w)
      (Throws.throw (.logic_error "Attempted to double-bind to promise")) := by
  simp [set_callbacks, hb, ha]

/-- Binding a pending promise only stores the callbacks. -/
theorem set_callbacks_pending (b : Build) (call : K → Outcome V E → W → Ended W X) (k : K)
    {p : PromiseState V E K} (w : W) (ha : p.callbacks_assigned = false)
    (hp : p.state = .pending) :
    set_callbacks b call k p w = returns (bound k p, w) := by
  simp [set_callbacks, ha, update_state, hp, bound]

/-- Binding a settled promise calls the callback at once. -/
theorem set_callbacks_settled (b : Build) (call : K → Outcome V E → W → Ended W X) (k : K)
    {o : Outcome V E} {p : PromiseState V E K} (w : W) (ha : p.callbacks_assigned = false)
    (hs : p.state = settled_state o) (ho : outcome p = some o) :
    set_callbacks b call k p w = run_callback b call o (bound k p) w := by
  have hbound : outcome (bound k p) = some o := ho
  have h := update_state_settled b call (p := bound k p) w hs hbound
  simp only [bound] at h ⊢
  simp [set_callbacks, ha, h]

/-! ## Callbacks stay assigned -/

theorem run_callback_callbacks_assigned (b : Build) (call : K → Outcome V E → W → Ended W X)
    (o : Outcome V E) (p : PromiseState V E K) (w : W) :
    (run_callback b call o p w).1.1.callbacks_assigned = p.callbacks_assigned := by
  unfold run_callback
  cases p.callbacks with
  | none => rfl
  | some k =>
    rcases hcall : call k o w with ⟨w', _ | x⟩
    · simp only [hcall, andThen, set_state_then]
      split <;> rfl
    · simp only [hcall, andThen]

theorem update_state_callbacks_assigned (b : Build) (call : K → Outcome V E → W → Ended W X)
    (p : PromiseState V E K) (w : W) :
    (update_state b call p w).1.1.callbacks_assigned = p.callbacks_assigned := by
  unfold update_state
  cases p.state with
  | pending => rfl
  | completed => rfl
  | resolved =>
    dsimp only
    split
    · exact run_callback_callbacks_assigned b call _ p w
    · rfl
  | rejected =>
    dsimp only
    split
    · exact run_callback_callbacks_assigned b call _ p w
    · rfl

theorem settle_callbacks_assigned (b : Build) (call : K → Outcome V E → W → Ended W X)
    (o : Outcome V E) (p : PromiseState V E K) (w : W) :
    (settle b call o p w).1.1.callbacks_assigned = p.callbacks_assigned := by
  rw [settle_eq, set_state, set_state_then]
  split
  · exact with_outcome_callbacks_assigned o p
  · rw [update_state_callbacks_assigned]
    exact with_outcome_callbacks_assigned o p

theorem set_callbacks_callbacks_assigned (b : Build) (call : K → Outcome V E → W → Ended W X)
    (k : K) (p : PromiseState V E K) (w : W) :
    (set_callbacks b call k p w).1.1.callbacks_assigned = true := by
  unfold set_callbacks
  split
  · rename_i h
    rw [Bool.and_eq_true] at h
    exact h.2
  · rw [update_state_callbacks_assigned]

/-! ## Settled once and for all -/

theorem settled_state_ne (o : Outcome V E) : settled_state o ≠ .pending := by
  cases o <;> simp [settled_state]

theorem run_callback_settled (b : Build) (call : K → Outcome V E → W → Ended W X)
    {o : Outcome V E} {p : PromiseState V E K} (w : W) (hs : p.state = settled_state o) :
    (run_callback b call o p w).1.1.state ≠ .pending := by
  cases hk : p.callbacks with
  | none =>
    rw [run_callback, hk]
    show p.state ≠ .pending
    rw [hs]
    exact settled_state_ne o
  | some k =>
    rw [run_callback_eq b call w hk hs]
    rcases call k o w with ⟨w', _ | x⟩
    · simp [complete]
    · show p.state ≠ .pending
      rw [hs]
      exact settled_state_ne o

/-- A settlement settles, also when the callback it runs throws. -/
theorem settle_settled (b : Build) (call : K → Outcome V E → W → Ended W X) (o : Outcome V E)
    {p : PromiseState V E K} (w : W) (hp : p.state = .pending) :
    (settle b call o p w).1.1.state ≠ .pending := by
  rw [settle_pending b call o w hp]
  split
  · exact run_callback_settled b call w rfl
  · exact settled_state_ne o

/-- Binding settles nothing. -/
theorem set_callbacks_state (b : Build) (call : K → Outcome V E → W → Ended W X) (k : K)
    (p : PromiseState V E K) (w : W) :
    ((set_callbacks b call k p w).1.1.state = .pending ↔ p.state = .pending) ∧
      (p.state = .pending → (set_callbacks b call k p w).1.2 = w) := by
  unfold set_callbacks
  split
  · exact ⟨Iff.rfl, fun _ => rfl⟩
  · rcases hs : p.state with _ | _ | _ | _
    · simp [update_state]
    · have h := run_callback_settled b call (o := .rejected p.error) w
        (p := { p with callbacks := some k, callbacks_assigned := true }) hs
      simpa [update_state, hs] using h
    · have h := run_callback_settled b call (o := .resolved p.result) w
        (p := { p with callbacks := some k, callbacks_assigned := true }) hs
      simpa [update_state, hs] using h
    · simp [update_state, release]

end Machine
end PromiseState
end Kaiu
