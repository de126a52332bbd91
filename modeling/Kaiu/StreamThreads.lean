/-
A `PromiseStreamState` among threads: who holds its lock, and who runs the continuation
that `call_data_callback` binds to the consumer's promise.

A thread has a list of what it has left to do, which is its call stack: the calls of
`process_data` and `call_data_callback` that have not returned, with the lock to be
released and the function-try-blocks. With nothing left to do, or with `user` at the
head, it runs code of the user, which may call any operation of the stream, settle any
of the consumer's promises that has not been settled, throw or return. The threads take
their steps in any order.

`then` and the settlement lock the promise, so that each of the two is one step, up to
the continuation that it runs. The callbacks of the result promise run under the lock of
the stream, at the end of the access that completes it, and are code of the user too.
-/
import Kaiu.StreamState
import Mathlib.Logic.Function.Basic

set_option autoImplicit false

namespace Kaiu

open Exit Function

/-- What is done to a stream under its lock, between calls of `process_data`. -/
inductive Access (R D E σ : Type*) where
  | write (datum : D)
  | set_data_callback (consumer : Consumer D E σ)
  | do_resolve (result : R)
  | do_reject (error : ExceptionPtr E) (consumer_failed : Bool)
  | get_action
  | set_action (action : StreamAction)
  | set_consumer_is_running (value : Bool)

namespace Access

open PromiseStreamState

variable {R D E K σ : Type*} (b : Build) (call : K → Outcome R E → σ → Ended σ (ExceptionPtr E))

def run : Access R D E σ → PromiseStreamState R D E K σ →
    Ended (PromiseStreamState R D E K σ) (ExceptionPtr E)
  | write datum, s =>
    if s.action = .Continue then
      set_stream_has_been_written_to b call { s with buffer := s.buffer ++ [datum] }
    else returns s
  | set_data_callback consumer, s =>
    if b.SAFE_PROMISE_STREAMS ∧ s.on_data.isSome then
      throws s (.logic_error "Callbacks are already assigned")
    else set_data_callback_assigned b { s with on_data := some consumer }
  | do_resolve result, s => PromiseStreamState.do_resolve b call result s
  | do_reject error consumer_failed, s =>
    PromiseStreamState.do_reject b call error consumer_failed s
  | get_action, s => returns s
  | set_action action, s => returns { s with action := action }
  | set_consumer_is_running value, s =>
    PromiseStreamState.set_consumer_is_running b call value s

/-! The functions of the stream are made of these. -/

theorem write_eq (datum : D) (s : PromiseStreamState R D E K σ) :
    PromiseStreamState.write b call datum s
      = andThen ((write datum).run b call (s.logged (.write datum))) (process b call) := rfl

theorem set_data_callback_eq (consumer : Consumer D E σ) (s : PromiseStreamState R D E K σ) :
    PromiseStreamState.set_data_callback b call consumer s
      = andThen ((set_data_callback consumer).run b call s) (process b call) := by
  by_cases h : b.SAFE_PROMISE_STREAMS ∧ s.on_data.isSome
  · rw [PromiseStreamState.set_data_callback, run, if_pos h, if_pos h]
    rfl
  · rw [PromiseStreamState.set_data_callback, run, if_neg h, if_neg h]

theorem continuation_ok
    (process_data : PromiseStreamState R D E K σ →
      Ended (PromiseStreamState R D E K σ) (ExceptionPtr E))
    (action : StreamAction) (s : PromiseStreamState R D E K σ) :
    PromiseStreamState.continuation b call process_data (.ok action) s
      = andThen ((set_action action).run b call (s.logged (.answer (.ok action)))) fun s =>
          andThen ((set_consumer_is_running false).run b call s) process_data := rfl

theorem continuation_error
    (process_data : PromiseStreamState R D E K σ →
      Ended (PromiseStreamState R D E K σ) (ExceptionPtr E))
    (error : ExceptionPtr E) (s : PromiseStreamState R D E K σ) :
    PromiseStreamState.continuation b call process_data (.error error) s
      = andThen ((do_reject error true).run b call (s.logged (.answer (.error error))))
          ((set_consumer_is_running false).run b call) := rfl

end Access

namespace StreamThreads

/-- What a thread does next. -/
inductive Instr (R D E : Type*) where
  /-- `get_lock()`, of an operation or of the continuation of a call of the consumer. -/
  | get_lock (continuation : Option ℕ)
  /-- A lock is destroyed. -/
  | unlock
  | access (access : Access R D E Unit)
  | process_data
  /-- Code of the user, called with the lock held. -/
  | user
  /-- `->then(...)` on the promise that the consumer has returned. -/
  | bind (call : ℕ)
  /-- The continuation is called: `is_async` is evaluated. -/
  | continuation (call : ℕ) (answer : Answer E)
  /-- `*async_check = true`. -/
  | async_check (call : ℕ)
  /-- The function-try-block of `call_data_callback`. -/
  | handler
  /-- An exception is on its way. -/
  | throwing

variable {T R D E : Type*}

/-- The public operations of a stream. -/
inductive Operation (R D E : Type*) where
  | write (datum : D)
  | resolve (result : R)
  | reject (error : ExceptionPtr E)
  | stream (consumer : Consumer D E Unit)
  | data_action

/-- What an operation does under the lock. -/
def Operation.body : Operation R D E → List (Instr R D E)
  | write datum => [.access (.write datum), .process_data]
  | resolve result => [.access (.do_resolve result)]
  | reject error => [.access (.do_reject error false)]
  | stream consumer => [.access (.set_data_callback consumer), .process_data]
  | data_action => [.access .get_action]

/-- What the continuation does under the lock. -/
def continuation_body : Answer E → List (Instr R D E)
  | .ok action => [.access (.set_action action), .access (.set_consumer_is_running false),
      .process_data]
  | .error error => [.access (.do_reject error true), .access (.set_consumer_is_running false)]

/-- `call_data_callback`, for the call `call` of the consumer. -/
def call_data_callback (call : ℕ) : List (Instr R D E) :=
  [.access (.set_consumer_is_running true), .user, .bind call, .async_check call, .handler]

/-- The promise that a call of the consumer returns, with the variables of
`call_data_callback`. -/
structure ConsumerPromise (T E : Type*) where
  caller_id : T
  async_check : Bool := false
  /-- The continuation has been bound. -/
  bound : Bool := false
  /-- What the promise has been settled with. -/
  answer : Option (Answer E) := none

end StreamThreads

/-- A stream, the owner of its mutex, and the threads. -/
structure StreamThreads (T R D E : Type*) where
  stream : PromiseStreamState R D E Unit Unit
  mx : Option T := none
  /-- Not in the source: the calls of the consumer, and the promises that they return. -/
  calls : ℕ := 0
  promises : ℕ → Option (StreamThreads.ConsumerPromise T E) := fun _ => none
  /-- Not in the source: the call stacks. -/
  todo : T → List (StreamThreads.Instr R D E) := fun _ => []

namespace StreamThreads

open PromiseStreamState

variable {T R D E : Type*}

/-- A new stream, and threads that run code of the user. -/
def start [Inhabited R] : StreamThreads T R D E :=
  { stream := .new () }

/-- The callbacks of the result promise are steps of their own here. -/
def no_callbacks (_ : Unit) (_ : Outcome R E) (world : Unit) : Ended Unit (ExceptionPtr E) :=
  returns world

/-- A thread that has nothing left to do, or that is in code of the user. -/
def InUser (todo : List (Instr R D E)) : Prop :=
  todo = [] ∨ ∃ rest, todo = .user :: rest

/-- What is left to do after an access that has ended with `r`: the callbacks of the
result promise if the stream has been completed by it, and to unwind if it has thrown. -/
def after (s : PromiseStreamState R D E Unit Unit)
    (r : Ended (PromiseStreamState R D E Unit Unit) (ExceptionPtr E)) (rest : List (Instr R D E)) :
    List (Instr R D E) :=
  let rest := if r.2.isSome then .throwing :: rest else rest
  if (settlements r.1.log).length = (settlements s.log).length then rest else .user :: rest

/-- `is_async()`, in the thread `t`. -/
def is_async [DecidableEq T] (t : T) (p : ConsumerPromise T E) : Bool :=
  p.async_check || decide (t ≠ p.caller_id)

section Steps

variable [DecidableEq T]

/-- A thread goes on. -/
def go (s : StreamThreads T R D E) (t : T) (todo : List (Instr R D E)) : StreamThreads T R D E :=
  { s with todo := update s.todo t todo }

/-- A promise of the consumer changes. -/
def set (s : StreamThreads T R D E) (call : ℕ) (p : ConsumerPromise T E) : StreamThreads T R D E :=
  { s with promises := update s.promises call (some p) }

variable (b : Build)

/-- The steps of the thread `t`, by what it has left to do. -/
inductive Step (t : T) : StreamThreads T R D E → StreamThreads T R D E → Prop where
  /-- Code of the user calls an operation of the stream. -/
  | operate (s : StreamThreads T R D E) (op : Operation R D E) (h : InUser (s.todo t)) :
      Step t s (s.go t (.get_lock none :: op.body ++ .unlock :: s.todo t))
  /-- Code of the user settles a promise of the consumer, which calls the continuation if
  it has been bound. -/
  | settle (s : StreamThreads T R D E) {call : ℕ} {p : ConsumerPromise T E}
      (answer : Answer E) (h : InUser (s.todo t)) (hp : s.promises call = some p)
      (hanswer : p.answer = none) :
      Step t s ((s.set call { p with answer := some answer }).go t
        (if p.bound then .continuation call answer :: s.todo t else s.todo t))
  | user_returns (s : StreamThreads T R D E) {rest : List (Instr R D E)}
      (h : s.todo t = .user :: rest) : Step t s (s.go t rest)
  | user_throws (s : StreamThreads T R D E) {rest : List (Instr R D E)}
      (h : s.todo t = .user :: rest) : Step t s (s.go t (.throwing :: rest))
  | get_lock (s : StreamThreads T R D E) {continuation : Option ℕ}
      {rest : List (Instr R D E)} (h : s.todo t = .get_lock continuation :: rest)
      (hfree : s.mx = none) : Step t s { s.go t rest with mx := some t }
  | unlock (s : StreamThreads T R D E) {rest : List (Instr R D E)}
      (h : s.todo t = .unlock :: rest) : Step t s { s.go t rest with mx := none }
  | access (s : StreamThreads T R D E) {access : Access R D E Unit}
      {rest : List (Instr R D E)} (h : s.todo t = .access access :: rest) :
      Step t s { s.go t (after s.stream (access.run b no_callbacks s.stream) rest) with
        stream := (access.run b no_callbacks s.stream).1 }
  /-- `take_data` has taken nothing. -/
  | process_nothing (s : StreamThreads T R D E) {rest : List (Instr R D E)}
      {r : Ended (PromiseStreamState R D E Unit Unit) (ExceptionPtr E)}
      (h : s.todo t = .process_data :: rest)
      (htake : take_data b no_callbacks s.stream = (none, r)) :
      Step t s { s.go t (after s.stream r rest) with stream := r.1 }
  /-- `take_data` has taken a datum, with which the consumer is going to be called. -/
  | process_datum (s : StreamThreads T R D E) {rest : List (Instr R D E)} {datum : D}
      {r : Ended (PromiseStreamState R D E Unit Unit) (ExceptionPtr E)}
      (h : s.todo t = .process_data :: rest)
      (htake : take_data b no_callbacks s.stream = (some datum, r)) :
      Step t s { (s.set s.calls { caller_id := t }).go t (call_data_callback s.calls ++ rest) with
        stream := r.1, calls := s.calls + 1 }
  /-- The promise has not been settled. -/
  | bind_pending (s : StreamThreads T R D E) {call : ℕ} {p : ConsumerPromise T E}
      {rest : List (Instr R D E)} (h : s.todo t = .bind call :: rest)
      (hp : s.promises call = some p) (hanswer : p.answer = none) :
      Step t s ((s.set call { p with bound := true }).go t rest)
  /-- The promise has been settled, and the continuation is called. -/
  | bind_settled (s : StreamThreads T R D E) {call : ℕ} {p : ConsumerPromise T E}
      {answer : Answer E} {rest : List (Instr R D E)} (h : s.todo t = .bind call :: rest)
      (hp : s.promises call = some p) (hanswer : p.answer = some answer) :
      Step t s ((s.set call { p with bound := true }).go t (.continuation call answer :: rest))
  /-- The promise cannot be bound, or has been destroyed when nothing refers to it. -/
  | bind_throws (s : StreamThreads T R D E) {call : ℕ} {rest : List (Instr R D E)}
      (h : s.todo t = .bind call :: rest) : Step t s (s.go t (.throwing :: rest))
  /-- The continuation takes a lock of its own, or uses that of the caller. -/
  | continuation (s : StreamThreads T R D E) {call : ℕ} {p : ConsumerPromise T E}
      {answer : Answer E} {rest : List (Instr R D E)}
      (h : s.todo t = .continuation call answer :: rest) (hp : s.promises call = some p) :
      Step t s (s.go t
        (if is_async t p then .get_lock (some call) :: continuation_body answer ++ .unlock :: rest
        else continuation_body answer ++ rest))
  | async_check (s : StreamThreads T R D E) {call : ℕ} {p : ConsumerPromise T E}
      {rest : List (Instr R D E)} (h : s.todo t = .async_check call :: rest)
      (hp : s.promises call = some p) :
      Step t s ((s.set call { p with async_check := true }).go t rest)
  | handler (s : StreamThreads T R D E) {rest : List (Instr R D E)}
      (h : s.todo t = .handler :: rest) : Step t s (s.go t rest)
  /-- A lock is destroyed as the stack is unwound. -/
  | unwind_unlock (s : StreamThreads T R D E) {rest : List (Instr R D E)}
      (h : s.todo t = .throwing :: .unlock :: rest) :
      Step t s { s.go t (.throwing :: rest) with mx := none }
  /-- The function-try-block catches the exception, and throws it again. -/
  | unwind_handler (s : StreamThreads T R D E) {rest : List (Instr R D E)}
      (h : s.todo t = .throwing :: .handler :: rest) :
      Step t s (s.go t (.access (.set_consumer_is_running false) :: .throwing :: rest))
  /-- Code of the user gets the exception, and may throw it again. -/
  | unwind_user (s : StreamThreads T R D E) {rest : List (Instr R D E)}
      (h : s.todo t = .throwing :: .user :: rest) : Step t s (s.go t (.user :: rest))
  | unwind (s : StreamThreads T R D E) {instr : Instr R D E} {rest : List (Instr R D E)}
      (h : s.todo t = .throwing :: instr :: rest)
      (hinstr : instr ≠ .unlock ∧ instr ≠ .handler ∧ instr ≠ .user) :
      Step t s (s.go t (.throwing :: rest))
  | unwind_end (s : StreamThreads T R D E) (h : s.todo t = [.throwing]) :
      Step t s (s.go t [])

/-- A step of one of the threads. -/
def Steps (s s' : StreamThreads T R D E) : Prop :=
  ∃ t, Step b t s s'

end Steps

end StreamThreads
end Kaiu
