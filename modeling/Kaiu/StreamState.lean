/-
`PromiseStreamStateBase` and `PromiseStreamState<Result, Datum>`: the five-state
machine of `promise_stream.cpp` and the functions of `promise_stream.tcc` that
drive it, with the lock held.

The consumer and the callbacks bound to the result promise are user code. They
act on a world `σ` of their own (the `State` of a stateful stream is one), and
they cannot act on the stream, whose lock is held while they run. Whatever a
consumer does it does in one of three ways: it throws, it returns a promise that
is settled already, or it returns one that is settled later, by the operation
`answer`. What happens at the stream is logged, in order.
-/
import Kaiu.PromiseState
import Mathlib.Control.Monad.Basic
import Mathlib.Data.Nat.Notation

set_option autoImplicit false

namespace Kaiu

open Exit

/-- `StreamAction`. -/
inductive StreamAction where
  | Continue
  | Discard
  | Stop
  deriving DecidableEq, Repr

/-- `PromiseStreamStateBase::stream_state`. -/
inductive stream_state where
  | pending
  | streaming1
  | streaming2
  | streaming3
  | completed
  deriving DecidableEq, Repr

/-- `PromiseStreamStateBase::stream_result`. -/
inductive stream_result where
  | pending
  | resolved
  | rejected
  | consumer_failed
  deriving DecidableEq, Repr

/-- What a `Promise<StreamAction>` is settled with. -/
abbrev Answer (E : Type*) := Except (ExceptionPtr E) StreamAction

/-- What calling a consumer comes to. -/
inductive ConsumerReturn (E : Type*) where
  | settled (answer : Answer E)
  | pending
  | throws (error : ExceptionPtr E)

/-- `stream_consumer`. -/
abbrev Consumer (D E σ : Type*) := σ → D → σ × ConsumerReturn E

/-- What happens at a stream: the producer's calls, the calls of the consumer and
its answers, and the settlement of the result promise, with the world it finds. -/
inductive StreamEvent (R D E σ : Type*) where
  | write (datum : D)
  | ended (o : Outcome R E)
  | call (datum : D)
  | answer (answer : Answer E)
  | settle (o : Outcome R E) (world : σ)
  deriving DecidableEq

/-- The members of `PromiseStreamStateBase` and `PromiseStreamState`. A completer
is a closure that settles the result promise, here the outcome it settles it
with. -/
structure PromiseStreamState (R D E K σ : Type*) where
  state : stream_state := .pending
  action : StreamAction := .Continue
  stream_has_been_written_to : Bool := false
  buffer_is_empty : Bool := true
  data_callback_assigned : Bool := false
  consumer_is_running : Bool := false
  completer : Option (Outcome R E) := none
  result : stream_result := .pending
  proxy_promise : PromiseState R E K
  buffer : List D := []
  on_data : Option (Consumer D E σ) := none
  self_reference : Bool := false
  /-- Not in the source: the world of the user's code. -/
  world : σ
  /-- Not in the source: what has happened. -/
  log : List (StreamEvent R D E σ) := []

namespace PromiseStreamState

variable {R D E K σ : Type*}

/-- A stream as its constructor leaves it. -/
def new [Inhabited R] (world : σ) : PromiseStreamState R D E K σ :=
  { proxy_promise := .new, world := world }

/-- Something happens. -/
def logged (s : PromiseStreamState R D E K σ) (event : StreamEvent R D E σ) :
    PromiseStreamState R D E K σ :=
  { s with log := s.log ++ [event] }

/-- The data the consumer has been called with. -/
def calls : List (StreamEvent R D E σ) → List D :=
  List.filterMap fun | .call datum => some datum | _ => none

/-- The answers of the consumer. -/
def answers : List (StreamEvent R D E σ) → List (Answer E) :=
  List.filterMap fun | .answer answer => some answer | _ => none

/-- The data that have been written. -/
def writes : List (StreamEvent R D E σ) → List D :=
  List.filterMap fun | .write datum => some datum | _ => none

/-- The settlements of the result promise, with the worlds they found. -/
def settlements : List (StreamEvent R D E σ) → List (Outcome R E × σ) :=
  List.filterMap fun | .settle o world => some (o, world) | _ => none

@[simp] theorem calls_append (log : List (StreamEvent R D E σ)) (event : StreamEvent R D E σ) :
    calls (log ++ [event]) = calls log ++ match event with | .call datum => [datum] | _ => [] := by
  rw [calls, List.filterMap_append]
  cases event <;> rfl

@[simp] theorem answers_append (log : List (StreamEvent R D E σ))
    (event : StreamEvent R D E σ) :
    answers (log ++ [event])
      = answers log ++ match event with | .answer answer => [answer] | _ => [] := by
  rw [answers, List.filterMap_append]
  cases event <;> rfl

@[simp] theorem writes_append (log : List (StreamEvent R D E σ)) (event : StreamEvent R D E σ) :
    writes (log ++ [event])
      = writes log ++ match event with | .write datum => [datum] | _ => [] := by
  rw [writes, List.filterMap_append]
  cases event <;> rfl

@[simp] theorem settlements_append (log : List (StreamEvent R D E σ))
    (event : StreamEvent R D E σ) :
    settlements (log ++ [event])
      = settlements log ++ match event with | .settle o world => [(o, world)] | _ => [] := by
  rw [settlements, List.filterMap_append]
  cases event <;> rfl

/-- A call of the consumer has not been answered yet. -/
def outstanding (s : PromiseStreamState R D E K σ) : Bool :=
  (answers s.log).length < (calls s.log).length

/-! ## `promise_stream.cpp` -/

/-- The validation at the head of `set_state`: the message of the exception it
throws, if it throws. -/
def check_transition (b : Build) (state next_state : stream_state) : Option String :=
  if b.SAFE_PROMISE_STREAMS then
    match next_state with
    | .pending => some "Invalid state transition"
    | .streaming1 => if state = .pending then none else some "Invalid state transition"
    | .streaming2 => if state = .streaming1 then none else some "Invalid state transition"
    | .streaming3 => if state = .streaming2 then none else some "Invalid state transition"
    | .completed =>
        if state = .pending ∨ state = .streaming3 then none else some "Invalid state transition"
  else none

section Machine

variable (b : Build) (call : K → Outcome R E → σ → Ended σ (ExceptionPtr E))

/-- `set_state`, with the `update_state` it ends in as a parameter. -/
def set_state_then
    (update : PromiseStreamState R D E K σ → Ended (PromiseStreamState R D E K σ) (ExceptionPtr E))
    (next_state : stream_state) (s : PromiseStreamState R D E K σ) :
    Ended (PromiseStreamState R D E K σ) (ExceptionPtr E) :=
  match check_transition b s.state next_state with
  | some what => throws s (.logic_error what)
  | none => update { s with state := next_state }

/-- The completer: `proxy_promise->resolve(...)` or `proxy_promise->reject(...)`,
which runs the callbacks bound to the result promise. -/
def complete_with (o : Outcome R E) (s : PromiseStreamState R D E K σ) :
    Ended (PromiseStreamState R D E K σ) (ExceptionPtr E) :=
  let s := s.logged (.settle o s.world)
  let r := PromiseState.settle b call o s.proxy_promise s.world
  ({ s with proxy_promise := r.1.1, world := r.1.2 }, r.2)

/-- `update_state` in state `completed`. -/
def update_completed (s : PromiseStreamState R D E K σ) :
    Ended (PromiseStreamState R D E K σ) (ExceptionPtr E) :=
  if s.result ≠ .pending then
    let callback := s.completer
    let s := { s with completer := none }
    match callback with
    | none => throws s .bad_function_call
    | some o => andThen (complete_with b call o s) fun s => returns { s with self_reference := false }
  else returns s

/-- `update_state` in state `streaming3`. -/
def update_streaming3 (s : PromiseStreamState R D E K σ) :
    Ended (PromiseStreamState R D E K σ) (ExceptionPtr E) :=
  if ¬ s.consumer_is_running then set_state_then b (update_completed b call) .completed s
  else returns s

/-- `update_state` in state `streaming2`. -/
def update_streaming2 (s : PromiseStreamState R D E K σ) :
    Ended (PromiseStreamState R D E K σ) (ExceptionPtr E) :=
  if s.buffer_is_empty then set_state_then b (update_streaming3 b call) .streaming3 s
  else returns s

/-- `update_state` in state `streaming1`. -/
def update_streaming1 (s : PromiseStreamState R D E K σ) :
    Ended (PromiseStreamState R D E K σ) (ExceptionPtr E) :=
  if s.result ≠ .pending then set_state_then b (update_streaming2 b call) .streaming2 s
  else returns s

/-- `update_state` in state `pending`. -/
def update_pending (s : PromiseStreamState R D E K σ) :
    Ended (PromiseStreamState R D E K σ) (ExceptionPtr E) :=
  if s.stream_has_been_written_to then
    set_state_then b (update_streaming1 b call) .streaming1 s
  else if s.result ≠ .pending then set_state_then b (update_completed b call) .completed s
  else returns s

/-- `update_state`. It calls itself, through `set_state`, for later states only. -/
def update_state (s : PromiseStreamState R D E K σ) :
    Ended (PromiseStreamState R D E K σ) (ExceptionPtr E) :=
  match s.state with
  | .pending => update_pending b call s
  | .streaming1 => update_streaming1 b call s
  | .streaming2 => update_streaming2 b call s
  | .streaming3 => update_streaming3 b call s
  | .completed => update_completed b call s

/-- `set_stream_has_been_written_to`. -/
def set_stream_has_been_written_to (s : PromiseStreamState R D E K σ) :
    Ended (PromiseStreamState R D E K σ) (ExceptionPtr E) :=
  if b.SAFE_PROMISE_STREAMS ∧ (s.result = .resolved ∨ s.result = .rejected) then
    throws s (.logic_error "Data written to stream after it has been completed")
  else update_state b call { s with stream_has_been_written_to := true, buffer_is_empty := false }

/-- `set_stream_result`. -/
def set_stream_result (result : stream_result) (completer : Outcome R E)
    (s : PromiseStreamState R D E K σ) : Ended (PromiseStreamState R D E K σ) (ExceptionPtr E) :=
  if s.result = .consumer_failed then returns s
  else if s.result ≠ .pending then
    throws s (.logic_error "Attempted to resolve promise stream multiple times")
  else update_state b call { s with completer := some completer, result := result }

/-- `set_buffer_is_empty`. -/
def set_buffer_is_empty (s : PromiseStreamState R D E K σ) :
    Ended (PromiseStreamState R D E K σ) (ExceptionPtr E) :=
  if s.buffer_is_empty then returns s
  else update_state b call { s with buffer_is_empty := true }

/-- `set_consumer_is_running`. -/
def set_consumer_is_running (value : Bool) (s : PromiseStreamState R D E K σ) :
    Ended (PromiseStreamState R D E K σ) (ExceptionPtr E) :=
  if b.SAFE_PROMISE_STREAMS ∧ s.consumer_is_running = value then
    throws s (.logic_error "set_consumer_is_running: concurrent consumers detected")
  else update_state b call { s with consumer_is_running := value }

/-- `set_data_callback_assigned`. -/
def set_data_callback_assigned (s : PromiseStreamState R D E K σ) :
    Ended (PromiseStreamState R D E K σ) (ExceptionPtr E) :=
  if b.SAFE_PROMISE_STREAMS ∧ s.data_callback_assigned then
    throws s (.logic_error "Data callback bound multiple times")
  else returns { s with
    data_callback_assigned := true
    self_reference := s.self_reference || s.state != .completed }

/-! ## `promise_stream.tcc` -/

/-- `do_resolve`. -/
def do_resolve (result : R) (s : PromiseStreamState R D E K σ) :
    Ended (PromiseStreamState R D E K σ) (ExceptionPtr E) :=
  set_stream_result b call .resolved (.resolved result) s

/-- `do_reject`. -/
def do_reject (error : ExceptionPtr E) (consumer_failed : Bool)
    (s : PromiseStreamState R D E K σ) : Ended (PromiseStreamState R D E K σ) (ExceptionPtr E) :=
  set_stream_result b call (if consumer_failed then .consumer_failed else .rejected)
    (.rejected error) { s with action := .Stop }

/-- `take_data`: the datum it takes, if it returns true. -/
def take_data (s : PromiseStreamState R D E K σ) :
    Option D × Ended (PromiseStreamState R D E K σ) (ExceptionPtr E) :=
  if s.state ≠ .streaming1 ∧ s.state ≠ .streaming2 then (none, returns s)
  else if s.on_data.isNone then (none, returns s)
  else if s.consumer_is_running then (none, returns s)
  else
    let s := if s.action ≠ .Continue then { s with buffer := [] } else s
    match s.buffer with
    | [] => (none, set_buffer_is_empty b call s)
    | datum :: buffer => (some datum, returns { s with buffer := buffer })

/-- The wrapper of `do_stream` around a consumer: a promise in any case. What it is
settled with is not known yet when the consumer returned a promise that is not. -/
def data (consumer : Consumer D E σ) (world : σ) (datum : D) : σ × Option (Answer E) :=
  match consumer world datum with
  | (world, .settled answer) => (world, some answer)
  | (world, .pending) => (world, none)
  | (world, .throws error) => (world, some (.error error))

/-- The two callbacks that `call_data_callback` binds to the consumer's promise.
What they throw comes out of the `finish` that ends the `then`, or, when the
promise is settled later, out of its settlement. -/
def continuation
    (process_data : PromiseStreamState R D E K σ →
      Ended (PromiseStreamState R D E K σ) (ExceptionPtr E))
    (answer : Answer E) (s : PromiseStreamState R D E K σ) :
    Ended (PromiseStreamState R D E K σ) (ExceptionPtr E) :=
  let s := s.logged (.answer answer)
  match answer with
  | .ok action =>
      andThen (set_consumer_is_running b call false { s with action := action }) process_data
  | .error error =>
      andThen (do_reject b call error true s) (set_consumer_is_running b call false)

/-- `call_data_callback`. -/
def call_data_callback
    (process_data : PromiseStreamState R D E K σ →
      Ended (PromiseStreamState R D E K σ) (ExceptionPtr E))
    (datum : D) (s : PromiseStreamState R D E K σ) :
    Ended (PromiseStreamState R D E K σ) (ExceptionPtr E) :=
  rethrowing
    (andThen (set_consumer_is_running b call true s) fun s =>
      match s.on_data with
      | none => throws s .bad_function_call
      | some consumer =>
          let (world, answer) := data consumer s.world datum
          let s := { s with world := world }.logged (.call datum)
          match answer with
          | none => returns s
          | some answer => continuation b call process_data answer s)
    (set_consumer_is_running b call false)

/-- `process_data`. Every call of the consumer takes a datum from the buffer, so
one step more than there are data is enough. -/
def process_data : ℕ → PromiseStreamState R D E K σ →
    Ended (PromiseStreamState R D E K σ) (ExceptionPtr E)
  | 0, s => returns s
  | n + 1, s =>
      match take_data b call s with
      | (none, r) => r
      | (some datum, r) => andThen r (call_data_callback b call (process_data n) datum)

/-- `process_data(lock)`. -/
def process (s : PromiseStreamState R D E K σ) :
    Ended (PromiseStreamState R D E K σ) (ExceptionPtr E) :=
  process_data b call (s.buffer.length + 1) s

/-! ## The public operations -/

/-- `write`. -/
def write (datum : D) (s : PromiseStreamState R D E K σ) :
    Ended (PromiseStreamState R D E K σ) (ExceptionPtr E) :=
  let s := s.logged (.write datum)
  andThen
    (if s.action = .Continue then
      set_stream_has_been_written_to b call { s with buffer := s.buffer ++ [datum] }
    else returns s)
    (process b call)

/-- `resolve`. -/
def resolve (result : R) (s : PromiseStreamState R D E K σ) :
    Ended (PromiseStreamState R D E K σ) (ExceptionPtr E) :=
  do_resolve b call result (s.logged (.ended (.resolved result)))

/-- `reject`. -/
def reject (error : ExceptionPtr E) (s : PromiseStreamState R D E K σ) :
    Ended (PromiseStreamState R D E K σ) (ExceptionPtr E) :=
  do_reject b call error false (s.logged (.ended (.rejected error)))

/-- `set_data_callback`, which `stream` ends in; the result promise that `stream`
returns is `proxy_promise`. -/
def set_data_callback (consumer : Consumer D E σ) (s : PromiseStreamState R D E K σ) :
    Ended (PromiseStreamState R D E K σ) (ExceptionPtr E) :=
  if b.SAFE_PROMISE_STREAMS ∧ s.on_data.isSome then
    throws s (.logic_error "Callbacks are already assigned")
  else
    andThen (set_data_callback_assigned b { s with on_data := some consumer }) (process b call)

/-- The promise the consumer has returned is settled. -/
def answer (answer : Answer E) (s : PromiseStreamState R D E K σ) :
    Ended (PromiseStreamState R D E K σ) (ExceptionPtr E) :=
  if s.outstanding then
    continuation b call (process_data b call (s.buffer.length + 1)) answer s
  else returns s

/-- Callbacks are bound to the result promise. -/
def bind_result (callbacks : K) (s : PromiseStreamState R D E K σ) :
    Ended (PromiseStreamState R D E K σ) (ExceptionPtr E) :=
  let r := PromiseState.set_callbacks b call callbacks s.proxy_promise s.world
  ({ s with proxy_promise := r.1.1, world := r.1.2 }, r.2)

end Machine

/-- What the promise that `do_stateful_stream` returns is settled with when the
result promise is settled with `o`: `next_proxy` pairs the state that the consumer
has worked on with the producer's value. -/
def stateful_outcome (state : σ) (o : Outcome R E) : Outcome (σ × R) E :=
  match o with
  | .resolved result => .resolved (state, result)
  | .rejected error => .rejected error

/-- The steps of a run. -/
inductive Op (R D E K σ : Type*) where
  | write (datum : D)
  | resolve (result : R)
  | reject (error : ExceptionPtr E)
  | stream (consumer : Consumer D E σ)
  | answer (answer : Answer E)
  | bind_result (callbacks : K)

/-- One step, and how it ended. -/
def step (b : Build) (call : K → Outcome R E → σ → Ended σ (ExceptionPtr E)) (op : Op R D E K σ)
    (s : PromiseStreamState R D E K σ) : Ended (PromiseStreamState R D E K σ) (ExceptionPtr E) :=
  match op with
  | .write datum => write b call datum s
  | .resolve result => resolve b call result s
  | .reject error => reject b call error s
  | .stream consumer => set_data_callback b call consumer s
  | .answer a => answer b call a s
  | .bind_result callbacks => bind_result b call callbacks s

/-- A run; whoever makes the steps catches every exception. -/
def run (b : Build) (call : K → Outcome R E → σ → Ended σ (ExceptionPtr E)) :
    List (Op R D E K σ) → PromiseStreamState R D E K σ → PromiseStreamState R D E K σ
  | [], s => s
  | op :: ops, s => run b call ops (step b call op s).1

end PromiseStreamState
end Kaiu
