/-
`promise::task_stream`: a stream that is produced in one pool, consumed in another
and completed in a third.

Two streams are connected by three kinds of events. The consumer of the inner
stream, the factory's, pushes an event that writes the datum to the outer stream
and then settles the consumer's promise with the outer stream's action; the
callbacks of the inner stream's result push an event that ends the outer stream.
Both streams are modelled as they are in the previous modules, and their functions
run with their lock held, so that what the consumer or a callback pushes is pushed
in the same step.

Whether the consumer's promise is settled before or after `call_data_callback` has
bound to it makes a difference to the thread that goes on with the inner stream
only, and in both cases it is here the event that settles it. Everything else that
happens to the two streams is the user's code: the producer, which may run in any
event and in any thread, and the outer consumer, which may be bound at any time and
may answer later.
-/
import Kaiu.EventBag
import Kaiu.EventLoopJoin
import Kaiu.PromiseSends
import Kaiu.StreamDelivery
import Kaiu.StreamHandoff

set_option autoImplicit false

namespace Kaiu
namespace TaskStream

open Exit EventLoop EventLoop.ParallelEventLoop Relation PromiseStreamState

variable {P W R D E K σ : Type*}

/-- What is left to do of the events of a loop in which a streaming task is
called. -/
inductive Event (R D E : Type*) where
  /-- `producer`. -/
  | producer
  /-- `->stream(consumer)`, in `producer`. -/
  | stream
  /-- `->then(resolve, reject)`, in `producer`. -/
  | bind
  /-- `proxy` in `consumer`. -/
  | consumer (datum : D)
  /-- `stream->data_action()`, in `proxy` in `consumer`. -/
  | data_action
  /-- `consumer_action->resolve(...)` or `consumer_action->reject(...)`. -/
  | answer (answer : Answer E)
  /-- `proxy` in `resolve` or in `reject`. -/
  | result (o : Outcome R E)
  /-- Anything else. -/
  | other

/-- What the callbacks of the inner stream have pushed, and where. -/
abbrev Pushed (P R D E : Type*) := List (P × Event R D E)

/-- The two streams. -/
structure State (P R D E K σ : Type*) where
  called : Bool := false
  /-- The factory's stream. The world of its callbacks is what they have pushed. -/
  inner : PromiseStreamState R D E Unit (Pushed P R D E)
  /-- The stream that the task has returned. -/
  stream : PromiseStreamState R D E K σ
  /-- Not in the source: what `data_action` has returned. -/
  actions : List StreamAction := []

/-- Before the task is called. -/
def new [Inhabited R] (world : σ) : State P R D E K σ :=
  { inner := PromiseStreamState.new [], stream := PromiseStreamState.new world }

/-- `consumer`: its promise is settled later. -/
def consumer (consumer_pool : P) : Consumer D E (Pushed P R D E) := fun pushed datum =>
  (pushed ++ [(consumer_pool, .consumer datum)], .pending)

/-- `resolve` and `reject`. -/
abbrev callbacks (reaction_pool : P) : Unit → Outcome R E → Pushed P R D E →
    Ended (Pushed P R D E) (ExceptionPtr E) :=
  sends fun o => (reaction_pool, .result o)

/-- What has been pushed between two states of the inner stream: one event at most,
see `Feeds.push_le`. -/
def pushed_between (inner inner' : PromiseStreamState R D E Unit (Pushed P R D E)) :
    Option (P × Event R D E) :=
  (inner'.world.drop inner.world.length).head?

/-- An event goes on, unless a function has thrown. -/
def goes_on (task : Event R D E) (x : Option (ExceptionPtr E)) :
    Then (Event R D E) (ExceptionPtr E) :=
  match x with
  | none => .goes_on task
  | some error => .throws error

/-- An event ends with what a function has ended with. -/
def ended (x : Option (ExceptionPtr E)) : Then (Event R D E) (ExceptionPtr E) :=
  match x with
  | none => .returns
  | some error => .throws error

/-- The operations of a producer. -/
def produces : Op R D E Unit (Pushed P R D E) → Prop
  | .write _ | .resolve _ | .reject _ => True
  | _ => False

/-- The operations of a consumer that does not fail, and of whoever waits for the
result. -/
def consumes : Op R D E K σ → Prop
  | .write _ | .resolve _ | .reject _ => False
  | op => op.gives IsAction

/-- `stream->resolve(...)` or `stream->reject(...)`. -/
def end_op : Outcome R E → Op R D E K σ
  | .resolved result => .resolve result
  | .rejected error => .reject error

section Program

variable (b : Build) (call : K → Outcome R E → σ → Ended σ (ExceptionPtr E))
  (producer_pool consumer_pool reaction_pool : P)

/-- What the user's code does, in any event and in any thread. The producer ends its
stream at most once and does not write to it afterwards. -/
inductive User : State P R D E K σ → State P R D E K σ → Option (P × Event R D E) → Prop where
  | calls {s : State P R D E K σ} (h : s.called = false) :
      User s { s with called := true } (some (producer_pool, .producer))
  | pushes {s : State P R D E K σ} {p : P} : User s s (some (p, .other))
  | produces {s : State P R D E K σ} {op : Op R D E Unit (Pushed P R D E)} (hop : produces op)
      (h : ∀ o, .ended o ∉ s.inner.log) :
      User s { s with inner := (step b (callbacks reaction_pool) op s.inner).1 }
        (pushed_between s.inner (step b (callbacks reaction_pool) op s.inner).1)
  | consumes {s : State P R D E K σ} {op : Op R D E K σ} (hop : consumes op) :
      User s { s with stream := (step b call op s.stream).1 } none

/-- The actions of the events. -/
inductive Act : State P R D E K σ → Event R D E → State P R D E K σ →
    Option (P × Event R D E) → Then (Event R D E) (ExceptionPtr E) → Prop where
  | user {s s' : State P R D E K σ} {task : Event R D E} {event : Option (P × Event R D E)}
      (h : User b call producer_pool reaction_pool s s' event) :
      Act s task s' event (.goes_on task)
  | factory_returns {s : State P R D E K σ} : Act s .producer s none (.goes_on .stream)
  | factory_throws {s : State P R D E K σ} {x : ExceptionPtr E} :
      Act s .producer s none (.throws x)
  | stream {s : State P R D E K σ} {r : Ended (PromiseStreamState R D E Unit (Pushed P R D E))
        (ExceptionPtr E)}
      (h : step b (callbacks reaction_pool) (.stream (consumer consumer_pool)) s.inner = r) :
      Act s .stream { s with inner := r.1 } (pushed_between s.inner r.1) (goes_on .bind r.2)
  | bind {s : State P R D E K σ} {r : Ended (PromiseStreamState R D E Unit (Pushed P R D E))
        (ExceptionPtr E)}
      (h : step b (callbacks reaction_pool) (.bind_result ()) s.inner = r) :
      Act s .bind { s with inner := r.1 } (pushed_between s.inner r.1) (ended r.2)
  | write {s : State P R D E K σ} {datum : D} {stream : PromiseStreamState R D E K σ}
      (h : step b call (.write datum) s.stream = (stream, none)) :
      Act s (.consumer datum) { s with stream := stream } none (.goes_on .data_action)
  | write_throws {s : State P R D E K σ} {datum : D} {stream : PromiseStreamState R D E K σ}
      {error : ExceptionPtr E} (h : step b call (.write datum) s.stream = (stream, some error)) :
      Act s (.consumer datum) { s with stream := stream } none (.goes_on (.answer (.error error)))
  | data_action {s : State P R D E K σ} :
      Act s .data_action { s with actions := s.actions ++ [s.stream.action] } none
        (.goes_on (.answer (.ok s.stream.action)))
  | answer {s : State P R D E K σ} {a : Answer E}
      {r : Ended (PromiseStreamState R D E Unit (Pushed P R D E)) (ExceptionPtr E)}
      (h : step b (callbacks reaction_pool) (.answer a) s.inner = r) :
      Act s (.answer a) { s with inner := r.1 } (pushed_between s.inner r.1) (ended r.2)
  | result {s : State P R D E K σ} {o : Outcome R E}
      {r : Ended (PromiseStreamState R D E K σ) (ExceptionPtr E)}
      (h : step b call (end_op o) s.stream = r) :
      Act s (.result o) { s with stream := r.1 } none (ended r.2)
  | other_ends {s : State P R D E K σ} {x : Option (ExceptionPtr E)} :
      Act s .other s none (ended x)

/-- `promise::task_stream`, called once, in a loop with other events. -/
def task_stream : Program P (State P R D E K σ) (Event R D E) (ExceptionPtr E) where
  act := Act b call producer_pool consumer_pool reaction_pool
  env := User b call producer_pool reaction_pool

end Program

end TaskStream
end Kaiu
