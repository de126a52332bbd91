/-
Callback packs as values: `bind`, and a pack applied to a value, to an error or to
a promise.

In a chain the packs are given to `then` from outside, one by one, and no callback
binds anything itself. The two callbacks of a pack that `bind` makes do: they wrap
what they are given in a new promise, call `then` on that with the pack on the
left and `then` on the result with the pack on the right, all of it while the
promise they are a callback of holds its lock. So a callback here is not one that the
store of a chain has: the closures are packs (`Pack`), calling one operates on the
promises and makes new ones, and `invoke` recurses on a bound for the depth of the nest of
calls. Locks, new promises, the user's callbacks and the two halves of the callbacks of
`then` are those of the chains (`Store`).

A pack of the user's goes by a number, which stands in the `Event`s where a chain
has the promise that its `then` returned: what runs does not depend on which
promises the library makes on the way.
-/
import Kaiu.ChainReference

set_option autoImplicit false

namespace Kaiu

open Exit

/-! ## Packs -/

/-- A `callback_pack`, by how it was made: with callbacks of the user's, or by
`self.bind(after)`. -/
inductive Pack (V E : Type*) where
  | user (name : ℕ) (callbacks : callback_pack V E)
  | bind (self after : Pack V E)

/-- `callback_pack(func)`: a function where a pack is expected stands for the pack with
that `next` and no other callback. -/
def Pack.of_next {V E : Type*} (name : ℕ) (func : Callback V V E) : Pack V E :=
  .user name { next := func }

/-- The pack of `promise::resolved`, which is `promise::factory` of a function that
returns its argument. -/
def Pack.unit {V E : Type*} (name : ℕ) : Pack V E := .of_next name (.value .ok)

/-- `pack >>= pack' >>= ...`; the operator groups to the right. -/
def Pack.monad {V E : Type*} : Pack V E → List (Pack V E) → Pack V E
  | pack, [] => pack
  | pack, pack' :: packs => .bind pack (monad pack' packs)

/-- The pairs of callbacks that `set_callbacks` is called with: by
`forward_to(next)`, and by `then`, with the promise it returns. -/
inductive Binding (V E : Type*) where
  | forward_to (next : PromiseId)
  | then_to (promise : PromiseId) (pack : Pack V E)

namespace Pack

open Store

variable {V E : Type*} [Inhabited V]

/-- What runs a callback that is bound to a promise. -/
abbrev Invoke (V E : Type*) :=
  Binding V E → Outcome V E → Store V E (Binding V E) → Ended (Store V E (Binding V E)) (Halt E)

/-- `p->then(pack)`, with the promise it returns. -/
def then_pack (b : Build) (invoke : Invoke V E) (p : PromiseId) (pack : Pack V E)
    (st : Store V E (Binding V E)) : PromiseId × Ended (Store V E (Binding V E)) (Halt E) :=
  let (promise, st) := alloc st
  (promise, set_callbacks b invoke p (.then_to promise pack) st)

/-- `callback_pack::call`, and `operator ()` of a promise. -/
def call (b : Build) (invoke : Invoke V E) (self : Pack V E) (d : PromiseId)
    (st : Store V E (Binding V E)) : PromiseId × Ended (Store V E (Binding V E)) (Halt E) :=
  then_pack b invoke d self st

/-- `operator ()` of a value. -/
def apply (b : Build) (invoke : Invoke V E) (self : Pack V E) (d : V)
    (st : Store V E (Binding V E)) : PromiseId × Ended (Store V E (Binding V E)) (Halt E) :=
  let (p, st) := immediate b (.resolved d) st
  call b invoke self p st

/-- `callback_pack::reject`. -/
def reject (b : Build) (invoke : Invoke V E) (self : Pack V E) (error : ExceptionPtr E)
    (st : Store V E (Binding V E)) : PromiseId × Ended (Store V E (Binding V E)) (Halt E) :=
  let (p, st) := immediate b (.rejected error) st
  call b invoke self p st

/-- `...->then(after)`, in a callback: the promise that it returns, or the exception
that came out of either part. -/
def then_after (b : Build) (invoke : Invoke V E) (after : Pack V E)
    (r : PromiseId × Ended (Store V E (Binding V E)) (Halt E)) : Called V E (Binding V E) :=
  match r with
  -- `self(d)` threw: `->then(after)` is not reached
  | (_, (st, some x)) => (.error x, st)
  | (p, (st, none)) =>
    match then_pack b invoke p after st with
    | (_, (st, some x)) => (.error x, st)
    | (q, (st, none)) => (.ok q, st)

/-- The `next` that `bind` makes: `self(d)->then(after)`. -/
def bound_next (b : Build) (invoke : Invoke V E) (self after : Pack V E) (d : V)
    (st : Store V E (Binding V E)) : Called V E (Binding V E) :=
  then_after b invoke after (apply b invoke self d st)

/-- The `handler` that `bind` makes: `self.reject(error)->then(after)`. -/
def bound_handler (b : Build) (invoke : Invoke V E) (self after : Pack V E)
    (error : ExceptionPtr E) (st : Store V E (Binding V E)) : Called V E (Binding V E) :=
  then_after b invoke after (reject b invoke self error st)

/-- The first half of the two callbacks `then` binds: `next(get_result(lock))`, or
`handler(get_error(lock))`. -/
def call_callback (b : Build) (invoke : Invoke V E) (pack : Pack V E) (o : Outcome V E)
    (st : Store V E (Binding V E)) : Called V E (Binding V E) :=
  match pack, o with
  | .user name callbacks, o => Store.call_callback b callbacks name o st
  -- the closures of `bind` run in the `try` of `then` like a callback of the user's
  | .bind self after, .resolved result => bound_next b invoke self after result st
  | .bind self after, .rejected error => bound_handler b invoke self after error st

/-- `call_finally`, with what the finalizer throws; a pack that `bind` makes has no
finalizer of its own. -/
def call_finally (pack : Pack V E) (st : Store V E (Binding V E)) :
    Option (ExceptionPtr E) × Store V E (Binding V E) :=
  match pack with
  | .user name callbacks => Store.call_finally callbacks name st
  | .bind _ _ => (none, st)

/-- The callbacks that `then` binds. -/
def then_callback (b : Build) (invoke : Invoke V E) (promise : PromiseId) (pack : Pack V E)
    (o : Outcome V E) (st : Store V E (Binding V E)) :
    Ended (Store V E (Binding V E)) (Halt E) :=
  after_callback b invoke promise (.forward_to promise) pack.call_finally
    (call_callback b invoke pack o st)

/-- Run the callback that the outcome selects; `n` bounds the depth of the nest. -/
def invoke (b : Build) : ℕ → Invoke V E
  | 0, _, _, st => throws st .deadlock
  | n + 1, .forward_to next, o, st => settle b (invoke b n) o next st
  | n + 1, .then_to promise pack, o, st => then_callback b (invoke b n) promise pack o st

/-! ## Runs -/

/-- What a pack is applied to: a value, an error, or the promise `0`, which may be
settled before or after. -/
inductive Input (V E : Type*) where
  | value (d : V)
  | error (error : ExceptionPtr E)
  | promise

/-- A pack applied to its input. -/
def applied (b : Build) (n : ℕ) (pack : Pack V E) (input : Input V E)
    (st : Store V E (Binding V E)) : PromiseId × Ended (Store V E (Binding V E)) (Halt E) :=
  match input with
  | .value d => apply b (invoke b n) pack d st
  | .error error => reject b (invoke b n) pack error st
  | .promise => call b (invoke b n) pack 0 st

/-- `p->then(pack)->then(pack')->...`. -/
def then_all (b : Build) (n : ℕ) :
    List (Pack V E) → PromiseId → Store V E (Binding V E) →
      PromiseId × Ended (Store V E (Binding V E)) (Halt E)
  | [], p, st => (p, returns st)
  | pack :: packs, p, st =>
    match then_pack b (invoke b n) p pack st with
    | (q, (st, some x)) => (q, throws st x)
    | (q, (st, none)) => then_all b n packs q st

/-- The same on a promise with the input. -/
def chained (b : Build) (n : ℕ) (packs : List (Pack V E)) (input : Input V E)
    (st : Store V E (Binding V E)) : PromiseId × Ended (Store V E (Binding V E)) (Halt E) :=
  match input with
  | .value d =>
      let (p, st) := immediate b (.resolved d) st
      then_all b n packs p st
  | .error error =>
      let (p, st) := immediate b (.rejected error) st
      then_all b n packs p st
  | .promise => then_all b n packs 0 st

/-- The promises with the numbers in the list are settled, from outside. -/
def settle_all (b : Build) (n : ℕ) (inner : PromiseId → Outcome V E) :
    List PromiseId → Store V E (Binding V E) → Ended (Store V E (Binding V E)) (Halt E)
  | [], st => returns st
  | i :: is, st => andThen (settle b (invoke b n) (inner i) i st) (settle_all b n inner is)

/-- The promises `0`, which is there to be the input, and `1` to `m`, which the
callbacks may return. -/
def start (m : ℕ) : Store V E (Binding V E) := { cells := fun _ => .new, size := m + 1 }

/-- Settle the promises of `before`, run `main`, settle those of `after`. What is
seen of it is what has become of the promise that `main` returned, and the
callbacks that have run. -/
def play (b : Build) (n m : ℕ) (inner : PromiseId → Outcome V E) (before after : List PromiseId)
    (main : Store V E (Binding V E) →
      PromiseId × Ended (Store V E (Binding V E)) (Halt E)) :
    Ended (Option (Outcome V E) × List (Event V E)) (Halt E) :=
  let r := settle_all b n inner before (start m)
  let q := main r.1
  let s := andThen (andThen r fun _ => q.2) (settle_all b n inner after)
  (((s.1.cells q.1).outcome, s.1.log), s.2)

end Pack
end Kaiu
