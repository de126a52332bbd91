/-
Promises that are bound to one another: locks, new promises, and the two callbacks
that `then` binds.

The promises are cells of a store. What is bound to them is a parameter `K` of the
store, since it depends on which closures the library makes: the callbacks of `then`
and `forward_to` (`Callbacks`), or packs that have been bound to packs (`Binding`).
Running one operates on the store again. Such a nest of calls holds the lock of every
promise on the way; an operation on a promise whose lock the nest already holds never
returns.

One type `V` stands for the result types of all promises, each of which is a part of
it. That the two promises of a `then` have the same result type is a fact about the
pack (`same_type`).
-/
import Kaiu.PromiseState
import Mathlib.Data.Nat.Notation

set_option autoImplicit false

namespace Kaiu

open Exit

/-- The `shared_ptr` of a promise. -/
abbrev PromiseId := ℕ

/-- How an operation on promises ends when it does not return. No `catch` sees
anything but the first. -/
inductive Halt (E : Type*) where
  | threw (error : ExceptionPtr E)
  | deadlock
  /-- `std::rethrow_exception` has been called with a null pointer. -/
  | crashed
  deriving DecidableEq, Repr

instance {E : Type*} : Throws E (Halt E) := ⟨.threw⟩

/-- A `next` or `handler` argument of `then`: null, a function of a value
(which `then` wraps with `promise::factory`) or a function to a promise. -/
inductive Callback (A V E : Type*) where
  | null
  | value (func : A → Except (ExceptionPtr E) V)
  | promise (func : A → Except (ExceptionPtr E) PromiseId)

/-- `promise::callback_pack`. A finalizer returns (`some none`) or throws. -/
structure callback_pack (V E : Type*) where
  next : Callback V V E := .null
  handler : Callback (ExceptionPtr E) V E := .null
  finalizer : Option (Option (ExceptionPtr E)) := none
  /-- `std::is_same<Domain, Range>` of the type of the pack. -/
  same_type : Bool := true

/-- What `forward_result` says when it cannot pass a value on. -/
def no_next_callback : String :=
  "If promise <A> is followed by promise <B>, but promise <A> has no 'next' callback, then " ++
    "promise <A> must produce exact same data-type as promise <B>."

/-- Which user callback ran: the one that was given to the `then` that returned
`promise`. -/
inductive Event (V E : Type*) where
  | next (promise : PromiseId) (result : V)
  | handler (promise : PromiseId) (error : ExceptionPtr E)
  | finalizer (promise : PromiseId)
  deriving DecidableEq, Repr

/-- The promises there are, with callbacks of the type `K`, the locks the running
operation holds, and the user callbacks that have run. -/
structure Store (V E K : Type*) where
  cells : PromiseId → PromiseState V E K
  size : ℕ := 0
  held : List PromiseId := []
  log : List (Event V E) := []

namespace Store

variable {V E K : Type*}

/-- `get_lock` for the promise `p`, and what is done under it. -/
def with_lock (p : PromiseId)
    (f : PromiseState V E K → Store V E K → Ended (PromiseState V E K × Store V E K) (Halt E))
    (st : Store V E K) : Ended (Store V E K) (Halt E) :=
  if p ∈ st.held then throws st .deadlock
  else
    let r := f (st.cells p) { st with held := p :: st.held }
    ({ r.1.2 with cells := Function.update r.1.2.cells p r.1.1, held := st.held }, r.2)

/-- User callbacks run. -/
def logged (st : Store V E K) (events : List (Event V E)) : Store V E K :=
  { st with log := st.log ++ events }

/-- `p->resolve(...)` or `p->reject(...)`. -/
def settle (b : Build) (call : K → Outcome V E → Store V E K → Ended (Store V E K) (Halt E))
    (o : Outcome V E) (p : PromiseId) : Store V E K → Ended (Store V E K) (Halt E) :=
  with_lock p (PromiseState.settle b call o)

/-- `get_lock` and `set_callbacks`, which `then`, `forward_to` and `finish` end in. -/
def set_callbacks (b : Build)
    (call : K → Outcome V E → Store V E K → Ended (Store V E K) (Halt E))
    (p : PromiseId) (callbacks : K) : Store V E K → Ended (Store V E K) (Halt E) :=
  with_lock p (PromiseState.set_callbacks b call callbacks)

/-- What calling a callback of `then` leaves: the promise it returned or how it
did not return, and the promises. -/
abbrev Called (V E K : Type*) := Except (Halt E) PromiseId × Store V E K

section New

variable [Inhabited V]

/-- `Promise<Result>()`. -/
def alloc (st : Store V E K) : PromiseId × Store V E K :=
  (st.size, { st with cells := Function.update st.cells st.size .new, size := st.size + 1 })

/-- `promise::resolved` and `promise::rejected`: nothing is bound to the new
promise, so settling it runs nothing (`immediate_eq`). -/
def immediate (b : Build) (o : Outcome V E) (st : Store V E K) : PromiseId × Store V E K :=
  (st.size, { st with
    cells := Function.update st.cells st.size (PromiseState.settled b o .new)
    size := st.size + 1 })

/-- `promise::factory(func)(arg)`. -/
def factory {A : Type*} (b : Build) (func : A → Except (ExceptionPtr E) V) (arg : A)
    (st : Store V E K) : PromiseId × Store V E K :=
  match func arg with
  | .ok value => immediate b (.resolved value) st
  | .error error => immediate b (.rejected error) st

/-- Call a callback that may be null with `arg`. A function of a value is called
through `promise::factory`. -/
def call_function {A : Type*} (b : Build) (callback : Callback A V E) (arg : A)
    (event : Event V E) (default : Store V E K → Called V E K) (st : Store V E K) :
    Called V E K :=
  match callback with
  | .null => default st
  | .value func =>
      let (inner, st) := factory b func arg (st.logged [event])
      (.ok inner, st)
  | .promise func => ((func arg).mapError Halt.threw, st.logged [event])

/-- `forward_result`: the first overload if the result types are the same, the second
one if they are not. -/
def forward_result (same_type : Bool) (result : V) : Except (ExceptionPtr E) V :=
  if same_type then .ok result else .error (.logic_error no_next_callback)

/-- `default_next`: pass the value on, if it can be. -/
def default_next (b : Build) (same_type : Bool) (result : V) (st : Store V E K) : Called V E K :=
  match forward_result same_type result with
  | .ok value =>
      let (inner, st) := immediate b (.resolved value) st
      (.ok inner, st)
  | .error error => (.error (.threw error), st)

/-- `default_except`: rethrow the error. A null pointer cannot be rethrown. -/
def default_except (error : ExceptionPtr E) (st : Store V E K) : Called V E K :=
  match error with
  | .null => (.error .crashed, st)
  | error => (.error (.threw error), st)

/-- `next(get_result(lock))`; the pack goes by `name` in the events. -/
def call_next (b : Build) (pack : callback_pack V E) (name : PromiseId) (result : V)
    (st : Store V E K) : Called V E K :=
  call_function b pack.next result (.next name result) (default_next b pack.same_type result) st

/-- `handler(get_error(lock))`. -/
def call_handler (b : Build) (pack : callback_pack V E) (name : PromiseId)
    (error : ExceptionPtr E) (st : Store V E K) : Called V E K :=
  call_function b pack.handler error (.handler name error) (default_except error) st

/-- The first half of the two callbacks `then` binds. -/
def call_callback (b : Build) (pack : callback_pack V E) (name : PromiseId) (o : Outcome V E)
    (st : Store V E K) : Called V E K :=
  match o with
  | .resolved result => call_next b pack name result st
  | .rejected error => call_handler b pack name error st

end New

/-- The finalizer is called, in `call_finally`: what it throws. -/
def call_finally (pack : callback_pack V E) (name : PromiseId) (st : Store V E K) :
    Option (ExceptionPtr E) × Store V E K :=
  (pack.finalizer.join, st.logged (if pack.finalizer.isSome then [.finalizer name] else []))

/-- The second half: call the finalizer, then reject `promise`, the promise that `then`
returned, with what was thrown, or have the promise that the callback returned
forwarded to it. -/
def after_callback (b : Build)
    (call : K → Outcome V E → Store V E K → Ended (Store V E K) (Halt E))
    (promise : PromiseId) (forward : K)
    (call_finally : Store V E K → Option (ExceptionPtr E) × Store V E K) (r : Called V E K) :
    Ended (Store V E K) (Halt E) :=
  match r with
  | (.error (.threw error), st) =>
    match call_finally st with
    | (some error', st) => settle b call (.rejected error') promise st
    | (none, st) => settle b call (.rejected error) promise st
  -- a callback that never returns, or that ends the program, is not caught
  | (.error halt, st) => throws st halt
  | (.ok inner, st) =>
    match call_finally st with
    -- `call_finally` returns false: the promise of the callback is dropped
    | (some error, st) => settle b call (.rejected error) promise st
    | (none, st) => set_callbacks b call inner forward st

end Store
end Kaiu
