/-
Chains of promises: `then`, `forward_to` and `finish` on a store of promises, with the
closures that the source builds as the callbacks.

`invoke` recurses on a bound for the depth of the nest of calls, and the bound of the
public operations is enough for every nest that does not take a lock twice: it takes
the locks of different promises.
-/
import Kaiu.PromiseStore

set_option autoImplicit false

namespace Kaiu

open Exit Store

/-- The pairs of callbacks that `set_callbacks` is called with: by
`forward_to(next)`, by `then`, with the promise it returns, and by
`set_terminator`. -/
inductive Callbacks (V E : Type*) where
  | forward_to (next : PromiseId)
  | then_to (promise : PromiseId) (pack : callback_pack V E)
  | terminator

/-- The promises of chains. -/
abbrev Heap (V E : Type*) := Store V E (Callbacks V E)

/-- A depth that no nest over the promises of `st` exceeds. -/
def Store.depth {V E K : Type*} (st : Store V E K) : ℕ := 2 * st.size + 1

namespace Heap

variable {V E : Type*}

/-- No promise has been made. -/
def empty [Inhabited V] : Heap V E := { cells := fun _ => .new }

/-- `p->forward_to(next)`. -/
def forward_to (b : Build)
    (call : Callbacks V E → Outcome V E → Heap V E → Ended (Heap V E) (Halt E))
    (p next : PromiseId) : Heap V E → Ended (Heap V E) (Halt E) :=
  set_callbacks b call p (.forward_to next)

variable [Inhabited V]

/-- The callbacks that `then` binds. -/
def then_callback (b : Build)
    (call : Callbacks V E → Outcome V E → Heap V E → Ended (Heap V E) (Halt E))
    (promise : PromiseId) (pack : callback_pack V E) (o : Outcome V E) (h : Heap V E) :
    Ended (Heap V E) (Halt E) :=
  after_callback b call promise (.forward_to promise) (call_finally pack promise)
    (call_callback b pack promise o h)

/-- Run the callback that the outcome selects; `n` bounds the depth of the nest. -/
def invoke (b : Build) : ℕ → Callbacks V E → Outcome V E → Heap V E → Ended (Heap V E) (Halt E)
  | 0, _, _, h => throws h .deadlock
  | _ + 1, .terminator, .resolved _, h => returns h
  | _ + 1, .terminator, .rejected error, h =>
      match error with
      | .null => returns h
      | error => throws h (.threw error)
  | n + 1, .forward_to next, o, h => settle b (invoke b n) o next h
  | n + 1, .then_to promise pack, o, h => then_callback b (invoke b n) promise pack o h

/-! ## The public operations -/

/-- `p->resolve(result)`. -/
def resolve (b : Build) (p : PromiseId) (result : V) (h : Heap V E) : Ended (Heap V E) (Halt E) :=
  settle b (invoke b h.depth) (.resolved result) p h

/-- `p->reject(error)`. -/
def reject (b : Build) (p : PromiseId) (error : ExceptionPtr E) (h : Heap V E) :
    Ended (Heap V E) (Halt E) :=
  settle b (invoke b h.depth) (.rejected error) p h

/-- `p->then(pack)`, with the promise it returns. -/
def then_pack (b : Build) (p : PromiseId) (pack : callback_pack V E) (h : Heap V E) :
    PromiseId × Ended (Heap V E) (Halt E) :=
  let (promise, h) := alloc h
  (promise, set_callbacks b (invoke b h.depth) p (.then_to promise pack) h)

/-- `p->forward_to(next)`. -/
def forward (b : Build) (p next : PromiseId) (h : Heap V E) : Ended (Heap V E) (Halt E) :=
  forward_to b (invoke b h.depth) p next h

/-- `p->finish()`. -/
def finish (b : Build) (p : PromiseId) (h : Heap V E) : Ended (Heap V E) (Halt E) :=
  set_callbacks b (invoke b h.depth) p .terminator h

end Heap
end Kaiu
