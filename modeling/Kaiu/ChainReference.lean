/-
What a chain of promises means, without promises: the table "what is called
when" of the documentation as functions on outcomes.

A stage is the pack of callbacks given to one `then`. `result` says what it makes
of the outcome of the promise before it, `events` which callbacks that runs, and
`chain` folds the stages of a chain. A callback may return a promise; what such an
inner promise is settled with is not known to the stage and is a parameter of
`chain`. The table takes every error for one that can be thrown; `chain_crashes` says
whether a null pointer comes to where the code would rethrow it.
-/
import Kaiu.PromiseStore

set_option autoImplicit false

namespace Kaiu

/-- What a stage passes on: an outcome, or whatever an inner promise is settled
with. -/
inductive StageResult (V E : Type*) where
  | settled (o : Outcome V E)
  | inner (p : PromiseId)

namespace Callback

variable {A V E : Type*}

/-- What calling a callback on `arg` comes to; `skipped` if it is null. A value is
a resolution, an exception a rejection. -/
def result (callback : Callback A V E) (arg : A) (skipped : Outcome V E) : StageResult V E :=
  match callback with
  | .null => .settled skipped
  | .value func =>
      match func arg with
      | .ok v => .settled (.resolved v)
      | .error error => .settled (.rejected error)
  | .promise func =>
      match func arg with
      | .ok inner => .inner inner
      | .error error => .settled (.rejected error)

/-- The event of calling a callback, if there is one to call. -/
def events (callback : Callback A V E) (event : Event V E) : List (Event V E) :=
  match callback with
  | .null => []
  | _ => [event]

end Callback

namespace callback_pack

variable {V E : Type*}

/-- What a null `next` makes of a value: it is passed on, but not to a promise of another
type. -/
def passed_on (pack : callback_pack V E) (value : V) : Outcome V E :=
  if pack.same_type then .resolved value else .rejected (.logic_error no_next_callback)

/-- What `next` or `handler` makes of an outcome. -/
def callback_result (pack : callback_pack V E) (o : Outcome V E) : StageResult V E :=
  match o with
  | .resolved value => pack.next.result value (pack.passed_on value)
  | .rejected error => pack.handler.result error o

/-- A null pointer comes to a stage that has no handler, and would have to be rethrown. -/
def crashes (pack : callback_pack V E) (o : Outcome V E) : Bool :=
  match pack.handler, o with
  | .null, .rejected .null => true
  | _, _ => false

/-- What a stage makes of an outcome: an exception of the finalizer replaces
whatever `next` or `handler` produced. -/
def result (pack : callback_pack V E) (o : Outcome V E) : StageResult V E :=
  match pack.finalizer.join with
  | some error => .settled (.rejected error)
  | none => pack.callback_result o

/-- `next` runs on a resolution, `handler` on a rejection. -/
def callback_events (pack : callback_pack V E) (promise : PromiseId) (o : Outcome V E) :
    List (Event V E) :=
  match o with
  | .resolved value => pack.next.events (.next promise value)
  | .rejected error => pack.handler.events (.handler promise error)

/-- The callbacks a stage runs: the finalizer right after `next` or `handler`. -/
def events (pack : callback_pack V E) (promise : PromiseId) (o : Outcome V E) :
    List (Event V E) :=
  pack.callback_events promise o ++ (if pack.finalizer.isSome then [.finalizer promise] else [])

end callback_pack

section Chain

variable {V E : Type*}

/-- The outcome of a stage, given the outcomes of the inner promises. -/
def StageResult.outcome (inner : PromiseId → Outcome V E) : StageResult V E → Outcome V E
  | .settled o => o
  | .inner p => inner p

/-- **The reference fold.** The outcome of the last promise of a chain, and the
callbacks that run, in order. Each stage comes with the promise its `then`
returned, which is what the events name it by. -/
def chain (inner : PromiseId → Outcome V E) :
    Outcome V E → List (PromiseId × callback_pack V E) → Outcome V E × List (Event V E)
  | o, [] => (o, [])
  | o, (promise, pack) :: stages =>
      let (last, events) := chain inner ((pack.result o).outcome inner) stages
      (last, pack.events promise o ++ events)

/-- The outcome of the last promise of a chain, by its packs. -/
def chain_outcome (inner : PromiseId → Outcome V E) :
    Outcome V E → List (callback_pack V E) → Outcome V E
  | o, [] => o
  | o, pack :: packs => chain_outcome inner ((pack.result o).outcome inner) packs

/-- A null pointer comes to one of the stages that has no handler. -/
def chain_crashes (inner : PromiseId → Outcome V E) :
    Outcome V E → List (callback_pack V E) → Bool
  | _, [] => false
  | o, pack :: packs =>
      pack.crashes o || chain_crashes inner ((pack.result o).outcome inner) packs

variable {inner : PromiseId → Outcome V E}

theorem chain_fst (o : Outcome V E) (ss : List (PromiseId × callback_pack V E)) :
    (chain inner o ss).1 = chain_outcome inner o (ss.map Prod.snd) := by
  induction ss generalizing o with
  | nil => rfl
  | cons s ss ih =>
    simp only [chain, List.map_cons, chain_outcome]
    exact ih _

theorem chain_outcome_append (o : Outcome V E) (packs more : List (callback_pack V E)) :
    chain_outcome inner o (packs ++ more)
      = chain_outcome inner (chain_outcome inner o packs) more := by
  induction packs generalizing o with
  | nil => rfl
  | cons pack packs ih =>
    simp only [List.cons_append, chain_outcome]
    exact ih _

theorem chain_crashes_append (o : Outcome V E) (packs more : List (callback_pack V E)) :
    chain_crashes inner o (packs ++ more)
      = (chain_crashes inner o packs
          || chain_crashes inner (chain_outcome inner o packs) more) := by
  induction packs generalizing o with
  | nil => simp [chain_crashes, chain_outcome]
  | cons pack packs ih =>
    simp only [List.cons_append, chain_crashes, chain_outcome, ih, Bool.or_assoc]

end Chain
end Kaiu
