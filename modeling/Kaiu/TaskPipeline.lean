/-
`promise | task | … | task`: a pipeline of tasks, each of which runs a function in a pool.

`operator |` is `then`. The expression is evaluated by one thread, while workers already
run the first of its tasks: the callbacks that `then` binds to a promise are called by the
thread that evaluates the expression if the promise has been settled before, and by a
worker of the reaction pool of the task before it otherwise, and whether the promise of a
task is settled or forwarded first depends on the threads too. A callback is called with
the promise locked; here each operation is a step and each callback is another one, between
which any other thread may come.

What is still on its way is balanced against what has arrived: each promise is bound once
and settled once, by work that another promise has made due (`due`). So nothing is lost or
doubled: in every run the functions are called in the order in which they would be called
by a chain of promises without tasks and with the same arguments, and the last promise is
settled with what the last promise of that chain would be settled with
(`pipeline_transparent`).
-/
import Kaiu.ChainReference
import Kaiu.EventBag
import Kaiu.EventLoopJoin
import Kaiu.EventThreads
import Kaiu.Library.Deliveries
import Kaiu.PromiseSends

set_option autoImplicit false

namespace Kaiu

open Exit

/-! ## Chains that grow -/

section Chain

variable {V E : Type*} {inner : PromiseId → Outcome V E}

/-- One more stage makes its own of the outcome of the stages before it. -/
theorem chain_concat (o : Outcome V E) (stages : List (PromiseId × callback_pack V E))
    (stage : PromiseId × callback_pack V E) :
    chain inner o (stages ++ [stage]) =
      ((stage.2.result (chain inner o stages).1).outcome inner,
        (chain inner o stages).2 ++ stage.2.events stage.1 (chain inner o stages).1) := by
  induction stages generalizing o with
  | nil => simp [chain]
  | cons first stages ih => simp [chain, ih]

end Chain

namespace TaskPipeline

open Deliveries EventLoop EventLoop.ParallelEventLoop Relation Function PromiseState

variable {P W V E : Type*}

/-- What is left to do of an event, or by the thread that evaluates the expression. -/
inductive Work (V E : Type*) where
  /-- `->then(task)`, on the promise of the link before the stage. -/
  | bind (stage : ℕ)
  /-- The callbacks that `then` has bound are called. -/
  | handle (stage : ℕ) (o : Outcome V E)
  /-- The event `action`: the function is to be called. -/
  | action (stage : ℕ) (x : V)
  /-- `resolve` or `reject` in `action`: a `proxy` is to be pushed. -/
  | push_proxy (stage : ℕ) (o : Outcome V E)
  /-- The event `proxy`: the task's promise is to be settled. -/
  | proxy (stage : ℕ) (o : Outcome V E)
  /-- `nextResult->forward_to(promise)`, on the task's promise. -/
  | forward (stage : ℕ)
  /-- The promise of the link after the stage is to be settled. -/
  | settle_next (stage : ℕ) (o : Outcome V E)
  /-- Anything else. -/
  | other

/-- The promises of a pipeline. The promise of the link `i` is the one that the stage `i` is
bound to, and that of the link `i + 1` is the one that the `then` of this stage returns. -/
structure Pipeline (V E : Type*) where
  links : ℕ → PromiseState V E Unit
  /-- The promises of the tasks. -/
  promises : ℕ → PromiseState V E Unit
  /-- Not in the source: the stages whose callbacks have been called. -/
  handled : ℕ → Bool := fun _ => false
  /-- Not in the source: the calls of the functions. -/
  calls : List (Kaiu.Event V E) := []

/-- A pipeline, and what the thread that evaluates the expression has left to do. -/
structure State (V E : Type*) where
  pipeline : Pipeline V E
  evaluating : List (Work V E)

/-- What is done next after an operation on a promise: what its callback does, if that has
been called. -/
def continue_with (f : Outcome V E → Work V E)
    (r : Ended (PromiseState V E Unit × List (Outcome V E)) (ExceptionPtr E)) :
    Then (Work V E) (ExceptionPtr E) :=
  match r.2, r.1.2 with
  | some error, _ => .throws error
  | none, [] => .returns
  | none, o :: _ => .goes_on (f o)

/-- What a function comes to, as `promise::factory` has it. -/
def result_of (result : Except (ExceptionPtr E) V) : Outcome V E :=
  match result with
  | .ok v => .resolved v
  | .error error => .rejected error

section Program

variable (b : Build) (func : ℕ → V → Except (ExceptionPtr E) V) (action_pool reaction_pool : ℕ → P)

/-- What is done, what it pushes, and how it goes on. -/
def perform (s : Pipeline V E) : Work V E →
    Pipeline V E × Option (P × Work V E) × Then (Work V E) (ExceptionPtr E)
  | .bind i =>
      let r := set_callbacks b (sends id) () (s.links i) []
      ({ s with links := update s.links i r.1.1 }, none, continue_with (.handle i) r)
  | .handle i (.resolved v) =>
      ({ s with handled := update s.handled i true }, some (action_pool i, .action i v),
        .goes_on (.forward i))
  -- the handler is null: `default_except` throws the error again, which a function has thrown
  | .handle i (.rejected error) =>
      ({ s with handled := update s.handled i true }, none,
        .goes_on (.settle_next i (.rejected error)))
  | .action i x =>
      ({ s with calls := s.calls ++ [.next (i + 1) x] }, none,
        .goes_on (.push_proxy i (result_of (func i x))))
  | .push_proxy i o => (s, some (reaction_pool i, .proxy i o), .returns)
  | .proxy i o =>
      let r := settle b (sends id) o (s.promises i) []
      ({ s with promises := update s.promises i r.1.1 }, none, continue_with (.settle_next i) r)
  | .forward i =>
      let r := set_callbacks b (sends id) () (s.promises i) []
      ({ s with promises := update s.promises i r.1.1 }, none, continue_with (.settle_next i) r)
  | .settle_next i o =>
      let r := settle b (sends id) o (s.links (i + 1)) []
      ({ s with links := update s.links (i + 1) r.1.1 }, none, continue_with (.handle (i + 1)) r)
  | .other => (s, none, .returns)

/-- The actions of the events. -/
inductive Act : State V E → Work V E → State V E → Option (P × Work V E) →
    Then (Work V E) (ExceptionPtr E) → Prop where
  | performs {s : State V E} {work : Work V E} :
      Act s work { s with pipeline := (perform b func action_pool reaction_pool s.pipeline work).1 }
        (perform b func action_pool reaction_pool s.pipeline work).2.1
        (perform b func action_pool reaction_pool s.pipeline work).2.2
  | other_pushes {s : State V E} {p : P} : Act s .other s (some (p, .other)) (.goes_on .other)
  | other_throws {s : State V E} {error : ExceptionPtr E} : Act s .other s none (.throws error)

/-- What is left of the evaluation of the expression, which an exception would end. -/
def Then.list : Then (Work V E) (ExceptionPtr E) → List (Work V E) → List (Work V E)
  | .goes_on work, evaluating => work :: evaluating
  | .returns, evaluating => evaluating
  | .throws _, _ => []

/-- What other threads do: one of them evaluates the expression. -/
inductive Env : State V E → State V E → Option (P × Work V E) → Prop where
  | evaluates {s : State V E} {work : Work V E} {rest : List (Work V E)}
      (h : s.evaluating = work :: rest) :
      Env s
        { pipeline := (perform b func action_pool reaction_pool s.pipeline work).1
          evaluating :=
            Then.list (perform b func action_pool reaction_pool s.pipeline work).2.2 rest }
        (perform b func action_pool reaction_pool s.pipeline work).2.1
  | pushes {s : State V E} {p : P} : Env s s (some (p, .other))

/-- A pipeline of tasks in a loop with other events. -/
def pipeline : Program P (State V E) (Work V E) (ExceptionPtr E) where
  act := Act b func action_pool reaction_pool
  env := Env b func action_pool reaction_pool

end Program

/-- `promise::resolved(x) | task | … | task` is to be evaluated. -/
def new [Inhabited V] (b : Build) (n : ℕ) (x : V) : State V E where
  pipeline :=
    { links := update (fun _ => .new) 0 (settle b (sends id) (.resolved x) .new []).1.1
      promises := fun _ => .new }
  evaluating := (List.range n).map .bind

/-- The `then` of a stage without a task. -/
def stage (func : ℕ → V → Except (ExceptionPtr E) V) (i : ℕ) : PromiseId × callback_pack V E :=
  (i + 1, { next := .value (func i) })

/-- The stages of a chain without tasks. -/
def stages (func : ℕ → V → Except (ExceptionPtr E) V) (n : ℕ) :
    List (PromiseId × callback_pack V E) :=
  (List.range n).map (stage func)

/-! ## Promises that are settled and bound once -/

section Promises

variable {p : PromiseState V E Unit} {b : Build}

/-- The promise has been settled. -/
def is_settled (p : PromiseState V E Unit) : Bool :=
  p.state != .pending

/-- The callbacks have been called exactly if the promise has been bound and settled. -/
theorem length_called (hp : Sends p) :
    p.called.length = (p.callbacks_assigned && is_settled p).toNat := by
  unfold is_settled
  cases hs : p.state with
  | pending => simp [(hp.pending hs).1]
  | resolved => simp [hp.settled (.resolved p.result) hs]
  | rejected => simp [hp.settled (.rejected p.error) hs]
  | completed =>
    obtain ⟨ha, o, hcalled⟩ := hp.completed hs
    rw [ha, hcalled]
    rfl

theorem is_settled_iff (hp : Sends p) : is_settled p = true ↔ ∃ o, outcome p = some o := by
  unfold is_settled outcome
  cases hs : p.state with
  | pending => simp
  | resolved | rejected => simp
  | completed =>
    obtain ⟨-, o, hcalled⟩ := hp.completed hs
    simp [hcalled]

/-- An operation on a promise has returned, and its callback is called with the outcome if it
has been called now. -/
structure Operated (assigned settled : Bool) (o? : Option (Outcome V E))
    (r : Ended (PromiseState V E Unit × List (Outcome V E)) (ExceptionPtr E)) : Prop where
  sends : Sends r.1.1
  assigned : r.1.1.callbacks_assigned = assigned
  settled : is_settled r.1.1 = settled
  outcome : outcome r.1.1 = o?
  called : r.1.2 = r.1.1.called
  returned : r.2 = none

theorem operated_settle (hp : Sends p) (h : is_settled p = false) (o : Outcome V E) :
    Operated p.callbacks_assigned true (some o) (settle b (sends id) o p []) := by
  have hpending : p.state = .pending := by simpa [is_settled] using h
  obtain ⟨hcalled, hk⟩ := hp.pending hpending
  obtain ⟨⟨new, hsends, hnew, hsent⟩, hassigned, houtcome⟩ := hp.settle id b [] o hpending
  refine ⟨hsends, hassigned, (is_settled_iff hsends).mpr ⟨o, houtcome⟩, houtcome, ?_, ?_⟩
  · rw [hsent, hnew, hcalled, List.map_id]
  · rw [settle_pending b _ o [] hpending]
    split
    · rename_i ha
      rw [run_callback_eq b _ [] (k := ()) (by simpa using hk ha) rfl]
      rfl
    · rfl

theorem operated_bind (hp : Sends p) (h : p.callbacks_assigned = false) :
    Operated true (is_settled p) (outcome p) (set_callbacks b (sends id) () p []) := by
  have hcalled := hp.unbound h
  obtain ⟨⟨new, hsends, hnew, hsent⟩, hassigned, houtcome⟩ := hp.bind id b [] h
  refine ⟨hsends, hassigned, ?_, houtcome, ?_, ?_⟩
  · rw [Bool.eq_iff_iff, is_settled_iff hsends, is_settled_iff hp, houtcome]
  · rw [hsent, hnew, hcalled, List.map_id]
  · cases hs : p.state with
    | pending =>
      rw [set_callbacks_pending b _ () [] h hs]
      rfl
    | resolved =>
      rw [set_callbacks_settled b _ () [] h (o := .resolved p.result) hs (by simp [outcome, hs]),
        run_callback_eq b _ [] (k := ()) rfl hs]
      rfl
    | rejected =>
      rw [set_callbacks_settled b _ () [] h (o := .rejected p.error) hs (by simp [outcome, hs]),
        run_callback_eq b _ [] (k := ()) rfl hs]
      rfl
    | completed =>
      rw [(hp.completed hs).1] at h
      cases h

/-- What is done next is what the callback does with the outcome, if it has been called. -/
theorem Operated.next_cases {assigned settled : Bool} {o? : Option (Outcome V E)}
    {r : Ended (PromiseState V E Unit × List (Outcome V E)) (ExceptionPtr E)}
    (hr : Operated assigned settled o? r) (f : Outcome V E → Work V E) :
    (assigned && settled) = false ∧ continue_with f r = .returns ∨
      (assigned && settled) = true ∧ ∃ o, o? = some o ∧ continue_with f r = .goes_on (f o) := by
  have hlength := length_called hr.sends
  rw [hr.assigned, hr.settled] at hlength
  unfold continue_with
  rw [hr.returned, hr.called]
  cases hcalled : r.1.1.called with
  | nil =>
    rw [hcalled] at hlength
    exact .inl ⟨Bool.toNat_eq_zero.mp hlength.symm, rfl⟩
  | cons o later =>
    have hle := hr.sends.called_le
    obtain ⟨-, houtcome⟩ := hr.sends.outcome_of_called (o := o) (by rw [hcalled]; exact .head _)
    rw [hcalled, List.length_cons] at hlength hle
    exact .inr ⟨Bool.toNat_eq_one.mp (by omega), o, hr.outcome ▸ houtcome, rfl⟩

end Promises

/-! ## What the stages make of the outcomes -/

section Reference

variable (inner : PromiseId → Outcome V E) (func : ℕ → V → Except (ExceptionPtr E) V) (x : V)

/-- What the promise of a link is settled with in a chain without tasks. -/
def link_outcome (i : ℕ) : Outcome V E :=
  (chain inner (.resolved x) (stages func i)).1

/-- The calls that a chain without tasks makes before a link. -/
def link_calls (i : ℕ) : List (Kaiu.Event V E) :=
  (chain inner (.resolved x) (stages func i)).2

/-- The link passes a value on. -/
def has_value (i : ℕ) : Bool :=
  match link_outcome inner func x i with
  | .resolved _ => true
  | .rejected _ => false

theorem stages_succ (i : ℕ) : stages func (i + 1) = stages func i ++ [stage func i] := by
  simp [stages, List.range_succ]

theorem chain_stages_succ (i : ℕ) :
    link_outcome inner func x (i + 1) =
        ((stage func i).2.result (link_outcome inner func x i)).outcome inner ∧
      link_calls inner func x (i + 1) = link_calls inner func x i ++
        (stage func i).2.events (i + 1) (link_outcome inner func x i) := by
  unfold link_outcome link_calls
  rw [stages_succ, chain_concat]
  exact ⟨rfl, rfl⟩

variable {inner func x}

/-- A stage calls its function with a value. -/
theorem link_of_value {i : ℕ} {v : V} (h : link_outcome inner func x i = .resolved v) :
    link_outcome inner func x (i + 1) = result_of (func i v) ∧
      link_calls inner func x (i + 1) = link_calls inner func x i ++ [.next (i + 1) v] := by
  obtain ⟨houtcome, hcalls⟩ := chain_stages_succ inner func x i
  rw [houtcome, hcalls, h]
  refine ⟨?_, rfl⟩
  simp only [stage, callback_pack.result, callback_pack.callback_result, Callback.result,
    Option.join_none, result_of]
  cases func i v with
  | ok w => rfl
  | error error => rfl

/-- A stage passes an error on. -/
theorem link_of_error {i : ℕ} {error : ExceptionPtr E}
    (h : link_outcome inner func x i = .rejected error) :
    link_outcome inner func x (i + 1) = .rejected error ∧
      link_calls inner func x (i + 1) = link_calls inner func x i := by
  obtain ⟨houtcome, hcalls⟩ := chain_stages_succ inner func x i
  rw [houtcome, hcalls, h]
  exact ⟨rfl, List.append_nil _⟩

theorem has_value_iff {i : ℕ} :
    has_value inner func x i = true ↔ ∃ v, link_outcome inner func x i = .resolved v := by
  unfold has_value
  cases link_outcome inner func x i <;> simp

end Reference

/-! ## The invariant -/

/-- What happens to a stage once at most. -/
inductive Place where
  /-- The promise of a link is bound. -/
  | link_bound (link : ℕ)
  /-- The promise of a link is settled. -/
  | link_settled (link : ℕ)
  /-- The callbacks that the stage has bound are called. -/
  | handled (stage : ℕ)
  /-- The function is called. -/
  | called (stage : ℕ)
  /-- The promise of the task is settled. -/
  | settled (stage : ℕ)
  /-- The promise of the task is bound. -/
  | bound (stage : ℕ)
  deriving DecidableEq

/-- What comes of the work. -/
def Work.place : Work V E → Option Place
  | bind i => some (.link_bound i)
  | handle i _ => some (.handled i)
  | action i _ => some (.called i)
  | push_proxy i _ | proxy i _ => some (.settled i)
  | forward i => some (.bound i)
  | settle_next i _ => some (.link_settled (i + 1))
  | other => none

/-- What has happened to a pipeline. -/
def Pipeline.reached (s : Pipeline V E) : Place → Bool
  | .link_bound i => (s.links i).callbacks_assigned
  | .link_settled i => is_settled (s.links i)
  | .handled i => s.handled i
  | .called i => decide (i < s.calls.length)
  | .settled i => is_settled (s.promises i)
  | .bound i => (s.promises i).callbacks_assigned

/-- What is to happen after what has happened, in a pipeline of which `value` says which
stages are handed a value. -/
def due (n : ℕ) (value : ℕ → Bool) (reached : Place → Bool) : Place → ℕ
  | .link_bound i => (decide (i < n)).toNat
  | .link_settled 0 => 1
  | .link_settled (i + 1) => (reached (.bound i) && reached (.settled i)).toNat
      + (!value i && reached (.handled i)).toNat
  | .handled i => (reached (.link_bound i) && reached (.link_settled i)).toNat
  | .called i | .bound i => (value i && reached (.handled i)).toNat
  | .settled i => (reached (.called i)).toNat

/-- What becomes due when something has happened. -/
def becomes_due (value : ℕ → Bool) (reached : Place → Bool) : Place → Multiset Place
  | .link_bound i => if reached (.link_settled i) then {.handled i} else 0
  | .link_settled i => if reached (.link_bound i) then {.handled i} else 0
  | .handled i => if value i then {.called i, .bound i} else {.link_settled (i + 1)}
  | .called i => {.settled i}
  | .settled i => if reached (.bound i) then {.link_settled (i + 1)} else 0
  | .bound i => if reached (.settled i) then {.link_settled (i + 1)} else 0

/-- The values and errors that are on their way are those of the chain without tasks. -/
def Work.agrees (out : ℕ → Outcome V E) : Work V E → Prop
  | handle i o => o = out i
  | action i x => out i = .resolved x
  | push_proxy i o | proxy i o | settle_next i o => o = out (i + 1)
  | bind _ | forward _ | other => True

/-- The promises are used once, everything that is on its way or has arrived is what it would
be without tasks, and the functions have been called in order. -/
structure Inv (inner : PromiseId → Outcome V E) (func : ℕ → V → Except (ExceptionPtr E) V) (x : V)
    (n : ℕ) (s : Pipeline V E) (work : Multiset (Work V E)) : Prop where
  links : ∀ i, Sends (s.links i)
  promises : ∀ i, Sends (s.promises i)
  link : ∀ i o, outcome (s.links i) = some o → o = link_outcome inner func x i
  promise : ∀ i o, outcome (s.promises i) = some o → o = link_outcome inner func x (i + 1)
  agrees : ∀ w ∈ work, w.agrees (link_outcome inner func x)
  calls : s.calls = link_calls inner func x s.calls.length
  balanced : Balanced Work.place (due n (has_value inner func x)) s.reached work

section Balance

variable {n : ℕ} {value : ℕ → Bool} {reached : Place → Bool} {work : Multiset (Work V E)}

/-- Nothing is to happen twice. -/
theorem due_le_one (h : Balanced Work.place (due n value) reached work) (k : Place) :
    due n value reached k ≤ 1 := by
  cases k with
  | link_settled i =>
    cases i with
    | zero => exact le_rfl
    | succ i =>
      -- the promise of a task is bound only where there is a value
      have hbound := h (.bound i)
      have hle := (value i && reached (.handled i)).toNat_le
      simp only [due] at hbound ⊢
      cases hv : value i <;> cases hb : reached (.bound i) <;>
        cases hs : reached (.settled i) <;> cases hh : reached (.handled i) <;>
        simp_all
  | link_bound | handled | called | settled | bound => exact Bool.toNat_le _

theorem toNat_pos_iff {b : Bool} : 0 < b.toNat ↔ b = true := by
  cases b <;> decide

/-- Functions are called in order: before a stage handles a value, the function of the stage
before it has been called. -/
theorem called_before (hvalue : ∀ i, value (i + 1) = true → value i = true)
    (h : Balanced Work.place (due n value) reached work) {i : ℕ} (hi : value (i + 1) = true)
    (hhandled : reached (.handled (i + 1)) = true) : reached (.called i) = true := by
  have hlinks := h.due_of_reached hhandled
  rw [due, toNat_pos_iff, Bool.and_eq_true] at hlinks
  have hbefore := h.due_of_reached hlinks.2
  rw [due, hvalue i hi, Bool.not_true, Bool.false_and, Bool.toNat_false, add_zero, toNat_pos_iff,
    Bool.and_eq_true] at hbefore
  have hcalled := h.due_of_reached hbefore.2
  rwa [due, toNat_pos_iff] at hcalled

/-- **What becomes due when something has happened.** -/
theorem due_update {k : Place} (hk : reached k = false) (q : Place) :
    due n value (update reached k true) q
      = due n value reached q + (becomes_due value reached k).count q := by
  cases k with
  | handled i =>
    unfold becomes_due
    cases hv : value i <;> rcases q with j | (_ | j) | j | j | j | j <;>
      simp [due, update_apply, Multiset.count_singleton, hv]
    all_goals by_cases hj : j = i <;> simp [hj, hk, hv]
  | link_bound i | link_settled i | called i | settled i | bound i =>
    rcases q with j | (_ | j) | j | j | j | j <;>
      grind [due, becomes_due, update_apply, Multiset.count_singleton, Multiset.count_zero]

end Balance

section Reached

variable {s : Pipeline V E} {i : ℕ} {p : PromiseState V E Unit}

theorem reached_update_link :
    Pipeline.reached { s with links := update s.links i p }
      = update (update s.reached (.link_bound i) p.callbacks_assigned) (.link_settled i)
        (is_settled p) := by
  funext k
  cases k with
  | link_bound j | link_settled j =>
    by_cases hj : j = i <;> simp [Pipeline.reached, hj]
  | _ => simp [Pipeline.reached]

theorem reached_update_promise :
    Pipeline.reached { s with promises := update s.promises i p }
      = update (update s.reached (.bound i) p.callbacks_assigned) (.settled i) (is_settled p) := by
  funext k
  cases k with
  | bound j | settled j => by_cases hj : j = i <;> simp [Pipeline.reached, hj]
  | _ => simp [Pipeline.reached]

theorem reached_update_handled :
    Pipeline.reached { s with handled := update s.handled i true }
      = update s.reached (.handled i) true := by
  funext k
  cases k with
  | handled j => by_cases hj : j = i <;> simp [Pipeline.reached, hj]
  | _ => simp [Pipeline.reached]

theorem reached_append_call (call : Kaiu.Event V E) (hi : s.calls.length = i) :
    Pipeline.reached { s with calls := s.calls ++ [call] } = update s.reached (.called i) true := by
  funext k
  cases k with
  | called j =>
    by_cases hj : j = i
    · simp [Pipeline.reached, hj, hi]
    · have hlt : j < i + 1 ↔ j < i := by omega
      simp [Pipeline.reached, hj, hi, hlt]
  | _ => simp [Pipeline.reached]

/-- An operation that binds or settles leaves the other one as it is. -/
theorem reached_link_bound (ha : p.callbacks_assigned = true)
    (hs : is_settled p = is_settled (s.links i)) :
    Pipeline.reached { s with links := update s.links i p }
      = update s.reached (.link_bound i) true := by
  rw [reached_update_link, ha, hs, update_eq_self_iff,
    update_of_ne (show Place.link_settled i ≠ .link_bound i by simp)]
  rfl

theorem reached_link_settled (ha : p.callbacks_assigned = (s.links i).callbacks_assigned)
    (hs : is_settled p = true) :
    Pipeline.reached { s with links := update s.links i p }
      = update s.reached (.link_settled i) true := by
  have hsame : update s.reached (.link_bound i) p.callbacks_assigned = s.reached := by
    rw [update_eq_self_iff, ha]
    rfl
  rw [reached_update_link, hs, hsame]

theorem reached_bound (ha : p.callbacks_assigned = true)
    (hs : is_settled p = is_settled (s.promises i)) :
    Pipeline.reached { s with promises := update s.promises i p }
      = update s.reached (.bound i) true := by
  rw [reached_update_promise, ha, hs, update_eq_self_iff,
    update_of_ne (show Place.settled i ≠ .bound i by simp)]
  rfl

theorem reached_settled (ha : p.callbacks_assigned = (s.promises i).callbacks_assigned)
    (hs : is_settled p = true) :
    Pipeline.reached { s with promises := update s.promises i p }
      = update s.reached (.settled i) true := by
  have hsame : update s.reached (.bound i) p.callbacks_assigned = s.reached := by
    rw [update_eq_self_iff, ha]
    rfl
  rw [reached_update_promise, hs, hsame]

end Reached

section Steps

variable {inner : PromiseId → Outcome V E} {func : ℕ → V → Except (ExceptionPtr E) V} {x : V}
  {n i : ℕ} {s : Pipeline V E} {rest : Multiset (Work V E)} {work : Work V E} {k : Place}
  {b : Build} {o? : Option (Outcome V E)} {assigned settled : Bool}
  {r : Ended (PromiseState V E Unit × List (Outcome V E)) (ExceptionPtr E)}

theorem has_value_of_succ (h : has_value inner func x (i + 1) = true) :
    has_value inner func x i = true := by
  cases hlink : link_outcome inner func x i with
  | resolved v => exact has_value_iff.mpr ⟨v, hlink⟩
  | rejected error =>
    obtain ⟨v, hv⟩ := has_value_iff.mp h
    rw [(link_of_error hlink).1] at hv
    cases hv

/-- What has been done has not been done before, and the balance is kept by what follows if
that is what has become due. -/
theorem Inv.arrives (hi : Inv inner func x n s (work ::ₘ rest)) (hk : work.place = some k) :
    s.reached k = false ∧ ∀ next : Multiset (Work V E),
      next.filterMap Work.place = becomes_due (has_value inner func x) s.reached k →
      Balanced Work.place (due n (has_value inner func x)) (update s.reached k true)
        (next + rest) := by
  obtain ⟨hfalse, hkeeps⟩ := hi.balanced.arrives hk (due_le_one hi.balanced k)
  refine ⟨hfalse, fun next hnext => hkeeps next fun q => ?_⟩
  rw [due_update hfalse, heading, hnext]

/-- The work that is left agrees, and so does what follows. -/
theorem Inv.agrees_add (hi : Inv inner func x n s (work ::ₘ rest)) {next : Multiset (Work V E)}
    (hnext : ∀ w ∈ next, w.agrees (link_outcome inner func x)) :
    ∀ w ∈ next + rest, w.agrees (link_outcome inner func x) := by
  intro w hw
  rcases Multiset.mem_add.mp hw with hw | hw
  · exact hnext w hw
  · exact hi.agrees w (Multiset.mem_cons_of_mem hw)

/-- An operation on a promise is followed by the work of its callback, if that has become
due. -/
theorem Operated.follows (hr : Operated assigned settled o? r) (f : Outcome V E → Work V E)
    {q : Place} (hf : ∀ o, (f o).place = some q) :
    (∀ error, continue_with f r ≠ .throws error) ∧
      (continue_with f r).rest.filterMap Work.place
        = (if assigned && settled then {q} else 0) ∧
      ∀ w ∈ (continue_with f r).rest, ∃ o, o? = some o ∧ w = f o := by
  rcases hr.next_cases f with ⟨hnot, hnext⟩ | ⟨hboth, o, ho, hnext⟩
  · rw [hnext, hnot]
    exact ⟨nofun, rfl, nofun⟩
  · rw [hnext, hboth]
    refine ⟨nofun, ?_, fun w hw => ⟨o, ho, Multiset.mem_singleton.mp hw⟩⟩
    rw [rest_goes_on, ← Multiset.cons_zero, Multiset.filterMap_cons_some _ _ _ (hf o)]
    rfl

/-- An operation on the promise of a link. -/
theorem Inv.link_operated (hi : Inv inner func x n s (work ::ₘ rest)) (hk : work.place = some k)
    (hr : Operated assigned settled o? r)
    (ho : ∀ o, o? = some o → o = link_outcome inner func x i)
    (hreached : Pipeline.reached { s with links := update s.links i r.1.1 }
      = update s.reached k true)
    (hdue : becomes_due (has_value inner func x) s.reached k
      = if assigned && settled then {.handled i} else 0) :
    Inv inner func x n { s with links := update s.links i r.1.1 }
        ((continue_with (.handle i) r).rest + rest) ∧
      ∀ error, continue_with (.handle i) r ≠ .throws error := by
  obtain ⟨hreturns, hplaces, hwork⟩ := hr.follows (.handle i) (q := .handled i) fun _ => rfl
  refine ⟨⟨?_, hi.promises, ?_, hi.promise, ?_, hi.calls, ?_⟩, hreturns⟩
  · rw [forall_update_iff s.links fun _ p => Sends p]
    exact ⟨hr.sends, fun j _ => hi.links j⟩
  · rw [forall_update_iff s.links fun j p =>
      ∀ o, outcome p = some o → o = link_outcome inner func x j, hr.outcome]
    exact ⟨ho, fun j _ => hi.link j⟩
  · apply hi.agrees_add
    intro w hw
    obtain ⟨o, hsome, rfl⟩ := hwork w hw
    exact ho o hsome
  · rw [hreached]
    exact (hi.arrives hk).2 _ (hplaces.trans hdue.symm)

/-- An operation on the promise of a task. -/
theorem Inv.promise_operated (hi : Inv inner func x n s (work ::ₘ rest))
    (hk : work.place = some k) (hr : Operated assigned settled o? r)
    (ho : ∀ o, o? = some o → o = link_outcome inner func x (i + 1))
    (hreached : Pipeline.reached { s with promises := update s.promises i r.1.1 }
      = update s.reached k true)
    (hdue : becomes_due (has_value inner func x) s.reached k
      = if assigned && settled then {.link_settled (i + 1)} else 0) :
    Inv inner func x n { s with promises := update s.promises i r.1.1 }
        ((continue_with (.settle_next i) r).rest + rest) ∧
      ∀ error, continue_with (.settle_next i) r ≠ .throws error := by
  obtain ⟨hreturns, hplaces, hwork⟩ :=
    hr.follows (.settle_next i) (q := .link_settled (i + 1)) fun _ => rfl
  refine ⟨⟨hi.links, ?_, hi.link, ?_, ?_, hi.calls, ?_⟩, hreturns⟩
  · rw [forall_update_iff s.promises fun _ p => Sends p]
    exact ⟨hr.sends, fun j _ => hi.promises j⟩
  · rw [forall_update_iff s.promises fun j p =>
      ∀ o, outcome p = some o → o = link_outcome inner func x (j + 1), hr.outcome]
    exact ⟨ho, fun j _ => hi.promise j⟩
  · apply hi.agrees_add
    intro w hw
    obtain ⟨o, hsome, rfl⟩ := hwork w hw
    exact ho o hsome
  · rw [hreached]
    exact (hi.arrives hk).2 _ (hplaces.trans hdue.symm)

/-- What a value is handled by is where the stage hands a value to its function. -/
theorem Inv.handled_value {v : V} (hi : Inv inner func x n s (.handle i (.resolved v) ::ₘ rest)) :
    Inv inner func x n { s with handled := update s.handled i true }
      ({.forward i} + rest + {.action i v}) := by
  have hv : link_outcome inner func x i = .resolved v :=
    (hi.agrees _ (Multiset.mem_cons_self _ _)).symm
  refine ⟨hi.links, hi.promises, hi.link, hi.promise, ?_, hi.calls, ?_⟩
  · rw [add_right_comm]
    apply hi.agrees_add
    intro w hw
    rcases Multiset.mem_add.mp hw with hw | hw
    · rw [Multiset.mem_singleton.mp hw]
      trivial
    · rw [Multiset.mem_singleton.mp hw]
      exact hv
  · rw [reached_update_handled, add_right_comm]
    apply (hi.arrives (k := .handled i) rfl).2
    rw [becomes_due, if_pos (has_value_iff.mpr ⟨v, hv⟩), add_comm]
    rfl

/-- An error passes the stage by. -/
theorem Inv.handled_error {error : ExceptionPtr E}
    (hi : Inv inner func x n s (.handle i (.rejected error) ::ₘ rest)) :
    Inv inner func x n { s with handled := update s.handled i true }
      ({.settle_next i (.rejected error)} + rest) := by
  have herror : link_outcome inner func x i = .rejected error :=
    (hi.agrees _ (Multiset.mem_cons_self _ _)).symm
  have hnone : has_value inner func x i = false := by rw [has_value, herror]
  refine ⟨hi.links, hi.promises, hi.link, hi.promise, ?_, hi.calls, ?_⟩
  · apply hi.agrees_add
    intro w hw
    rw [Multiset.mem_singleton.mp hw]
    exact (link_of_error herror).1.symm
  · rw [reached_update_handled]
    apply (hi.arrives (k := .handled i) rfl).2
    rw [becomes_due, hnone]
    rfl

/-- The functions are called in order. -/
theorem Inv.calls_length {v : V} (hi : Inv inner func x n s (.action i v ::ₘ rest)) :
    s.calls.length = i := by
  have hv : has_value inner func x i = true :=
    has_value_iff.mpr ⟨v, hi.agrees _ (Multiset.mem_cons_self _ _)⟩
  have hnot : s.reached (.called i) = false := (hi.arrives rfl).1
  have hle : s.calls.length ≤ i := not_lt.mp (of_decide_eq_false hnot)
  -- the stage has handled a value, and the function of the stage before has been called
  have hdue := hi.balanced.due_of_mem (k := .called i) (Multiset.mem_cons_self _ _) rfl
  rw [due, hv, Bool.true_and, toNat_pos_iff] at hdue
  cases i with
  | zero => exact Nat.le_zero.mp hle
  | succ i =>
    have hbefore := called_before (fun _ => has_value_of_succ) hi.balanced hv hdue
    exact le_antisymm hle (of_decide_eq_true hbefore)

theorem Inv.called {v : V} (hi : Inv inner func x n s (.action i v ::ₘ rest)) :
    Inv inner func x n { s with calls := s.calls ++ [.next (i + 1) v] }
      ({.push_proxy i (result_of (func i v))} + rest) := by
  have hv : link_outcome inner func x i = .resolved v := hi.agrees _ (Multiset.mem_cons_self _ _)
  have hlength := hi.calls_length
  obtain ⟨hresult, hcalls⟩ := link_of_value hv
  refine ⟨hi.links, hi.promises, hi.link, hi.promise, ?_, ?_, ?_⟩
  · apply hi.agrees_add
    intro w hw
    rw [Multiset.mem_singleton.mp hw]
    exact hresult.symm
  · have hbefore := hi.calls
    rw [hlength] at hbefore
    rw [List.length_append, hlength, List.length_singleton, hcalls, ← hbefore]
  · rw [reached_append_call _ hlength]
    exact (hi.arrives (k := .called i) rfl).2 _ rfl

/-- What is carried goes from the action to the proxy. -/
theorem Inv.proxy_pushed {o : Outcome V E} (hi : Inv inner func x n s (.push_proxy i o ::ₘ rest)) :
    Inv inner func x n s (.proxy i o ::ₘ rest) := by
  refine ⟨hi.links, hi.promises, hi.link, hi.promise, ?_, hi.calls, ?_⟩
  · intro w hw
    rcases Multiset.mem_cons.mp hw with rfl | hw
    · exact hi.agrees (.push_proxy i o) (Multiset.mem_cons_self _ _)
    · exact hi.agrees w (Multiset.mem_cons_of_mem hw)
  · exact hi.balanced.moves (k := .settled i) rfl rfl

/-- Work of other events may be added and taken away. -/
theorem inv_cons_other :
    Inv inner func x n s (.other ::ₘ rest) ↔ Inv inner func x n s rest := by
  constructor
  · intro hi
    refine ⟨hi.links, hi.promises, hi.link, hi.promise, ?_, hi.calls, ?_⟩
    · exact fun w hw => hi.agrees w (Multiset.mem_cons_of_mem hw)
    · exact (balanced_cons_none rfl).mp hi.balanced
  · intro hi
    refine ⟨hi.links, hi.promises, hi.link, hi.promise, ?_, hi.calls, ?_⟩
    · intro w hw
      rcases Multiset.mem_cons.mp hw with rfl | hw
      · trivial
      · exact hi.agrees w hw
    · exact (balanced_cons_none rfl).mpr hi.balanced

/-- **What is done keeps the balance**, and no exception leaves it. -/
theorem Inv.perform (hi : Inv inner func x n s (work ::ₘ rest)) (b : Build)
    (action_pool reaction_pool : ℕ → P) :
    Inv inner func x n (perform b func action_pool reaction_pool s work).1
        ((perform b func action_pool reaction_pool s work).2.2.rest + rest
          + pushes (perform b func action_pool reaction_pool s work).2.1) ∧
      ∀ error, (perform b func action_pool reaction_pool s work).2.2 ≠ .throws error := by
  cases work with
  | bind i =>
    have hnot : s.reached (.link_bound i) = false := (hi.arrives rfl).1
    have hr := operated_bind (b := b) (hi.links i) hnot
    rw [TaskPipeline.perform, pushes, add_zero]
    refine hi.link_operated (k := .link_bound i) rfl hr (hi.link i) ?_ ?_
    · exact reached_link_bound hr.assigned hr.settled
    · rfl
  | handle i o =>
    cases o with
    | resolved v => exact ⟨hi.handled_value, nofun⟩
    | rejected error =>
      rw [TaskPipeline.perform, pushes, add_zero]
      exact ⟨hi.handled_error, nofun⟩
  | action i v =>
    rw [TaskPipeline.perform, pushes, add_zero]
    exact ⟨hi.called, nofun⟩
  | push_proxy i o =>
    refine ⟨?_, nofun⟩
    rw [TaskPipeline.perform, rest_returns, zero_add, pushes, add_comm, Multiset.singleton_add]
    exact hi.proxy_pushed
  | proxy i o =>
    have hnot : s.reached (.settled i) = false := (hi.arrives rfl).1
    have ho : o = link_outcome inner func x (i + 1) := hi.agrees _ (Multiset.mem_cons_self _ _)
    have hr := operated_settle (b := b) (hi.promises i) hnot o
    rw [TaskPipeline.perform, pushes, add_zero]
    refine hi.promise_operated (k := .settled i) rfl hr (fun o' h => ?_) ?_ ?_
    · rw [← Option.some.inj h, ho]
    · exact reached_settled hr.assigned hr.settled
    · rw [becomes_due, Bool.and_true]
      rfl
  | forward i =>
    have hnot : s.reached (.bound i) = false := (hi.arrives rfl).1
    have hr := operated_bind (b := b) (hi.promises i) hnot
    rw [TaskPipeline.perform, pushes, add_zero]
    refine hi.promise_operated (k := .bound i) rfl hr (hi.promise i) ?_ ?_
    · exact reached_bound hr.assigned hr.settled
    · rfl
  | settle_next i o =>
    have hnot : s.reached (.link_settled (i + 1)) = false := (hi.arrives rfl).1
    have ho : o = link_outcome inner func x (i + 1) := hi.agrees _ (Multiset.mem_cons_self _ _)
    have hr := operated_settle (b := b) (hi.links (i + 1)) hnot o
    rw [TaskPipeline.perform, pushes, add_zero]
    refine hi.link_operated (k := .link_settled (i + 1)) rfl hr (fun o' h => ?_) ?_ ?_
    · rw [← Option.some.inj h, ho]
    · exact reached_link_settled hr.assigned hr.settled
    · rw [becomes_due, Bool.and_true]
      rfl
  | other =>
    rw [TaskPipeline.perform, rest_returns, zero_add, pushes, add_zero]
    exact ⟨inv_cons_other.mp hi, nofun⟩

end Steps

/-! ## Runs -/

section Runs

variable {inner : PromiseId → Outcome V E} {func : ℕ → V → Except (ExceptionPtr E) V} {x : V}
  {n : ℕ} {b : Build} {action_pool reaction_pool : ℕ → P}

/-- The events of the loop and the thread that evaluates the expression do the work of a
pipeline. -/
def Kept (inner : PromiseId → Outcome V E) (func : ℕ → V → Except (ExceptionPtr E) V) (x : V)
    (n : ℕ) (s : State V E) (events : Multiset (Work V E)) : Prop :=
  Inv inner func x n s.pipeline (events + s.evaluating)

theorem list_eq {next : Then (Work V E) (ExceptionPtr E)} (hnext : ∀ error, next ≠ .throws error)
    (evaluating : List (Work V E)) :
    (Then.list next evaluating : Multiset (Work V E)) = next.rest + evaluating := by
  cases next with
  | goes_on work => rfl
  | returns => exact (zero_add _).symm
  | throws error => exact absurd rfl (hnext error)

variable {s s' : State V E} {work : Work V E} {rest : Multiset (Work V E)}
  {event : Option (P × Work V E)} {next : Then (Work V E) (ExceptionPtr E)}

theorem Kept.act (hk : Kept inner func x n s (work ::ₘ rest))
    (h : Act b func action_pool reaction_pool s work s' event next) :
    Kept inner func x n s' (next.rest + rest + pushes event) := by
  unfold Kept at hk ⊢
  rw [Multiset.cons_add] at hk
  cases h with
  | performs =>
    have hperform := (hk.perform b action_pool reaction_pool).1
    rw [add_right_comm, add_assoc (Then.rest _)]
    exact hperform
  | other_pushes =>
    rw [rest_goes_on, EventLoop.pushes, add_right_comm, add_comm _ ({.other} : Multiset (Work V E)),
      Multiset.singleton_add, add_assoc, Multiset.singleton_add, inv_cons_other]
    exact hk
  | other_throws =>
    rw [rest_throws, pushes, zero_add, add_zero]
    exact inv_cons_other.mp hk

theorem Kept.env (hk : Kept inner func x n s rest)
    (h : Env b func action_pool reaction_pool s s' event) :
    Kept inner func x n s' (rest + pushes event) := by
  unfold Kept at hk ⊢
  cases h with
  | @evaluates work later hevaluating =>
    rw [hevaluating, ← Multiset.cons_coe, Multiset.add_cons] at hk
    obtain ⟨hperform, hreturns⟩ := hk.perform b action_pool reaction_pool
    rw [list_eq hreturns, add_right_comm, add_left_comm]
    exact hperform
  | pushes =>
    rw [EventLoop.pushes, add_right_comm, add_comm _ ({.other} : Multiset (Work V E)),
      Multiset.singleton_add]
    exact inv_cons_other.mpr hk

end Runs

section Ends

variable {inner : PromiseId → Outcome V E} {func : ℕ → V → Except (ExceptionPtr E) V} {x : V}
  {n i : ℕ} {s : Pipeline V E} {work : Multiset (Work V E)}

/-- Once everything has been done, the promises of the links have been settled, one after the
other, and the stages have been handled. -/
theorem Inv.done (hi : Inv inner func x n s 0) {i : ℕ} (hle : i ≤ n) :
    s.reached (.link_settled i) = true ∧ (i < n → s.reached (.handled i) = true) := by
  have hhandled : ∀ i, i < n → s.reached (.link_settled i) = true →
      s.reached (.handled i) = true := by
    intro i hin hsettled
    have hbound : s.reached (.link_bound i) = true := by
      apply hi.balanced.reached_of_due
      rw [due, decide_eq_true hin]
      exact Nat.one_pos
    apply hi.balanced.reached_of_due
    rw [due, hbound, hsettled]
    exact Nat.one_pos
  induction i with
  | zero =>
    have hsettled : s.reached (.link_settled 0) = true := hi.balanced.reached_of_due Nat.one_pos
    exact ⟨hsettled, fun hn => hhandled 0 hn hsettled⟩
  | succ i ih =>
    obtain ⟨hlink, hstage⟩ := ih (by omega)
    have hhandle := hstage (by omega)
    have hsettled : s.reached (.link_settled (i + 1)) = true := by
      apply hi.balanced.reached_of_due
      rw [due, hhandle, Bool.and_true]
      cases hv : has_value inner func x i with
      | false => exact Nat.lt_add_left _ Nat.one_pos
      | true =>
        -- the function has been called, and its result has been carried to the task's promise
        have hdue : (has_value inner func x i && s.reached (.handled i)).toNat = 1 := by
          rw [hv, hhandle]
          rfl
        have hcalled : s.reached (.called i) = true :=
          hi.balanced.reached_of_due (by rw [due, hdue]; exact Nat.one_pos)
        have hbound : s.reached (.bound i) = true :=
          hi.balanced.reached_of_due (by rw [due, hdue]; exact Nat.one_pos)
        have hpromise : s.reached (.settled i) = true :=
          hi.balanced.reached_of_due (by rw [due, hcalled]; exact Nat.one_pos)
        rw [hbound, hpromise]
        exact Nat.one_pos
    exact ⟨hsettled, fun hin => hhandled (i + 1) hin hsettled⟩

end Ends

/-! ## Pools -/

section Pools

variable {b : Build} {func : ℕ → V → Except (ExceptionPtr E) V} {action_pool reaction_pool : ℕ → P}
  {i : ℕ}

/-- The pool of an event of a task: that of its action, or that of its reaction. -/
def Work.pool (action_pool reaction_pool : ℕ → P) : Work V E → Option P
  | action i _ => some (action_pool i)
  | proxy i _ => some (reaction_pool i)
  | _ => none

end Pools

/-! ## The pipeline -/

section Transparency

variable [Fintype P] [Fintype W] [DecidableEq P] [DecidableEq W] [Inhabited V]

end Transparency

/-! ## A stage that throws -/

section Throwing

/-- The first function adds one, and the second one throws. -/
abbrev add_then_throw : ℕ → ℕ → Except (ExceptionPtr String) ℕ
  | 0, v => .ok (v + 1)
  | _, _ => .error (.user "thrown")

theorem mem_only_queue (p : Unit) : p ∈ [()] :=
  List.mem_singleton.mpr rfl

/-- A loop with one worker. -/
abbrev one_worker : Pools Unit Unit := ⟨id, [()], mem_only_queue⟩

abbrev throwing : Program Unit (State ℕ String) (Work ℕ String) (ExceptionPtr String) :=
  pipeline Build.debug add_then_throw (fun _ => ()) (fun _ => ())

end Throwing

end TaskPipeline
end Kaiu
