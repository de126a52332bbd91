/-
The checks that a stream makes of itself.

The debug build validates every transition of `set_state`, and that
`set_consumer_is_running` changes something; and a completer is called that has to be
there. The checks that an operation makes are listed in the order in which it makes
them, by functions that follow those of the code (`step_checks`). On the normal paths
all of them hold. An exception unwinds the nest of `call_data_callback`, one for each
datum that is answered at once, and each of these resets the flag of the consumer, which
the continuation has reset before: the second reset is a failed check, and its exception
replaces the one on its way. So a check fails exactly where an exception leaves
`process_data` inside a call of the consumer, and this can be told from the consumer and
the data before (`Unwinds`). Where none does, what an operation ends in is a refusal, or
what the chain of the result promise throws (`Origin`).
-/
import Kaiu.StreamHanded
import Kaiu.StreamTable

set_option autoImplicit false

namespace Kaiu
namespace PromiseStreamState

open Exit Relation

variable {R D E K σ : Type*}

/-! ## The checks -/

/-- A check that the code makes: the state and the next one, the flag of the consumer and
its new value, or whether there is a completer to be called. -/
inductive Check where
  | set_state (state next_state : stream_state)
  | set_consumer_is_running (consumer_is_running value : Bool)
  | call_completer (assigned : Bool)

/-- What is checked holds. -/
def Check.Passes : Check → Prop
  | .set_state state next_state => Arrow state next_state
  | .set_consumer_is_running consumer_is_running value => consumer_is_running ≠ value
  | .call_completer assigned => assigned = true

instance (check : Check) : Decidable check.Passes :=
  match check with
  | .set_state state next_state => decidable_of_iff _ (check_transition_iff state next_state)
  | .set_consumer_is_running consumer_is_running value =>
      inferInstanceAs (Decidable (consumer_is_running ≠ value))
  | .call_completer assigned => inferInstanceAs (Decidable (assigned = true))

/-- All of the checks hold. -/
abbrev Pass (checks : List Check) : Prop := ∀ check ∈ checks, check.Passes

section Checks

variable (b : Build) (call : K → Outcome R E → σ → Ended σ (ExceptionPtr E))

/-- The checks of `andThen r f`, if `r` makes the first ones. -/
def andThen_checks (r : Ended (PromiseStreamState R D E K σ) (ExceptionPtr E))
    (checks : List Check) (f : PromiseStreamState R D E K σ → List Check) : List Check :=
  checks ++ if r.2.isNone then f r.1 else []

/-- The checks of `rethrowing r h`. -/
def rethrowing_checks (r : Ended (PromiseStreamState R D E K σ) (ExceptionPtr E))
    (checks : List Check) (h : PromiseStreamState R D E K σ → List Check) : List Check :=
  checks ++ if r.2.isSome then h r.1 else []

/-- `set_state`. -/
def set_state_checks (update : PromiseStreamState R D E K σ → List Check)
    (next_state : stream_state) (s : PromiseStreamState R D E K σ) : List Check :=
  .set_state s.state next_state ::
    match check_transition b s.state next_state with
    | some _ => []
    | none => update { s with state := next_state }

/-- `update_state` in state `completed`. -/
def update_completed_checks (s : PromiseStreamState R D E K σ) : List Check :=
  if s.result ≠ .pending then [.call_completer s.completer.isSome] else []

/-- `update_state` in state `streaming3`. -/
def update_streaming3_checks (s : PromiseStreamState R D E K σ) : List Check :=
  if ¬ s.consumer_is_running then set_state_checks b update_completed_checks .completed s else []

/-- `update_state` in state `streaming2`. -/
def update_streaming2_checks (s : PromiseStreamState R D E K σ) : List Check :=
  if s.buffer_is_empty then set_state_checks b (update_streaming3_checks b) .streaming3 s else []

/-- `update_state` in state `streaming1`. -/
def update_streaming1_checks (s : PromiseStreamState R D E K σ) : List Check :=
  if s.result ≠ .pending then set_state_checks b (update_streaming2_checks b) .streaming2 s else []

/-- `update_state` in state `pending`. -/
def update_pending_checks (s : PromiseStreamState R D E K σ) : List Check :=
  if s.stream_has_been_written_to then
    set_state_checks b (update_streaming1_checks b) .streaming1 s
  else if s.result ≠ .pending then set_state_checks b update_completed_checks .completed s
  else []

/-- `update_state`. -/
def update_state_checks (s : PromiseStreamState R D E K σ) : List Check :=
  match s.state with
  | .pending => update_pending_checks b s
  | .streaming1 => update_streaming1_checks b s
  | .streaming2 => update_streaming2_checks b s
  | .streaming3 => update_streaming3_checks b s
  | .completed => update_completed_checks s

/-- `set_stream_has_been_written_to`. -/
def set_stream_has_been_written_to_checks (s : PromiseStreamState R D E K σ) : List Check :=
  if b.SAFE_PROMISE_STREAMS ∧ (s.result = .resolved ∨ s.result = .rejected) then []
  else update_state_checks b { s with stream_has_been_written_to := true, buffer_is_empty := false }

/-- `set_stream_result`. -/
def set_stream_result_checks (result : stream_result) (completer : Outcome R E)
    (s : PromiseStreamState R D E K σ) : List Check :=
  if s.result = .consumer_failed then []
  else if s.result ≠ .pending then []
  else update_state_checks b { s with completer := some completer, result := result }

/-- `set_buffer_is_empty`. -/
def set_buffer_is_empty_checks (s : PromiseStreamState R D E K σ) : List Check :=
  if s.buffer_is_empty then [] else update_state_checks b { s with buffer_is_empty := true }

/-- `set_consumer_is_running`. -/
def set_consumer_is_running_checks (value : Bool) (s : PromiseStreamState R D E K σ) :
    List Check :=
  .set_consumer_is_running s.consumer_is_running value ::
    if b.SAFE_PROMISE_STREAMS ∧ s.consumer_is_running = value then []
    else update_state_checks b { s with consumer_is_running := value }

/-- `do_reject`. -/
def do_reject_checks (error : ExceptionPtr E) (consumer_failed : Bool)
    (s : PromiseStreamState R D E K σ) : List Check :=
  set_stream_result_checks b (if consumer_failed then .consumer_failed else .rejected)
    (.rejected error) { s with action := .Stop }

/-- `take_data`. -/
def take_data_checks (s : PromiseStreamState R D E K σ) : List Check :=
  if s.state ≠ .streaming1 ∧ s.state ≠ .streaming2 then []
  else if s.on_data.isNone then []
  else if s.consumer_is_running then []
  else
    let s := if s.action ≠ .Continue then { s with buffer := [] } else s
    match s.buffer with
    | [] => set_buffer_is_empty_checks b s
    | _ :: _ => []

/-- The callbacks that `call_data_callback` binds to the consumer's promise. -/
def continuation_checks (process_data_checks : PromiseStreamState R D E K σ → List Check)
    (answer : Answer E) (s : PromiseStreamState R D E K σ) : List Check :=
  let s := s.logged (.answer answer)
  match answer with
  | .ok action =>
      andThen_checks (set_consumer_is_running b call false { s with action := action })
        (set_consumer_is_running_checks b false { s with action := action }) process_data_checks
  | .error error =>
      andThen_checks (do_reject b call error true s) (do_reject_checks b error true s)
        (set_consumer_is_running_checks b false)

/-- The body of `call_data_callback` after the flag has been set. -/
def call_consumer
    (process_data : PromiseStreamState R D E K σ →
      Ended (PromiseStreamState R D E K σ) (ExceptionPtr E))
    (datum : D) (s : PromiseStreamState R D E K σ) :
    Ended (PromiseStreamState R D E K σ) (ExceptionPtr E) :=
  match s.on_data with
  | none => throws s .bad_function_call
  | some consumer =>
      let (world, answer) := data consumer s.world datum
      let s := { s with world := world }.logged (.call datum)
      match answer with
      | none => returns s
      | some answer => continuation b call process_data answer s

/-- What it checks. -/
def call_consumer_checks (process_data_checks : PromiseStreamState R D E K σ → List Check)
    (datum : D) (s : PromiseStreamState R D E K σ) : List Check :=
  match s.on_data with
  | none => []
  | some consumer =>
      let (world, answer) := data consumer s.world datum
      let s := { s with world := world }.logged (.call datum)
      match answer with
      | none => []
      | some answer => continuation_checks b call process_data_checks answer s

/-- `call_data_callback`. -/
def call_data_callback_checks
    (process_data : PromiseStreamState R D E K σ →
      Ended (PromiseStreamState R D E K σ) (ExceptionPtr E))
    (process_data_checks : PromiseStreamState R D E K σ → List Check) (datum : D)
    (s : PromiseStreamState R D E K σ) : List Check :=
  rethrowing_checks
    (andThen (set_consumer_is_running b call true s) (call_consumer b call process_data datum))
    (andThen_checks (set_consumer_is_running b call true s)
      (set_consumer_is_running_checks b true s)
      (call_consumer_checks b call process_data_checks datum))
    (set_consumer_is_running_checks b false)

/-- `process_data`. -/
def process_data_checks : ℕ → PromiseStreamState R D E K σ → List Check
  | 0, _ => []
  | n + 1, s =>
      take_data_checks b s ++
        match take_data b call s with
        | (none, _) => []
        | (some datum, r) =>
            andThen_checks r []
              (call_data_callback_checks b call (process_data b call n) (process_data_checks n)
                datum)

/-- `process_data(lock)`. -/
def process_checks (s : PromiseStreamState R D E K σ) : List Check :=
  process_data_checks b call (s.buffer.length + 1) s

/-- `write`. -/
def write_checks (datum : D) (s : PromiseStreamState R D E K σ) : List Check :=
  let s := s.logged (.write datum)
  let t := { s with buffer := s.buffer ++ [datum] }
  if s.action = .Continue then
    andThen_checks (set_stream_has_been_written_to b call t)
      (set_stream_has_been_written_to_checks b t) (process_checks b call)
  else process_checks b call s

/-- `set_data_callback`. -/
def set_data_callback_checks (consumer : Consumer D E σ) (s : PromiseStreamState R D E K σ) :
    List Check :=
  if b.SAFE_PROMISE_STREAMS ∧ s.on_data.isSome then []
  else
    andThen_checks (set_data_callback_assigned b { s with on_data := some consumer }) []
      (process_checks b call)

/-- The checks of one step. -/
def step_checks (op : Op R D E K σ) (s : PromiseStreamState R D E K σ) : List Check :=
  match op with
  | .write datum => write_checks b call datum s
  | .resolve result =>
      set_stream_result_checks b .resolved (.resolved result) (s.logged (.ended (.resolved result)))
  | .reject error => do_reject_checks b error false (s.logged (.ended (.rejected error)))
  | .stream consumer => set_data_callback_checks b call consumer s
  | .answer a =>
      if s.outstanding then
        continuation_checks b call (process_data_checks b call (s.buffer.length + 1)) a s
      else []
  | .bind_result _ => []

/-- The checks of a run. -/
def run_checks : List (Op R D E K σ) → PromiseStreamState R D E K σ → List Check
  | [], _ => []
  | op :: ops, s => step_checks b call op s ++ run_checks ops (step b call op s).1

end Checks

section Flags

variable {b : Build} {call : K → Outcome R E → σ → Ended σ (ExceptionPtr E)}
  {s s' : PromiseStreamState R D E K σ}

theorem call_data_callback_body
    (process_data : PromiseStreamState R D E K σ →
      Ended (PromiseStreamState R D E K σ) (ExceptionPtr E)) (datum : D) :
    call_data_callback b call process_data datum s
      = rethrowing
        (andThen (set_consumer_is_running b call true s) (call_consumer b call process_data datum))
        (set_consumer_is_running b call false) := rfl

theorem pass_nil : Pass [] := fun _ h => absurd h List.not_mem_nil

theorem pass_cons {check : Check} {checks : List Check} :
    Pass (check :: checks) ↔ check.Passes ∧ Pass checks :=
  List.forall_mem_cons

theorem pass_append {checks checks' : List Check} :
    Pass (checks ++ checks') ↔ Pass checks ∧ Pass checks' :=
  List.forall_mem_append

/-- If the flags are such that the completer is there when it is called. -/
def Completable (s : PromiseStreamState R D E K σ) : Prop :=
  s.result ≠ .pending → s.completer.isSome

theorem set_state_checks_pass {update : PromiseStreamState R D E K σ → List Check}
    {next_state : stream_state} (harrow : Arrow s.state next_state)
    (hupdate : Pass (update { s with state := next_state })) :
    Pass (set_state_checks b update next_state s) := by
  unfold set_state_checks
  refine pass_cons.mpr ⟨harrow, ?_⟩
  split
  · exact pass_nil
  · exact hupdate

theorem update_completed_checks_pass (h : Completable s) : Pass (update_completed_checks s) := by
  unfold update_completed_checks
  split
  · rename_i hr
    exact pass_cons.mpr ⟨h hr, pass_nil⟩
  · exact pass_nil

theorem update_streaming3_checks_pass (hst : s.state = .streaming3) (h : Completable s) :
    Pass (update_streaming3_checks b s) := by
  unfold update_streaming3_checks
  split
  · refine set_state_checks_pass ?_ (update_completed_checks_pass h)
    rw [hst]
    exact .consumer_not_running
  · exact pass_nil

theorem update_streaming2_checks_pass (hst : s.state = .streaming2) (h : Completable s) :
    Pass (update_streaming2_checks b s) := by
  unfold update_streaming2_checks
  split
  · refine set_state_checks_pass ?_ (update_streaming3_checks_pass rfl h)
    rw [hst]
    exact .buffer_empty
  · exact pass_nil

theorem update_streaming1_checks_pass (hst : s.state = .streaming1) (h : Completable s) :
    Pass (update_streaming1_checks b s) := by
  unfold update_streaming1_checks
  split
  · refine set_state_checks_pass ?_ (update_streaming2_checks_pass rfl h)
    rw [hst]
    exact .result
  · exact pass_nil

/-- **`update_state` follows the arrows**, and finds the completer. -/
theorem update_state_checks_pass (h : Completable s) : Pass (update_state_checks b s) := by
  unfold update_state_checks
  split
  · rename_i hst
    unfold update_pending_checks
    split
    · refine set_state_checks_pass ?_ (update_streaming1_checks_pass rfl h)
      rw [hst]
      exact .written
    · split
      · refine set_state_checks_pass ?_ (update_completed_checks_pass h)
        rw [hst]
        exact .result_not_written
      · exact pass_nil
  · rename_i hst
    exact update_streaming1_checks_pass hst h
  · rename_i hst
    exact update_streaming2_checks_pass hst h
  · rename_i hst
    exact update_streaming3_checks_pass hst h
  · exact update_completed_checks_pass h

theorem Sane.completable (hs : Sane s) (hc : s.state ≠ .completed) : Completable s :=
  hs.completer hc

/-- The flag of the consumer is changed. -/
theorem set_consumer_is_running_checks_pass {value : Bool} (h : Completable s)
    (hne : s.consumer_is_running ≠ value) :
    Pass (set_consumer_is_running_checks b value s) := by
  unfold set_consumer_is_running_checks
  rw [if_neg fun hsame => hne hsame.2]
  exact pass_cons.mpr ⟨hne, update_state_checks_pass h⟩

theorem set_stream_result_checks_pass (result : stream_result) (completer : Outcome R E) :
    Pass (set_stream_result_checks b result completer s) := by
  unfold set_stream_result_checks
  split
  · exact pass_nil
  · split
    · exact pass_nil
    · exact update_state_checks_pass fun _ => rfl

theorem set_buffer_is_empty_checks_pass (h : Completable s) :
    Pass (set_buffer_is_empty_checks b s) := by
  unfold set_buffer_is_empty_checks
  split
  · exact pass_nil
  · exact update_state_checks_pass h

end Flags

/-! ## Exceptions -/

/-- What comes of handing data to a consumer, as long as it answers `Continue` at once: it
answers later, it fails, or it has stopped or has been handed all of them, and leaves its
world. -/
inductive Consumption (σ : Type*) where
  | waits
  | fails
  | ends (world : σ)

/-- The consumer is handed `data`. -/
def consumption (c : Consumer D E σ) : σ → List D → Consumption σ
  | world, [] => .ends world
  | world, d :: buffer =>
      match (data c world d).2 with
      | none => .waits
      | some (.error _) => .fails
      | some (.ok .Continue) => consumption c (c world d).1 buffer
      | some (.ok _) => .ends (c world d).1

section Exceptions

variable (b : Build) (call : K → Outcome R E → σ → Ended σ (ExceptionPtr E))

/-- The callbacks of the result promise throw when the stream is completed in `world`. -/
def CompletionThrows (s : PromiseStreamState R D E K σ) (world : σ) : Prop :=
  ∃ o, s.completer = some o ∧ (PromiseState.settle b call o s.proxy_promise world).2 ≠ none

/-- After the answer `action`, the consumer fails on the data in `buffer`, or takes them
and the completion of the stream throws. -/
def RestThrows (s : PromiseStreamState R D E K σ) (c : Consumer D E σ) (action : StreamAction)
    (world : σ) (buffer : List D) : Prop :=
  match if action = .Continue then consumption c world buffer else .ends world with
  | .waits => False
  | .fails => True
  | .ends world => CompletionThrows b call s world

/-- `process_data` ends in an exception. -/
def ProcessThrows (s : PromiseStreamState R D E K σ) : Prop :=
  s.state = .streaming2 ∧ s.consumer_is_running = false ∧
    ∃ c, s.on_data = some c ∧ RestThrows b call s c s.action s.world s.buffer

/-- The exception leaves a call of the consumer: the first datum is answered at once, and
what comes after it throws. -/
def Unwinds (s : PromiseStreamState R D E K σ) : Prop :=
  s.state = .streaming2 ∧ s.consumer_is_running = false ∧ s.action = .Continue ∧
    ∃ c d buffer action, s.on_data = some c ∧ s.buffer = d :: buffer ∧
      (data c s.world d).2 = some (.ok action) ∧
      RestThrows b call s c action (c s.world d).1 buffer

/-- Where an exception comes from that is not that of a check: an operation is refused, or
the result promise throws, with the callbacks that are bound to it. -/
inductive Origin : ExceptionPtr E → Prop where
  | refused_write : Origin (.logic_error "Data written to stream after it has been completed")
  | refused_result : Origin (.logic_error "Attempted to resolve promise stream multiple times")
  | refused_callback : Origin (.logic_error "Callbacks are already assigned")
  | settle {o : Outcome R E} {p : PromiseState R E K} {world : σ} {x : ExceptionPtr E}
      (hx : (PromiseState.settle b call o p world).2 = some x) : Origin x
  | set_callbacks {k : K} {p : PromiseState R E K} {world : σ} {x : ExceptionPtr E}
      (hx : (PromiseState.set_callbacks b call k p world).2 = some x) : Origin x

variable {b call} {s s' : PromiseStreamState R D E K σ} {op : Op R D E K σ} {c : Consumer D E σ}
  {d : D} {buffer : List D}

/-- One datum is consumed. -/
theorem restThrows_cons {world : σ} {action : StreamAction}
    (ha : (data c world d).2 = some (.ok action)) :
    RestThrows b call s c .Continue world (d :: buffer)
      ↔ RestThrows b call s c action (c world d).1 buffer := by
  unfold RestThrows
  rw [if_pos rfl, consumption, ha]
  cases action with
  | Continue => rw [if_pos rfl]
  | Discard => rfl
  | Stop => rfl

theorem Unwinds.throws (h : Unwinds b call s) : ProcessThrows b call s := by
  obtain ⟨hst, hrun, haction, c, d, buffer, action, hc, hb, ha, hrest⟩ := h
  refine ⟨hst, hrun, c, hc, ?_⟩
  rw [haction, hb]
  exact (restThrows_cons ha).mpr hrest

/-- Where the first datum is answered at once, an exception leaves this call. -/
theorem unwinds_iff_throws {action : StreamAction} (hc : s.on_data = some c)
    (hb : s.buffer = d :: buffer) (ha : (data c s.world d).2 = some (.ok action))
    (haction : s.action = .Continue) : Unwinds b call s ↔ ProcessThrows b call s := by
  constructor
  · exact Unwinds.throws
  · rintro ⟨hst, hrun, c', hc', hrest⟩
    rw [hc] at hc'
    cases hc'
    rw [haction, hb] at hrest
    exact ⟨hst, hrun, haction, c, d, buffer, action, hc, hb, ha, (restThrows_cons ha).mp hrest⟩

/-- It is thrown by what comes after the answer. -/
theorem unwinds_iff {action : StreamAction} (hc : s.on_data = some c) (hb : s.buffer = d :: buffer)
    (ha : (data c s.world d).2 = some (.ok action)) (haction : s.action = .Continue)
    (hrun : s.consumer_is_running = false) :
    Unwinds b call s ↔ ProcessThrows b call (noted action (called c d buffer s)) := by
  constructor
  · rintro ⟨hst, -, -, c', d', buffer', action', hc', hb', ha', hrest⟩
    rw [hc] at hc'
    cases hc'
    rw [hb] at hb'
    cases hb'
    rw [ha] at ha'
    cases ha'
    exact ⟨hst, rfl, c, hc, hrest⟩
  · rintro ⟨hst, -, c', hc', hrest⟩
    rw [show (noted action (called c d buffer s)).on_data = s.on_data from rfl, hc] at hc'
    cases hc'
    exact ⟨hst, hrun, haction, c, d, buffer, action, hc, hb, ha, hrest⟩

/-- What is known of `process_data`: when it throws, that it has reset the flag of the
consumer then, when its checks hold, and where its exception comes from if they do. -/
structure ProcessChecks (b : Build) (call : K → Outcome R E → σ → Ended σ (ExceptionPtr E))
    (s : PromiseStreamState R D E K σ)
    (r : Ended (PromiseStreamState R D E K σ) (ExceptionPtr E)) (checks : List Check) : Prop where
  thrown : r.2 ≠ none ↔ ProcessThrows b call s
  stopped : r.2 ≠ none → r.1.consumer_is_running = false
  pass : Pass checks ↔ ¬ Unwinds b call s
  origin : ¬ Unwinds b call s → ∀ x, r.2 = some x → Origin b call x

/-- `process_data` returns, and its checks hold. -/
theorem ProcessChecks.returned {t : PromiseStreamState R D E K σ} {checks : List Check}
    (h : ¬ ProcessThrows b call s) (hpass : Pass checks) :
    ProcessChecks b call s (returns t) checks where
  thrown := iff_of_false (fun hne => hne rfl) h
  stopped hne := absurd rfl hne
  pass := iff_of_true hpass fun hu => h hu.throws
  origin _ x hx := by cases hx

/-- The buffer is emptied, and the stream completed if it has a result. -/
theorem ProcessChecks.drain (hs : Sane s) (hc : s.on_data = some c)
    (hrun : s.consumer_is_running = false) (hst : s.state = .streaming1 ∨ s.state = .streaming2)
    (hb : s.buffer = [] ∨ s.action ≠ .Continue) :
    ProcessChecks b call s (set_buffer_is_empty b call { s with buffer := [] })
      (set_buffer_is_empty_checks b { s with buffer := [] }) := by
  have hne : s.state ≠ .completed := by rcases hst with h | h <;> simp [h]
  have hpass : Pass (set_buffer_is_empty_checks b { s with buffer := [] }) :=
    set_buffer_is_empty_checks_pass (hs.completable hne)
  have hnot : ¬ Unwinds b call s := by
    rintro ⟨-, -, haction, -, d, buffer, -, -, hcons, -⟩
    rcases hb with hb | hb
    · rw [hb] at hcons
      cases hcons
    · exact hb haction
  have hends : RestThrows b call s c s.action s.world s.buffer
      ↔ CompletionThrows b call s s.world := by
    unfold RestThrows
    rcases hb with hb | hb
    · rw [hb, consumption, ite_self]
    · rw [if_neg hb]
  rcases hst with hst | hst
  -- there is no result yet, so nothing is completed
  · rw [emptied_streaming1 b call hs hst]
    apply ProcessChecks.returned _ hpass
    intro h
    rw [h.1] at hst
    cases hst
  -- the stream is completed with the result that has been recorded
  · obtain ⟨o, ref, ho, hcompleted, hthrown⟩ := emptied_streaming2 b call hs hst hrun
    refine ⟨?_, fun _ => ?_, iff_of_true hpass hnot, fun _ x hx => ?_⟩
    · rw [hthrown]
      constructor
      · intro h
        exact ⟨hst, hrun, c, hc, hends.mpr ⟨o, ho, h⟩⟩
      · rintro ⟨-, -, c', hc', hrest⟩
        rw [hc] at hc'
        cases hc'
        obtain ⟨o', ho', h⟩ := hends.mp hrest
        rw [ho] at ho'
        cases ho'
        exact h
    · rw [hcompleted]
      exact hrun
    · exact .settle (hthrown.symm.trans hx)

theorem take_data_checks_nothing (b : Build)
    (h : (s.state ≠ .streaming1 ∧ s.state ≠ .streaming2) ∨
      s.on_data.isNone = true ∨ s.consumer_is_running = true) : take_data_checks b s = [] := by
  unfold take_data_checks
  rcases h with hst | hnone | hrun
  · rw [if_pos hst]
  · rw [if_pos hnone, ite_self]
  · rw [if_pos hrun, ite_self, ite_self]

theorem take_data_checks_drains (b : Build) (hc : s.on_data = some c)
    (hrun : s.consumer_is_running = false) (hst : s.state = .streaming1 ∨ s.state = .streaming2)
    (hb : s.buffer = [] ∨ s.action ≠ .Continue) :
    take_data_checks b s = set_buffer_is_empty_checks b { s with buffer := [] } := by
  have hst' : ¬ (s.state ≠ .streaming1 ∧ s.state ≠ .streaming2) := fun h => hst.elim h.1 h.2
  unfold take_data_checks
  rw [if_neg hst', if_neg (by simp [hc]), if_neg (by simp [hrun])]
  by_cases ha : s.action = .Continue
  · have hnil := hb.resolve_right (not_not.mpr ha)
    have heq : { s with buffer := [] } = s := by rw [← hnil]
    rw [heq]
    simp [ha, hnil]
  · simp [ha]

theorem take_data_checks_takes (b : Build) (hc : s.on_data = some c)
    (hrun : s.consumer_is_running = false) (hst : s.state = .streaming1 ∨ s.state = .streaming2)
    (ha : s.action = .Continue) (hb : s.buffer = d :: buffer) : take_data_checks b s = [] := by
  unfold take_data_checks
  rcases hst with hst | hst <;> simp [hst, hc, hrun, ha, hb]

/-- After the handler of `call_data_callback` the consumer is not running. -/
theorem rethrowing_stops {r : Ended (PromiseStreamState R D E K σ) (ExceptionPtr E)}
    (hs : Sane r.1) (hst : r.1.state ≠ .pending)
    (hne : (rethrowing r (set_consumer_is_running b call false)).2 ≠ none) :
    (rethrowing r (set_consumer_is_running b call false)).1.consumer_is_running = false := by
  obtain ⟨t, _ | x⟩ := r
  · exact absurd rfl hne
  · rw [rethrowing_fst_of_threw, handler_spec b call hs hst]

/-- The consumer is called. -/
theorem call_consumer_eq
    {process_data : PromiseStreamState R D E K σ →
      Ended (PromiseStreamState R D E K σ) (ExceptionPtr E)} (hc : s.on_data = some c) :
    call_consumer b call process_data d { s with buffer := buffer, consumer_is_running := true }
      = match (data c s.world d).2 with
        | none => returns (called c d buffer s)
        | some a => continuation b call process_data a (called c d buffer s) := by
  unfold call_consumer called
  simp only [hc]
  rcases hdata : data c s.world d with ⟨world, answer⟩
  obtain rfl : world = (c s.world d).1 := by rw [← data_fst, hdata]
  cases answer <;> rfl

theorem call_consumer_checks_eq
    {process_data_checks : PromiseStreamState R D E K σ → List Check} (hc : s.on_data = some c) :
    call_consumer_checks b call process_data_checks d
        { s with buffer := buffer, consumer_is_running := true }
      = match (data c s.world d).2 with
        | none => []
        | some a => continuation_checks b call process_data_checks a (called c d buffer s) := by
  unfold call_consumer_checks called
  simp only [hc]
  rcases hdata : data c s.world d with ⟨world, answer⟩
  obtain rfl : world = (c s.world d).1 := by rw [← data_fst, hdata]
  cases answer <;> rfl

/-- What a frame of `call_data_callback` checks: the flag is set, the consumer is called,
and the handler resets the flag if `body`, the call, has thrown. -/
theorem call_data_callback_checks_eq (b : Build)
    (call : K → Outcome R E → σ → Ended σ (ExceptionPtr E)) (n : ℕ) (d : D) (buffer : List D)
    (hc : s.on_data = some c)
    (hrun : s.consumer_is_running = false) (hquiet : Quiet s) :
    let body := match (data c s.world d).2 with
      | none => returns (called c d buffer s)
      | some a => continuation b call (process_data b call n) a (called c d buffer s)
    call_data_callback b call (process_data b call n) d { s with buffer := buffer }
        = rethrowing body (set_consumer_is_running b call false) ∧
      call_data_callback_checks b call (process_data b call n) (process_data_checks b call n) d
          { s with buffer := buffer }
        = set_consumer_is_running_checks b true { s with buffer := buffer } ++
          (match (data c s.world d).2 with
            | none => []
            | some a =>
              continuation_checks b call (process_data_checks b call n) a (called c d buffer s)) ++
          if body.2.isSome then set_consumer_is_running_checks b false body.1 else [] := by
  intro body
  have hbody : call_consumer b call (process_data b call n) d
      { s with buffer := buffer, consumer_is_running := true } = body := call_consumer_eq hc
  have hset : set_consumer_is_running b call true { s with buffer := buffer }
      = returns { s with buffer := buffer, consumer_is_running := true } :=
    set_running_quiet hquiet (by simp [hrun])
  constructor
  · rw [call_data_callback_body, hset, returns_andThen, hbody]
  · unfold call_data_callback_checks rethrowing_checks andThen_checks
    rw [hset, returns_andThen, hbody, ← call_consumer_checks_eq hc]
    rfl

/-- The answer of the consumer, and what comes after it. -/
theorem continuation_checks_ok {process_data_checks : PromiseStreamState R D E K σ → List Check}
    (hs : Sane s) (hout : s.outstanding = true) (action : StreamAction) :
    Pass (continuation_checks b call process_data_checks (.ok action) s)
      ↔ Pass (process_data_checks (noted action s)) := by
  obtain ⟨hrun, hst, -⟩ := hs.running hout
  have hp : s.state ≠ .pending := by rcases hst with h | h <;> simp [h]
  have hne : s.state ≠ .completed := by rcases hst with h | h <;> simp [h]
  have hquiet : Quiet s := hs.quiet hp hne
  have hset : set_consumer_is_running b call false { s.logged (.answer (.ok action)) with
      action := action } = returns (noted action s) :=
    set_running_quiet hquiet (by simp [logged, hrun])
  -- the flag was set when the consumer was called
  have hpass : Pass (set_consumer_is_running_checks b false
      { s.logged (.answer (.ok action)) with action := action }) :=
    set_consumer_is_running_checks_pass (hs.completable hne) (by simp [logged, hrun])
  unfold continuation_checks andThen_checks
  simp only [hset]
  rw [pass_append]
  exact and_iff_right hpass

/-- The failure of the consumer passes all checks, whether it is refused or not. -/
theorem continuation_checks_error {process_data_checks : PromiseStreamState R D E K σ → List Check}
    (hs : Sane s) (hout : s.outstanding = true) (e : ExceptionPtr E) :
    Pass (continuation_checks b call process_data_checks (.error e) s) := by
  obtain ⟨hrun, hst, hnf⟩ := hs.running hout
  unfold continuation_checks andThen_checks
  rw [pass_append]
  refine ⟨set_stream_result_checks_pass _ _, ?_⟩
  by_cases hr : s.result = .pending
  · have hst : s.state = .streaming1 := hst.resolve_right fun h => (hs.streaming2_state h).1 hr
    have hreject := do_reject_failed b call (s := s.logged (.answer (.error e))) hst
      (hs.filled hout) hr e
    rw [hreject]
    apply set_consumer_is_running_checks_pass
    · exact fun _ => rfl
    · simp [logged, hrun]
  · have hthrows : (do_reject b call e true (s.logged (.answer (.error e)))).2.isNone = false := by
      unfold do_reject set_stream_result
      rw [if_neg (by simpa [logged] using hnf), if_pos (by simpa [logged] using hr)]
      rfl
    rw [hthrows]
    exact pass_nil

/-- The second reset of the flag fails. -/
theorem not_pass_second_reset (h : s.consumer_is_running = false) :
    ¬ Pass (set_consumer_is_running_checks b false s) := by
  intro hpass
  exact (pass_cons.mp hpass).1 h

/-- The consumer has answered at once: an exception that comes after the answer finds the
flag reset already. -/
theorem ProcessChecks.answered {n : ℕ} {t : PromiseStreamState R D E K σ}
    {first second : List Check}
    (hspec : ProcessChecks b call t (process_data b call n t) (process_data_checks b call n t))
    (ht : Sane t) (hlen : t.buffer.length < n) (hst : t.state ≠ .pending)
    (hunwinds : Unwinds b call s ↔ ProcessThrows b call t)
    (hthrows : Unwinds b call s ↔ ProcessThrows b call s) (hfirst : Pass first)
    (hsecond : Pass second ↔ Pass (process_data_checks b call n t)) :
    ProcessChecks b call s
      (rethrowing (process_data b call n t) (set_consumer_is_running b call false))
      (first ++ second ++ if (process_data b call n t).2.isSome then
        set_consumer_is_running_checks b false (process_data b call n t).1 else []) := by
  have hticks : Ticks b call (.answer (.error .null)) t (process_data b call n t).1 :=
    (process_data_spec n t ht hlen).ticks
  obtain ⟨hthrown, hstopped, hpass, -⟩ := hspec
  refine ⟨?_, ?_, ?_, ?_⟩
  · rw [rethrowing_thrown, hthrown, ← hunwinds, hthrows]
  · exact rethrowing_stops (hticks.sane ht) (hticks.not_pending hst)
  · rw [pass_append, pass_append, hsecond, hpass]
    constructor
    · rintro ⟨-, hreset⟩ hu
      -- an exception has come to the handler
      have hne := hthrown.mpr (hunwinds.mp hu)
      rw [if_pos (Option.isSome_iff_ne_none.mpr hne)] at hreset
      exact not_pass_second_reset (hstopped hne) hreset
    · intro hnot
      have hreturns : ¬ (process_data b call n t).2 ≠ none := fun hne =>
        hnot (hunwinds.mpr (hthrown.mp hne))
      have hnot' : ¬ Unwinds b call t := fun hu => hnot (hunwinds.mpr hu.throws)
      rw [if_neg fun hsome => hreturns (Option.isSome_iff_ne_none.mp hsome)]
      exact ⟨⟨hfirst, hnot'⟩, pass_nil⟩
  · -- where nothing unwinds nothing is thrown
    intro hnot x hx
    have hne := rethrowing_thrown.mp (hx ▸ Option.some_ne_none x)
    exact absurd (hunwinds.mpr (hthrown.mp hne)) hnot

/-- Nothing unwinds where the first datum is answered by a failure. -/
theorem not_unwinds_of_failure {e : ExceptionPtr E} (hc : s.on_data = some c)
    (hb : s.buffer = d :: buffer) (ha : (data c s.world d).2 = some (.error e)) :
    ¬ Unwinds b call s := by
  rintro ⟨-, -, -, c', d', buffer', action', hc', hb', hok, -⟩
  rw [hc] at hc'
  cases hc'
  rw [hb] at hb'
  cases hb'
  rw [ha] at hok
  cases hok

/-- The handler resets the flag of a consumer that is running, and throws nothing of its
own. -/
theorem rethrowing_resets {t : PromiseStreamState R D E K σ} (hq : Quiet t)
    (hrun : t.consumer_is_running = true) (x : ExceptionPtr E) :
    rethrowing (throws t x) (set_consumer_is_running b call false)
      = throws { t with consumer_is_running := false } x := by
  apply throws_rethrowing
  apply set_running_quiet hq
  rw [hrun]
  decide

/-- The consumer has failed at once after its producer: the failure is refused, and the flag
is still set when the exception comes to the handler. -/
theorem ProcessChecks.refused {first second : List Check} {e : ExceptionPtr E}
    (hb : s.buffer = d :: buffer) (hc : s.on_data = some c)
    (hrun : s.consumer_is_running = false) (ha : s.action = .Continue)
    (hst : s.state = .streaming2) (ha' : (data c s.world d).2 = some (.error e))
    (hfirst : Pass first) (hsecond : Pass second) {t : PromiseStreamState R D E K σ}
    (hq : Quiet t) (hcompletable : Completable t) (hrunning : t.consumer_is_running = true) :
    ProcessChecks b call s
      (rethrowing (throws t (.logic_error "Attempted to resolve promise stream multiple times"))
        (set_consumer_is_running b call false))
      (first ++ second ++ set_consumer_is_running_checks b false t) := by
  rw [rethrowing_resets hq hrunning]
  refine ⟨?_, fun _ => rfl, iff_of_true ?_ (not_unwinds_of_failure hc hb ha'), fun _ x hx => ?_⟩
  · refine iff_of_true (Option.some_ne_none _) ⟨hst, hrun, c, hc, ?_⟩
    unfold RestThrows
    rw [ha, if_pos rfl, hb, consumption, ha']
    trivial
  · refine pass_append.mpr ⟨pass_append.mpr ⟨hfirst, hsecond⟩, ?_⟩
    apply set_consumer_is_running_checks_pass
    · exact hcompletable
    · rw [hrunning]
      decide
  · cases hx
    exact .refused_result

/-- The consumer has failed at once: the failure becomes the result, or it is refused. -/
theorem ProcessChecks.failed {n : ℕ} {first second : List Check} {e : ExceptionPtr E}
    (hs : Sane s) (hb : s.buffer = d :: buffer) (hc : s.on_data = some c)
    (hrun : s.consumer_is_running = false) (ha : s.action = .Continue)
    (hst : s.state = .streaming1 ∨ s.state = .streaming2)
    (hsane : Sane (called c d buffer s)) (hout : (called c d buffer s).outstanding = true)
    (ha' : (data c s.world d).2 = some (.error e)) (hfirst : Pass first) (hsecond : Pass second) :
    let body := continuation b call (process_data b call n) (.error e) (called c d buffer s)
    ProcessChecks b call s (rethrowing body (set_consumer_is_running b call false))
      (first ++ second ++
        if body.2.isSome then set_consumer_is_running_checks b false body.1 else []) := by
  intro body
  by_cases hr : s.result = .pending
  · -- the failure becomes the result, and the consumer is not called again
    have hbody : body = returns _ :=
      continuation_failed b call (process_data b call n) hsane hout hr e
    have hstate : s.state = .streaming1 := hst.resolve_right fun h => (hs.streaming2_state h).1 hr
    rw [hbody]
    apply ProcessChecks.returned
    · intro h
      rw [h.1] at hstate
      cases hstate
    · exact pass_append.mpr ⟨pass_append.mpr ⟨hfirst, hsecond⟩, pass_nil⟩
  · -- the producer's result stands
    have hlate : s.result = .resolved ∨ s.result = .rejected := by
      have hnf : s.result ≠ .consumer_failed := fun h => hs.failed h ha
      cases h : s.result <;> simp_all
    have hstate : s.state = .streaming2 := hst.resolve_left fun h => hr (hs.streaming1_state h)
    have hbody : body = throws _ _ :=
      continuation_late (s := called c d buffer s) b call (process_data b call n) hlate e
    rw [hbody]
    refine .refused hb hc hrun ha hstate ha' hfirst hsecond ?_ ?_ rfl
    · exact Or.inr ⟨hstate, (hs.streaming2_state hstate).2⟩
    · exact hs.completable (by simp [hstate])

/-- **A frame of `call_data_callback`.** -/
theorem call_data_callback_checks_spec {n : ℕ} (hs : Sane s) (hb : s.buffer = d :: buffer)
    (hc : s.on_data = some c) (hrun : s.consumer_is_running = false)
    (hst : s.state = .streaming1 ∨ s.state = .streaming2) (ha : s.action = .Continue)
    (hlen : s.buffer.length < n + 1)
    (ih : ∀ t : PromiseStreamState R D E K σ, Sane t → t.buffer.length < n →
      ProcessChecks b call t (process_data b call n t) (process_data_checks b call n t)) :
    ProcessChecks b call s
      (call_data_callback b call (process_data b call n) d { s with buffer := buffer })
      (call_data_callback_checks b call (process_data b call n) (process_data_checks b call n) d
        { s with buffer := buffer }) := by
  have hp : s.state ≠ .pending := by rcases hst with h | h <;> simp [h]
  have hne : s.state ≠ .completed := by rcases hst with h | h <;> simp [h]
  have hcall : Tick b call (.answer (.error .null)) s (called c d buffer s) :=
    .call hc hrun hst ha hb
  have hsane := hcall.sane hs
  have hout := hs.called_outstanding c d buffer
  have hset : Pass (set_consumer_is_running_checks b true { s with buffer := buffer }) :=
    set_consumer_is_running_checks_pass (hs.completable hne) (by simp [hrun])
  obtain ⟨heq, hchecks⟩ := call_data_callback_checks_eq b call n d buffer hc hrun
    (hs.quiet hp hne)
  rw [heq, hchecks]
  cases ha' : (data c s.world d).2 with
  | none =>
    -- the consumer answers later
    have hwaits : ¬ ProcessThrows b call s := by
      rintro ⟨-, -, c', hc', hrest⟩
      rw [hc] at hc'
      cases hc'
      unfold RestThrows at hrest
      rw [ha, if_pos rfl, hb, consumption, ha'] at hrest
      exact hrest
    apply ProcessChecks.returned hwaits
    simpa using hset
  | some answer =>
    cases answer with
    | ok action =>
      have hanswer : Tick b call (.answer (.ok action)) (called c d buffer s)
          (noted action (called c d buffer s)) := .answer_action hout (Or.inl rfl)
      have hlen' : (noted action (called c d buffer s)).buffer.length < n := by
        simp only [hb, List.length_cons] at hlen
        simp only [noted, called]
        omega
      have hcont : continuation b call (process_data b call n) (.ok action) (called c d buffer s)
          = process_data b call n (noted action (called c d buffer s)) :=
        continuation_ok b call _ hsane hout action
      simp only [hcont]
      exact (ih _ (hanswer.sane hsane) hlen').answered (hanswer.sane hsane) hlen' hp
        (unwinds_iff hc hb ha' ha hrun) (unwinds_iff_throws hc hb ha' ha) hset
        (continuation_checks_ok hsane hout action)
    | error e =>
      exact .failed hs hb hc hrun ha hst hsane hout ha' hset
        (continuation_checks_error hsane hout e)

/-- **`process_data`.** The induction is on the data in the buffer. -/
theorem process_data_checks_spec (b : Build)
    (call : K → Outcome R E → σ → Ended σ (ExceptionPtr E)) (n : ℕ)
    (s : PromiseStreamState R D E K σ) (hs : Sane s) (hlen : s.buffer.length < n) :
    ProcessChecks b call s (process_data b call n s) (process_data_checks b call n s) := by
  induction n generalizing s with
  | zero => omega
  | succ n ih =>
    rw [process_data, process_data_checks]
    cases taking s with
    | nothing h =>
      rw [take_data_nothing b call h, take_data_checks_nothing b h]
      refine .returned ?_ pass_nil
      rintro ⟨hst, hrun, c, hc, -⟩
      rcases h with hst' | hnone | hrun'
      · exact hst'.2 hst
      · rw [hc] at hnone
        cases hnone
      · rw [hrun] at hrun'
        cases hrun'
    | drains hc hrun hst hb =>
      rw [take_data_drains b call hc hrun hst hb, take_data_checks_drains b hc hrun hst hb]
      simp only [List.append_nil]
      exact .drain hs hc hrun hst hb
    | takes hc hrun hst ha hb =>
      rw [take_data_takes b call hc hrun hst ha hb, take_data_checks_takes b hc hrun hst ha hb]
      exact call_data_callback_checks_spec hs hb hc hrun hst ha hlen ih

/-! ## Steps and runs -/

variable (b call) in
/-- An exception leaves a call of the consumer in this step: the consumer is bound, or it
has answered. -/
def StepUnwinds (op : Op R D E K σ) (s : PromiseStreamState R D E K σ) : Prop :=
  match op with
  | .stream c => s.on_data = none ∧ Unwinds b call { s with on_data := some c }
  | .answer (.ok action) => s.outstanding = true ∧
      Unwinds b call { s with action := action, consumer_is_running := false }
  | _ => False

/-- What is known of a step: when its checks hold, and where its exception comes from if
they do. -/
structure StepChecks (b : Build) (call : K → Outcome R E → σ → Ended σ (ExceptionPtr E))
    (op : Op R D E K σ) (s : PromiseStreamState R D E K σ)
    (r : Ended (PromiseStreamState R D E K σ) (ExceptionPtr E)) (checks : List Check) : Prop where
  pass : Pass checks ↔ ¬ StepUnwinds b call op s
  origin : ¬ StepUnwinds b call op s → ∀ x, r.2 = some x → Origin b call x

theorem process_checks_spec (b : Build) (call : K → Outcome R E → σ → Ended σ (ExceptionPtr E))
    (hs : Sane s) : ProcessChecks b call s (process b call s) (process_checks b call s) :=
  process_data_checks_spec b call _ s hs (Nat.lt_succ_self _)

/-- A step that ends in `process_data`. -/
theorem ProcessChecks.step {t : PromiseStreamState R D E K σ} {first second : List Check}
    {r : Ended (PromiseStreamState R D E K σ) (ExceptionPtr E)}
    (h : ProcessChecks b call t r second) (hfirst : Pass first)
    (hunwinds : StepUnwinds b call op s ↔ Unwinds b call t) :
    StepChecks b call op s r (first ++ second) := by
  constructor
  · rw [pass_append, and_iff_right hfirst, h.pass, hunwinds]
  · intro hnot
    rw [hunwinds] at hnot
    exact h.origin hnot

/-- A step that does not call the consumer. -/
theorem StepChecks.unbound {r : Ended (PromiseStreamState R D E K σ) (ExceptionPtr E)}
    {checks : List Check} (hpass : Pass checks) (hnot : ¬ StepUnwinds b call op s)
    (horigin : ∀ x, r.2 = some x → Origin b call x) : StepChecks b call op s r checks where
  pass := iff_of_true hpass hnot
  origin _ := horigin

/-- Nothing unwinds while there is no result. -/
theorem not_unwinds_of_pending (hs : Sane s) (hr : s.result = .pending) : ¬ Unwinds b call s :=
  fun h => (hs.streaming2_state h.1).1 hr

/-- A datum is refused, or it goes into the buffer of a stream that has no result. -/
theorem set_stream_has_been_written_to_cases
    (call : K → Outcome R E → σ → Ended σ (ExceptionPtr E)) (hb : b.SAFE_PROMISE_STREAMS = true)
    (hs : Sane s) (ha : s.action = .Continue) (d : D) :
    let t := { s with buffer := s.buffer ++ [d], log := s.log ++ [.write d] }
    (set_stream_has_been_written_to b call t
        = throws t (.logic_error "Data written to stream after it has been completed") ∧
      set_stream_has_been_written_to_checks b t = []) ∨
    ∃ t', set_stream_has_been_written_to b call t = returns t' ∧
      Pass (set_stream_has_been_written_to_checks b t) ∧ Sane t' ∧ t'.result = .pending := by
  intro t
  by_cases hr : s.result = .resolved ∨ s.result = .rejected
  · left
    constructor
    · exact if_pos ⟨hb, hr⟩
    · exact if_pos ⟨hb, hr⟩
  · right
    have hpending : s.result = .pending := by
      have hnf : s.result ≠ .consumer_failed := fun h => hs.failed h ha
      cases h : s.result <;> simp_all
    have hst : s.state ≠ .completed := fun h => (hs.completed_state h).2.1 hpending
    have hkept : Tick b call (.write d) s _ := .write_kept rfl ha hst
    have hchecks : set_stream_has_been_written_to_checks b t
        = update_state_checks b { t with
          stream_has_been_written_to := true, buffer_is_empty := false } :=
      if_neg fun h => hr h.2
    have hreturns : set_stream_has_been_written_to b call t = returns _ :=
      (if_neg fun h => hr h.2).trans (update_written b call hs hst d)
    refine ⟨_, hreturns, ?_, hkept.sane hs, hpending⟩
    rw [hchecks]
    apply update_state_checks_pass
    intro hne
    exact absurd hpending hne

theorem write_checks_eq (b : Build) (call : K → Outcome R E → σ → Ended σ (ExceptionPtr E)) (d : D)
    (s : PromiseStreamState R D E K σ) :
    write_checks b call d s =
      let t := { s with buffer := s.buffer ++ [d], log := s.log ++ [.write d] }
      if s.action = .Continue then
        andThen_checks (set_stream_has_been_written_to b call t)
          (set_stream_has_been_written_to_checks b t) (process_checks b call)
      else process_checks b call (s.logged (.write d)) := rfl

theorem write_checks_spec (hb : b.SAFE_PROMISE_STREAMS = true) (hs : Sane s) (d : D) :
    StepChecks b call (.write d) s (write b call d s) (write_checks b call d s) := by
  have hnot : ¬ StepUnwinds b call (.write d) s := fun h => h
  rw [write_eq, write_checks_eq]
  by_cases ha : s.action = .Continue
  · simp only [if_pos ha]
    unfold andThen_checks
    rcases set_stream_has_been_written_to_cases call hb hs ha d with
      ⟨hthrows, hchecks⟩ | ⟨t, hreturns, hpass, hsane, hr⟩
    · rw [hthrows, hchecks]
      apply StepChecks.unbound pass_nil hnot
      intro x hx
      cases hx
      exact .refused_write
    · rw [hreturns]
      have hspec := process_checks_spec b call hsane
      exact hspec.step hpass (iff_of_false hnot (not_unwinds_of_pending hsane hr))
  · have hdropped : Tick b call (.write d) s (s.logged (.write d)) := .write_dropped rfl ha
    have hspec := process_checks_spec b call (hdropped.sane hs)
    simp only [if_neg ha]
    -- the data of a stream that is stopped are not handed out
    exact hspec.step pass_nil (iff_of_false hnot fun h => ha h.2.2.1)

/-- What `resolve` and `reject` throw. -/
theorem end_with_origin (hs : Sane s) (o : Outcome R E) :
    ∀ x, (end_with b call o s).2 = some x → Origin b call x := by
  by_cases hr : s.result = .pending
  · obtain ⟨hne, -⟩ := recorded_ne o
    let t : PromiseStreamState R D E K σ := { s.logged (.ended o) with
      action := action_after o s.action, completer := some o, result := recorded o }
    have hupdate : end_with b call o s = update_state b call t := by
      unfold end_with set_stream_result
      rw [if_neg (by simp [logged, hr]), if_neg (by simp [logged, hr])]
    -- the stream is completed at once, or it has data left
    have hcompletes :
        update_state b call t = update_completed b call { t with state := .completed } ∨
        update_state b call t = returns { t with state := .streaming2 } := by
      rcases hs.states with hst | hst | hst | hst
      · exact Or.inl (update_pending_eq (s := t) b call hst (hs.pending_state hst).1 hne)
      · cases hempty : s.buffer_is_empty with
        | true =>
          have hrun := (hs.empty hempty (by simp [hst])).2
          exact Or.inl (update_streaming1_eq (s := t) b call hst hempty hrun hne)
        | false => exact Or.inr (update_streaming1_recorded (s := t) b call hst hempty hne)
      · exact absurd hr (hs.streaming2_state hst).1
      · exact absurd hr (hs.completed_state hst).2.1
    intro x hx
    rw [hupdate] at hx
    rcases hcompletes with h | h
    · rw [h, complete_throws (s := t) b call hne rfl] at hx
      exact .settle hx
    · rw [h] at hx
      cases hx
  · intro x hx
    unfold end_with set_stream_result at hx
    by_cases hf : s.result = .consumer_failed
    · rw [if_pos (by simpa [logged] using hf)] at hx
      cases hx
    · rw [if_neg (by simpa [logged] using hf), if_pos (by simpa [logged] using hr)] at hx
      cases hx
      exact .refused_result

theorem set_data_callback_checks_spec (hb : b.SAFE_PROMISE_STREAMS = true) (hs : Sane s)
    (c : Consumer D E σ) :
    StepChecks b call (.stream c) s (set_data_callback b call c s)
      (set_data_callback_checks b call c s) := by
  unfold set_data_callback set_data_callback_checks
  cases hc : s.on_data with
  | some c' =>
    -- a second consumer is refused before anything is checked
    rw [if_pos ⟨hb, rfl⟩, if_pos ⟨hb, rfl⟩]
    apply StepChecks.unbound pass_nil
    · rintro ⟨hnone, -⟩
      rw [hc] at hnone
      cases hnone
    · intro x hx
      cases hx
      exact .refused_callback
  | none =>
    -- the first one is bound, and the data that wait for it are processed
    have hbound : Tick b call (.stream c) s { s with
        on_data := some c, data_callback_assigned := true
        self_reference := s.self_reference || s.state != .completed } := .bound rfl
    have hassigned : set_data_callback_assigned b { s with on_data := some c }
        = returns { s with
          on_data := some c, data_callback_assigned := true
          self_reference := s.self_reference || s.state != .completed } := by
      unfold set_data_callback_assigned
      rw [if_neg (by simp [hs.unbound hc])]
    have hspec := process_checks_spec b call (hbound.sane hs)
    rw [if_neg (by simp), if_neg (by simp)]
    unfold andThen_checks
    rw [hassigned]
    exact hspec.step pass_nil ⟨fun h => h.2, fun h => ⟨hc, h⟩⟩

theorem answer_checks_spec (hs : Sane s) (a : Answer E) :
    StepChecks b call (.answer a) s (answer b call a s) (step_checks b call (.answer a) s) := by
  unfold step_checks answer
  by_cases hout : s.outstanding = true
  · simp only [if_pos hout]
    cases a with
    | error e =>
      have hnot : ¬ StepUnwinds b call (.answer (.error e)) s := fun h => h
      apply StepChecks.unbound (continuation_checks_error hs hout e) hnot
      intro x hx
      cases hr : s.result with
      | pending =>
        rw [continuation_failed b call _ hs hout hr e] at hx
        cases hx
      | consumer_failed => exact absurd hr (hs.running hout).2.2
      | resolved | rejected =>
        rw [continuation_late b call _ (by simp [hr]) e] at hx
        cases hx
        exact .refused_result
    | ok action =>
      -- the flag is reset by the answer, and `process_data` goes on from there
      have hanswer : Tick b call (.answer (.ok action)) s (noted action s) :=
        .answer_action hout (Or.inl rfl)
      have hlen : (noted action s).buffer.length < s.buffer.length + 1 := Nat.lt_succ_self _
      have hspec := process_data_checks_spec b call _ _ (hanswer.sane hs) hlen
      have hcont : continuation b call (process_data b call (s.buffer.length + 1)) (.ok action) s
          = process_data b call (s.buffer.length + 1) (noted action s) :=
        continuation_ok b call _ hs hout action
      rw [hcont]
      constructor
      · rw [continuation_checks_ok hs hout, hspec.pass]
        exact not_congr ⟨fun h => ⟨hout, h⟩, fun h => h.2⟩
      · intro hnot
        exact hspec.origin fun h => hnot ⟨hout, h⟩
  · simp only [if_neg hout]
    apply StepChecks.unbound pass_nil
    · intro h
      cases a with
      | ok action => exact hout h.1
      | error e => exact h
    · intro x hx
      cases hx

/-- **The checks of a step hold exactly if no exception leaves a call of the consumer**,
and then its exception is not that of a check. -/
theorem step_checks_spec (hb : b.SAFE_PROMISE_STREAMS = true) (hs : Sane s)
    (op : Op R D E K σ) :
    StepChecks b call op s (step b call op s) (step_checks b call op s) := by
  cases op with
  | write d => exact write_checks_spec hb hs d
  | resolve result =>
    have hnot : ¬ StepUnwinds b call (.resolve result) s := fun h => h
    exact .unbound (set_stream_result_checks_pass _ _) hnot (end_with_origin hs (.resolved result))
  | reject error =>
    have hnot : ¬ StepUnwinds b call (.reject error) s := fun h => h
    exact .unbound (set_stream_result_checks_pass _ _) hnot (end_with_origin hs (.rejected error))
  | stream c => exact set_data_callback_checks_spec hb hs c
  | answer a => exact answer_checks_spec hs a
  | bind_result callbacks =>
    have hnot : ¬ StepUnwinds b call (.bind_result callbacks) s := fun h => h
    apply StepChecks.unbound pass_nil hnot
    intro x hx
    exact .set_callbacks hx

variable (b call) in
/-- No step of a run is such a step. -/
def NeverUnwinds : List (Op R D E K σ) → PromiseStreamState R D E K σ → Prop
  | [], _ => True
  | op :: ops, s => ¬ StepUnwinds b call op s ∧ NeverUnwinds ops (step b call op s).1

variable (b call) in
/-- The exceptions that the steps of a run end in. -/
def run_exceptions :
    List (Op R D E K σ) → PromiseStreamState R D E K σ → List (ExceptionPtr E)
  | [], _ => []
  | op :: ops, s =>
      (step b call op s).2.toList ++ run_exceptions ops (step b call op s).1

theorem run_checks_pass_iff (hb : b.SAFE_PROMISE_STREAMS = true) (hs : Sane s)
    (ops : List (Op R D E K σ)) :
    Pass (run_checks b call ops s) ↔ NeverUnwinds b call ops s := by
  induction ops generalizing s with
  | nil => exact iff_of_true pass_nil trivial
  | cons op ops ih =>
    rw [run_checks, pass_append, (step_checks_spec hb hs op).pass, ih (step_sane hs op)]
    rfl

theorem run_exceptions_origin (hb : b.SAFE_PROMISE_STREAMS = true) (hs : Sane s)
    (ops : List (Op R D E K σ)) (h : NeverUnwinds b call ops s) :
    ∀ x ∈ run_exceptions b call ops s, Origin b call x := by
  induction ops generalizing s with
  | nil =>
    intro x hx
    cases hx
  | cons op ops ih =>
    obtain ⟨hstep, hrest⟩ := h
    intro x hx
    rcases List.mem_append.mp hx with hx | hx
    · exact (step_checks_spec hb hs op).origin hstep x (Option.mem_toList.mp hx)
    · exact ih (step_sane hs op) hrest x hx

/-- **When the checks of a stream hold**, and its exceptions are those of its users. -/
theorem checks_pass_iff [Inhabited R] (hb : b.SAFE_PROMISE_STREAMS = true) (world : σ)
    (ops : List (Op R D E K σ)) :
    (Pass (run_checks b call ops (new world)) ∧
        ∀ x ∈ run_exceptions b call ops (new world), Origin b call x)
      ↔ NeverUnwinds b call ops (new world) := by
  have hs : Sane (new world : PromiseStreamState R D E K σ) := sane_new world
  rw [run_checks_pass_iff hb hs ops]
  constructor
  · intro h
    exact h.1
  · intro h
    exact ⟨h, run_exceptions_origin hb hs ops h⟩

/-- The consumer answers later each time, and the chain that is bound to the result promise
throws when the stream is completed: the exception leaves the settlement of the answer. -/
theorem checks_pass_iff_answers_later :
    let call : Unit → Outcome ℕ Unit → Unit → Ended Unit (ExceptionPtr Unit) :=
      fun _ _ w => throws w (.user ())
    let later : Consumer ℕ Unit Unit := fun w _ => (w, .pending)
    let ops : List (Op ℕ ℕ Unit Unit Unit) :=
      [.stream later, .bind_result (), .write 1, .resolve 7, .answer (.ok .Continue)]
    Pass (run_checks Build.debug call ops (new ())) ∧
      run_exceptions Build.debug call ops (new ()) = [.user ()] := by
  intro call later ops
  have hnever : NeverUnwinds Build.debug call ops (new ()) := by
    refine ⟨?_, fun h => h, fun h => h, fun h => h, ?_, trivial⟩
    · -- there is no result yet
      rintro ⟨-, hst, -⟩
      cases hst
    · -- there is no datum left
      rintro ⟨-, -, -, -, -, d, buffer, -, -, hb, -⟩
      have hempty : (run Build.debug call (ops.take 4) (new ())).buffer = [] := by decide +kernel
      exact List.cons_ne_nil d buffer (hb.symm.trans hempty)
  exact ⟨((checks_pass_iff rfl () ops).mpr hnever).1, by decide +kernel⟩

/-- The consumer answers the first datum later and the second one at once, and the chain
throws when the stream is completed. The handler of the second call resets the flag that
the continuation has reset before, and the exception of the chain is lost. -/
theorem not_pass_second_call :
    let call : Unit → Outcome ℕ Unit → ℕ → Ended ℕ (ExceptionPtr Unit) :=
      fun _ _ w => throws w (.user ())
    let consumer : Consumer ℕ Unit ℕ := fun w _ =>
      (w + 1, if w = 0 then .pending else .settled (.ok .Continue))
    let ops : List (Op ℕ ℕ Unit Unit ℕ) :=
      [.stream consumer, .bind_result (), .write 1, .write 2, .resolve 7, .answer (.ok .Continue)]
    ¬ Pass (run_checks Build.debug call ops (new 0)) ∧
      run_exceptions Build.debug call ops (new 0)
        = [.logic_error "set_consumer_is_running: concurrent consumers detected"] := by
  decide +kernel

end Exceptions

end PromiseStreamState
end Kaiu
