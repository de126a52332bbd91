/-
What an operation on a stream can do, one small step at a time.

The operations of `promise_stream.tcc` call each other through the consumer's
promise, and each of them moves the flags of `promise_stream.cpp`, which may move
the state. Under the invariant `Sane` only the changes listed in `Tick` are left,
and every operation is a sequence of them (`step_spec`). Nothing that is said
about streams afterwards unfolds the code again: an invariant is shown for each
`Tick`, and holds in particular at every point of the log.
-/
import Kaiu.StreamState
import Kaiu.Library.History

set_option autoImplicit false

namespace Kaiu
namespace PromiseStreamState

open Exit Relation

variable {R D E K σ : Type*} {b : Build} {call : K → Outcome R E → σ → Ended σ (ExceptionPtr E)}

/-- What the producer ends the stream with. -/
def Op.ends : Op R D E K σ → Option (Outcome R E)
  | .resolve result => some (.resolved result)
  | .reject error => some (.rejected error)
  | _ => none

/-- `do_resolve` leaves the action as it is, `do_reject` sets it to `Stop`. -/
def action_after : Outcome R E → StreamAction → StreamAction
  | .resolved _, action => action
  | .rejected _, _ => .Stop

/-- The result that `do_resolve` or `do_reject` records for the producer. -/
def recorded : Outcome R E → stream_result
  | .resolved _ => .resolved
  | .rejected _ => .rejected

/-- The stream with its result promise settled with `o`. The callbacks of the
result promise have run, and may have thrown. -/
def completed (b : Build) (call : K → Outcome R E → σ → Ended σ (ExceptionPtr E))
    (o : Outcome R E) (self_reference : Bool) (s : PromiseStreamState R D E K σ) :
    PromiseStreamState R D E K σ :=
  { s with
    state := .completed, completer := none
    proxy_promise := (PromiseState.settle b call o s.proxy_promise s.world).1.1
    world := (PromiseState.settle b call o s.proxy_promise s.world).1.2
    self_reference := self_reference, log := s.log ++ [.settle o s.world] }

/-- The answer is one that the operation brings, or that the consumer gives at
once. -/
def Answered (op : Op R D E K σ) (s : PromiseStreamState R D E K σ) (a : Answer E) : Prop :=
  op = .answer a ∨ ∃ c world d, s.on_data = some c ∧ (data c world d).2 = some a

/-- The small steps of the operation `op`. -/
inductive Tick (b : Build) (call : K → Outcome R E → σ → Ended σ (ExceptionPtr E))
    (op : Op R D E K σ) :
    PromiseStreamState R D E K σ → PromiseStreamState R D E K σ → Prop where
  | write_kept {s : PromiseStreamState R D E K σ} {d : D} (hop : op = .write d)
      (ha : s.action = .Continue) (hs : s.state ≠ .completed) :
      Tick b call op s { s with
        buffer := s.buffer ++ [d], stream_has_been_written_to := true, buffer_is_empty := false
        state := if s.state = .pending then .streaming1 else s.state
        log := s.log ++ [.write d] }
  | write_dropped {s : PromiseStreamState R D E K σ} {d : D} (hop : op = .write d)
      (ha : s.action ≠ .Continue) : Tick b call op s (s.logged (.write d))
  | write_refused {s : PromiseStreamState R D E K σ} {d : D} (hop : op = .write d)
      (ha : s.action = .Continue) (hr : s.result = .resolved ∨ s.result = .rejected) :
      Tick b call op s { s with buffer := s.buffer ++ [d], log := s.log ++ [.write d] }
  | write_late {s : PromiseStreamState R D E K σ} {d : D} (hop : op = .write d)
      (ha : s.action = .Continue) (hs : s.state = .completed) :
      Tick b call op s { s with
        buffer := s.buffer ++ [d], stream_has_been_written_to := true, buffer_is_empty := false
        log := s.log ++ [.write d] }
  | ended {s : PromiseStreamState R D E K σ} {o : Outcome R E} (hop : op.ends = some o) :
      Tick b call op s (s.logged (.ended o))
  | refused {s : PromiseStreamState R D E K σ} {o : Outcome R E} (hop : op.ends = some o)
      (hr : s.result ≠ .pending) (hlog : .ended o ∈ s.log) :
      Tick b call op s { s with action := action_after o s.action }
  | recorded {s : PromiseStreamState R D E K σ} {o : Outcome R E} (hop : op.ends = some o)
      (hr : s.result = .pending) (hs : s.state = .streaming1) (hb : s.buffer_is_empty = false)
      (hlog : .ended o ∈ s.log) :
      Tick b call op s { s with
        action := action_after o s.action, completer := some o, result := recorded o
        state := .streaming2 }
  | recorded_completes {s : PromiseStreamState R D E K σ} {o : Outcome R E} {ref : Bool}
      (hop : op.ends = some o) (hr : s.result = .pending)
      (hs : s.state = .pending ∨ s.state = .streaming1 ∧ s.buffer_is_empty = true)
      (hlog : .ended o ∈ s.log) :
      Tick b call op s (completed b call o ref
        { s with action := action_after o s.action, result := recorded o })
  | bound {s : PromiseStreamState R D E K σ} {c : Consumer D E σ} {ref : Bool}
      (hop : op = .stream c) :
      Tick b call op s { s with
        on_data := some c, data_callback_assigned := true, self_reference := ref }
  | result_bound {s : PromiseStreamState R D E K σ} {k : K} (hop : op = .bind_result k) :
      Tick b call op s { s with
        proxy_promise := (PromiseState.set_callbacks b call k s.proxy_promise s.world).1.1
        world := (PromiseState.set_callbacks b call k s.proxy_promise s.world).1.2 }
  | call {s : PromiseStreamState R D E K σ} {c : Consumer D E σ} {d : D} {buffer : List D}
      (hc : s.on_data = some c) (hrun : s.consumer_is_running = false)
      (hs : s.state = .streaming1 ∨ s.state = .streaming2) (ha : s.action = .Continue)
      (hb : s.buffer = d :: buffer) :
      Tick b call op s { s with
        buffer := buffer, consumer_is_running := true, world := (c s.world d).1
        log := s.log ++ [.call d] }
  | answer_action {s : PromiseStreamState R D E K σ} {a : StreamAction} (hout : s.outstanding)
      (hans : Answered op s (.ok a)) :
      Tick b call op s { s with
        action := a, consumer_is_running := false, log := s.log ++ [.answer (.ok a)] }
  | answer_failed {s : PromiseStreamState R D E K σ} {e : ExceptionPtr E} (hout : s.outstanding)
      (hans : Answered op s (.error e)) (hr : s.result = .pending) :
      Tick b call op s { s with
        action := .Stop, result := .consumer_failed, completer := some (.rejected e)
        state := .streaming2, consumer_is_running := false
        log := s.log ++ [.answer (.error e)] }
  | answer_late {s : PromiseStreamState R D E K σ} {e : ExceptionPtr E} (hout : s.outstanding)
      (hans : Answered op s (.error e)) (hr : s.result = .resolved ∨ s.result = .rejected) :
      Tick b call op s { s with action := .Stop, log := s.log ++ [.answer (.error e)] }
  | stopped {s : PromiseStreamState R D E K σ} (hout : s.outstanding = false) :
      Tick b call op s { s with consumer_is_running := false }
  | drained {s : PromiseStreamState R D E K σ} (hrun : s.consumer_is_running = false)
      (hs : s.state = .streaming1) (hb : s.buffer = [] ∨ s.action ≠ .Continue) :
      Tick b call op s { s with buffer := [], buffer_is_empty := true }
  | drained_completes {s : PromiseStreamState R D E K σ} {o : Outcome R E} {ref : Bool}
      (hrun : s.consumer_is_running = false) (hs : s.state = .streaming2)
      (hb : s.buffer = [] ∨ s.action ≠ .Continue) (ho : s.completer = some o) :
      Tick b call op s (completed b call o ref { s with buffer := [], buffer_is_empty := true })

/-- What every stream satisfies, between any two small steps. -/
structure Sane (s : PromiseStreamState R D E K σ) : Prop where
  pending_state : s.state = .pending → s.stream_has_been_written_to = false ∧
    s.buffer_is_empty = true ∧ s.result = .pending ∧ s.action = .Continue
  streaming1_state : s.state = .streaming1 → s.result = .pending
  streaming2_state : s.state = .streaming2 → s.result ≠ .pending ∧ s.buffer_is_empty = false
  streaming3_state : s.state ≠ .streaming3
  completed_state : s.state = .completed →
    s.completer = none ∧ s.result ≠ .pending ∧ s.proxy_promise.state ≠ .pending
  proxy : s.state ≠ .completed → s.proxy_promise.state = .pending
  completer : s.state ≠ .completed → s.result ≠ .pending → s.completer.isSome
  empty : s.buffer_is_empty = true → s.state ≠ .completed →
    s.buffer = [] ∧ s.consumer_is_running = false
  answered : (answers s.log).length ≤ (calls s.log).length
  calls_le : (calls s.log).length ≤ (answers s.log).length + 1
  running : s.outstanding = true → s.consumer_is_running = true ∧
    (s.state = .streaming1 ∨ s.state = .streaming2) ∧ s.result ≠ .consumer_failed
  failed : s.result = .consumer_failed → s.action ≠ .Continue
  unbound : s.on_data = none → s.data_callback_assigned = false

theorem Sane.states {s : PromiseStreamState R D E K σ} (hs : Sane s) :
    s.state = .pending ∨ s.state = .streaming1 ∨ s.state = .streaming2 ∨ s.state = .completed := by
  have := hs.streaming3_state
  cases h : s.state <;> simp_all

theorem sane_new [Inhabited R] (world : σ) :
    Sane (new world : PromiseStreamState R D E K σ) := by
  constructor <;> simp [new, PromiseState.new, outstanding, calls, answers]

theorem recorded_ne (o : Outcome R E) :
    recorded o ≠ .pending ∧ recorded o ≠ .consumer_failed := by
  cases o <;> simp [recorded]

theorem action_after_eq (o : Outcome R E) (a : StreamAction) :
    action_after o a = a ∨ action_after o a = .Stop := by
  cases o <;> simp [action_after]

theorem outstanding_iff {s : PromiseStreamState R D E K σ} :
    s.outstanding = true ↔ (answers s.log).length < (calls s.log).length := by
  rw [outstanding, decide_eq_true_eq]

/-- What is logged besides the calls and the answers is not looked at. -/
theorem Sane.of_log {s : PromiseStreamState R D E K σ} (hs : Sane s)
    {log : List (StreamEvent R D E σ)} (hc : calls log = calls s.log)
    (ha : answers log = answers s.log) : Sane { s with log := log } where
  pending_state := hs.pending_state
  streaming1_state := hs.streaming1_state
  streaming2_state := hs.streaming2_state
  streaming3_state := hs.streaming3_state
  completed_state := hs.completed_state
  proxy := hs.proxy
  completer := hs.completer
  empty := hs.empty
  answered := by
    rw [hc, ha]
    exact hs.answered
  calls_le := by
    rw [hc, ha]
    exact hs.calls_le
  running hout := by
    rw [outstanding_iff, hc, ha, ← outstanding_iff] at hout
    exact hs.running hout
  failed := hs.failed
  unbound := hs.unbound

/-- A stream with a result that no answer is due to can be completed, whatever its
state. -/
theorem sane_completed {s : PromiseStreamState R D E K σ} (o : Outcome R E) (ref : Bool)
    (hr : s.result ≠ .pending) (hproxy : s.proxy_promise.state = .pending)
    (hanswered : (answers s.log).length = (calls s.log).length)
    (hfailed : s.result = .consumer_failed → s.action ≠ .Continue)
    (hunbound : s.on_data = none → s.data_callback_assigned = false) :
    Sane (completed b call o ref s) := by
  have hc : calls (s.log ++ [.settle o s.world]) = calls s.log := by simp
  have ha : answers (s.log ++ [.settle o s.world]) = answers s.log := by simp
  refine Sane.of_log (s := { completed b call o ref s with log := s.log }) ?_ hc ha
  constructor
  case completed_state =>
    exact fun _ => ⟨rfl, hr, PromiseState.settle_settled b call o s.world hproxy⟩
  case answered => exact Nat.le_of_eq hanswered
  case calls_le =>
    show (calls s.log).length ≤ (answers s.log).length + 1
    omega
  case running =>
    intro hout
    rw [outstanding_iff] at hout
    exact absurd hanswered (Nat.ne_of_lt hout)
  case failed => exact hfailed
  case unbound => exact hunbound
  all_goals simp [completed]

/-- No answer is due in a state in which the consumer is not called. -/
theorem Sane.none_due {s : PromiseStreamState R D E K σ} (hs : Sane s)
    (hidle : s.consumer_is_running = false ∨ s.state = .pending) :
    (answers s.log).length = (calls s.log).length := by
  refine Nat.le_antisymm hs.answered (Nat.not_lt.mp fun hlt => ?_)
  obtain ⟨hrun, hstate, -⟩ := hs.running (outstanding_iff.mpr hlt)
  rcases hidle with hidle | hidle
  · rw [hidle] at hrun
    cases hrun
  · rw [hidle] at hstate
    rcases hstate with h | h <;> cases h

/-- Once an answer that was due has come, none is. -/
theorem Sane.answer_due {s : PromiseStreamState R D E K σ} (hs : Sane s)
    (hout : s.outstanding = true) (a : Answer E) :
    (answers (s.log ++ [.answer a])).length = (calls (s.log ++ [.answer a])).length := by
  have hlt := outstanding_iff.mp hout
  have hle := hs.calls_le
  simp only [calls_append, answers_append, List.append_nil, List.length_append,
    List.length_singleton]
  omega

/-- A datum is written to a stream that is not completed. -/
theorem Sane.has_written {s : PromiseStreamState R D E K σ} (hs : Sane s) (d : D)
    (hc : s.state ≠ .completed) :
    Sane { s with
      buffer := s.buffer ++ [d], stream_has_been_written_to := true, buffer_is_empty := false
      state := if s.state = .pending then .streaming1 else s.state } := by
  by_cases hp : s.state = .pending
  · -- the first datum: nothing has been recorded, and the consumer has not been called
    obtain ⟨-, -, hr, -⟩ := hs.pending_state hp
    have hdue := hs.none_due (Or.inr hp)
    simp only [if_pos hp]
    exact { hs with
      pending_state := nofun
      streaming1_state := fun _ => hr
      streaming2_state := nofun
      streaming3_state := nofun
      completed_state := nofun
      proxy := fun _ => hs.proxy hc
      completer := fun _ hne => absurd hr hne
      empty := nofun
      running := fun hout => absurd hdue (Nat.ne_of_lt (outstanding_iff.mp hout)) }
  · simp only [if_neg hp]
    exact { hs with
      pending_state := fun h => absurd h hp
      streaming2_state := fun h => ⟨(hs.streaming2_state h).1, rfl⟩
      empty := nofun }

/-- A result is recorded with its completer while the buffer is not empty. -/
theorem Sane.has_recorded {s : PromiseStreamState R D E K σ} (hs : Sane s)
    (hc : s.state ≠ .completed) (hb : s.buffer_is_empty = false) {result : stream_result}
    {action : StreamAction} (o : Outcome R E) (hr : result ≠ .pending)
    (hfailed : result = .consumer_failed → action ≠ .Continue)
    (hdue : s.outstanding = true → result ≠ .consumer_failed) :
    Sane { s with
      action := action, completer := some o, result := result, state := .streaming2 } := by
  have hrun := hs.running
  exact { hs with
    pending_state := nofun
    streaming1_state := nofun
    streaming2_state := fun _ => ⟨hr, hb⟩
    streaming3_state := nofun
    completed_state := nofun
    proxy := fun _ => hs.proxy hc
    completer := fun _ _ => rfl
    empty := fun he => by
      rw [hb] at he
      cases he
    running := fun hout => ⟨(hrun hout).1, Or.inr rfl, hdue hout⟩
    failed := hfailed }

/-- The consumer takes the first datum: it was idle, so no answer was due before. -/
theorem Sane.has_called {s : PromiseStreamState R D E K σ} {d : D} {buffer : List D} (hs : Sane s)
    (world : σ) (hrun : s.consumer_is_running = false)
    (hstate : s.state = .streaming1 ∨ s.state = .streaming2) (ha : s.action = .Continue)
    (hb : s.buffer = d :: buffer) :
    Sane { s with
      buffer := buffer, consumer_is_running := true, world := world
      log := s.log ++ [.call d] } := by
  have hdue := hs.none_due (Or.inl hrun)
  have hp : s.state ≠ .pending := by rcases hstate with h | h <;> simp [h]
  exact { hs with
    pending_state := fun h => absurd h hp
    empty := fun he hne => by
      rw [(hs.empty he hne).1] at hb
      cases hb
    answered := by
      simp only [calls_append, answers_append, List.append_nil, List.length_append]
      omega
    calls_le := by
      simp only [calls_append, answers_append, List.append_nil, List.length_append,
        List.length_singleton]
      omega
    running := fun _ => ⟨rfl, hstate, fun h => hs.failed h ha⟩ }

/-- An answer that was due has come, and the flag of the consumer is reset. -/
theorem Sane.has_answered {s : PromiseStreamState R D E K σ} (hs : Sane s)
    (hout : s.outstanding = true) (action : StreamAction) (a : Answer E) :
    Sane { s with
      action := action, consumer_is_running := false, log := s.log ++ [.answer a] } := by
  obtain ⟨-, hstate, hnf⟩ := hs.running hout
  have hdue := hs.answer_due hout a
  exact { hs with
    pending_state := fun h => by rcases hstate with h' | h' <;> simp [h'] at h
    empty := fun he hne => ⟨(hs.empty he hne).1, rfl⟩
    answered := Nat.le_of_eq hdue
    calls_le := Nat.le_succ_of_le (Nat.le_of_eq hdue.symm)
    running := fun hout' => absurd hdue (Nat.ne_of_lt (outstanding_iff.mp hout'))
    failed := fun h => absurd h hnf }

/-- A stream that an answer is due to is not empty, and it has not been completed. -/
theorem Sane.filled {s : PromiseStreamState R D E K σ} (hs : Sane s)
    (hout : s.outstanding = true) : s.buffer_is_empty = false := by
  obtain ⟨hrun, hst, -⟩ := hs.running hout
  by_contra hne
  have hidle := (hs.empty (by simpa using hne) (by rcases hst with h | h <;> simp [h])).2
  rw [hrun] at hidle
  cases hidle

/-- **Every small step keeps a stream sane.** What a step does not write it keeps; the
cases say why the fields that it writes agree with the others again. -/
theorem Tick.sane {op : Op R D E K σ} {s s' : PromiseStreamState R D E K σ} (hs : Sane s)
    (ht : Tick b call op s s') : Sane s' := by
  cases ht with
  | @write_kept d hop ha hc => exact (hs.has_written d hc).of_log (by simp) (by simp)
  | write_dropped hop ha => exact hs.of_log (by simp) (by simp)
  | @write_refused d hop ha hr =>
    -- a stream with a result is not `pending`, and its buffer counts as filled
    have hne : s.result ≠ .pending := by rcases hr with hr | hr <;> simp [hr]
    have hkept : Sane { s with buffer := s.buffer ++ [d] } :=
      { hs with
        empty := fun he hc => by
          rcases hs.states with hp | h1 | h2 | hc'
          · exact absurd (hs.pending_state hp).2.2.1 hne
          · exact absurd (hs.streaming1_state h1) hne
          · rw [(hs.streaming2_state h2).2] at he
            cases he
          · exact absurd hc' hc }
    exact hkept.of_log (by simp) (by simp)
  | @write_late d hop ha hc =>
    have hkept : Sane { s with
        buffer := s.buffer ++ [d], stream_has_been_written_to := true
        buffer_is_empty := false } :=
      { hs with
        pending_state := fun h => by rw [hc] at h; cases h
        streaming2_state := fun h => by rw [hc] at h; cases h
        empty := nofun }
    exact hkept.of_log (by simp) (by simp)
  | ended hop => exact hs.of_log (by simp) (by simp)
  | @refused o hop hr hlog =>
    exact { hs with
      pending_state := fun h => absurd (hs.pending_state h).2.2.1 hr
      failed := fun h => by
        rcases action_after_eq o s.action with ha | ha
        · rw [ha]
          exact hs.failed h
        · simp [ha] }
  | @recorded o hop hr h1 hb hlog =>
    exact hs.has_recorded (by simp [h1]) hb o (recorded_ne o).1
      (fun h => absurd h (recorded_ne o).2) fun _ => (recorded_ne o).2
  | @recorded_completes o ref hop hr hstate hlog =>
    have hdue : (answers s.log).length = (calls s.log).length := by
      rcases hstate with hp | ⟨h1, hb⟩
      · exact hs.none_due (Or.inr hp)
      · exact hs.none_due (Or.inl (hs.empty hb (by simp [h1])).2)
    have hproxy : s.proxy_promise.state = .pending := by
      refine hs.proxy ?_
      rcases hstate with hp | ⟨h1, -⟩ <;> simp [*]
    exact sane_completed o ref (recorded_ne o).1 hproxy hdue
      (fun h => absurd h (recorded_ne o).2) hs.unbound
  | bound hop => exact { hs with unbound := nofun }
  | @result_bound k hop =>
    have hbind := (PromiseState.set_callbacks_state b call k s.proxy_promise s.world).1
    exact { hs with
      completed_state := fun h => by
        obtain ⟨hnone, hne, hproxy⟩ := hs.completed_state h
        exact ⟨hnone, hne, fun h' => hproxy (hbind.mp h')⟩
      proxy := fun h => hbind.mpr (hs.proxy h) }
  | @call c d buffer hc hrun hstate ha hb => exact hs.has_called (c s.world d).1 hrun hstate ha hb
  | @answer_action a hout hans => exact hs.has_answered hout a (.ok a)
  | @answer_failed e hout hans hr =>
    -- the answer comes, and its failure is recorded
    have hne : s.state ≠ .completed := by
      rcases (hs.running hout).2.1 with h | h <;> simp [h]
    have hanswered := hs.has_answered hout .Stop (.error e)
    have hdue := hs.answer_due hout (.error e)
    exact hanswered.has_recorded hne (hs.filled hout) (.rejected e) nofun (fun _ => nofun)
      fun hout' => absurd hdue (Nat.ne_of_lt (outstanding_iff.mp hout'))
  | @answer_late e hout hans hr =>
    obtain ⟨hrun, hstate, -⟩ := hs.running hout
    have hdue := hs.answer_due hout (.error e)
    exact { hs with
      pending_state := fun h => by rcases hstate with h' | h' <;> simp [h'] at h
      answered := Nat.le_of_eq hdue
      calls_le := Nat.le_succ_of_le (Nat.le_of_eq hdue.symm)
      running := fun hout' => absurd hdue (Nat.ne_of_lt (outstanding_iff.mp hout'))
      failed := fun _ => nofun }
  | stopped hout =>
    exact { hs with
      empty := fun he hne => ⟨(hs.empty he hne).1, rfl⟩
      running := fun hout' => by
        have hout'' : s.outstanding = true := hout'
        rw [hout] at hout''
        cases hout'' }
  | drained hrun h1 hb =>
    exact { hs with
      pending_state := fun h => by
        rw [h1] at h
        cases h
      streaming2_state := fun h => by
        rw [h1] at h
        cases h
      empty := fun _ _ => ⟨rfl, hrun⟩ }
  | @drained_completes o ref hrun h2 hb ho =>
    have hne : s.state ≠ .completed := by simp [h2]
    exact sane_completed (s := { s with buffer := [], buffer_is_empty := true }) o ref
      (hs.streaming2_state h2).1 (hs.proxy hne) (hs.none_due (Or.inl hrun)) hs.failed hs.unbound

/-! ## `update_state`, by state -/

section Machine

variable {s s' : PromiseStreamState R D E K σ} {op : Op R D E K σ}

/-- The flags give `update_state` nothing to do. -/
def Quiet (s : PromiseStreamState R D E K σ) : Prop :=
  s.state = .streaming1 ∧ s.result = .pending ∨
    s.state = .streaming2 ∧ s.buffer_is_empty = false

theorem Sane.quiet (hs : Sane s) (hp : s.state ≠ .pending) (hc : s.state ≠ .completed) :
    Quiet s := by
  cases hst : s.state with
  | pending => exact absurd hst hp
  | streaming1 => exact Or.inl ⟨hst, hs.streaming1_state hst⟩
  | streaming2 => exact Or.inr ⟨hst, (hs.streaming2_state hst).2⟩
  | streaming3 => exact absurd hst hs.streaming3_state
  | completed => exact absurd hst hc

theorem update_quiet (hq : Quiet s) : update_state b call s = returns s := by
  rcases hq with ⟨hs, hr⟩ | ⟨hs, hb⟩
  · simp [update_state, hs, update_streaming1, hr]
  · simp [update_state, hs, update_streaming2, hb]

/-- A completed stream has nothing to call any more. -/
theorem update_again (hs : s.state = .completed) (hr : s.result ≠ .pending)
    (hc : s.completer = none) : update_state b call s = throws s .bad_function_call := by
  obtain ⟨⟩ := s
  simp only at hs hr hc
  subst hs hc
  simp [update_state, update_completed, hr]

/-- The completer settles the result promise, whatever the callbacks that it runs
do. -/
theorem complete_spec {o : Outcome R E} (b : Build)
    (call : K → Outcome R E → σ → Ended σ (ExceptionPtr E)) (hr : s.result ≠ .pending)
    (hc : s.completer = some o) :
    ∃ ref, (update_completed b call { s with state := .completed }).1
      = completed b call o ref s := by
  obtain ⟨⟩ := s
  simp only at hr hc
  subst hc
  simp only [update_completed, if_pos hr, complete_with, logged, completed]
  rcases PromiseState.settle b call o _ _ with ⟨⟨p, world⟩, _ | x⟩
  · exact ⟨false, rfl⟩
  · exact ⟨_, rfl⟩

/-- What the completion of a stream throws is what settling the result promise throws. -/
theorem complete_throws {o : Outcome R E} (b : Build)
    (call : K → Outcome R E → σ → Ended σ (ExceptionPtr E)) (hr : s.result ≠ .pending)
    (hc : s.completer = some o) :
    (update_completed b call { s with state := .completed }).2
      = (PromiseState.settle b call o s.proxy_promise s.world).2 := by
  unfold update_completed
  rw [if_pos hr]
  simp only [hc]
  cases hsettle : (PromiseState.settle b call o s.proxy_promise s.world).2 with
  | none =>
    rw [andThen_of_returned (by exact hsettle)]
    rfl
  | some x =>
    rw [andThen_of_threw (x := x) (by exact hsettle)]
    exact hsettle

/-- A result comes to a stream that has not been written to. -/
theorem update_pending_eq (b : Build) (call : K → Outcome R E → σ → Ended σ (ExceptionPtr E))
    (hs : s.state = .pending) (hw : s.stream_has_been_written_to = false)
    (hr : s.result ≠ .pending) :
    update_state b call s = update_completed b call { s with state := .completed } := by
  simp [update_state, hs, update_pending, hw, hr, set_state_then, check_transition]

/-- The buffer of a stream that has a result is found empty. -/
theorem update_streaming2_eq (b : Build) (call : K → Outcome R E → σ → Ended σ (ExceptionPtr E))
    (hs : s.state = .streaming2) (hb : s.buffer_is_empty = true)
    (hrun : s.consumer_is_running = false) :
    update_state b call s = update_completed b call { s with state := .completed } := by
  simp [update_state, hs, update_streaming2, hb, update_streaming3, hrun, set_state_then,
    check_transition]

/-- A result comes to a stream whose data are all consumed. -/
theorem update_streaming1_eq (b : Build) (call : K → Outcome R E → σ → Ended σ (ExceptionPtr E))
    (hs : s.state = .streaming1) (hb : s.buffer_is_empty = true)
    (hrun : s.consumer_is_running = false) (hr : s.result ≠ .pending) :
    update_state b call s = update_completed b call { s with state := .completed } := by
  simp [update_state, hs, update_streaming1, hr, update_streaming2, hb, update_streaming3, hrun,
    set_state_then, check_transition]

theorem update_pending_completes {o : Outcome R E} (b : Build)
    (call : K → Outcome R E → σ → Ended σ (ExceptionPtr E)) (hs : s.state = .pending)
    (hw : s.stream_has_been_written_to = false) (hr : s.result ≠ .pending)
    (hc : s.completer = some o) :
    ∃ ref, (update_state b call s).1 = completed b call o ref s := by
  rw [update_pending_eq b call hs hw hr]
  exact complete_spec b call hr hc

theorem update_streaming2_completes {o : Outcome R E} (b : Build)
    (call : K → Outcome R E → σ → Ended σ (ExceptionPtr E)) (hs : s.state = .streaming2)
    (hb : s.buffer_is_empty = true) (hrun : s.consumer_is_running = false)
    (hr : s.result ≠ .pending) (hc : s.completer = some o) :
    ∃ ref, (update_state b call s).1 = completed b call o ref s := by
  rw [update_streaming2_eq b call hs hb hrun]
  exact complete_spec b call hr hc

/-- What an emptied buffer throws is what settling the result promise throws. -/
theorem update_streaming2_throws {o : Outcome R E} (b : Build)
    (call : K → Outcome R E → σ → Ended σ (ExceptionPtr E)) (hs : s.state = .streaming2)
    (hb : s.buffer_is_empty = true) (hrun : s.consumer_is_running = false)
    (hr : s.result ≠ .pending) (hc : s.completer = some o) :
    (update_state b call s).2 = (PromiseState.settle b call o s.proxy_promise s.world).2 := by
  rw [update_streaming2_eq b call hs hb hrun]
  exact complete_throws b call hr hc

theorem update_streaming1_completes {o : Outcome R E} (b : Build)
    (call : K → Outcome R E → σ → Ended σ (ExceptionPtr E)) (hs : s.state = .streaming1)
    (hb : s.buffer_is_empty = true) (hrun : s.consumer_is_running = false)
    (hr : s.result ≠ .pending) (hc : s.completer = some o) :
    ∃ ref, (update_state b call s).1 = completed b call o ref s := by
  rw [update_streaming1_eq b call hs hb hrun hr]
  exact complete_spec b call hr hc

/-- A result comes to a stream that has data left. -/
theorem update_streaming1_recorded (b : Build)
    (call : K → Outcome R E → σ → Ended σ (ExceptionPtr E)) (hs : s.state = .streaming1)
    (hb : s.buffer_is_empty = false) (hr : s.result ≠ .pending) :
    update_state b call s = returns { s with state := .streaming2 } := by
  simp [update_state, hs, update_streaming1, hr, update_streaming2, hb, set_state_then,
    check_transition]

/-- The first datum is written. -/
theorem update_pending_written (b : Build)
    (call : K → Outcome R E → σ → Ended σ (ExceptionPtr E)) (hs : s.state = .pending)
    (hw : s.stream_has_been_written_to = true) (hr : s.result = .pending) :
    update_state b call s = returns { s with state := .streaming1 } := by
  simp [update_state, hs, update_pending, hw, update_streaming1, hr, set_state_then,
    check_transition]

/-! ## The consumer -/

/-- Both flags of the consumer can be set while `update_state` has nothing to do. -/
theorem set_running_quiet {value : Bool} (hq : Quiet s) (hne : s.consumer_is_running ≠ value) :
    set_consumer_is_running b call value s = returns { s with consumer_is_running := value } := by
  have hq' : Quiet { s with consumer_is_running := value } := hq
  simp [set_consumer_is_running, hne, update_quiet hq']

/-- The handler of `call_data_callback` resets the flag, or finds nothing to
reset; it does not run the completer a second time. -/
theorem handler_spec (b : Build) (call : K → Outcome R E → σ → Ended σ (ExceptionPtr E))
    (hs : Sane s) (hstate : s.state ≠ .pending) :
    (set_consumer_is_running b call false s).1 = { s with consumer_is_running := false } := by
  unfold set_consumer_is_running
  split
  · rename_i hsame
    show s = { s with consumer_is_running := false }
    rw [← hsame.2]
  · by_cases hc : s.state = .completed
    · obtain ⟨hnone, hr, -⟩ := hs.completed_state hc
      have hagain : update_state b call { s with consumer_is_running := false }
          = throws { s with consumer_is_running := false } .bad_function_call :=
        update_again hc hr hnone
      rw [hagain]
      rfl
    · have hq : Quiet { s with consumer_is_running := false } := hs.quiet hstate hc
      rw [update_quiet hq]
      rfl

/-! ## `process_data` -/

/-- The small steps of the operation `op`, one after the other. -/
abbrev Ticks (b : Build) (call : K → Outcome R E → σ → Ended σ (ExceptionPtr E))
    (op : Op R D E K σ) (s s' : PromiseStreamState R D E K σ) : Prop :=
  ReflTransGen (Tick b call op) s s'

theorem Ticks.sane (hs : Sane s) (ht : Ticks b call op s s') : Sane s' :=
  History.keeps (fun _ _ hs h => h.sane hs) hs ht

/-- Something is logged, or nothing. -/
theorem tick_appends (op : Op R D E K σ) : History.Appends (Tick b call op) log := by
  intro s s' ht
  cases ht <;> first | exact Or.inl rfl | exact Or.inr ⟨_, rfl⟩

/-- Only an operation that ends the stream logs an end. -/
theorem Tick.ended_or {o : Outcome R E} (ht : Tick b call op s s') (ho : .ended o ∈ s'.log) :
    op.ends = some o ∨ .ended o ∈ s.log := by
  cases ht with
  | @ended o' hop =>
    rcases List.mem_append.mp ho with ho | ho
    · exact Or.inr ho
    · cases List.mem_singleton.mp ho
      exact Or.inl hop
  | _ => exact Or.inr (by simpa [logged, completed] using ho)

/-- Only `stream` binds a consumer. -/
theorem Tick.bound_or {c : Consumer D E σ} (ht : Tick b call op s s') (hc : s'.on_data = some c) :
    op = .stream c ∨ s.on_data = some c := by
  cases ht with
  | bound hop =>
    cases hc
    exact Or.inl hop
  | _ => exact Or.inr hc

theorem Ticks.log_mono (ht : Ticks b call op s s') : s.log <+: s'.log := (tick_appends op).mono ht

theorem Ticks.not_pending (hs : s.state ≠ .pending) (ht : Ticks b call op s s') :
    s'.state ≠ .pending := by
  refine History.keeps (I := fun s => s.state ≠ .pending) (fun _ _ hs h => ?_) hs ht
  cases h <;> simp_all [logged, completed]

/-- The consumer has failed between the two states. -/
def Failed (s s' : PromiseStreamState R D E K σ) : Prop :=
  ∃ new e, s'.log = s.log ++ new ∧ .answer (.error e) ∈ new

theorem Failed.of_ticks {t : PromiseStreamState R D E K σ} (ht : Ticks b call op s t)
    (hf : Failed t s') : Failed s s' := by
  obtain ⟨new, e, heq, hmem⟩ := hf
  obtain ⟨earlier, hlog⟩ := ht.log_mono
  exact ⟨earlier ++ new, e, by rw [heq, ← hlog, List.append_assoc], List.mem_append_right _ hmem⟩

/-- There is nothing that `process_data` could still do. -/
def Idle (s : PromiseStreamState R D E K σ) : Prop :=
  s.on_data.isSome = true → s.consumer_is_running = false →
    s.state = .streaming1 ∨ s.state = .streaming2 → s.buffer_is_empty = true

/-- What `process_data` and the functions it calls do. -/
structure ProcessSpec (b : Build) (call : K → Outcome R E → σ → Ended σ (ExceptionPtr E))
    (op : Op R D E K σ) (s : PromiseStreamState R D E K σ)
    (r : Ended (PromiseStreamState R D E K σ) (ExceptionPtr E)) : Prop where
  ticks : Ticks b call op s r.1
  thrown : r.2 ≠ none → r.1.outstanding = false ∧ (r.1.state = .completed ∨ Failed s r.1)
  idle : Idle r.1 ∨ Failed s r.1
  failure_returns : s.result = .pending → r.1.result = .consumer_failed → r.2 = none

/-- A call that is not outstanding has been answered. -/
theorem Sane.not_outstanding (hs : Sane s) (hrun : s.consumer_is_running = false) :
    s.outstanding = false := by
  by_contra hne
  have := (hs.running (by simpa using hne)).1
  simp [hrun] at this

/-- The buffer of a stream without a result is found empty, or is emptied. -/
theorem emptied_streaming1 (b : Build) (call : K → Outcome R E → σ → Ended σ (ExceptionPtr E))
    (hs : Sane s) (hst : s.state = .streaming1) :
    set_buffer_is_empty b call { s with buffer := [] }
      = returns { s with buffer := [], buffer_is_empty := true } := by
  unfold set_buffer_is_empty
  split
  · rename_i hempty
    simp only at hempty
    rw [← hempty]
  · exact update_quiet (Or.inl ⟨hst, hs.streaming1_state hst⟩)

/-- The buffer of a stream with a result is emptied, and the stream completed: that throws
what settling the result promise throws. -/
theorem emptied_streaming2 (b : Build) (call : K → Outcome R E → σ → Ended σ (ExceptionPtr E))
    (hs : Sane s) (hst : s.state = .streaming2) (hrun : s.consumer_is_running = false) :
    ∃ o ref, s.completer = some o ∧
      (set_buffer_is_empty b call { s with buffer := [] }).1
        = completed b call o ref { s with buffer := [], buffer_is_empty := true } ∧
      (set_buffer_is_empty b call { s with buffer := [] }).2
        = (PromiseState.settle b call o s.proxy_promise s.world).2 := by
  obtain ⟨hr, hempty⟩ := hs.streaming2_state hst
  obtain ⟨o, ho⟩ := Option.isSome_iff_exists.mp (hs.completer (by simp [hst]) hr)
  have heq : set_buffer_is_empty b call { s with buffer := [] }
      = update_state b call { s with buffer := [], buffer_is_empty := true } := by
    unfold set_buffer_is_empty
    rw [if_neg (by simp [hempty])]
  obtain ⟨ref, hcompleted⟩ := update_streaming2_completes b call
    (s := { s with buffer := [], buffer_is_empty := true }) hst rfl hrun hr ho
  have hthrown := update_streaming2_throws b call
    (s := { s with buffer := [], buffer_is_empty := true }) hst rfl hrun hr ho
  rw [heq]
  exact ⟨o, ref, ho, hcompleted, hthrown⟩

/-- The buffer is found empty, or is emptied. -/
theorem drain_spec (b : Build) (call : K → Outcome R E → σ → Ended σ (ExceptionPtr E))
    (op : Op R D E K σ) (hs : Sane s) (hrun : s.consumer_is_running = false)
    (hst : s.state = .streaming1 ∨ s.state = .streaming2)
    (hb : s.buffer = [] ∨ s.action ≠ .Continue) :
    ProcessSpec b call op s (set_buffer_is_empty b call { s with buffer := [] }) := by
  rcases hst with hst | hst
  · rw [emptied_streaming1 b call hs hst]
    exact ⟨.single (.drained hrun hst hb), fun hne => absurd rfl hne,
      Or.inl fun _ _ _ => rfl, fun _ _ => rfl⟩
  · obtain ⟨o, ref, ho, hfst, -⟩ := emptied_streaming2 b call hs hst hrun
    have hr := (hs.streaming2_state hst).1
    refine ⟨?_, fun _ => ⟨?_, Or.inl ?_⟩, Or.inl fun _ _ hst' => ?_, fun hr' => absurd hr' hr⟩
    · rw [hfst]
      exact .single (.drained_completes hrun hst hb ho)
    · rw [hfst]
      have hout := hs.not_outstanding hrun
      simpa [outstanding, completed] using hout
    · rw [hfst]
      rfl
    · rw [hfst] at hst'
      simp [completed] at hst'

/-- What `take_data` finds: nothing to do, a buffer to empty, or a datum to take. -/
inductive Taking (s : PromiseStreamState R D E K σ) : Prop where
  | nothing (h : (s.state ≠ .streaming1 ∧ s.state ≠ .streaming2) ∨
      s.on_data.isNone = true ∨ s.consumer_is_running = true)
  | drains {c : Consumer D E σ} (hc : s.on_data = some c) (hrun : s.consumer_is_running = false)
      (hst : s.state = .streaming1 ∨ s.state = .streaming2)
      (hb : s.buffer = [] ∨ s.action ≠ .Continue)
  | takes {c : Consumer D E σ} {d : D} {buffer : List D} (hc : s.on_data = some c)
      (hrun : s.consumer_is_running = false) (hst : s.state = .streaming1 ∨ s.state = .streaming2)
      (ha : s.action = .Continue) (hb : s.buffer = d :: buffer)

theorem taking (s : PromiseStreamState R D E K σ) : Taking s := by
  by_cases hst : s.state ≠ .streaming1 ∧ s.state ≠ .streaming2
  · exact .nothing (Or.inl hst)
  · have hst : s.state = .streaming1 ∨ s.state = .streaming2 := by
      by_contra hne
      exact hst (not_or.mp hne)
    cases hc : s.on_data with
    | none => exact .nothing (Or.inr (Or.inl (by rw [hc]; rfl)))
    | some c =>
      cases hrun : s.consumer_is_running with
      | true => exact .nothing (Or.inr (Or.inr hrun))
      | false =>
        by_cases ha : s.action = .Continue
        · cases hb : s.buffer with
          | nil => exact .drains hc hrun hst (Or.inl hb)
          | cons d buffer => exact .takes hc hrun hst ha hb
        · exact .drains hc hrun hst (Or.inr ha)

theorem take_data_nothing (b : Build) (call : K → Outcome R E → σ → Ended σ (ExceptionPtr E))
    (h : (s.state ≠ .streaming1 ∧ s.state ≠ .streaming2) ∨
      s.on_data.isNone = true ∨ s.consumer_is_running = true) :
    take_data b call s = (none, returns s) := by
  unfold take_data
  rcases h with hst | hnone | hrun
  · rw [if_pos hst]
  · rw [if_pos hnone, ite_self]
  · rw [if_pos hrun, ite_self, ite_self]

theorem take_data_drains {c : Consumer D E σ} (b : Build)
    (call : K → Outcome R E → σ → Ended σ (ExceptionPtr E)) (hc : s.on_data = some c)
    (hrun : s.consumer_is_running = false) (hst : s.state = .streaming1 ∨ s.state = .streaming2)
    (hb : s.buffer = [] ∨ s.action ≠ .Continue) :
    take_data b call s = (none, set_buffer_is_empty b call { s with buffer := [] }) := by
  have hst' : ¬ (s.state ≠ .streaming1 ∧ s.state ≠ .streaming2) := fun h => hst.elim h.1 h.2
  unfold take_data
  rw [if_neg hst', if_neg (by simp [hc]), if_neg (by simp [hrun])]
  by_cases ha : s.action = .Continue
  · have hnil := hb.resolve_right (not_not.mpr ha)
    have heq : { s with buffer := [] } = s := by rw [← hnil]
    rw [heq]
    simp [ha, hnil]
  · simp [ha]

theorem take_data_takes {c : Consumer D E σ} {d : D} {buffer : List D} (b : Build)
    (call : K → Outcome R E → σ → Ended σ (ExceptionPtr E)) (hc : s.on_data = some c)
    (hrun : s.consumer_is_running = false) (hst : s.state = .streaming1 ∨ s.state = .streaming2)
    (ha : s.action = .Continue) (hb : s.buffer = d :: buffer) :
    take_data b call s = (some d, returns { s with buffer := buffer }) := by
  unfold take_data
  rcases hst with hst | hst <;> simp [hst, hc, hrun, ha, hb]

/-- `take_data` takes no datum, or that of a consumer that is called next. -/
theorem take_data_spec (b : Build) (call : K → Outcome R E → σ → Ended σ (ExceptionPtr E))
    (op : Op R D E K σ) (hs : Sane s) :
    (∃ r, take_data b call s = (none, r) ∧ ProcessSpec b call op s r) ∨
    (∃ d buffer c, take_data b call s = (some d, returns { s with buffer := buffer }) ∧
      s.buffer = d :: buffer ∧ s.on_data = some c ∧ s.consumer_is_running = false ∧
      (s.state = .streaming1 ∨ s.state = .streaming2) ∧ s.action = .Continue) := by
  cases taking s with
  | nothing h =>
    have hidle : Idle s := by
      intro hsome hrun hst
      rcases h with hst' | hnone | hrun'
      · exact (hst.elim hst'.1 hst'.2).elim
      · rw [Option.isNone_iff_eq_none.mp hnone] at hsome
        cases hsome
      · rw [hrun] at hrun'
        cases hrun'
    exact Or.inl ⟨_, take_data_nothing b call h, .refl, fun hne => absurd rfl hne, Or.inl hidle,
      fun _ _ => rfl⟩
  | drains hc hrun hst hb =>
    exact Or.inl ⟨_, take_data_drains b call hc hrun hst hb, drain_spec b call op hs hrun hst hb⟩
  | takes hc hrun hst ha hb =>
    exact Or.inr ⟨_, _, _, take_data_takes b call hc hrun hst ha hb, hb, hc, hrun, hst, ha⟩

/-- An answer that is an action is noted, and `process_data` goes on. -/
theorem continuation_ok (b : Build) (call : K → Outcome R E → σ → Ended σ (ExceptionPtr E))
    (process_data : PromiseStreamState R D E K σ →
      Ended (PromiseStreamState R D E K σ) (ExceptionPtr E))
    (hs : Sane s) (hout : s.outstanding = true) (a : StreamAction) :
    continuation b call process_data (.ok a) s = process_data { s with
      action := a, consumer_is_running := false, log := s.log ++ [.answer (.ok a)] } := by
  obtain ⟨hrun, hst, -⟩ := hs.running hout
  have hquiet : Quiet s := hs.quiet (by rcases hst with h | h <;> simp [h])
    (by rcases hst with h | h <;> simp [h])
  have hset : set_consumer_is_running b call false
      { s.logged (.answer (.ok a)) with action := a } = returns { s with
        action := a, consumer_is_running := false, log := s.log ++ [.answer (.ok a)] } :=
    set_running_quiet hquiet (by simp [logged, hrun])
  simp only [continuation]
  rw [hset, returns_andThen]

/-- A failure is refused when the producer's result is recorded: `set_stream_result`
throws. -/
theorem continuation_late (b : Build) (call : K → Outcome R E → σ → Ended σ (ExceptionPtr E))
    (process_data : PromiseStreamState R D E K σ →
      Ended (PromiseStreamState R D E K σ) (ExceptionPtr E))
    (hr : s.result = .resolved ∨ s.result = .rejected) (e : ExceptionPtr E) :
    continuation b call process_data (.error e) s
      = throws { s with action := .Stop, log := s.log ++ [.answer (.error e)] }
        (.logic_error "Attempted to resolve promise stream multiple times") := by
  rcases hr with hr | hr <;> simp [continuation, do_reject, set_stream_result, logged, hr]

/-- The failure of the consumer becomes the result of a stream that has none. -/
theorem do_reject_failed (b : Build) (call : K → Outcome R E → σ → Ended σ (ExceptionPtr E))
    (hst : s.state = .streaming1) (hempty : s.buffer_is_empty = false) (hr : s.result = .pending)
    (e : ExceptionPtr E) :
    do_reject b call e true s = returns { s with
      action := .Stop, result := .consumer_failed, completer := some (.rejected e)
      state := .streaming2 } := by
  have hset := update_streaming1_recorded (s := { s with
    action := .Stop, result := .consumer_failed, completer := some (.rejected e) }) b call hst
    hempty (by simp)
  simp only [do_reject, set_stream_result, hr, if_true, reduceCtorEq, if_false, ne_eq,
    not_true_eq_false]
  exact hset

/-- A failure that comes before there is a result does not throw. -/
theorem continuation_failed (b : Build) (call : K → Outcome R E → σ → Ended σ (ExceptionPtr E))
    (process_data : PromiseStreamState R D E K σ →
      Ended (PromiseStreamState R D E K σ) (ExceptionPtr E))
    (hs : Sane s) (hout : s.outstanding = true) (hr : s.result = .pending) (e : ExceptionPtr E) :
    continuation b call process_data (.error e) s = returns { s with
      action := .Stop, result := .consumer_failed, completer := some (.rejected e)
      state := .streaming2, consumer_is_running := false
      log := s.log ++ [.answer (.error e)] } := by
  obtain ⟨hrun, hst, -⟩ := hs.running hout
  have hst : s.state = .streaming1 := hst.resolve_right fun h => (hs.streaming2_state h).1 hr
  have hempty := hs.filled hout
  have hreject := do_reject_failed b call (s := s.logged (.answer (.error e))) hst hempty hr e
  have hrunning : set_consumer_is_running b call false { s.logged (.answer (.error e)) with
        action := .Stop, result := .consumer_failed, completer := some (.rejected e)
        state := .streaming2 } = returns _ :=
    set_running_quiet (Or.inr ⟨rfl, hempty⟩) (by simp [logged, hrun])
  simp only [continuation]
  rw [hreject, returns_andThen, hrunning]
  rfl

/-- The continuation of the consumer's promise, given that `process_data` is as
specified for streams with less in the buffer. -/
theorem continuation_spec {n : ℕ} (hs : Sane s) (hout : s.outstanding = true)
    (hlen : s.buffer.length < n)
    (ih : ∀ t : PromiseStreamState R D E K σ, Sane t → t.buffer.length < n →
      ProcessSpec b call op t (process_data b call n t)) {a : Answer E} (hans : Answered op s a) :
    ProcessSpec b call op s (continuation b call (process_data b call n) a s) := by
  obtain ⟨hrun, hst, hnf⟩ := hs.running hout
  cases a with
  | ok a =>
    have htick : Tick b call op s { s with
        action := a, consumer_is_running := false, log := s.log ++ [.answer (.ok a)] } :=
      .answer_action hout hans
    obtain ⟨hticks, hthrown, hidle, hfail⟩ := ih _ (htick.sane hs) hlen
    rw [continuation_ok b call _ hs hout a]
    have hsingle : Ticks b call op s _ := .single htick
    exact ⟨.head htick hticks, fun hne => (hthrown hne).imp_right (Or.imp_right (.of_ticks hsingle)),
      hidle.imp_right (.of_ticks hsingle), hfail⟩
  | error e =>
    cases hr : s.result with
    | consumer_failed => exact absurd hr hnf
    | pending =>
      have hfailed := continuation_failed b call (process_data b call n) hs hout hr e
      rw [hfailed]
      exact ⟨.single (.answer_failed hout hans hr), fun hne => absurd rfl hne,
        Or.inr ⟨_, e, rfl, by simp⟩, fun _ _ => rfl⟩
    | resolved | rejected =>
      -- the producer's result stands, and `set_stream_result` throws
      have hlate : Tick b call op s { s with action := .Stop, log := s.log ++ [.answer (.error e)] } :=
        .answer_late hout hans (by simp [hr])
      have hlated : s.result = .resolved ∨ s.result = .rejected := by simp [hr]
      have hthrows := continuation_late b call (process_data b call n) hlated e
      have hfailed : Failed s { s with action := .Stop, log := s.log ++ [.answer (.error e)] } :=
        ⟨_, e, rfl, by simp⟩
      have hanswered := hs.calls_le
      rw [hthrows]
      refine ⟨.single hlate, fun _ => ⟨?_, Or.inr hfailed⟩, Or.inr hfailed, by simp [hr]⟩
      simpa [outstanding] using hanswered

/-- The handler of `call_data_callback` changes the flag of the consumer at most. -/
theorem rethrowing_flag (b : Build) (call : K → Outcome R E → σ → Ended σ (ExceptionPtr E))
    {r : Ended (PromiseStreamState R D E K σ) (ExceptionPtr E)} (hs : Sane r.1)
    (hst : r.1.state ≠ .pending) :
    (rethrowing r (set_consumer_is_running b call false)).1 = r.1 ∨
      (rethrowing r (set_consumer_is_running b call false)).1
        = { r.1 with consumer_is_running := false } := by
  obtain ⟨t, _ | x⟩ := r
  · exact Or.inl rfl
  · rw [rethrowing_fst_of_threw]
    exact Or.inr (handler_spec b call hs hst)

/-- `catch (...)` in `call_data_callback`. -/
theorem rethrowing_spec {r : Ended (PromiseStreamState R D E K σ) (ExceptionPtr E)} (hs : Sane s)
    (hst : s.state ≠ .pending) (hr : ProcessSpec b call op s r) :
    ProcessSpec b call op s (rethrowing r (set_consumer_is_running b call false)) := by
  obtain ⟨t, _ | x⟩ := r
  · exact hr
  · obtain ⟨hticks, hthrown, hidle, hfail⟩ := hr
    obtain ⟨hout, hdone⟩ := hthrown (by simp)
    have hflag := rethrowing_flag b call (hticks.sane hs) (hticks.not_pending hst)
    generalize hq : rethrowing (t, some x) (set_consumer_is_running b call false) = q at hflag ⊢
    -- the handler changes the flag at most
    have hsame : Ticks b call op s q.1 ∧ q.1.outstanding = false ∧ q.1.state = t.state ∧
        q.1.log = t.log ∧ q.1.result = t.result := by
      rcases hflag with heq | heq <;> rw [heq]
      · exact ⟨hticks, hout, rfl, rfl, rfl⟩
      · exact ⟨hticks.tail (.stopped hout), hout, rfl, rfl, rfl⟩
    obtain ⟨hticks', hout', hstate, hlog, hresult⟩ := hsame
    have hdone' : q.1.state = .completed ∨ Failed s q.1 := by
      rw [hstate, Failed, hlog]
      exact hdone
    refine ⟨hticks', fun _ => ⟨hout', hdone'⟩, hdone'.imp_left fun hc _ _ hst' => ?_,
      fun hp hf => absurd (hfail hp (hresult ▸ hf)) (by simp)⟩
    simp [hc] at hst'

theorem data_fst (c : Consumer D E σ) (world : σ) (d : D) :
    (data c world d).1 = (c world d).1 := by
  unfold data
  rcases c world d with ⟨world, _ | _ | _⟩ <;> rfl

/-- The consumer has been called. -/
def called (c : Consumer D E σ) (d : D) (buffer : List D) (s : PromiseStreamState R D E K σ) :
    PromiseStreamState R D E K σ :=
  { s with
    buffer := buffer, consumer_is_running := true, world := (c s.world d).1
    log := s.log ++ [.call d] }

/-- The consumer has answered. -/
def noted (a : StreamAction) (s : PromiseStreamState R D E K σ) : PromiseStreamState R D E K σ :=
  { s with action := a, consumer_is_running := false, log := s.log ++ [.answer (.ok a)] }

/-- `call_data_callback`, when it can set its flag. -/
theorem call_data_callback_eq (b : Build)
    (call : K → Outcome R E → σ → Ended σ (ExceptionPtr E))
    {process_data : PromiseStreamState R D E K σ →
      Ended (PromiseStreamState R D E K σ) (ExceptionPtr E)} {c : Consumer D E σ} {d : D}
    {buffer : List D}
    (hset : set_consumer_is_running b call true { s with buffer := buffer }
      = returns { s with buffer := buffer, consumer_is_running := true })
    (hc : s.on_data = some c) :
    call_data_callback b call process_data d { s with buffer := buffer }
      = rethrowing (match (data c s.world d).2 with
          | none => returns (called c d buffer s)
          | some a => continuation b call process_data a (called c d buffer s))
        (set_consumer_is_running b call false) := by
  have hworld := data_fst c s.world d
  obtain ⟨_, _, _, _, _, _, _, _, _, _, _, _, world, _⟩ := s
  simp only at hc hworld
  subst hc
  unfold call_data_callback called
  rw [hset, returns_andThen]
  rcases hdata : data c world d with ⟨world', _ | a⟩ <;>
    rw [hdata] at hworld <;> simp only at hworld <;> subst hworld <;> simp only [hdata] <;> rfl

/-- `process_data`, when it calls the consumer. -/
theorem process_data_cons (b : Build) (call : K → Outcome R E → σ → Ended σ (ExceptionPtr E))
    (n : ℕ) {c : Consumer D E σ} {d : D} {buffer : List D} (hs : Sane s) (hc : s.on_data = some c)
    (hrun : s.consumer_is_running = false) (hst : s.state = .streaming1 ∨ s.state = .streaming2)
    (ha : s.action = .Continue) (hb : s.buffer = d :: buffer) :
    process_data b call (n + 1) s
      = rethrowing (match (data c s.world d).2 with
          | none => returns (called c d buffer s)
          | some a => continuation b call (process_data b call n) a (called c d buffer s))
        (set_consumer_is_running b call false) := by
  have hquiet : Quiet s := by
    apply hs.quiet
    · rcases hst with h | h <;> simp [h]
    · rcases hst with h | h <;> simp [h]
  have hset : set_consumer_is_running b call true { s with buffer := buffer }
      = returns { s with buffer := buffer, consumer_is_running := true } :=
    set_running_quiet hquiet (by simp [hrun])
  rw [process_data, take_data_takes b call hc hrun hst ha hb]
  simp only [returns_andThen]
  exact call_data_callback_eq b call hset hc

/-- A call of the consumer is outstanding until it is answered. -/
theorem Sane.called_outstanding (hs : Sane s) (c : Consumer D E σ) (d : D) (buffer : List D) :
    (called c d buffer s).outstanding = true := by
  simpa [called, outstanding] using Nat.lt_succ_of_le hs.answered

/-- What comes after a call of the consumer, given that `process_data` is as specified for
streams with less in the buffer. -/
theorem called_spec {n : ℕ} {c : Consumer D E σ} {d : D} {buffer : List D} (hs : Sane s)
    (hc : s.on_data = some c) (hcall : Tick b call op s (called c d buffer s))
    (hlen : buffer.length < n)
    (ih : ∀ t : PromiseStreamState R D E K σ, Sane t → t.buffer.length < n →
      ProcessSpec b call op t (process_data b call n t)) :
    ProcessSpec b call op (called c d buffer s) (match (data c s.world d).2 with
      | none => returns (called c d buffer s)
      | some a => continuation b call (process_data b call n) a (called c d buffer s)) := by
  cases hdata : (data c s.world d).2 with
  | none =>
    -- the consumer's promise is not settled yet
    refine ⟨.refl, fun hne => absurd rfl hne, Or.inl fun _ hrun _ => ?_, fun _ _ => rfl⟩
    cases hrun
  | some a =>
    have hanswered : Answered op (called c d buffer s) a := Or.inr ⟨c, s.world, d, hc, hdata⟩
    exact continuation_spec (hcall.sane hs) (hs.called_outstanding c d buffer) hlen ih hanswered

/-- **`process_data`.** The induction is on the data in the buffer: each call of
the consumer takes one. -/
theorem process_data_spec (n : ℕ) (s : PromiseStreamState R D E K σ) (hs : Sane s)
    (hlen : s.buffer.length < n) : ProcessSpec b call op s (process_data b call n s) := by
  induction n generalizing s with
  | zero => omega
  | succ n ih =>
    rcases take_data_spec b call op hs with
      ⟨r, htake, hr⟩ | ⟨d, buffer, c, htake, hb, hc, hrun, hst, ha⟩
    · rw [process_data, htake]
      exact hr
    · rw [process_data_cons b call n hs hc hrun hst ha hb]
      have hp : s.state ≠ .pending := by rcases hst with h | h <;> simp [h]
      have hcall : Tick b call op s (called c d buffer s) := .call hc hrun hst ha hb
      have hsingle : Ticks b call op s _ := .single hcall
      have hlen' : buffer.length < n := by
        rw [hb, List.length_cons] at hlen
        omega
      obtain ⟨hticks, hthrown, hidle, hfail⟩ := called_spec hs hc hcall hlen' ih
      have hwhole : ProcessSpec b call op s _ :=
        ⟨hsingle.trans hticks, fun hne => (hthrown hne).imp_right (Or.imp_right (.of_ticks hsingle)),
          hidle.imp_right (.of_ticks hsingle), hfail⟩
      exact rethrowing_spec hs hp hwhole

theorem process_spec (hs : Sane s) : ProcessSpec b call op s (process b call s) :=
  process_data_spec _ s hs (Nat.lt_succ_self _)

/-! ## The operations -/

/-- What an operation does. -/
structure StepSpec (b : Build) (call : K → Outcome R E → σ → Ended σ (ExceptionPtr E))
    (op : Op R D E K σ) (s : PromiseStreamState R D E K σ)
    (r : Ended (PromiseStreamState R D E K σ) (ExceptionPtr E)) : Prop where
  ticks : Ticks b call op s r.1
  idle : Idle s → Idle r.1 ∨ Failed s r.1
  failure_returns : s.result = .pending → r.1.result = .consumer_failed → r.2 = none
  ended : ∀ o, op.ends = some o → r.1.result ≠ .pending ∧
    (r.1.log = s.log ++ [.ended o] ∨ ∃ world, r.1.log = s.log ++ [.ended o, .settle o world])

/-- An operation that ends in `process_data`. -/
theorem ProcessSpec.step {t : PromiseStreamState R D E K σ}
    {r : Ended (PromiseStreamState R D E K σ) (ExceptionPtr E)} (hends : op.ends = none)
    (ht : Ticks b call op s t) (hr : t.result = s.result) (hspec : ProcessSpec b call op t r) :
    StepSpec b call op s r where
  ticks := ht.trans hspec.ticks
  idle _ := hspec.idle.imp_right (.of_ticks ht)
  failure_returns hp := hspec.failure_returns (hr.trans hp)
  ended o ho := by
    rw [hends] at ho
    cases ho

/-- An operation that leaves the flags as they are. -/
theorem StepSpec.same {t : PromiseStreamState R D E K σ} {x : Option (ExceptionPtr E)}
    (hends : op.ends = none) (ht : Ticks b call op s t) (hidle : Idle s → Idle t)
    (hr : t.result = s.result) : StepSpec b call op s (t, x) where
  ticks := ht
  idle h := Or.inl (hidle h)
  failure_returns hp hf := by
    simp only [hr, hp] at hf
    cases hf
  ended o ho := by
    rw [hends] at ho
    cases ho

theorem write_eq (b : Build) (call : K → Outcome R E → σ → Ended σ (ExceptionPtr E)) (d : D)
    (s : PromiseStreamState R D E K σ) :
    write b call d s = andThen
      (if s.action = .Continue then
        set_stream_has_been_written_to b call
          { s with buffer := s.buffer ++ [d], log := s.log ++ [.write d] }
      else returns (s.logged (.write d)))
      (process b call) := rfl

/-- A datum is put into the buffer of a stream that is not completed. -/
theorem update_written (b : Build) (call : K → Outcome R E → σ → Ended σ (ExceptionPtr E))
    (hs : Sane s) (hc : s.state ≠ .completed) (d : D) :
    update_state b call { s with
        buffer := s.buffer ++ [d], stream_has_been_written_to := true, buffer_is_empty := false
        log := s.log ++ [.write d] }
      = returns { s with
        buffer := s.buffer ++ [d], stream_has_been_written_to := true, buffer_is_empty := false
        state := if s.state = .pending then .streaming1 else s.state
        log := s.log ++ [.write d] } := by
  rcases hs.states with hst | hst | hst | hst
  · obtain ⟨-, -, hr, -⟩ := hs.pending_state hst
    rw [if_pos hst]
    exact update_pending_written b call hst rfl hr
  · rw [if_neg (by simp [hst])]
    exact update_quiet (Or.inl ⟨hst, hs.streaming1_state hst⟩)
  · rw [if_neg (by simp [hst])]
    exact update_quiet (Or.inr ⟨hst, rfl⟩)
  · exact absurd hst hc

/-- A write leaves a stream that goes on to `process_data`, or it throws. -/
theorem write_cases (b : Build) (call : K → Outcome R E → σ → Ended σ (ExceptionPtr E))
    (hs : Sane s) (d : D) :
    ∃ t, Tick b call (.write d) s t ∧ t.log = s.log ++ [.write d] ∧ t.result = s.result ∧
      t.on_data = s.on_data ∧
      (write b call d s = process b call t ∨
        (∃ x, write b call d s = throws t x) ∧ s.result ≠ .pending ∧ (Idle s → Idle t)) := by
  rw [write_eq]
  split
  · rename_i ha
    unfold set_stream_has_been_written_to
    split
    · rename_i hrefused
      have hr : s.result = .resolved ∨ s.result = .rejected := hrefused.2
      refine ⟨_, .write_refused rfl ha hr, rfl, rfl, rfl, Or.inr ⟨⟨_, rfl⟩, ?_, id⟩⟩
      rcases hr with h | h <;> simp [h]
    · by_cases hst : s.state = .completed
      · obtain ⟨hnone, hr, -⟩ := hs.completed_state hst
        have hagain : update_state b call { s with
            buffer := s.buffer ++ [d], stream_has_been_written_to := true
            buffer_is_empty := false, log := s.log ++ [.write d] } = throws _ _ :=
          update_again hst hr hnone
        rw [hagain, throws_andThen]
        refine ⟨_, .write_late rfl ha hst, rfl, rfl, rfl, Or.inr ⟨⟨_, rfl⟩, hr, fun _ _ _ h => ?_⟩⟩
        simp [hst] at h
      · rw [update_written b call hs hst d, returns_andThen]
        exact ⟨_, .write_kept rfl ha hst, rfl, rfl, rfl, Or.inl rfl⟩
  · rename_i ha
    exact ⟨_, .write_dropped rfl ha, rfl, rfl, rfl, Or.inl rfl⟩

theorem write_spec (hs : Sane s) (d : D) :
    StepSpec b call (.write d) s (write b call d s) := by
  obtain ⟨t, htick, -, hr, -, heq | ⟨⟨x, heq⟩, -, hidle⟩⟩ := write_cases b call hs d
  · rw [heq]
    exact (process_spec (htick.sane hs)).step rfl (.single htick) hr
  · rw [heq]
    exact .same rfl (.single htick) hidle hr

/-- The end of a stream by the producer. -/
def end_with (b : Build) (call : K → Outcome R E → σ → Ended σ (ExceptionPtr E))
    (o : Outcome R E) (s : PromiseStreamState R D E K σ) :
    Ended (PromiseStreamState R D E K σ) (ExceptionPtr E) :=
  set_stream_result b call (PromiseStreamState.recorded o) o
    { s.logged (.ended o) with action := action_after o s.action }

variable {o : Outcome R E}

/-- An operation ends the stream with one outcome. -/
theorem ended_with (hop : op.ends = some o) (hr : s'.result ≠ .pending)
    (hlog : s'.log = s.log ++ [.ended o] ∨ ∃ world, s'.log = s.log ++ [.ended o, .settle o world]) :
    ∀ o', op.ends = some o' → s'.result ≠ .pending ∧
      (s'.log = s.log ++ [.ended o'] ∨
        ∃ world, s'.log = s.log ++ [.ended o', .settle o' world]) := by
  intro o' ho'
  rw [hop] at ho'
  cases ho'
  exact ⟨hr, hlog⟩

/-- The stream has a result already: the producer is refused. -/
theorem end_with_refused (b : Build) (call : K → Outcome R E → σ → Ended σ (ExceptionPtr E))
    (hop : op.ends = some o) (hr : s.result ≠ .pending) :
    StepSpec b call op s (end_with b call o s) := by
  have hended : Tick b call op s (s.logged (.ended o)) := .ended hop
  have hrefused : Tick b call op (s.logged (.ended o)) _ :=
    .refused hop (by simpa [logged] using hr) (by simp [logged])
  unfold end_with set_stream_result
  by_cases hf : s.result = .consumer_failed
  · rw [if_pos (by simpa [logged] using hf)]
    exact ⟨.head hended (.single hrefused), fun hidle => Or.inl hidle, by simp [hf],
      ended_with hop (by simp [logged, hf]) (Or.inl rfl)⟩
  · rw [if_neg (by simpa [logged] using hf), if_pos (by simpa [logged] using hr)]
    exact ⟨.head hended (.single hrefused), fun hidle => Or.inl hidle, fun hp => absurd hp hr,
      ended_with hop (by simpa [logged] using hr) (Or.inl rfl)⟩

/-- The end of a stream whose buffer is empty completes it. -/
theorem end_with_completes (b : Build) (call : K → Outcome R E → σ → Ended σ (ExceptionPtr E))
    (hs : Sane s) (hop : op.ends = some o) (hr : s.result = .pending)
    (hst : s.state = .pending ∨ s.state = .streaming1 ∧ s.buffer_is_empty = true) :
    StepSpec b call op s (end_with b call o s) := by
  obtain ⟨hne, hnf⟩ := recorded_ne o
  have hended : Tick b call op s (s.logged (.ended o)) := .ended hop
  obtain ⟨ref, heq⟩ : ∃ ref, (update_state b call { s.logged (.ended o) with
        action := action_after o s.action, completer := some o
        result := PromiseStreamState.recorded o }).1
      = completed b call o ref { s.logged (.ended o) with
        action := action_after o s.action, result := PromiseStreamState.recorded o } := by
    rcases hst with hst | ⟨hst, hempty⟩
    · exact update_pending_completes b call hst (hs.pending_state hst).1 hne rfl
    · exact update_streaming1_completes b call hst hempty
        (hs.empty hempty (by simp [hst])).2 hne rfl
  unfold end_with set_stream_result
  rw [if_neg (by simp [logged, hr]), if_neg (by simp [logged, hr])]
  refine ⟨?_, fun _ => Or.inl fun _ _ h => ?_, fun _ h => ?_, ended_with hop ?_ (Or.inr ?_)⟩
  · rw [heq]
    exact .head hended (.single (.recorded_completes hop hr hst (by simp [logged])))
  · rw [heq] at h
    simp [completed] at h
  · rw [heq] at h
    exact absurd h hnf
  · rw [heq]
    exact hne
  · rw [heq]
    exact ⟨s.world, List.append_assoc ..⟩

/-- While there is something in the buffer the result is only recorded. -/
theorem end_with_recorded (b : Build) (call : K → Outcome R E → σ → Ended σ (ExceptionPtr E))
    (hop : op.ends = some o) (hr : s.result = .pending)
    (hst : s.state = .streaming1) (hempty : s.buffer_is_empty = false) :
    StepSpec b call op s (end_with b call o s) := by
  obtain ⟨hne, hnf⟩ := recorded_ne o
  have hended : Tick b call op s (s.logged (.ended o)) := .ended hop
  have hrecorded : Tick b call op (s.logged (.ended o)) _ :=
    .recorded hop hr hst hempty (by simp [logged])
  have hupdate : update_state b call { s.logged (.ended o) with
        action := action_after o s.action, completer := some o
        result := PromiseStreamState.recorded o } = returns _ :=
    update_streaming1_recorded b call hst hempty hne
  unfold end_with set_stream_result
  rw [if_neg (by simp [logged, hr]), if_neg (by simp [logged, hr]), hupdate]
  refine ⟨.head hended (.single hrecorded), fun hidle => Or.inl fun hsome hrun _ => ?_,
    fun _ h => absurd h hnf, ended_with hop hne (Or.inl rfl)⟩
  exact hidle hsome hrun (Or.inl hst)

/-- **`resolve` and `reject`.** -/
theorem end_with_spec (op : Op R D E K σ) (hs : Sane s) (hop : op.ends = some o) :
    StepSpec b call op s (end_with b call o s) := by
  by_cases hr : s.result = .pending
  · by_cases hst : s.state = .pending ∨ s.state = .streaming1 ∧ s.buffer_is_empty = true
    · exact end_with_completes b call hs hop hr hst
    · obtain ⟨hnot, hnot'⟩ := not_or.mp hst
      rcases hs.states with h | h | h | h
      · exact absurd h hnot
      · exact end_with_recorded b call hop hr h (by simpa [h] using hnot')
      · exact absurd hr (hs.streaming2_state h).1
      · exact absurd hr (hs.completed_state h).2.1
  · exact end_with_refused b call hop hr

theorem set_data_callback_spec (hs : Sane s) (c : Consumer D E σ) :
    StepSpec b call (.stream c) s (set_data_callback b call c s) := by
  unfold set_data_callback
  split
  · exact .same rfl .refl id rfl
  · rename_i hnone
    unfold set_data_callback_assigned
    split
    · -- the flag and the callback are set together
      rename_i hassigned
      have : s.on_data = none := by
        by_contra hsome
        exact hnone ⟨hassigned.1, Option.isSome_iff_ne_none.mpr hsome⟩
      have := hs.unbound this
      simp_all
    · have htick : Tick b call (.stream c) s { s with
          on_data := some c, data_callback_assigned := true
          self_reference := s.self_reference || s.state != .completed } := .bound rfl
      exact (process_spec (htick.sane hs)).step rfl (.single htick) rfl

theorem answer_spec (hs : Sane s) (a : Answer E) :
    StepSpec b call (.answer a) s (answer b call a s) := by
  unfold answer
  split
  · rename_i hout
    have hspec : ProcessSpec b call (.answer a) s
        (continuation b call (process_data b call (s.buffer.length + 1)) a s) :=
      continuation_spec hs hout (Nat.lt_succ_self _) (fun t => process_data_spec _ t) (Or.inl rfl)
    exact hspec.step rfl .refl rfl
  · exact .same rfl .refl id rfl

theorem bind_result_spec (k : K) :
    StepSpec b call (.bind_result k) s (bind_result b call k s) := by
  have htick : Tick b call (.bind_result k) s (bind_result b call k s).1 := .result_bound rfl
  exact .same rfl (.single htick) id rfl

/-- **Every operation is a sequence of small steps.** -/
theorem step_spec (hs : Sane s) (op : Op R D E K σ) : StepSpec b call op s (step b call op s) := by
  cases op with
  | write d => exact write_spec hs d
  | resolve result => exact end_with_spec (.resolve result) hs rfl
  | reject error => exact end_with_spec (.reject error) hs rfl
  | stream c => exact set_data_callback_spec hs c
  | answer a => exact answer_spec hs a
  | bind_result k => exact bind_result_spec k

theorem run_append (ops later : List (Op R D E K σ)) (s : PromiseStreamState R D E K σ) :
    run b call (ops ++ later) s = run b call later (run b call ops s) := by
  induction ops generalizing s with
  | nil => rfl
  | cons first ops ih => exact ih _

theorem run_concat (ops : List (Op R D E K σ)) (op : Op R D E K σ)
    (s : PromiseStreamState R D E K σ) :
    run b call (ops ++ [op]) s = (step b call op (run b call ops s)).1 :=
  run_append ops [op] s

theorem step_sane (hs : Sane s) (op : Op R D E K σ) : Sane (step b call op s).1 :=
  (step_spec hs op).ticks.sane hs

theorem run_sane (hs : Sane s) (ops : List (Op R D E K σ)) : Sane (run b call ops s) := by
  induction ops generalizing s with
  | nil => exact hs
  | cons op ops ih => exact ih (step_sane hs op)

/-- The last step of a run appends to the log. -/
theorem run_log_mono (hs : Sane s) (ops : List (Op R D E K σ)) (op : Op R D E K σ) :
    (run b call ops s).log <+: (run b call (ops ++ [op]) s).log := by
  rw [run_concat]
  exact (step_spec (run_sane hs ops) op).ticks.log_mono

end Machine
end PromiseStreamState
end Kaiu
