/-
The continuation of a stream's consumer, and the lock of the stream.

As long as a call of the consumer is not answered, the stream is busy: its consumer is
running, and it does not complete. A busy stream takes no datum and settles no promise,
so that no code of the user runs under its lock; a thread that settles the consumer's
promise does not hold the lock then, and the continuation may lock the mutex. It does so
unless it is called by the `then` of the thread that holds the lock: that is the thread
that has called `call_data_callback`, and it has not set `async_check` yet.
-/
import Kaiu.Library.History
import Kaiu.Library.Mutex
import Kaiu.StreamSteps
import Kaiu.StreamThreads

set_option autoImplicit false

namespace Kaiu

open Exit Mutex PromiseStreamState Relation Function

/-! ## Busy streams -/

namespace PromiseStreamState

variable {R D E K σ : Type*} {b : Build} {call : K → Outcome R E → σ → Ended σ (ExceptionPtr E)}
  {s s' : PromiseStreamState R D E K σ}

/-- The consumer is running, in a stream that has been written to and has not been
completed. -/
structure Busy (s : PromiseStreamState R D E K σ) : Prop where
  running : s.consumer_is_running = true
  not_pending : s.state ≠ .pending
  not_completed : s.state ≠ .completed

/-- The stream is busy afterwards, and nothing has happened. -/
structure StaysBusy (s s' : PromiseStreamState R D E K σ) : Prop extends Busy s' where
  log_eq : s'.log = s.log

theorem Busy.stays (hs : Busy s) : StaysBusy s s :=
  { hs with log_eq := rfl }

theorem Busy.update_streaming3 (hs : Busy s) : update_streaming3 b call s = returns s := by
  rw [PromiseStreamState.update_streaming3, if_neg (by simp [hs.running])]

theorem Busy.update_streaming2 (hs : Busy s) (hstate : s.state = .streaming2) :
    (update_streaming2 b call s).2 = none ∧ StaysBusy s (update_streaming2 b call s).1 := by
  unfold PromiseStreamState.update_streaming2
  split
  · have hnext : Busy { s with state := .streaming3 } :=
      ⟨hs.running, by simp, by simp⟩
    have hcheck : check_transition b s.state .streaming3 = none := by
      simp [check_transition, hstate]
    rw [set_state_then, hcheck]
    simp only [hnext.update_streaming3]
    exact ⟨rfl, { hnext with log_eq := rfl }⟩
  · exact ⟨rfl, hs.stays⟩

theorem Busy.update_streaming1 (hs : Busy s) (hstate : s.state = .streaming1) :
    (update_streaming1 b call s).2 = none ∧ StaysBusy s (update_streaming1 b call s).1 := by
  unfold PromiseStreamState.update_streaming1
  split
  · have hnext : Busy { s with state := .streaming2 } :=
      ⟨hs.running, by simp, by simp⟩
    have hcheck : check_transition b s.state .streaming2 = none := by
      simp [check_transition, hstate]
    rw [set_state_then, hcheck]
    have hstays : StaysBusy { s with state := .streaming2 }
        (PromiseStreamState.update_streaming2 b call { s with state := .streaming2 }).1 :=
      (hnext.update_streaming2 rfl).2
    exact ⟨(hnext.update_streaming2 rfl).1, { hstays with log_eq := hstays.log_eq }⟩
  · exact ⟨rfl, hs.stays⟩

/-- **`update_state` of a busy stream** returns, and neither completes it nor stops the
consumer. -/
theorem Busy.update_state (hs : Busy s) :
    (update_state b call s).2 = none ∧ StaysBusy s (update_state b call s).1 := by
  unfold PromiseStreamState.update_state
  cases hstate : s.state with
  | pending => exact absurd hstate hs.not_pending
  | streaming1 => exact hs.update_streaming1 hstate
  | streaming2 => exact hs.update_streaming2 hstate
  | streaming3 =>
    simp only [hs.update_streaming3]
    exact ⟨rfl, hs.stays⟩
  | completed => exact absurd hstate hs.not_completed

/-- A busy stream has no datum to take. -/
theorem Busy.take_data (hs : Busy s) : take_data b call s = (none, returns s) :=
  take_data_nothing b call (.inr (.inr hs.running))

/-- A datum is taken from a stream whose consumer is not running. -/
theorem of_take_data {d : D} {r : Ended (PromiseStreamState R D E K σ) (ExceptionPtr E)}
    (h : PromiseStreamState.take_data b call s = (some d, r)) :
    r.1.consumer_is_running = false ∧ (r.1.state = .streaming1 ∨ r.1.state = .streaming2) := by
  cases taking s with
  | nothing hnothing =>
    rw [take_data_nothing b call hnothing] at h
    cases h
  | drains hc hrun hst hb =>
    rw [take_data_drains b call hc hrun hst hb] at h
    cases h
  | takes hc hrun hst ha hb =>
    rw [take_data_takes b call hc hrun hst ha hb] at h
    cases h
    exact ⟨hrun, hst⟩

end PromiseStreamState

namespace Access

variable {R D E K σ : Type*} {b : Build} {call : K → Outcome R E → σ → Ended σ (ExceptionPtr E)}
  {s : PromiseStreamState R D E K σ} {access : Access R D E σ}

/-- The access says whether the consumer is running. -/
def sets_running : Access R D E σ → Bool
  | set_consumer_is_running _ => true
  | write _ | set_data_callback _ | do_resolve _ | do_reject _ _ => false
  | get_action | set_action _ => false

theorem set_stream_result_busy (hs : Busy s) (result : stream_result) (o : Outcome R E) :
    StaysBusy s (set_stream_result b call result o s).1 := by
  unfold set_stream_result
  split
  · exact hs.stays
  · split
    · exact hs.stays
    · have hnext : Busy { s with completer := some o, result := result } := { hs with }
      exact { hnext.update_state.2 with log_eq := hnext.update_state.2.log_eq }

/-- **The other accesses keep a busy stream busy.** -/
theorem run_busy (hs : Busy s) (haccess : access.sets_running = false) :
    StaysBusy s (access.run b call s).1 := by
  cases access with
  | write datum =>
    rw [run, set_stream_has_been_written_to]
    split
    · split
      · have hnext : Busy { s with buffer := s.buffer ++ [datum] } := { hs with }
        exact { hnext.stays with log_eq := rfl }
      · have hnext : Busy { s with
            buffer := s.buffer ++ [datum]
            stream_has_been_written_to := true
            buffer_is_empty := false } := { hs with }
        exact { hnext.update_state.2 with log_eq := hnext.update_state.2.log_eq }
    · exact hs.stays
  | set_data_callback consumer =>
    rw [run, set_data_callback_assigned]
    split
    · exact hs.stays
    · split
      · have hnext : Busy { s with on_data := some consumer } := { hs with }
        exact { hnext.stays with log_eq := rfl }
      · have hnext : Busy { s with
            on_data := some consumer
            data_callback_assigned := true
            self_reference := s.self_reference || s.state != .completed } := { hs with }
        exact { hnext.stays with log_eq := rfl }
  | do_resolve result => exact set_stream_result_busy hs ..
  | do_reject error consumer_failed =>
    have hnext : Busy { s with action := .Stop } := { hs with }
    have hresult : StaysBusy { s with action := .Stop }
        (PromiseStreamState.do_reject b call error consumer_failed s).1 :=
      set_stream_result_busy hnext ..
    exact { hresult with log_eq := hresult.log_eq }
  | get_action => exact hs.stays
  | set_action action =>
    have hnext : Busy { s with action := action } := { hs with }
    exact { hnext.stays with log_eq := rfl }
  | set_consumer_is_running value => cases haccess

/-- **The consumer starts to run**, and the stream is busy. -/
theorem run_starts (hrun : s.consumer_is_running = false)
    (hstate : s.state = .streaming1 ∨ s.state = .streaming2) :
    ((set_consumer_is_running true).run b call s).2 = none ∧
      StaysBusy s ((set_consumer_is_running true).run b call s).1 := by
  rw [run, PromiseStreamState.set_consumer_is_running, if_neg (by simp [hrun])]
  have hnext : Busy { s with consumer_is_running := true } := by
    refine ⟨rfl, ?_, ?_⟩ <;> rcases hstate with h | h <;> simp [h]
  exact ⟨hnext.update_state.1, { hnext.update_state.2 with log_eq := hnext.update_state.2.log_eq }⟩

end Access

namespace StreamThreads

variable {T R D E : Type*} {b : Build} {s s' : StreamThreads T R D E} {t u : T}
  {l rest : List (Instr R D E)} {call : ℕ} {p : ConsumerPromise T E} {answer : Answer E}

/-! ## Call stacks -/

/-- Calls that return, down to the one that releases the lock. -/
inductive Returning : List (Instr R D E) → Prop where
  | unlock : Returning [.unlock]
  | async_check {l : List (Instr R D E)} (call : ℕ) (hl : Returning l) :
      Returning (.async_check call :: l)
  | handler {l : List (Instr R D E)} (hl : Returning l) : Returning (.handler :: l)

/-- What is done under the lock of a stream that is not busy: after `process_data` the
calls return. -/
inductive Holding : List (Instr R D E) → Prop where
  | returning {l : List (Instr R D E)} (hl : Returning l) : Holding l
  | process_data {l : List (Instr R D E)} (hl : Returning l) : Holding (.process_data :: l)
  | access {l : List (Instr R D E)} {access : Access R D E Unit}
      (haccess : access ≠ .set_consumer_is_running true) (hl : Holding l) :
      Holding (.access access :: l)
  | user {l : List (Instr R D E)} (hl : Holding l) : Holding (.user :: l)
  | throwing {l : List (Instr R D E)} (hl : Holding l) : Holding (.throwing :: l)

/-- What an operation does under the lock of a busy stream. -/
inductive Operating : List (Instr R D E) → Prop where
  | unlock : Operating [.unlock]
  | process_data : Operating [.process_data, .unlock]
  | access {l : List (Instr R D E)} {access : Access R D E Unit}
      (haccess : access.sets_running = false) (hl : Operating l) : Operating (.access access :: l)
  | throwing {l : List (Instr R D E)} (hl : Operating l) : Operating (.throwing :: l)

/-- A thread without the lock, outside of a continuation. -/
inductive Outside : List (Instr R D E) → Prop where
  | user : Outside []
  | throwing : Outside [.throwing]
  | get_lock {l : List (Instr R D E)} (hl : Operating l) : Outside (.get_lock none :: l)

/-- The owner of the lock of a busy stream. -/
def Working (l : List (Instr R D E)) : Prop :=
  Returning l ∨ Operating l

theorem Operating.holding (h : Operating l) : Holding l := by
  induction h with
  | unlock => exact .returning .unlock
  | process_data => exact .process_data .unlock
  | access haccess hl ih =>
    refine .access ?_ ih
    rintro rfl
    cases haccess
  | throwing hl ih => exact .throwing ih

/-- All that follows what is done under the lock, but for its release. -/
theorem Holding.tail {instr : Instr R D E} (h : Holding (instr :: l)) (hinstr : instr ≠ .unlock) :
    Holding l := by
  cases h with
  | returning hl =>
    cases hl with
    | unlock => exact absurd rfl hinstr
    | async_check call hl => exact .returning hl
    | handler hl => exact .returning hl
  | process_data hl => exact .returning hl
  | access haccess hl => exact hl
  | user hl => exact hl
  | throwing hl => exact hl

/-- The release of the lock is the end. -/
theorem Holding.of_unlock (h : Holding (.unlock :: l)) : l = [] := by
  cases h with
  | returning hl =>
    cases hl
    rfl

theorem Operating.tail {instr : Instr R D E} (h : Operating (instr :: l))
    (hinstr : instr ≠ .unlock) : Operating l := by
  cases h with
  | unlock => exact absurd rfl hinstr
  | process_data => exact .unlock
  | access haccess hl => exact hl
  | throwing hl => exact hl

theorem Operating.not_async_check (h : Operating l) (call : ℕ) : .async_check call ∉ l := by
  induction h with
  | unlock => simp
  | process_data => simp
  | access haccess hl ih => simpa using ih
  | throwing hl ih => simpa using ih

theorem Operation.operating (op : Operation R D E) : Operating (op.body ++ [.unlock]) := by
  cases op with
  | write datum => exact .access rfl .process_data
  | resolve result => exact .access rfl .unlock
  | reject error => exact .access rfl .unlock
  | stream consumer => exact .access rfl .process_data
  | data_action => exact .access rfl .unlock

theorem continuation_body_holding (answer : Answer E) (hl : Returning l) :
    Holding (continuation_body answer ++ l) := by
  cases answer with
  | ok action => exact .access (by simp) (.access (by simp) (.process_data hl))
  | error error => exact .access (by simp) (.access (by simp) (.returning hl))

/-- After an access, code of the user may run, and an exception may be on its way. -/
theorem Holding.after (h : Holding l) (stream : PromiseStreamState R D E Unit Unit)
    (r : Ended (PromiseStreamState R D E Unit Unit) (ExceptionPtr E)) :
    Holding (after stream r l) := by
  have hthrow : Holding (if r.2.isSome then .throwing :: l else l) := by
    split
    · exact .throwing h
    · exact h
  dsimp only [StreamThreads.after]
  by_cases hsettled : (settlements r.1.log).length = (settlements stream.log).length
  · rw [if_pos hsettled]
    exact hthrow
  · rw [if_neg hsettled]
    exact .user hthrow

/-- After an access that settles no promise, no code of the user runs. -/
theorem after_of_log_eq {stream : PromiseStreamState R D E Unit Unit}
    {r : Ended (PromiseStreamState R D E Unit Unit) (ExceptionPtr E)}
    (hlog : r.1.log = stream.log) :
    after stream r l = if r.2.isSome then .throwing :: l else l := by
  unfold after
  rw [hlog, if_pos rfl]

/-! ## The steps of a thread, by what it is doing -/

section Steps

variable [DecidableEq T]

/-- **A thread without the lock** runs code of the user, or waits for the lock. -/
theorem Outside.step (h : Outside (s.todo t)) (hstep : Step b t s s') :
    (∃ l, Outside l ∧ s' = s.go t l) ∨
    (∃ call p answer, s.todo t = [] ∧ s.promises call = some p ∧ p.answer = none ∧
      s' = (s.set call { p with answer := some answer }).go t
        (if p.bound then [.continuation call answer] else [])) ∨
    ∃ l, Operating l ∧ s.mx = none ∧ s' = { s.go t l with mx := some t } := by
  have huser : InUser (s.todo t) → s.todo t = [] := by
    rintro (hnil | ⟨rest, hcons⟩)
    · exact hnil
    · rw [hcons] at h
      cases h
  cases hstep with
  | operate op hin =>
    rw [huser hin]
    exact .inl ⟨_, .get_lock op.operating, rfl⟩
  | settle answer hin hp hanswer =>
    rw [huser hin]
    exact .inr (.inl ⟨_, _, answer, rfl, hp, hanswer, rfl⟩)
  | get_lock htodo hfree =>
    rw [htodo] at h
    cases h with
    | get_lock hl => exact .inr (.inr ⟨_, hl, hfree, rfl⟩)
  | unwind_end htodo => exact .inl ⟨[], .user, rfl⟩
  | user_returns htodo | user_throws htodo | unlock htodo | access htodo
  | process_nothing htodo | process_datum htodo | bind_pending htodo | bind_settled htodo
  | bind_throws htodo | continuation htodo | async_check htodo | handler htodo
  | unwind_unlock htodo | unwind_handler htodo | unwind_user htodo | unwind htodo =>
    rw [htodo] at h
    cases h

/-- **The owner of the lock of a busy stream** keeps it busy, sets `async_check`, or
releases the lock, with no call left that would set it. -/
theorem Working.step (hbusy : Busy s.stream) (h : Working (s.todo t)) (hstep : Step b t s s') :
    (∃ l stream, Working l ∧ Busy stream ∧ s' = { s.go t l with stream := stream } ∧
      ∀ call, .async_check call ∈ s.todo t → .async_check call ∈ l) ∨
    (∃ call p l, s.todo t = .async_check call :: l ∧ Working l ∧ s.promises call = some p ∧
      s' = (s.set call { p with async_check := true }).go t l) ∨
    ∃ l, Outside l ∧ (∀ call, .async_check call ∉ s.todo t) ∧
      s' = { s.go t l with mx := none } := by
  -- no code of the user, no call of the consumer and no continuation is there
  have huser : ¬ InUser (s.todo t) := by
    rintro (hnil | ⟨rest, hcons⟩)
    · rw [hnil] at h
      rcases h with h | h <;> cases h
    · rw [hcons] at h
      rcases h with h | h <;> cases h
  cases hstep with
  | operate op hin => exact absurd hin huser
  | settle answer hin hp hanswer => exact absurd hin huser
  | unlock htodo =>
    refine .inr (.inr ?_)
    rw [htodo] at h ⊢
    rcases h with h | h <;> cases h <;> exact ⟨[], .user, by simp, rfl⟩
  | access htodo =>
    rw [htodo] at h
    rcases h with h | h <;> cases h
    rename_i haccess hl
    have hstays : StaysBusy s.stream (Access.run b no_callbacks _ s.stream).1 :=
      Access.run_busy hbusy haccess
    refine .inl ⟨_, _, .inr ?_, hstays.toBusy, rfl, fun call hmem => ?_⟩
    · rw [after_of_log_eq hstays.log_eq]
      split
      · exact .throwing hl
      · exact hl
    · rw [htodo] at hmem
      exact absurd (List.mem_cons.mp hmem |>.resolve_left (by simp)) (hl.not_async_check call)
  | process_nothing htodo htake =>
    rw [hbusy.take_data] at htake
    cases htake
    rw [htodo] at h ⊢
    rcases h with h | h <;> cases h
    have hafter : after s.stream (returns s.stream) [.unlock] = [.unlock] := after_of_log_eq rfl
    rw [hafter]
    exact .inl ⟨_, s.stream, .inr .unlock, hbusy, rfl, by simp⟩
  | process_datum htodo htake =>
    rw [hbusy.take_data] at htake
    cases htake
  | async_check htodo hp =>
    rw [htodo] at h
    rcases h with h | h <;> cases h
    rename_i hl
    exact .inr (.inl ⟨_, _, _, htodo, .inl hl, hp, rfl⟩)
  | handler htodo =>
    rw [htodo] at h ⊢
    rcases h with h | h <;> cases h
    rename_i hl
    exact .inl ⟨_, s.stream, .inl hl, hbusy, rfl, by simp⟩
  | unwind_unlock htodo =>
    refine .inr (.inr ?_)
    rw [htodo] at h ⊢
    rcases h with h | h <;> cases h
    rename_i hl
    cases hl
    exact ⟨_, .throwing, by simp, rfl⟩
  | unwind_handler htodo | unwind_user htodo =>
    rw [htodo] at h
    rcases h with h | h <;> cases h
    rename_i hl
    cases hl
  | unwind htodo hinstr =>
    rw [htodo] at h
    rcases h with h | h <;> cases h
    rename_i hl
    refine .inl ⟨_, s.stream, .inr (.throwing (hl.tail hinstr.1)), hbusy, rfl, fun call hmem => ?_⟩
    rw [htodo] at hmem
    exact absurd (List.mem_cons.mp hmem |>.resolve_left (by simp)) (hl.not_async_check call)
  | unwind_end htodo =>
    rw [htodo] at h
    rcases h with h | h <;> cases h
    rename_i hl
    cases hl
  | user_returns htodo | user_throws htodo | get_lock htodo | bind_pending htodo
  | bind_settled htodo | bind_throws htodo | continuation htodo =>
    rw [htodo] at h
    rcases h with h | h <;> cases h

/-! ## The invariant -/

/-- Every promise that the continuation has been bound to has been settled. -/
def Settled (promises : ℕ → Option (ConsumerPromise T E)) : Prop :=
  ∀ call p, promises call = some p → p.bound = true → p.answer ≠ none

/-- A continuation that `t` called would be called synchronously. -/
def Synchronous (promises : ℕ → Option (ConsumerPromise T E)) (call : ℕ) (t : T) : Prop :=
  ∃ p, promises call = some p ∧ is_async t p = false

/-- The owner of the lock, where no continuation waits for its promise or for the lock. -/
inductive Owning (stream : PromiseStreamState R D E Unit Unit)
    (promises : ℕ → Option (ConsumerPromise T E)) (t : T) : List (Instr R D E) → Prop where
  | holding {l : List (Instr R D E)} (hl : Holding l) : Owning stream promises t l
  /-- Code of the user has called an operation of the stream whose lock is held. -/
  | stuck {l : List (Instr R D E)} : Owning stream promises t (.get_lock none :: l)
  /-- A datum has been taken. -/
  | calling {l : List (Instr R D E)} {call : ℕ} (hrun : stream.consumer_is_running = false)
      (hstate : stream.state = .streaming1 ∨ stream.state = .streaming2)
      (hcall : Synchronous promises call t) (hl : Returning l) :
      Owning stream promises t (.access (.set_consumer_is_running true) :: .user :: .bind call ::
        .async_check call :: .handler :: l)
  /-- The consumer has been called. -/
  | consuming {l : List (Instr R D E)} {call : ℕ} (hbusy : Busy stream)
      (hcall : Synchronous promises call t) (hl : Returning l) :
      Owning stream promises t (.user :: .bind call :: .async_check call :: .handler :: l)
  /-- The consumer has returned a promise. -/
  | binding {l : List (Instr R D E)} {call : ℕ} (hbusy : Busy stream)
      (hcall : Synchronous promises call t) (hl : Returning l) :
      Owning stream promises t (.bind call :: .async_check call :: .handler :: l)
  /-- The consumer has thrown. -/
  | refused {l : List (Instr R D E)} {call : ℕ} (hl : Returning l) :
      Owning stream promises t (.throwing :: .bind call :: .async_check call :: .handler :: l)
  /-- The continuation is called by `then`. -/
  | continuing {l : List (Instr R D E)} {call : ℕ} {answer : Answer E}
      (hcall : Synchronous promises call t) (hl : Returning l) :
      Owning stream promises t (.continuation call answer :: l)

/-- A thread that has settled a promise, and calls the continuation without the lock. -/
inductive Answers (promises : ℕ → Option (ConsumerPromise T E)) (t : T) (call : ℕ) :
    List (Instr R D E) → Prop where
  | continuation {answer : Answer E} {p : ConsumerPromise T E} (hp : promises call = some p)
      (hasync : is_async t p = true) : Answers promises t call [.continuation call answer]
  | get_lock {l : List (Instr R D E)} (hl : Holding l) :
      Answers promises t call (.get_lock (some call) :: l)

/-- No continuation waits for its promise or for the lock. -/
structure Clear (s : StreamThreads T R D E) : Prop where
  held : Held (Owning s.stream s.promises) (fun _ => Outside) s.mx s.todo
  settled : Settled s.promises

/-- The continuation has been bound to a promise that has not been settled; the thread that
has bound it sets `async_check` before it unlocks the mutex. -/
structure Armed (s : StreamThreads T R D E) (call : ℕ) : Prop where
  held : Held (fun _ => Working) (fun _ => Outside) s.mx s.todo
  busy : Busy s.stream
  others : ∀ call' ≠ call, ∀ p, s.promises call' = some p → p.bound = true → p.answer ≠ none
  armed : ∃ p, s.promises call = some p ∧ p.answer = none ∧ p.bound = true ∧
    (p.async_check = true ∨ s.mx = some p.caller_id ∧ .async_check call ∈ s.todo p.caller_id)

/-- The thread `u` calls the continuation, which waits for the lock. -/
structure Answering (s : StreamThreads T R D E) (u : T) (call : ℕ) : Prop where
  held : Held (fun t l => t ≠ u ∧ Working l)
    (fun t l => (t = u → Answers s.promises u call l) ∧ (t ≠ u → Outside l)) s.mx s.todo
  busy : Busy s.stream
  settled : Settled s.promises

/-- What holds in every state that is reached. -/
def Inv (s : StreamThreads T R D E) : Prop :=
  Clear s ∨ (∃ call, Armed s call) ∨ ∃ u call, Answering s u call

theorem is_async_eq_false : is_async t p = false ↔ p.async_check = false ∧ t = p.caller_id := by
  simp [is_async]

omit [DecidableEq T] in
/-- A promise that changes is still settled if it has been bound. -/
theorem Settled.set {promises : ℕ → Option (ConsumerPromise T E)} (h : Settled promises)
    (hp : p.bound = true → p.answer ≠ none) : Settled (update promises call (some p)) := by
  intro call' p' hp'
  by_cases heq : call' = call
  · subst heq
    rw [update_self, Option.some_inj] at hp'
    exact hp' ▸ hp
  · rw [update_of_ne heq] at hp'
    exact h call' p' hp'

omit [DecidableEq T] in
/-- A promise that is settled now has not been bound. -/
theorem Settled.not_bound {promises : ℕ → Option (ConsumerPromise T E)} (h : Settled promises)
    (hp : promises call = some p) (hanswer : p.answer = none) : p.bound = false := by
  by_contra hbound
  exact h call p hp (by simpa using hbound) hanswer

/-- Whether the continuation is synchronous does not depend on the answer. -/
theorem Synchronous.settle {promises : ℕ → Option (ConsumerPromise T E)} {call' : ℕ}
    (h : Synchronous promises call' t) (hp : promises call = some p) (answer : Option (Answer E)) :
    Synchronous (update promises call (some { p with answer := answer })) call' t := by
  obtain ⟨p', hp', hsync⟩ := h
  by_cases heq : call' = call
  · subst heq
    obtain rfl : p = p' := Option.some.inj (hp.symm.trans hp')
    exact ⟨_, update_self .., hsync⟩
  · exact ⟨p', (update_of_ne heq ..).trans hp', hsync⟩

theorem Owning.settle {stream : PromiseStreamState R D E Unit Unit}
    {promises : ℕ → Option (ConsumerPromise T E)} (h : Owning stream promises t l)
    (hp : promises call = some p) (answer : Option (Answer E)) :
    Owning stream (update promises call (some { p with answer := answer })) t l := by
  cases h with
  | holding hl => exact .holding hl
  | stuck => exact .stuck
  | calling hrun hstate hcall hl => exact .calling hrun hstate (hcall.settle hp answer) hl
  | consuming hbusy hcall hl => exact .consuming hbusy (hcall.settle hp answer) hl
  | binding hbusy hcall hl => exact .binding hbusy (hcall.settle hp answer) hl
  | refused hl => exact .refused hl
  | continuing hcall hl => exact .continuing (hcall.settle hp answer) hl

omit [DecidableEq T] in
theorem clear_start [Inhabited R] [DecidableEq T] : Clear (start : StreamThreads T R D E) where
  held t := ⟨fun h => absurd h.symm (Option.some_ne_none t), fun _ => .user⟩
  settled call p hp := by cases hp

/-! ## No continuation waits -/

/-- The owner of the lock goes on. -/
theorem Clear.own (h : Clear s) (ht : s.mx = some t)
    {stream : PromiseStreamState R D E Unit Unit} {promises : ℕ → Option (ConsumerPromise T E)}
    {calls : ℕ} (hl : Owning stream promises t l) (hsettled : Settled promises) :
    Clear { s.go t l with stream := stream, promises := promises, calls := calls } where
  held := by
    have hheld := h.held
    rw [ht] at hheld
    show Held (Owning stream promises) (fun _ => Outside) s.mx (update s.todo t l)
    rw [ht]
    exact hheld.own hl
  settled := hsettled

/-- The owner of the lock unlocks the mutex. -/
theorem Clear.unlock (h : Clear s) (ht : s.mx = some t) (hl : Outside l) :
    Clear { s.go t l with mx := none } where
  held := (ht ▸ h.held).unlock hl
  settled := h.settled

/-- The owner of the lock binds the continuation to a promise that has not been settled. -/
theorem Clear.arm (h : Clear s) (ht : s.mx = some t) (hbusy : Busy s.stream)
    (hcall : Synchronous s.promises call t) (hp : s.promises call = some p)
    (hanswer : p.answer = none) (hl : Returning l) :
    Armed ((s.set call { p with bound := true }).go t
      (.async_check call :: .handler :: l)) call where
  held := by
    have hheld := h.held
    rw [ht] at hheld
    show Held (fun _ => Working) (fun _ => Outside) s.mx
      (update s.todo t (.async_check call :: .handler :: l))
    rw [ht]
    exact hheld.own (.inl (.async_check call (.handler hl)))
  busy := hbusy
  others call' hne p' hp' := h.settled call' p' ((update_of_ne hne ..).symm.trans hp')
  armed := by
    obtain ⟨p', hp', hsync⟩ := hcall
    cases hp.symm.trans hp'
    obtain ⟨-, hcaller⟩ := is_async_eq_false.mp hsync
    refine ⟨_, update_self .., hanswer, rfl, .inr ⟨hcaller ▸ ht, ?_⟩⟩
    show .async_check call ∈ update s.todo t (.async_check call :: .handler :: l) p.caller_id
    rw [← hcaller, update_self]
    exact List.mem_cons_self ..

/-- A thread without the lock makes a step. -/
theorem Clear.outside_step (h : Clear s) (ht : s.mx ≠ some t) (hstep : Step b t s s') :
    Clear s' := by
  have hout : Outside (s.todo t) := (h.held t).2 ht
  rcases hout.step hstep with ⟨l, hl, rfl⟩ | ⟨call, p, answer, htodo, hp, hanswer, rfl⟩ |
    ⟨l, hl, hfree, rfl⟩
  · exact ⟨h.held.move (fun heq => absurd heq ht) fun _ => hl, h.settled⟩
  · rw [if_neg (by simp [h.settled.not_bound hp hanswer])]
    refine ⟨?_, h.settled.set fun _ => by simp⟩
    exact h.held.turn (fun _ _ => Iff.rfl) (fun heq => absurd heq ht) (fun _ => .user)
      (fun _ _ _ howning => howning.settle hp _) fun _ _ hl => hl
  · have hheld := h.held
    rw [hfree] at hheld
    exact ⟨hheld.lock (.holding hl.holding), h.settled⟩

/-- The owner of the lock runs code of the user. -/
theorem Clear.user_step (h : Clear s) (ht : s.mx = some t) (huser : InUser (s.todo t))
    (hstep : Step b t s s') : Clear s' := by
  have howning : Owning s.stream s.promises t (s.todo t) := (h.held t).1 ht
  have hhead : ∃ rest, s.todo t = .user :: rest := by
    refine huser.resolve_left fun hnil => ?_
    rw [hnil] at howning
    cases howning with
    | holding hl => cases hl with | returning hl => cases hl
  obtain ⟨rest, hrest⟩ := hhead
  cases hstep with
  | operate op hin => exact h.own ht .stuck h.settled
  | settle answer hin hp hanswer =>
    rw [if_neg (by simp [h.settled.not_bound hp hanswer])]
    exact h.own ht (howning.settle hp _) (h.settled.set fun _ => by simp)
  | user_returns htodo =>
    rw [htodo] at howning
    cases howning with
    | holding hl => exact h.own ht (.holding (hl.tail (by simp))) h.settled
    | consuming hbusy hcall hl => exact h.own ht (.binding hbusy hcall hl) h.settled
  | user_throws htodo =>
    rw [htodo] at howning
    cases howning with
    | holding hl => exact h.own ht (.holding (.throwing (hl.tail (by simp)))) h.settled
    | consuming hbusy hcall hl => exact h.own ht (.refused hl) h.settled
  | get_lock htodo | unlock htodo | access htodo | process_nothing htodo | process_datum htodo
  | bind_pending htodo | bind_settled htodo | bind_throws htodo | continuation htodo
  | async_check htodo | handler htodo | unwind_unlock htodo | unwind_handler htodo
  | unwind_user htodo | unwind htodo | unwind_end htodo =>
    rw [hrest] at htodo
    cases htodo

/-- The owner of the lock works on the stream. -/
theorem Clear.stream_step (h : Clear s) (ht : s.mx = some t) (huser : ¬ InUser (s.todo t))
    (hstep : Step b t s s') : Clear s' ∨ ∃ call, Armed s' call := by
  have howning : Owning s.stream s.promises t (s.todo t) := (h.held t).1 ht
  cases hstep with
  | operate op hin => exact absurd hin huser
  | settle answer hin hp hanswer => exact absurd hin huser
  | user_returns htodo => exact absurd (.inr ⟨_, htodo⟩) huser
  | user_throws htodo => exact absurd (.inr ⟨_, htodo⟩) huser
  | get_lock htodo hfree => exact absurd (ht.symm.trans hfree) (Option.some_ne_none t)
  | unlock htodo =>
    rw [htodo] at howning
    cases howning with
    | holding hl =>
      cases hl with
      | returning hl =>
        cases hl
        exact .inl (h.unlock ht .user)
  | access htodo =>
    rw [htodo] at howning
    cases howning with
    | holding hl => exact .inl (h.own ht (.holding ((hl.tail (by simp)).after ..)) h.settled)
    | calling hrun hstate hcall hl =>
      have hstays : StaysBusy s.stream
          (Access.run b no_callbacks (.set_consumer_is_running true) s.stream).1 :=
        (Access.run_starts hrun hstate).2
      rw [after_of_log_eq hstays.log_eq, (Access.run_starts hrun hstate).1]
      exact .inl (h.own ht (.consuming hstays.toBusy hcall hl) h.settled)
  | process_nothing htodo htake =>
    rw [htodo] at howning
    cases howning with
    | holding hl => exact .inl (h.own ht (.holding ((hl.tail (by simp)).after ..)) h.settled)
  | process_datum htodo htake =>
    rw [htodo] at howning
    cases howning with
    | holding hl =>
      cases hl with
      | returning hl => cases hl
      | process_data hl =>
        obtain ⟨hrun, hstate⟩ := of_take_data htake
        have hcall : Synchronous (update s.promises s.calls (some { caller_id := t })) s.calls t :=
          ⟨_, update_self .., by simp [is_async]⟩
        exact .inl (h.own ht (.calling hrun hstate hcall hl) (h.settled.set fun hbound => by
          cases hbound))
  | bind_pending htodo hp hanswer =>
    rw [htodo] at howning
    cases howning with
    | holding hl => cases hl with | returning hl => cases hl
    | binding hbusy hcall hl => exact .inr ⟨_, h.arm ht hbusy hcall hp hanswer hl⟩
  | bind_settled htodo hp hanswer =>
    rw [htodo] at howning
    cases howning with
    | holding hl => cases hl with | returning hl => cases hl
    | binding hbusy hcall hl =>
      obtain ⟨p', hp', hsync⟩ := hcall
      cases hp.symm.trans hp'
      exact .inl (h.own ht (.continuing ⟨_, update_self .., hsync⟩ (.async_check _ (.handler hl)))
        (h.settled.set fun _ => by simp [hanswer]))
  | bind_throws htodo =>
    rw [htodo] at howning
    cases howning with
    | holding hl => cases hl with | returning hl => cases hl
    | binding hbusy hcall hl =>
      exact .inl (h.own ht (.holding (.throwing (.returning (.async_check _ (.handler hl)))))
        h.settled)
  | continuation htodo hp =>
    rw [htodo] at howning
    cases howning with
    | holding hl => cases hl with | returning hl => cases hl
    | continuing hcall hl =>
      obtain ⟨p', hp', hsync⟩ := hcall
      cases hp.symm.trans hp'
      rw [if_neg (by simp [hsync])]
      exact .inl (h.own ht (.holding (continuation_body_holding _ hl)) h.settled)
  | async_check htodo hp =>
    rw [htodo] at howning
    cases howning with
    | holding hl =>
      have hsettled := h.settled _ _ hp
      exact .inl (h.own ht (.holding (hl.tail (by simp))) (h.settled.set hsettled))
  | handler htodo =>
    rw [htodo] at howning
    cases howning with
    | holding hl => exact .inl (h.own ht (.holding (hl.tail (by simp))) h.settled)
  | unwind_unlock htodo =>
    rw [htodo] at howning
    cases howning with
    | holding hl =>
      obtain rfl := (hl.tail (by simp)).of_unlock
      exact .inl (h.unlock ht .throwing)
  | unwind_handler htodo =>
    rw [htodo] at howning
    cases howning with
    | holding hl =>
      have hrest := (hl.tail (by simp)).tail (by simp)
      exact .inl (h.own ht (.holding (.access (by simp) (.throwing hrest))) h.settled)
  | unwind_user htodo =>
    rw [htodo] at howning
    cases howning with
    | holding hl => exact .inl (h.own ht (.holding (hl.tail (by simp))) h.settled)
  | unwind htodo hinstr =>
    rw [htodo] at howning
    cases howning with
    | holding hl =>
      have hrest := (hl.tail (by simp)).tail hinstr.1
      exact .inl (h.own ht (.holding (.throwing hrest)) h.settled)
    | refused hl =>
      exact .inl (h.own ht (.holding (.throwing (.returning (.async_check _ (.handler hl)))))
        h.settled)
  | unwind_end htodo =>
    rw [htodo] at howning
    cases howning with
    | holding hl =>
      cases hl with
      | returning hl => cases hl
      | throwing hl => cases hl with | returning hl => cases hl

theorem Clear.step (h : Clear s) (hstep : Step b t s s') : Clear s' ∨ ∃ call, Armed s' call := by
  by_cases ht : s.mx = some t
  · by_cases huser : InUser (s.todo t)
    · exact .inl (h.user_step ht huser hstep)
    · exact h.stream_step ht huser hstep
  · exact .inl (h.outside_step ht hstep)

/-! ## A continuation waits for its promise -/

omit [DecidableEq T] in
/-- The thread that has bound the continuation to its promise owns the lock, as long as it
has not set `async_check`. -/
theorem Armed.caller (h : Armed s call) (hp : s.promises call = some p) :
    p.answer = none ∧ p.bound = true ∧
      (p.async_check = true ∨ s.mx = some p.caller_id ∧ .async_check call ∈ s.todo p.caller_id) := by
  obtain ⟨p', hp', harmed⟩ := h.armed
  cases hp.symm.trans hp'
  exact harmed

omit [DecidableEq T] in
/-- A promise that is settled while the continuation waits for another one has not been
bound. -/
theorem Armed.not_bound (h : Armed s call) {call' : ℕ} (hne : call' ≠ call)
    (hp : s.promises call' = some p) (hanswer : p.answer = none) : p.bound = false := by
  by_contra hbound
  exact h.others call' hne p hp (by simpa using hbound) hanswer

omit [DecidableEq T] in
/-- A promise changes, and is settled if it is bound and is not the one that is waited for. -/
theorem Armed.others_set (h : Armed s call) {call' : ℕ}
    (hp : call' ≠ call → p.bound = true → p.answer ≠ none) :
    ∀ call₁ ≠ call, ∀ p₁, update s.promises call' (some p) call₁ = some p₁ →
      p₁.bound = true → p₁.answer ≠ none := by
  intro call₁ hne p₁ hp₁
  by_cases heq : call₁ = call'
  · subst heq
    rw [update_self, Option.some_inj] at hp₁
    exact hp₁ ▸ hp hne
  · rw [update_of_ne heq] at hp₁
    exact h.others call₁ hne p₁ hp₁

/-- The owner of the lock makes a step. -/
theorem Armed.owner_step (h : Armed s call) (ht : s.mx = some t) (hstep : Step b t s s') :
    Armed s' call := by
  have hworking : Working (s.todo t) := (h.held t).1 ht
  have hheld := h.held
  obtain ⟨p, hp, hanswer, hbound, hcheck⟩ := h.armed
  have hcaller : p.async_check = true ∨ p.caller_id = t ∧ .async_check call ∈ s.todo t := by
    refine hcheck.imp_right fun ⟨hmx, hmem⟩ => ?_
    obtain rfl : p.caller_id = t := Option.some.inj (hmx.symm.trans ht)
    exact ⟨rfl, hmem⟩
  rcases hworking.step h.busy hstep with ⟨l, stream, hl, hbusy, rfl, hkeeps⟩ |
    ⟨call', p', l, htodo, hl, hp', rfl⟩ | ⟨l, hl, hnone, rfl⟩
  · refine ⟨hheld.move (fun _ => hl) fun hne => absurd ht hne, hbusy, h.others, p, hp, hanswer,
      hbound, hcaller.imp_right fun ⟨heq, hmem⟩ => ⟨heq ▸ ht, ?_⟩⟩
    show .async_check call ∈ update s.todo t l p.caller_id
    rw [heq, update_self]
    exact hkeeps call hmem
  · have hheld' := hheld.move (t := t) (l := l) (fun _ => hl) fun hne => absurd ht hne
    by_cases heq : call' = call
    · -- `async_check` is set for the call that is waiting
      subst heq
      cases hp.symm.trans hp'
      exact ⟨hheld', h.busy, h.others_set fun hne => absurd rfl hne,
        _, update_self .., hanswer, hbound, .inl rfl⟩
    · refine ⟨hheld', h.busy, h.others_set fun hne => h.others call' hne p' hp', p,
        (update_of_ne (Ne.symm heq) ..).trans hp, hanswer, hbound,
        hcaller.imp_right fun ⟨hid, hmem⟩ => ⟨hid ▸ ht, ?_⟩⟩
      show .async_check call ∈ update s.todo t l p.caller_id
      rw [hid, update_self]
      rw [htodo] at hmem
      exact (List.mem_cons.mp hmem).resolve_left fun hcall => heq (by simpa using hcall.symm)
  · have hchecked : p.async_check = true := hcaller.resolve_right fun ⟨_, hmem⟩ => hnone call hmem
    rw [ht] at hheld
    exact ⟨hheld.unlock hl, h.busy, h.others, p, hp, hanswer, hbound, .inl hchecked⟩

/-- The promise is settled by a thread without the lock: it is not the caller, or the caller
has set `async_check`. -/
theorem Armed.settle (h : Armed s call) (ht : s.mx ≠ some t) (hp : s.promises call = some p)
    (answer : Answer E) :
    Answering ((s.set call { p with answer := some answer }).go t [.continuation call answer])
      t call where
  held := by
    have hasync : is_async t { p with answer := some answer } = true := by
      rcases (h.caller hp).2.2 with hcheck | ⟨hmx, -⟩
      · simp [is_async, hcheck]
      · have hne : t ≠ p.caller_id := fun heq => ht (heq ▸ hmx)
        simp [is_async, hne]
    refine h.held.turn (fun _ _ => Iff.rfl) (fun heq => absurd heq ht) (fun _ => ?_)
      (fun u hu _ hl => ⟨hu, hl⟩) fun u hu hl => ?_
    · exact ⟨fun _ => .continuation (update_self ..) hasync, fun hne => absurd rfl hne⟩
    · exact ⟨fun heq => absurd heq hu, fun _ => hl⟩
  busy := h.busy
  settled call' p' hp' hbound := by
    by_cases heq : call' = call
    · subst heq
      cases (update_self ..).symm.trans hp'
      simp
    · exact h.others call' heq p' ((update_of_ne heq ..).symm.trans hp') hbound

/-- A thread without the lock makes a step. -/
theorem Armed.outside_step (h : Armed s call) (ht : s.mx ≠ some t) (hstep : Step b t s s') :
    Armed s' call ∨ Answering s' t call := by
  have hout : Outside (s.todo t) := (h.held t).2 ht
  obtain ⟨p, hp, hanswer, hbound, hcheck⟩ := h.armed
  -- the caller is not this thread, or has set `async_check`
  have hcheck' : ∀ l, p.async_check = true ∨
      s.mx = some p.caller_id ∧ .async_check call ∈ update s.todo t l p.caller_id := by
    intro l
    refine hcheck.imp_right fun ⟨hmx, hmem⟩ => ⟨hmx, ?_⟩
    have hne : p.caller_id ≠ t := fun heq => ht (heq ▸ hmx)
    rwa [update_of_ne hne]
  rcases hout.step hstep with ⟨l, hl, rfl⟩ | ⟨call', p', answer, htodo, hp', hanswer', rfl⟩ |
    ⟨l, hl, hfree, rfl⟩
  · exact .inl ⟨h.held.move (fun heq => absurd heq ht) fun _ => hl, h.busy, h.others, p, hp,
      hanswer, hbound, hcheck' l⟩
  · by_cases heq : call' = call
    · subst heq
      cases hp.symm.trans hp'
      rw [if_pos hbound]
      exact .inr (h.settle ht hp answer)
    · rw [if_neg (by simp [h.not_bound heq hp' hanswer'])]
      exact .inl ⟨h.held.move (fun heq => absurd heq ht) fun _ => .user, h.busy,
        h.others_set fun _ _ => by simp, p, (update_of_ne (Ne.symm heq) ..).trans hp, hanswer,
        hbound, hcheck' []⟩
  · have hheld := h.held
    rw [hfree] at hheld
    refine .inl ⟨hheld.lock (.inr hl), h.busy, h.others, p, hp, hanswer, hbound, .inl ?_⟩
    exact hcheck.resolve_right fun ⟨hmx, _⟩ => Option.some_ne_none _ (hmx.symm.trans hfree)

theorem Armed.step (h : Armed s call) (hstep : Step b t s s') :
    Armed s' call ∨ Answering s' t call := by
  by_cases ht : s.mx = some t
  · exact .inl (h.owner_step ht hstep)
  · exact h.outside_step ht hstep

/-! ## A continuation waits for the lock -/

/-- Whether the continuation is called asynchronously changes to true only. -/
theorem Answers.set {promises : ℕ → Option (ConsumerPromise T E)} {call' : ℕ}
    (h : Answers promises u call l) (hp : promises call' = some p) {p' : ConsumerPromise T E}
    (hasync : is_async u p = true → is_async u p' = true) :
    Answers (update promises call' (some p')) u call l := by
  cases h with
  | continuation hp₁ hasync₁ =>
    by_cases heq : call = call'
    · subst heq
      cases hp.symm.trans hp₁
      exact .continuation (update_self ..) (hasync hasync₁)
    · exact .continuation ((update_of_ne heq ..).trans hp₁) hasync₁
  | get_lock hl => exact .get_lock hl

/-- The thread that calls the continuation is not the owner. -/
theorem Answering.mx_ne (h : Answering s u call) : s.mx ≠ some u :=
  fun heq => ((h.held u).1 heq).1 rfl

theorem Answering.answers (h : Answering s u call) : Answers s.promises u call (s.todo u) :=
  ((h.held u).2 h.mx_ne).1 rfl

/-- The owner of the lock makes a step. -/
theorem Answering.owner_step (h : Answering s u call) (ht : s.mx = some t)
    (hstep : Step b t s s') : Answering s' u call := by
  obtain ⟨hne, hworking⟩ := (h.held t).1 ht
  rcases hworking.step h.busy hstep with ⟨l, stream, hl, hbusy, rfl, -⟩ |
    ⟨call', p, l, -, hl, hp, rfl⟩ | ⟨l, hl, -, rfl⟩
  · exact ⟨h.held.move (fun _ => ⟨hne, hl⟩) fun hne => absurd ht hne, hbusy, h.settled⟩
  · refine ⟨h.held.turn (fun _ _ => Iff.rfl) (fun _ => ⟨hne, hl⟩) (fun hne => absurd ht hne)
      (fun _ _ _ => id) (fun v _ hv => ⟨fun heq => (hv.1 heq).set hp fun _ => ?_, hv.2⟩), h.busy,
      h.settled.set (h.settled call' p hp)⟩
    simp [is_async]
  · have hheld := h.held
    rw [ht] at hheld
    exact ⟨hheld.unlock ⟨fun heq => absurd heq hne, fun _ => hl⟩, h.busy, h.settled⟩

/-- Another thread without the lock makes a step. -/
theorem Answering.outside_step (h : Answering s u call) (ht : s.mx ≠ some t) (hne : t ≠ u)
    (hstep : Step b t s s') : Answering s' u call := by
  rcases (((h.held t).2 ht).2 hne).step hstep with
    ⟨l, hl, rfl⟩ | ⟨call', p, answer, htodo, hp, hanswer, rfl⟩ |
    ⟨l, hl, hfree, rfl⟩
  · exact ⟨h.held.move (fun heq => absurd heq ht) fun _ => ⟨fun heq => absurd heq hne, fun _ => hl⟩,
      h.busy, h.settled⟩
  · rw [if_neg (by simp [h.settled.not_bound hp hanswer])]
    exact ⟨h.held.turn (fun _ _ => Iff.rfl) (fun heq => absurd heq ht)
      (fun _ => ⟨fun heq => absurd heq hne, fun _ => .user⟩) (fun _ _ _ => id)
      (fun _ _ hv => ⟨fun heq => (hv.1 heq).set hp id, hv.2⟩), h.busy,
      h.settled.set fun _ => by simp⟩
  · have hheld := h.held
    rw [hfree] at hheld
    exact ⟨hheld.lock ⟨hne, .inr hl⟩, h.busy, h.settled⟩

/-- The thread that calls the continuation waits for the lock, and gets it in the end. -/
theorem Answering.answer_step (h : Answering s u call) (hstep : Step b u s s') :
    Answering s' u call ∨ Clear s' := by
  have hanswers := h.answers
  cases hstep with
  | continuation htodo hp =>
    rw [htodo] at hanswers
    cases hanswers with
    | continuation hp' hasync =>
      cases hp.symm.trans hp'
      rw [if_pos hasync]
      exact .inl ⟨h.held.move (fun heq => absurd heq h.mx_ne) fun _ =>
        ⟨fun _ => .get_lock (continuation_body_holding _ .unlock), fun hne => absurd rfl hne⟩,
        h.busy, h.settled⟩
  | get_lock htodo hfree =>
    rw [htodo] at hanswers
    cases hanswers with
    | get_lock hl =>
      exact .inr ⟨h.held.turn (fun v hv => by simpa [hfree] using hv.symm)
        (fun _ => .holding hl) (fun hne => absurd rfl hne)
        (fun v _ hv => absurd (hv.symm.trans hfree) (Option.some_ne_none v))
        fun _ hv hl => hl.2 hv, h.settled⟩
  | operate op hin | settle answer hin hp hanswer =>
    rcases hin with hnil | ⟨rest, hcons⟩
    · rw [hnil] at hanswers
      cases hanswers
    · rw [hcons] at hanswers
      cases hanswers
  | user_returns htodo | user_throws htodo | unlock htodo | access htodo | process_nothing htodo
  | process_datum htodo | bind_pending htodo | bind_settled htodo | bind_throws htodo
  | async_check htodo | handler htodo | unwind_unlock htodo | unwind_handler htodo
  | unwind_user htodo | unwind htodo | unwind_end htodo =>
    rw [htodo] at hanswers
    cases hanswers

theorem Answering.step (h : Answering s u call) (hstep : Step b t s s') :
    Answering s' u call ∨ Clear s' := by
  by_cases ht : s.mx = some t
  · exact .inl (h.owner_step ht hstep)
  · by_cases hne : t = u
    · subst hne
      exact h.answer_step hstep
    · exact .inl (h.outside_step ht hne hstep)

/-- **Every step** keeps the invariant. -/
theorem Steps.inv (h : Inv s) (hstep : Steps b s s') : Inv s' := by
  obtain ⟨t, hstep⟩ := hstep
  rcases h with h | ⟨call, h⟩ | ⟨u, call, h⟩
  · exact (h.step hstep).imp_right .inl
  · rcases h.step hstep with h' | h'
    · exact .inr (.inl ⟨call, h'⟩)
    · exact .inr (.inr ⟨t, call, h'⟩)
  · rcases h.step hstep with h' | h'
    · exact .inr (.inr ⟨u, call, h'⟩)
    · exact .inl h'

theorem inv_of_reachable [Inhabited R] (h : ReflTransGen (Steps b) start s) : Inv s :=
  History.keeps (fun _ _ => Steps.inv) (.inl clear_start) h

omit [DecidableEq T] in
/-- The instruction reads or writes members of the stream. -/
def Instr.touches : Instr R D E → Bool
  | access _ | process_data => true
  | get_lock _ | unlock | user | bind _ | continuation _ _ => false
  | async_check _ | handler | throwing => false

/-- What a thread without the lock does. -/
theorem Inv.outside (h : Inv s) (ht : s.mx ≠ some t) :
    Outside (s.todo t) ∨ ∃ call, Answers s.promises t call (s.todo t) := by
  rcases h with h | ⟨call, h⟩ | ⟨u, call, h⟩
  · exact .inl ((h.held t).2 ht)
  · exact .inl ((h.held t).2 ht)
  · by_cases heq : t = u
    · exact .inr ⟨call, heq ▸ h.answers⟩
    · exact .inl (((h.held t).2 ht).2 heq)

/-- What the owner of the lock does. -/
theorem Inv.owning (h : Inv s) (ht : s.mx = some t) :
    Owning s.stream s.promises t (s.todo t) ∨ Working (s.todo t) := by
  rcases h with h | ⟨call, h⟩ | ⟨u, call, h⟩
  · exact .inl ((h.held t).1 ht)
  · exact .inr ((h.held t).1 ht)
  · exact .inr ((h.held t).1 ht).2

/-- **The continuation holds the lock of the stream, once.** In every state that is reached:
a thread that touches the stream owns the mutex; where a continuation is called, `is_async`
is false if and only if its thread owns the mutex; and where a continuation is about to lock
the mutex, its thread does not own it. -/
theorem continuation_holds_lock_once [Inhabited R] {s : StreamThreads T R D E}
    (h : ReflTransGen (Steps b) start s) :
    (∀ t instr rest, s.todo t = instr :: rest → instr.touches → s.mx = some t) ∧
    (∀ t call answer rest p, s.todo t = .continuation call answer :: rest →
      s.promises call = some p → (is_async t p = false ↔ s.mx = some t)) ∧
    ∀ t call rest, s.todo t = .get_lock (some call) :: rest → s.mx ≠ some t := by
  have hinv := inv_of_reachable h
  refine ⟨fun t instr rest htodo htouches => ?_, fun t call answer rest p htodo hp => ?_,
    fun t call rest htodo ht => ?_⟩
  · by_contra ht
    rcases hinv.outside ht with hl | ⟨call, hl⟩
    · rw [htodo] at hl
      cases hl <;> cases htouches
    · rw [htodo] at hl
      cases hl <;> cases htouches
  · constructor
    · intro hsync
      by_contra ht
      rcases hinv.outside ht with hl | ⟨call, hl⟩
      · rw [htodo] at hl
        cases hl
      · rw [htodo] at hl
        cases hl with
        | continuation hp' hasync =>
          cases hp.symm.trans hp'
          exact Bool.false_ne_true (hsync.symm.trans hasync)
    · intro ht
      rcases hinv.owning ht with hl | hl
      · rw [htodo] at hl
        cases hl with
        | holding hl => cases hl with | returning hl => cases hl
        | continuing hcall hl =>
          obtain ⟨p', hp', hsync⟩ := hcall
          cases hp.symm.trans hp'
          exact hsync
      · rw [htodo] at hl
        rcases hl with hl | hl <;> cases hl
  · rcases hinv.owning ht with hl | hl
    · rw [htodo] at hl
      cases hl with
      | holding hl => cases hl with | returning hl => cases hl
    · rw [htodo] at hl
      rcases hl with hl | hl <;> cases hl

end Steps

/-- One thread has called the consumer, and has bound the continuation to the promise that
it has returned, which has not been settled. -/
theorem reaches_bound :
    ∃ s : StreamThreads Bool ℕ ℕ String, ReflTransGen (Steps .debug) start s ∧
      s.mx = some true ∧ s.todo true = [.async_check 0, .handler, .unlock] ∧
      s.todo false = [] ∧ s.promises 0 = some { caller_id := true, bound := true } :=
  ⟨_, .head ⟨true, .operate _ (.stream fun _ _ => ((), .pending)) (.inl rfl)⟩ <|
    .head ⟨true, .get_lock _ rfl rfl⟩ <| .head ⟨true, .access _ rfl⟩ <|
    .head ⟨true, .process_nothing _ rfl rfl⟩ <| .head ⟨true, .unlock _ rfl⟩ <|
    .head ⟨true, .operate _ (.write 1) (.inl rfl)⟩ <| .head ⟨true, .get_lock _ rfl rfl⟩ <|
    .head ⟨true, .access _ rfl⟩ <| .head ⟨true, .process_datum _ rfl rfl⟩ <|
    .head ⟨true, .access _ rfl⟩ <| .head ⟨true, .user_returns _ rfl⟩ <|
    .single ⟨true, .bind_pending _ rfl rfl rfl⟩, rfl, rfl, rfl, rfl⟩

/-- Another thread settles the promise before `async_check` is set: it does not own the
mutex, and knows. -/
theorem continuation_holds_lock_once_settled_early :
    ∃ (s : StreamThreads Bool ℕ ℕ String) (p : ConsumerPromise Bool String),
      ReflTransGen (Steps .debug) start s ∧ s.mx = some true ∧
      s.todo false = [.continuation 0 (.ok .Continue)] ∧ s.promises 0 = some p ∧
      p.async_check = false ∧ is_async false p ≠ false := by
  obtain ⟨s, hs, hmx, -, htodo, hp⟩ := reaches_bound
  have hstep : Steps .debug s _ := ⟨false, .settle s (.ok .Continue) (.inl htodo) hp rfl⟩
  have hreached := hs.tail hstep
  have htodo' : ((s.set 0 ⟨true, false, true, some (.ok .Continue)⟩).go false
      (.continuation 0 (.ok .Continue) :: s.todo false)).todo false
      = [.continuation 0 (.ok .Continue)] := by
    rw [htodo]
    rfl
  refine ⟨_, _, hreached, hmx, htodo', rfl, rfl, fun hsync => ?_⟩
  have howns := ((continuation_holds_lock_once hreached).2.1 false 0 (.ok .Continue) [] _
    htodo' rfl).1 hsync
  exact Bool.false_ne_true (Option.some.inj (howns.symm.trans hmx))

end StreamThreads
end Kaiu
