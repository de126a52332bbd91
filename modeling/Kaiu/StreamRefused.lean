/-
Refused data.

A write to a stream that its producer has ended is refused by the debug build. The check
is that of `set_stream_has_been_written_to`, and `write` calls it when the datum is in the
buffer already. Nothing tells it from the data before it: unless the stream has been
completed, it is handed to every consumer that goes on for as long as there are data
(`GoesThrough`).

After the refusal a stream that a consumer is bound to is in one of three situations,
whatever happens to it (`Stays`): the datum is still owed to the consumer, it has been
handed over, or the stream is lost, which is to say that nothing is handed over any more.
-/
import Kaiu.StreamHanded

set_option autoImplicit false

namespace Kaiu
namespace PromiseStreamState

open Exit Relation

variable {R D E K σ : Type*} {b : Build} {call : K → Outcome R E → σ → Ended σ (ExceptionPtr E)}
  {op : Op R D E K σ} {s s' : PromiseStreamState R D E K σ} {c : Consumer D E σ} {d : D}
  {buffer past : List D} {G : Prop}

/-! ## The refusal -/

/-- The producer has ended the stream, and the check of a write fails. -/
def Refuses (s : PromiseStreamState R D E K σ) : Prop :=
  s.action = .Continue ∧ (s.result = .resolved ∨ s.result = .rejected)

/-- What a refused write leaves. -/
def refused (d : D) (s : PromiseStreamState R D E K σ) : PromiseStreamState R D E K σ :=
  { s with buffer := s.buffer ++ [d], log := s.log ++ [.write d] }

theorem write_refuses (call : K → Outcome R E → σ → Ended σ (ExceptionPtr E))
    (hb : b.SAFE_PROMISE_STREAMS = true) (h : Refuses s) (d : D) :
    write b call d s = throws (refused d s)
      (.logic_error "Data written to stream after it has been completed") := by
  have hthrows : set_stream_has_been_written_to b call (refused d s) = throws (refused d s)
      (.logic_error "Data written to stream after it has been completed") := if_pos ⟨hb, h.2⟩
  rw [write_eq, if_pos h.1]
  change andThen (set_stream_has_been_written_to b call (refused d s)) _ = _
  rw [hthrows, throws_andThen]

/-- The consumer has been handed the data `past`, and the datum `d` after them. -/
def Handed (past : List D) (d : D) (s : PromiseStreamState R D E K σ) : Prop :=
  ∃ rest, calls s.log = past ++ d :: rest

/-- The consumer that is handed `buffer` in `world` answers none of the data at once with
anything but `Continue`. -/
def GoesThrough (c : Consumer D E σ) : σ → List D → Prop
  | _, [] => True
  | world, d :: buffer =>
      ((data c world d).2 = none ∨ (data c world d).2 = some (.ok .Continue)) ∧
        GoesThrough c (c world d).1 buffer

theorem calls_mono {log log' : List (StreamEvent R D E σ)} (h : log <+: log') :
    calls log <+: calls log' := h.filterMap _

/-- What has been handed over stays so. -/
theorem Handed.mono (h : Handed past d s) (hlog : s.log <+: s'.log) : Handed past d s' := by
  obtain ⟨rest, hcalls⟩ := h
  obtain ⟨more, hmore⟩ := calls_mono hlog
  refine ⟨rest ++ more, ?_⟩
  rw [← hmore, hcalls, List.append_assoc, List.cons_append]

theorem not_handed (h : (calls s.log).length ≤ past.length) : ¬ Handed past d s := by
  rintro ⟨rest, hcalls⟩
  rw [hcalls, List.length_append, List.length_cons] at h
  omega

/-! ## Nothing is handed over any more -/

/-- The stream is completed or has been told to stop, before the datum was handed over. -/
structure Lost (past : List D) (s : PromiseStreamState R D E K σ) : Prop where
  answered : s.outstanding = false
  stopped : s.state = .completed ∨ s.action ≠ .Continue
  before : (calls s.log).length ≤ past.length

/-- Nothing is called or answered, and the stream stays as it is. -/
theorem Lost.keep (h : Lost past s) (hcalls : calls s'.log = calls s.log)
    (hanswers : answers s'.log = answers s.log)
    (hstopped : s.state = .completed ∨ s.action ≠ .Continue →
      s'.state = .completed ∨ s'.action ≠ .Continue) : Lost past s' := by
  refine ⟨?_, hstopped h.stopped, ?_⟩
  · unfold outstanding
    rw [hcalls, hanswers]
    exact h.answered
  · rw [hcalls]
    exact h.before

theorem Tick.lost (h : Lost past s) (ht : Tick b call op s s') : Lost past s' := by
  have hnot : ¬ s.outstanding = true := by simp [h.answered]
  cases ht with
  | write_kept hop ha hst => exact absurd ha (h.stopped.resolve_left hst)
  | call hc hrun hst ha hb =>
    rcases h.stopped with hc | hne
    · rw [hc] at hst
      rcases hst with hst | hst <;> cases hst
    · exact absurd ha hne
  | answer_action hout | answer_failed hout | answer_late hout => exact absurd hout hnot
  | @refused o hop hr hlog =>
    refine h.keep rfl rfl (Or.imp_right fun hne => ?_)
    rcases action_after_eq o s.action with ha | ha
    · rwa [ha]
    · simp [ha]
  | @recorded o hop hr hst hb hlog =>
    refine h.keep rfl rfl fun hstopped => Or.inr ?_
    have hne := hstopped.resolve_left (by simp [hst])
    rcases action_after_eq o s.action with ha | ha
    · rwa [ha]
    · simp [ha]
  | recorded_completes | drained_completes =>
    exact h.keep (by simp [completed]) (by simp [completed]) fun _ => Or.inl rfl
  | write_dropped | write_refused | write_late | ended =>
    exact h.keep (by simp [logged]) (by simp [logged]) id
  | bound | result_bound | stopped | drained => exact h.keep rfl rfl id

theorem Ticks.lost (h : Lost past s) (ht : Ticks b call op s s') : Lost past s' :=
  History.keeps (fun _ _ h htick => htick.lost h) h ht

/-! ## The datum is owed -/

/-- The datum `d` is in the buffer, and the data of `past` that have not been handed over
are before it. `G` says whether the consumer goes through them. -/
structure Owed (past : List D) (d : D) (c : Consumer D E σ) (G : Prop)
    (s : PromiseStreamState R D E K σ) : Prop where
  state : s.state = .streaming2
  bound : s.on_data = some c
  split : ∃ pre post, s.buffer = pre ++ d :: post ∧ calls s.log ++ pre = past ∧
    (GoesThrough c s.world pre ↔ G)
  action : s.outstanding = false → s.action = .Continue

theorem Owed.before (h : Owed past d c G s) : (calls s.log).length ≤ past.length := by
  obtain ⟨pre, -, -, hpast, -⟩ := h.split
  rw [← hpast, List.length_append]
  omega

/-- The result of such a stream is that of its producer. -/
theorem Owed.late (h : Owed past d c G s) (hs : Sane s) (hnf : s.result ≠ .consumer_failed) :
    s.result = .resolved ∨ s.result = .rejected := by
  have hne := (hs.streaming2_state h.state).1
  cases hr : s.result <;> simp_all

/-- A datum before it is handed over. -/
theorem Owed.called {x : D} {pre post : List D} (h : Owed past d c G s) (hs : Sane s)
    (hpast : calls s.log ++ x :: pre = past) (hG : GoesThrough c (c s.world x).1 pre ↔ G) :
    Owed past d c G (called c x (pre ++ d :: post) s) := by
  refine ⟨h.state, h.bound, ⟨pre, post, rfl, ?_, hG⟩, fun hnone => ?_⟩
  · rw [← hpast, PromiseStreamState.called, calls_append, List.append_assoc]
    rfl
  · rw [hs.called_outstanding] at hnone
    cases hnone

/-- The consumer goes on. -/
theorem Owed.goes_on (h : Owed past d c G s) : Owed past d c G (noted .Continue s) := by
  obtain ⟨pre, post, hb, hpast, hG⟩ := h.split
  refine ⟨h.state, h.bound, ⟨pre, post, hb, ?_, hG⟩, fun _ => rfl⟩
  rw [PromiseStreamState.noted, calls_append, List.append_nil]
  exact hpast

/-- What `process_data` makes of a stream that owes the datum, with fewer data than `n` in
its buffer if it waits for an answer. -/
inductive Proceeds (past : List D) (d : D) (c : Consumer D E σ) (G : Prop) (n : ℕ)
    (s : PromiseStreamState R D E K σ) : Prop where
  | handed (hG : G) (h : Handed past d s)
  | waits (h : Owed past d c G s) (hout : s.outstanding = true) (hlen : s.buffer.length < n)
  | lost (hG : ¬ G) (h : Lost past s)

theorem Proceeds.mono {n m : ℕ} (h : Proceeds past d c G n s) (hle : n ≤ m) :
    Proceeds past d c G m s := by
  cases h with
  | handed hG h => exact .handed hG h
  | waits h hout hlen => exact .waits h hout (Nat.lt_of_lt_of_le hlen hle)
  | lost hG h => exact .lost hG h

/-- The handler of `call_data_callback` changes the flag of the consumer at most. -/
theorem Proceeds.rethrown {n : ℕ} {r : Ended (PromiseStreamState R D E K σ) (ExceptionPtr E)}
    (hs : Sane r.1) (hst : r.1.state ≠ .pending) (h : Proceeds past d c G n r.1) :
    Proceeds past d c G n (rethrowing r (set_consumer_is_running b call false)).1 := by
  rcases rethrowing_flag b call hs hst with heq | heq
  · rw [heq]
    exact h
  · rw [heq]
    cases h with
    | handed hG h => exact .handed hG h
    | waits h hout hlen => exact .waits ⟨h.state, h.bound, h.split, h.action⟩ hout hlen
    | lost hG h => exact .lost hG ⟨h.answered, h.stopped, h.before⟩

/-- A stream that is told to stop by the consumer is lost. -/
theorem lost_of_answer {a : Answer E} {t : PromiseStreamState R D E K σ}
    (hlog : t.log = s.log ++ [.answer a]) (hle : (calls s.log).length ≤ (answers s.log).length + 1)
    (haction : t.action ≠ .Continue) (hbefore : (calls s.log).length ≤ past.length) :
    Lost past t := by
  refine ⟨?_, Or.inr haction, ?_⟩
  · unfold outstanding
    rw [hlog, calls_append, answers_append]
    simpa using hle
  · rw [hlog, calls_append]
    simpa using hbefore

/-- The consumer fails on a datum before `d`: the failure is refused, and the stream is told
to stop. -/
theorem lost_of_failure {x : D} {buffer : List D}
    (process_data : PromiseStreamState R D E K σ → Ended (PromiseStreamState R D E K σ)
      (ExceptionPtr E)) (h : Owed past d c G s) (hs : Sane s) (ha : s.action = .Continue)
    (hsane : Sane (called c x buffer s))
    (hbefore : (calls (called c x buffer s).log).length ≤ past.length) (e : ExceptionPtr E) :
    Lost past (continuation b call process_data (.error e) (called c x buffer s)).1 := by
  have hlate : (called c x buffer s).result = .resolved ∨
      (called c x buffer s).result = .rejected :=
    h.late hs fun hf => hs.failed hf ha
  rw [continuation_late b call process_data hlate e]
  exact lost_of_answer rfl hsane.calls_le (by simp) hbefore

/-- The consumer stops the stream on a datum before `d`: the rest of the buffer is dropped. -/
theorem lost_of_stop {n : ℕ} {action : StreamAction} {t : PromiseStreamState R D E K σ}
    (ht : Sane t) (hanswered : Sane (noted action t)) (hlen : t.buffer.length < n)
    (haction : action ≠ .Continue) (hbefore : (calls t.log).length ≤ past.length) :
    Lost past (process_data b call n (noted action t)).1 := by
  have hlost : Lost past (noted action t) := lost_of_answer rfl ht.calls_le haction hbefore
  have hticks : Ticks b call (.answer (.error .null)) (noted action t)
      (process_data b call n (noted action t)).1 :=
    (process_data_spec n _ hanswered hlen).ticks
  exact hticks.lost hlost

/-- **The datum is reached, or the stream waits or stops before it.** The induction is on
the data in the buffer. -/
theorem process_data_owed (n : ℕ) (hs : Sane s) (hlen : s.buffer.length < n)
    (h : Owed past d c G s) (hrun : s.consumer_is_running = false) :
    Proceeds past d c G s.buffer.length (process_data b call n s).1 := by
  induction n generalizing s with
  | zero => omega
  | succ n ih =>
    obtain ⟨pre, post, hb, hpast, hG⟩ := h.split
    have hst : s.state = .streaming1 ∨ s.state = .streaming2 := Or.inr h.state
    have ha : s.action = .Continue := h.action (hs.not_outstanding hrun)
    obtain ⟨x, buffer, hcons⟩ : ∃ x buffer, s.buffer = x :: buffer := by
      rw [hb]
      cases pre with
      | nil => exact ⟨d, post, rfl⟩
      | cons x pre => exact ⟨x, pre ++ d :: post, rfl⟩
    have hcall : Tick b call (.answer (.error .null)) s (called c x buffer s) :=
      .call h.bound hrun hst ha hcons
    have hsane := hcall.sane hs
    have hout := hs.called_outstanding c x buffer
    have hlen' : buffer.length < n := by
      rw [hcons, List.length_cons] at hlen
      omega
    have hspec := called_spec hs h.bound hcall hlen' fun t => process_data_spec n t
    have hp : (called c x buffer s).state ≠ .pending := by
      show s.state ≠ .pending
      simp [h.state]
    rw [process_data_cons b call n hs h.bound hrun hst ha hcons]
    apply Proceeds.rethrown (hspec.ticks.sane hsane) (hspec.ticks.not_pending hp)
    cases pre with
    | nil =>
      -- it is the turn of the datum itself
      rw [hb, List.nil_append] at hcons
      cases hcons
      have hhanded : Handed past d (called c d post s) := by
        refine ⟨[], ?_⟩
        rw [← hpast, List.append_nil, called, calls_append]
      exact .handed (hG.mp trivial) (hhanded.mono hspec.ticks.log_mono)
    | cons y pre =>
      -- a datum before it comes first, and all depends on what the consumer answers
      rw [hb, List.cons_append] at hcons
      cases hcons
      rw [GoesThrough] at hG
      have hcalled (hgo : GoesThrough c (c s.world x).1 pre ↔ G) :
          Owed past d c G (called c x (pre ++ d :: post) s) := h.called hs hpast hgo
      have hlength : (pre ++ d :: post).length < s.buffer.length := by
        rw [hb, List.cons_append, List.length_cons]
        exact Nat.lt_succ_self _
      have hbefore : (calls (called c x (pre ++ d :: post) s).log).length ≤ past.length := by
        rw [← hpast, called, calls_append, List.length_append, List.length_append]
        simp
      cases hdata : (data c s.world x).2 with
      | none =>
        rw [hdata] at hG
        have howed := hcalled ((and_iff_right (Or.inl rfl)).symm.trans hG)
        exact .waits howed hout hlength
      | some a =>
        rw [hdata] at hG
        cases a with
        | error e =>
          have hnot : ¬ G := by
            rw [← hG]
            rintro ⟨hgo | hgo, -⟩ <;> cases hgo
          exact .lost hnot (lost_of_failure (process_data b call n) h hs ha hsane hbefore e)
        | ok action =>
          have hanswer : Tick b call (.answer (.error .null)) (called c x (pre ++ d :: post) s)
              (noted action (called c x (pre ++ d :: post) s)) :=
            .answer_action hout (Or.inr ⟨c, s.world, x, h.bound, hdata⟩)
          have hcont : continuation b call (process_data b call n) (.ok action)
              (called c x (pre ++ d :: post) s)
                = process_data b call n (noted action (called c x (pre ++ d :: post) s)) :=
            continuation_ok b call _ hsane hout action
          simp only [hcont]
          by_cases haction : action = .Continue
          · subst haction
            have howed := (hcalled ((and_iff_right (Or.inr rfl)).symm.trans hG)).goes_on
            exact (ih (hanswer.sane hsane) hlen' howed rfl).mono (Nat.le_of_lt hlength)
          · have hnot : ¬ G := by
              rw [← hG]
              rintro ⟨hgo | hgo, -⟩
              · cases hgo
              · cases hgo
                exact haction rfl
            exact .lost hnot
              (lost_of_stop hsane (hanswer.sane hsane) hlen' haction hbefore)

/-! ## The operations after the refusal -/

/-- What becomes of a stream that owes the datum while its consumer is running. -/
inductive Stays (past : List D) (d : D) (c : Consumer D E σ) (G : Prop)
    (s : PromiseStreamState R D E K σ) : Prop where
  | handed (hG : G) (h : Handed past d s)
  | owed (h : Owed past d c G s) (hout : s.outstanding = true)
  | lost (h : Lost past s)

theorem Proceeds.stays {n : ℕ} (h : Proceeds past d c G n s) : Stays past d c G s := by
  cases h with
  | handed hG h => exact .handed hG h
  | waits h hout hlen => exact .owed h hout
  | lost hG h => exact .lost h

/-- The datum is handed over to a consumer that goes through the data before it only. -/
theorem Stays.goes_through (h : Stays past d c G s) (hhanded : Handed past d s) : G := by
  cases h with
  | handed hG h => exact hG
  | owed h hout => exact absurd hhanded (not_handed h.before)
  | lost h => exact absurd hhanded (not_handed h.before)

/-- The consumer is neither called nor does it answer; data may be written. -/
theorem Owed.keep (h : Owed past d c G s) (hout : s.outstanding = true)
    (hstate : s'.state = s.state) (hbound : s'.on_data = s.on_data) (hworld : s'.world = s.world)
    (hbuffer : s.buffer <+: s'.buffer) (hcalls : calls s'.log = calls s.log)
    (hanswers : answers s'.log = answers s.log) : Stays past d c G s' := by
  obtain ⟨pre, post, hb, hpast, hG⟩ := h.split
  obtain ⟨more, hmore⟩ := hbuffer
  have hout' : s'.outstanding = true := by
    unfold outstanding
    rw [hcalls, hanswers]
    exact hout
  refine .owed ⟨hstate.trans h.state, hbound.trans h.bound, ⟨pre, post ++ more, ?_, ?_, ?_⟩, ?_⟩
    hout'
  · rw [← hmore, hb, List.append_assoc, List.cons_append]
  · rw [hcalls]
    exact hpast
  · rw [hworld]
    exact hG
  · intro hnone
    rw [hout'] at hnone
    cases hnone

/-- The consumer answers `Continue`. -/
theorem answer_continue (b : Build) (call : K → Outcome R E → σ → Ended σ (ExceptionPtr E))
    (hs : Sane s) (hout : s.outstanding = true) (action : StreamAction) :
    step b call (.answer (.ok action)) s
      = process_data b call (s.buffer.length + 1) (noted action s) := by
  rw [step, answer, if_pos hout]
  exact continuation_ok b call _ hs hout action

theorem Owed.answer_step (h : Owed past d c G s) (hs : Sane s) (hout : s.outstanding = true)
    (a : Answer E) : Stays past d c G (step b call (.answer a) s).1 := by
  have hle := hs.calls_le
  cases a with
  | error e =>
    -- the producer's result stands
    have hlate := h.late hs (hs.running hout).2.2
    rw [step, answer, if_pos hout, continuation_late b call _ hlate e]
    exact .lost (lost_of_answer rfl hle (by simp) h.before)
  | ok action =>
    have hanswer : Tick b call (.answer (.ok action)) s (noted action s) :=
      .answer_action hout (Or.inl rfl)
    have hsane := hanswer.sane hs
    have hlen : (noted action s).buffer.length < s.buffer.length + 1 := Nat.lt_succ_self _
    rw [answer_continue b call hs hout]
    by_cases haction : action = .Continue
    · subst haction
      exact (process_data_owed _ hsane hlen h.goes_on rfl).stays
    · have hlost : Lost past (noted action s) := lost_of_answer rfl hle haction h.before
      have hticks : Ticks b call (.answer (.ok action)) _ _ :=
        (process_data_spec _ _ hsane hlen).ticks
      exact .lost (hticks.lost hlost)

theorem Owed.write_step (hb : b.SAFE_PROMISE_STREAMS = true) (h : Owed past d c G s) (hs : Sane s)
    (hout : s.outstanding = true) (x : D) : Stays past d c G (step b call (.write x) s).1 := by
  obtain ⟨hrun, -, hnf⟩ := hs.running hout
  rw [step]
  by_cases ha : s.action = .Continue
  · rw [write_refuses call hb ⟨ha, h.late hs hnf⟩ x]
    refine h.keep hout rfl rfl rfl (List.prefix_append _ _) ?_ ?_
    · simp [refused]
    · simp [refused]
  · have hrunning : process b call (s.logged (.write x)) = returns (s.logged (.write x)) :=
      process_running hrun
    rw [write_eq, if_neg ha, returns_andThen, hrunning]
    refine h.keep hout rfl rfl rfl List.prefix_rfl ?_ ?_
    · simp [logged]
    · simp [logged]

theorem Owed.end_step (h : Owed past d c G s) (hs : Sane s) (hout : s.outstanding = true)
    (o : Outcome R E) : Stays past d c G (end_with b call o s).1 := by
  have hne := (hs.streaming2_state h.state).1
  have hnf := (hs.running hout).2.2
  unfold end_with set_stream_result
  rw [if_neg (by simpa [logged] using hnf), if_pos (by simpa [logged] using hne)]
  refine h.keep hout rfl rfl rfl List.prefix_rfl ?_ ?_
  · simp [logged]
  · simp [logged]

theorem Owed.step (hb : b.SAFE_PROMISE_STREAMS = true) (h : Owed past d c G s) (hs : Sane s)
    (hout : s.outstanding = true) (op : Op R D E K σ) : Stays past d c G (step b call op s).1 := by
  cases op with
  | write x => exact h.write_step hb hs hout x
  | resolve result => exact h.end_step hs hout (.resolved result)
  | reject error => exact h.end_step hs hout (.rejected error)
  | stream c' =>
    have hsome : s.on_data.isSome = true := by rw [h.bound]; rfl
    rw [PromiseStreamState.step, set_data_callback, if_pos ⟨hb, hsome⟩]
    exact .owed h hout
  | answer a => exact h.answer_step hs hout a
  | bind_result callbacks =>
    -- the result promise is not settled yet
    have hproxy := hs.proxy (by simp [h.state])
    have hworld :=
      (PromiseState.set_callbacks_state b call callbacks s.proxy_promise s.world).2 hproxy
    exact h.keep hout rfl rfl hworld List.prefix_rfl rfl rfl

theorem Stays.step (hb : b.SAFE_PROMISE_STREAMS = true) (h : Stays past d c G s) (hs : Sane s)
    (op : Op R D E K σ) : Stays past d c G (step b call op s).1 := by
  have hticks : Ticks b call op s (PromiseStreamState.step b call op s).1 := (step_spec hs op).ticks
  cases h with
  | handed hG h => exact .handed hG (h.mono hticks.log_mono)
  | owed h hout => exact h.step hb hs hout op
  | lost h => exact .lost (hticks.lost h)

theorem run_stays (hb : b.SAFE_PROMISE_STREAMS = true) (h : Stays past d c G s) (hs : Sane s)
    (later : List (Op R D E K σ)) : Stays past d c G (run b call later s) := by
  induction later generalizing s with
  | nil => exact h
  | cons op later ih => exact ih (h.step hb hs op) (step_sane hs op)

theorem run_lost (h : Lost past s) (hs : Sane s) (later : List (Op R D E K σ)) :
    Lost past (run b call later s) := by
  induction later generalizing s with
  | nil => exact h
  | cons op later ih =>
    have hticks : Ticks b call op s (step b call op s).1 := (step_spec hs op).ticks
    exact ih (hticks.lost h) (step_sane hs op)

/-- **A consumer that goes through the data is handed the refused one**, if it always answers
`Continue` when it has not answered at once. The induction is on the data in the buffer. -/
theorem owed_reaches (b : Build) (call : K → Outcome R E → σ → Ended σ (ExceptionPtr E)) (hG : G)
    (hs : Sane s) (h : Owed past d c G s) (hout : s.outstanding = true) :
    ∃ later, Handed past d (run b call later s) := by
  induction hn : s.buffer.length using Nat.strongRecOn generalizing s with
  | ind n ih =>
    have hanswer : Tick b call (.answer (.ok .Continue)) s (noted .Continue s) :=
      .answer_action hout (Or.inl rfl)
    have hlen : (noted .Continue s).buffer.length < s.buffer.length + 1 := Nat.lt_succ_self _
    have hproceeds : Proceeds past d c G s.buffer.length
        (step b call (.answer (.ok .Continue)) s).1 := by
      rw [answer_continue b call hs hout]
      exact process_data_owed _ (hanswer.sane hs) hlen h.goes_on rfl
    cases hproceeds with
    | handed _ hhanded => exact ⟨[.answer (.ok .Continue)], hhanded⟩
    | waits howed hwaits hlen =>
      obtain ⟨later, hlater⟩ := ih _ (hn ▸ hlen) (step_sane hs _) howed hwaits rfl
      exact ⟨.answer (.ok .Continue) :: later, hlater⟩
    | lost hnot _ => exact absurd hG hnot

theorem Proceeds.reaches {n : ℕ} (b : Build)
    (call : K → Outcome R E → σ → Ended σ (ExceptionPtr E)) (hG : G) (hs : Sane s)
    (h : Proceeds past d c G n s) : ∃ later, Handed past d (run b call later s) := by
  cases h with
  | handed _ hhanded => exact ⟨[], hhanded⟩
  | waits howed hout _ => exact owed_reaches b call hG hs howed hout
  | lost hnot _ => exact absurd hG hnot

/-! ## The states in which data are refused -/

/-- A stream whose consumer has failed is lost, and a consumer that is not bound is not
running. -/
structure Minded (s : PromiseStreamState R D E K σ) : Prop where
  failed : ¬ NoFailure s.log → Lost (calls s.log) s
  unbound : s.on_data = none → s.consumer_is_running = false

theorem minded_new [Inhabited R] (world : σ) :
    Minded (new world : PromiseStreamState R D E K σ) where
  failed h := absurd (fun _ => List.not_mem_nil) h
  unbound _ := rfl

theorem Tick.minded (hs : Sane s) (h : Minded s) (ht : Tick b call op s s') : Minded s' := by
  constructor
  · intro hfailed
    by_cases hno : NoFailure s.log
    · -- the failure is that of this step
      have hnone : ∀ event, s'.log = s.log ++ [event] → (∀ a, event ≠ .answer a) → False := by
        intro event hlog hne
        apply hfailed
        intro e he
        rw [hlog, List.mem_append, List.mem_singleton] at he
        exact he.elim (hno e) fun heq => hne (.error e) heq.symm
      have hsame : s'.log = s.log → False := fun hlog => hfailed (hlog ▸ hno)
      cases ht with
      | answer_failed | answer_late =>
        exact lost_of_answer rfl hs.calls_le nofun (by simp)
      | @answer_action a =>
        refine absurd (fun e he => ?_) hfailed
        rcases List.mem_append.mp he with he | he
        · exact hno e he
        · cases List.mem_singleton.mp he
      | refused | recorded | bound | result_bound | stopped | drained => exact (hsame rfl).elim
      | write_kept | write_dropped | write_refused | write_late | ended | recorded_completes | call
        | drained_completes => exact (hnone _ rfl nofun).elim
    · obtain ⟨hanswered, hstopped, -⟩ := ht.lost (h.failed hno)
      exact ⟨hanswered, hstopped, Nat.le_refl _⟩
  · intro hnone
    cases ht with
    | bound => cases hnone
    | call hc =>
      have hnone : s.on_data = none := hnone
      rw [hc] at hnone
      cases hnone
    | answer_action | answer_failed | stopped => rfl
    | _ => exact h.unbound hnone

theorem run_minded [Inhabited R] (b : Build) (call : K → Outcome R E → σ → Ended σ (ExceptionPtr E))
    (world : σ) (ops : List (Op R D E K σ)) : Minded (run b call ops (new world)) := by
  induction ops using List.reverseRecOn with
  | nil => exact minded_new world
  | append_singleton ops op ih =>
    have hs : Sane (run b call ops (new world)) := run_sane (sane_new world) ops
    have hticks : Ticks b call op _ _ := (step_spec hs op).ticks
    rw [run_concat]
    exact (History.keeps (I := fun t => Sane t ∧ Minded t)
      (fun _ _ ht htick => ⟨htick.sane ht.1, htick.minded ht.1 ht.2⟩) ⟨hs, ih⟩ hticks).2

/-- The consumer of a stream that refuses data, and is not completed, is running. -/
theorem outstanding_of_refuses [Inhabited R] (world : σ) (ops : List (Op R D E K σ))
    (h : Refuses (run b call ops (new world)))
    (hst : (run b call ops (new world)).state = .streaming2)
    (hbound : (run b call ops (new world)).on_data.isSome = true) :
    (run b call ops (new world)).outstanding = true := by
  have hno : NoFailure (run b call ops (new world)).log := by
    by_contra hfailed
    rcases ((run_minded b call world ops).failed hfailed).stopped with hc | hne
    · rw [hst] at hc
      cases hc
    · exact hne h.1
  have hrest : AtRest (run b call ops (new world)) := run_atRest (atRest_new world) ops hno
  apply hrest.running_outstanding
  by_contra hrun
  -- `process_data` would have gone on
  have hempty := hrest.idle hbound (by simpa using hrun) (Or.inr hst)
  rw [(hrest.sane.streaming2_state hst).2] at hempty
  cases hempty

/-! ## What comes of a refused datum -/

section Effect

variable (b : Build) (call : K → Outcome R E → σ → Ended σ (ExceptionPtr E))

/-- However the stream goes on, the datum of the write is not handed to the consumer. The
data are handed over in the order of the buffer, so that it would come after those that are
in it already. -/
def NeverHanded (d : D) (s : PromiseStreamState R D E K σ) : Prop :=
  ∀ later, ¬ Handed (calls s.log ++ s.buffer) d (run b call later (write b call d s).1)

/-- The write leaves the stream as it was, and its datum is not handed to the consumer. -/
def WithoutEffect (d : D) (s : PromiseStreamState R D E K σ) : Prop :=
  (write b call d s).1 = s.logged (.write d) ∧ NeverHanded b call d s

end Effect

/-- The stream is not completed, and its consumer, if it has one, goes through the data that
are left. -/
def HandsOut (s : PromiseStreamState R D E K σ) : Prop :=
  s.state = .streaming2 ∧ ∀ c, s.on_data = some c → GoesThrough c s.world s.buffer

/-- The refused datum is owed to the consumer. -/
theorem owed_refused (hst : s.state = .streaming2) (hc : s.on_data = some c)
    (ha : s.action = .Continue) :
    Owed (calls s.log ++ s.buffer) d c (GoesThrough c s.world s.buffer) (refused d s) := by
  refine ⟨hst, hc, ⟨s.buffer, [], rfl, ?_, Iff.rfl⟩, fun _ => ha⟩
  rw [refused, calls_append, List.append_nil]

/-- A consumer that is bound after the refusal. -/
theorem refused_bound (b : Build) (call : K → Outcome R E → σ → Ended σ (ExceptionPtr E))
    (hs : Sane s) (h : Refuses s) (hst : s.state = .streaming2) (hnone : s.on_data = none)
    (hrun : s.consumer_is_running = false) (d : D) :
    ∃ later, Handed (calls s.log ++ s.buffer) d (run b call later (refused d s)) := by
  let always : Consumer D E σ := fun world _ => (world, .settled (.ok .Continue))
  have hgoes : ∀ (world : σ) (buffer : List D), GoesThrough always world buffer := by
    intro world buffer
    induction buffer with
    | nil => trivial
    | cons x buffer ih => exact ⟨Or.inr rfl, ih⟩
  have hrefused : Tick b call (.write d) s (refused d s) := .write_refused rfl h.1 h.2
  have hsane := hrefused.sane hs
  have hbound : Tick b call (.stream always) (refused d s) { refused d s with
      on_data := some always, data_callback_assigned := true
      self_reference := (refused d s).self_reference || (refused d s).state != .completed } :=
    .bound rfl
  have howed : Owed (calls s.log ++ s.buffer) d always True { refused d s with
      on_data := some always, data_callback_assigned := true
      self_reference := (refused d s).self_reference || (refused d s).state != .completed } := by
    refine ⟨hst, rfl, ⟨s.buffer, [], rfl, ?_, iff_of_true (hgoes _ _) trivial⟩, fun _ => h.1⟩
    simp [refused]
  have hstream : step b call (.stream always) (refused d s) = process b call { refused d s with
      on_data := some always, data_callback_assigned := true
      self_reference := (refused d s).self_reference || (refused d s).state != .completed } :=
    set_data_callback_eq b call hnone (hs.unbound hnone)
  have hproceeds : Proceeds (calls s.log ++ s.buffer) d always True (s.buffer ++ [d]).length
      (step b call (.stream always) (refused d s)).1 := by
    rw [hstream]
    exact process_data_owed _ (hbound.sane hsane) (Nat.lt_succ_self _) howed hrun
  obtain ⟨later, hlater⟩ := hproceeds.reaches b call trivial (step_sane hsane _)
  exact ⟨.stream always :: later, hlater⟩

/-- **When a refused datum is handed over.** -/
theorem never_handed_iff [Inhabited R] (hb : b.SAFE_PROMISE_STREAMS = true) (world : σ)
    (ops : List (Op R D E K σ)) (d : D) (h : Refuses (run b call ops (new world))) :
    NeverHanded b call d (run b call ops (new world)) ↔
      ¬ HandsOut (run b call ops (new world)) := by
  have hs : Sane (run b call ops (new world)) := run_sane (sane_new world) ops
  have hrunning := outstanding_of_refuses world ops h
  have hidle := (run_minded b call world ops).unbound
  generalize run b call ops (new world) = s at h hs hrunning hidle ⊢
  have hrefused : Tick b call (.write d) s (refused d s) := .write_refused rfl h.1 h.2
  have hsane := hrefused.sane hs
  have hbefore : (calls (refused d s).log).length ≤ (calls s.log ++ s.buffer).length := by
    rw [refused, calls_append, List.append_nil, List.length_append]
    exact Nat.le_add_right _ _
  unfold NeverHanded
  rw [write_refuses call hb h d]
  constructor
  · rintro hnever ⟨hst, hgoes⟩
    cases hc : s.on_data with
    | none =>
      obtain ⟨later, hlater⟩ := refused_bound b call hs h hst hc (hidle hc) d
      exact hnever later hlater
    | some c =>
      have howed : Owed _ d c _ (refused d s) := owed_refused hst hc h.1
      have hout : (refused d s).outstanding = true := by
        have hout := hrunning hst (by rw [hc]; rfl)
        simpa [refused, outstanding] using hout
      obtain ⟨later, hlater⟩ := owed_reaches b call (hgoes c hc) hsane howed hout
      exact hnever later hlater
  · intro hnot later hhanded
    have hr : s.result ≠ .pending := by rcases h.2 with hr | hr <;> simp [hr]
    rcases hs.states with hst | hst | hst | hst
    · exact hr (hs.pending_state hst).2.2.1
    · exact hr (hs.streaming1_state hst)
    · -- the consumer stops before the datum, or it is not bound
      obtain ⟨c, hc, hstops⟩ : ∃ c, s.on_data = some c ∧ ¬ GoesThrough c s.world s.buffer := by
        by_contra hnone
        refine hnot ⟨hst, fun c hc => ?_⟩
        by_contra hstops
        exact hnone ⟨c, hc, hstops⟩
      have howed : Owed _ d c _ (refused d s) := owed_refused hst hc h.1
      have hout : (refused d s).outstanding = true := by
        have hout := hrunning hst (by rw [hc]; rfl)
        simpa [refused, outstanding] using hout
      have hstays : Stays _ d c _ (run b call later (refused d s)) :=
        run_stays hb (.owed howed hout) hsane later
      exact hstops (hstays.goes_through hhanded)
    · have hnone : (refused d s).outstanding = false := by
        by_contra hout
        have hstate := (hsane.running (by simpa using hout)).2.1
        rw [show (refused d s).state = s.state from rfl, hst] at hstate
        rcases hstate with h | h <;> cases h
      have hlost : Lost (calls s.log ++ s.buffer) (run b call later (refused d s)) :=
        run_lost ⟨hnone, Or.inl hst, hbefore⟩ hsane later
      exact not_handed hlost.before hhanded

/-- **A refused write is not without effect**: the datum stays in the buffer, and it is
handed to the consumer if the data before it are. -/
theorem refused_write_has_effect [Inhabited R] (hb : b.SAFE_PROMISE_STREAMS = true) (world : σ)
    (ops : List (Op R D E K σ)) (d : D) :
    let s := run b call ops (new world)
    Refuses s →
      write b call d s = throws { s with buffer := s.buffer ++ [d], log := s.log ++ [.write d] }
          (.logic_error "Data written to stream after it has been completed") ∧
        ¬ WithoutEffect b call d s ∧ (NeverHanded b call d s ↔ ¬ HandsOut s) := by
  intro s h
  have hwrite := write_refuses call hb h d
  refine ⟨hwrite, ?_, never_handed_iff hb world ops d h⟩
  rintro ⟨hsame, -⟩
  rw [hwrite] at hsame
  have hbuffer : s.buffer ++ [d] = s.buffer := congrArg PromiseStreamState.buffer hsame
  have hlength := congrArg List.length hbuffer
  rw [List.length_append, List.length_singleton] at hlength
  omega

/-- The consumer has been called with the first datum, and will answer later, when the
producer ends the stream and writes again. -/
theorem refused_write_has_effect_running :
    let call : Unit → Outcome ℕ Unit → Unit → Ended Unit (ExceptionPtr Unit) :=
      fun _ _ w => returns w
    let s := run (R := ℕ) (D := ℕ) (E := Unit) (K := Unit) Build.debug call
      [.stream fun w _ => (w, .pending), .write 1, .resolve 7] (new ())
    ¬ WithoutEffect Build.debug call 2 s := by
  intro call s
  have hrefuses : Refuses s := ⟨by decide +kernel, by decide +kernel⟩
  exact (refused_write_has_effect rfl () _ 2 hrefuses).2.1

/-- In that run the consumer is handed the refused datum as soon as it has answered. -/
theorem not_without_effect_resolved :
    let call : Unit → Outcome ℕ Unit → Unit → Ended Unit (ExceptionPtr Unit) :=
      fun _ _ w => returns w
    let s := run (R := ℕ) (D := ℕ) (E := Unit) (K := Unit) Build.debug call
      [.stream fun w _ => (w, .pending), .write 1, .resolve 7] (new ())
    (write Build.debug call 2 s).2
        = some (.logic_error "Data written to stream after it has been completed") ∧
      (write Build.debug call 2 s).1.buffer ≠ s.buffer ∧
      calls (run Build.debug call [.answer (.ok .Continue)] (write Build.debug call 2 s).1).log
        = [1, 2] ∧ ¬ WithoutEffect Build.debug call 2 s := by
  intro call s
  refine ⟨by decide +kernel, by decide +kernel, by decide +kernel, ?_⟩
  rintro ⟨-, hnever⟩
  exact hnever [.answer (.ok .Continue)] ⟨[], by decide +kernel⟩

end PromiseStreamState
end Kaiu
