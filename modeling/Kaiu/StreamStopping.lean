/-
Stopping: what happens to a stream after it has been told to stop.

The producer stops a stream with `reject`, the consumer with its answer. The
consumer is called with the action `Continue` only, and only one call of it is
outstanding, so that its own `Stop` cannot be taken back: `Stopping` is kept by every
small step of an operation that does not end the stream. But `reject` may come while a
call is outstanding, and the answer to that call then replaces the action that
`reject` has set. As long as no such answer is `Continue`, nothing is handed to the
consumer any more.
-/
import Kaiu.StreamCompletion

set_option autoImplicit false

namespace Kaiu
namespace PromiseStreamState

open Exit Relation

variable {R D E K σ : Type*} {b : Build} {call : K → Outcome R E → σ → Ended σ (ExceptionPtr E)}
  {op : Op R D E K σ} {s s' : PromiseStreamState R D E K σ}
  {log log' : List (StreamEvent R D E σ)}

/-! ## The log -/

/-- The producer has called `reject`. -/
def Rejected (log : List (StreamEvent R D E σ)) : Prop :=
  ∃ e, .ended (.rejected e) ∈ log

/-- The consumer has answered `Discard` or `Stop`, or has failed. -/
def Declined (log : List (StreamEvent R D E σ)) : Prop :=
  ∃ a, .answer a ∈ log ∧ a ≠ .ok .Continue

/-- The stream has been told to stop. -/
def Stopped (log : List (StreamEvent R D E σ)) : Prop :=
  Rejected log ∨ Declined log

/-- The consumer has not been called after the stream was told to stop. -/
def Unheard (log : List (StreamEvent R D E σ)) : Prop :=
  ∀ earlier d, earlier ++ [.call d] <+: log → ¬ Stopped earlier

theorem rejected_append (event : StreamEvent R D E σ) :
    Rejected (log ++ [event]) ↔ Rejected log ∨ ∃ e, event = .ended (.rejected e) := by
  simp only [Rejected, List.mem_append, List.mem_singleton, exists_or, eq_comm]

theorem declined_append (event : StreamEvent R D E σ) :
    Declined (log ++ [event]) ↔ Declined log ∨ ∃ a, event = .answer a ∧ a ≠ .ok .Continue := by
  simp only [Declined, List.mem_append, List.mem_singleton, or_and_right, exists_or, eq_comm]

theorem Stopped.mono (h : Stopped log) (hpre : log <+: log') : Stopped log' := by
  rcases h with ⟨e, h⟩ | ⟨a, h, ha⟩
  · exact Or.inl ⟨e, hpre.subset h⟩
  · exact Or.inr ⟨a, hpre.subset h, ha⟩

/-- The consumer may be called as long as the stream has not been told to stop. -/
theorem Unheard.append (h : Unheard log) {event : StreamEvent R D E σ}
    (hcall : ∀ d, event = .call d → ¬ Stopped log) : Unheard (log ++ [event]) := by
  intro earlier d hpre
  rw [List.prefix_concat_iff] at hpre
  rcases hpre with heq | hpre
  · obtain ⟨hlog, hevent⟩ := List.append_inj' heq rfl
    rw [hlog]
    exact hcall d (List.singleton_inj.mp hevent).symm
  · exact h earlier d hpre

/-! ## The small steps -/

/-- Between the small steps of an operation: a stream that has been told to stop
waits for no answer. -/
structure Stopping (s : PromiseStreamState R D E K σ) : Prop where
  action : Stopped s.log → s.action ≠ .Continue ∧ s.outstanding = false
  unheard : Unheard s.log

/-- An event that is neither a call nor tells the stream to stop. -/
theorem Stopping.keep (h : Stopping s) {event : StreamEvent R D E σ}
    (hlog : s'.log = s.log ++ [event])
    (hcall : ∀ d, event ≠ .call d) (hends : ∀ o, event ≠ .ended o)
    (hanswer : ∀ a, event ≠ .answer a) (haction : s'.action = s.action) : Stopping s' := by
  have hstopped : Stopped s'.log ↔ Stopped s.log := by
    rw [hlog]
    unfold Stopped
    rw [rejected_append, declined_append]
    simp [hends, hanswer]
  have hout : s'.outstanding = s.outstanding := by
    unfold outstanding
    rw [hlog, answers_append, calls_append]
    cases event <;> simp_all
  refine ⟨fun hs => ?_, ?_⟩
  · rw [haction, hout]
    exact h.action (hstopped.mp hs)
  · rw [hlog]
    exact h.unheard.append fun d hd => absurd hd (hcall d)

/-- Nothing is logged. -/
theorem Stopping.same (h : Stopping s) (hlog : s'.log = s.log) (haction : s'.action = s.action) :
    Stopping s' := by
  refine ⟨fun hs => ?_, hlog ▸ h.unheard⟩
  have hout : s'.outstanding = s.outstanding := by
    unfold outstanding
    rw [hlog]
  rw [haction, hout]
  exact h.action (hlog ▸ hs)

/-- **No answer of the consumer is taken back.** -/
theorem Tick.stopping (hop : op.ends = none) (hs : Sane s) (h : Stopping s)
    (ht : Tick b call op s s') : Stopping s' := by
  -- the one call that is outstanding is answered
  have hanswered : ∀ (a : Answer E) (t : PromiseStreamState R D E K σ), s.outstanding = true →
      t.log = s.log ++ [.answer a] → (a ≠ .ok .Continue → t.action ≠ .Continue) → Stopping t := by
    intro a t hout hlog haction
    have hnot : ¬ Stopped s.log := fun hst => by
      have hnone := (h.action hst).2
      rw [hout] at hnone
      cases hnone
    refine ⟨fun hst => ?_, ?_⟩
    · have ha : a ≠ .ok .Continue := by
        rw [hlog] at hst
        unfold Stopped at hst
        rw [rejected_append, declined_append] at hst
        rcases hst with (hst | ⟨e, he⟩) | (hst | ⟨a', ha', hne⟩)
        · exact absurd (Or.inl hst) hnot
        · cases he
        · exact absurd (Or.inr hst) hnot
        · cases ha'
          exact hne
      refine ⟨haction ha, ?_⟩
      have hle := hs.calls_le
      unfold outstanding
      rw [hlog, answers_append, calls_append]
      simpa using hle
    · rw [hlog]
      exact h.unheard.append nofun
  cases ht with
  | write_kept hop' | write_dropped hop' | write_refused hop' | write_late hop' =>
    exact h.keep rfl nofun nofun nofun rfl
  | ended hop' | refused hop' | recorded hop' | recorded_completes hop' =>
    rw [hop] at hop'
    cases hop'
  | bound hop' | result_bound hop' | stopped hout | drained hrun => exact h.same rfl rfl
  | drained_completes hrun => exact h.keep rfl nofun nofun nofun rfl
  | call hc hrun hst ha hb =>
    have hnot : ¬ Stopped s.log := fun hst => (h.action hst).1 ha
    refine ⟨fun hst => ?_, h.unheard.append fun _ _ => hnot⟩
    unfold Stopped at hst
    rw [rejected_append, declined_append] at hst
    rcases hst with (hst | ⟨e, he⟩) | (hst | ⟨a', ha', -⟩)
    · exact absurd (Or.inl hst) hnot
    · cases he
    · exact absurd (Or.inr hst) hnot
    · cases ha'
  | answer_action hout hans =>
    rename_i a
    refine hanswered (.ok a) _ hout rfl fun hne ha => ?_
    exact hne (congrArg Except.ok ha)
  | answer_failed hout hans hr => exact hanswered _ _ hout rfl fun _ => nofun
  | answer_late hout hans hr => exact hanswered _ _ hout rfl fun _ => nofun

theorem Ticks.stopping (hop : op.ends = none) (hs : Sane s) (h : Stopping s)
    (ht : Ticks b call op s s') : Stopping s' :=
  (History.keeps (I := fun t => Sane t ∧ Stopping t)
    (fun _ _ ht htick => ⟨htick.sane ht.1, htick.stopping hop ht.1 ht.2⟩) ⟨hs, h⟩ ht).2

/-! ## The operations -/

/-- The consumer is not called while it is running. -/
theorem process_running (hrun : s.consumer_is_running = true) : process b call s = returns s := by
  rw [process, process_data, take_data_nothing b call (Or.inr (Or.inr hrun))]

/-- `update_state` does not touch the action. -/
theorem update_state_action (b : Build) (call : K → Outcome R E → σ → Ended σ (ExceptionPtr E))
    (s : PromiseStreamState R D E K σ) : (update_state b call s).1.action = s.action := by
  -- the states are passed through in their order
  have hcompleted : ∀ s : PromiseStreamState R D E K σ,
      (update_completed b call s).1.action = s.action := by
    intro s
    unfold update_completed
    split
    · cases hc : s.completer with
      | none => rfl
      | some o =>
        refine andThen_keeps
          (P := fun t : PromiseStreamState R D E K σ => t.action = s.action) ?_ fun h => h
        rfl
    · rfl
  have hthen : ∀ (update : PromiseStreamState R D E K σ →
      Ended (PromiseStreamState R D E K σ) (ExceptionPtr E)) (next : stream_state)
      (s : PromiseStreamState R D E K σ), (∀ t, (update t).1.action = t.action) →
      (set_state_then b update next s).1.action = s.action := by
    intro update next s hupdate
    unfold set_state_then
    split
    · rfl
    · exact hupdate _
  have h3 : ∀ s : PromiseStreamState R D E K σ,
      (update_streaming3 b call s).1.action = s.action := by
    intro s
    unfold update_streaming3
    split
    · exact hthen _ _ s hcompleted
    · rfl
  have h2 : ∀ s : PromiseStreamState R D E K σ,
      (update_streaming2 b call s).1.action = s.action := by
    intro s
    unfold update_streaming2
    split
    · exact hthen _ _ s h3
    · rfl
  have h1 : ∀ s : PromiseStreamState R D E K σ,
      (update_streaming1 b call s).1.action = s.action := by
    intro s
    unfold update_streaming1
    split
    · exact hthen _ _ s h2
    · rfl
  have h0 : (update_pending b call s).1.action = s.action := by
    unfold update_pending
    split
    · exact hthen _ _ s h1
    · split
      · exact hthen _ _ s hcompleted
      · rfl
  unfold update_state
  cases s.state with
  | pending => exact h0
  | streaming1 => exact h1 s
  | streaming2 => exact h2 s
  | streaming3 => exact h3 s
  | completed => exact hcompleted s

/-- `reject` sets the action, whether it is refused or not. -/
theorem end_with_action (b : Build) (call : K → Outcome R E → σ → Ended σ (ExceptionPtr E))
    (o : Outcome R E) (s : PromiseStreamState R D E K σ) :
    (end_with b call o s).1.action = action_after o s.action := by
  unfold end_with set_stream_result
  split
  · rfl
  · split
    · rfl
    · rw [update_state_action]

/-- The step does not take `reject` back: the answer to a call that was outstanding
then is not `Continue`. -/
def Heeds (op : Op R D E K σ) (s : PromiseStreamState R D E K σ) : Prop :=
  op = .answer (.ok .Continue) → s.outstanding = true → ¬ Rejected s.log

/-- What holds of a stream between two operations. -/
structure Heeding (s : PromiseStreamState R D E K σ) : Prop where
  sane : Sane s
  action : Stopped s.log → s.action ≠ .Continue
  declined : Declined s.log → s.outstanding = false
  unheard : Unheard s.log
  ended : ∀ o, .ended o ∈ s.log → s.result ≠ .pending
  idle : Idle s ∨ ∃ e, .answer (.error e) ∈ s.log

theorem heeding_new [Inhabited R] (world : σ) :
    Heeding (new world : PromiseStreamState R D E K σ) := by
  have hnone : ¬ Stopped (new world : PromiseStreamState R D E K σ).log := by
    rintro (⟨e, he⟩ | ⟨a, ha, -⟩)
    · cases he
    · cases ha
  refine ⟨sane_new world, fun h => absurd h hnone, fun h => absurd (Or.inr h) hnone, ?_, nofun,
    Or.inl fun _ _ _ => rfl⟩
  intro earlier d hpre hst
  exact hnone (hst.mono ((List.prefix_append ..).trans hpre))

/-- The part of `Heeding` that a stopped stream is about. -/
structure Halted (s : PromiseStreamState R D E K σ) : Prop where
  action : Stopped s.log → s.action ≠ .Continue
  declined : Declined s.log → s.outstanding = false
  unheard : Unheard s.log

theorem Stopping.halted (h : Stopping s) : Halted s :=
  ⟨fun hst => (h.action hst).1, fun hd => (h.action (Or.inr hd)).2, h.unheard⟩

/-- A stream that has been rejected while a call is outstanding: whatever happens
before the answer leaves the action. -/
theorem Heeding.waits (h : Heeding s) {event : List (StreamEvent R D E σ)}
    (hlog : s'.log = s.log ++ event) (hout : s.outstanding = true)
    (hevent : event = [] ∨ ∃ d, event = [.write d]) (haction : s'.action = s.action)
    (hst : Stopped s.log) : Halted s' := by
  have hnot : ¬ Declined s.log := fun hd => by
    rw [h.declined hd] at hout
    cases hout
  rcases hevent with rfl | ⟨d, rfl⟩
  · rw [List.append_nil] at hlog
    refine ⟨fun _ => haction ▸ h.action hst, fun hd => absurd (hlog ▸ hd) hnot, ?_⟩
    rw [hlog]
    exact h.unheard
  · refine ⟨fun _ => haction ▸ h.action hst, fun hd => ?_, ?_⟩
    · rw [hlog, declined_append] at hd
      rcases hd with hd | ⟨a, ha, -⟩
      · exact absurd hd hnot
      · cases ha
    · rw [hlog]
      exact h.unheard.append nofun

/-- The answer to a call that was outstanding when the stream was rejected. -/
theorem Heeding.answered (h : Heeding s) {a : Answer E}
    (hlog : s'.log = s.log ++ [.answer a]) (haction : s'.action ≠ .Continue) : Stopping s' := by
  refine ⟨fun _ => ⟨haction, ?_⟩, ?_⟩
  · have hle := h.sane.calls_le
    unfold outstanding
    rw [hlog, answers_append, calls_append]
    simpa using hle
  · rw [hlog]
    exact h.unheard.append nofun

/-- The end of a stream. -/
theorem Heeding.ends (h : Heeding s) {o : Outcome R E} (hop : op.ends = some o)
    (haction : s'.action = action_after o s.action)
    (hlog : s'.log = s.log ++ [.ended o] ∨ ∃ world, s'.log = s.log ++ [.ended o, .settle o world]) :
    Halted s' := by
  -- what is logged is the part of the producer: no call, no answer
  have hstep : (Rejected s'.log ↔ Rejected s.log ∨ ∃ e, o = .rejected e) ∧
      (Declined s'.log ↔ Declined s.log) ∧ s'.outstanding = s.outstanding ∧ Unheard s'.log := by
    rcases hlog with hlog | ⟨world, hlog⟩
    · refine ⟨?_, ?_, ?_, ?_⟩
      · rw [hlog, rejected_append]
        simp
      · rw [hlog, declined_append]
        simp
      · unfold outstanding
        rw [hlog, answers_append, calls_append]
        simp
      · rw [hlog]
        exact h.unheard.append nofun
    · have hsplit : s'.log = s.log ++ [.ended o] ++ [.settle o world] := by
        rw [hlog, List.append_assoc]
        rfl
      refine ⟨?_, ?_, ?_, ?_⟩
      · rw [hsplit, rejected_append, rejected_append]
        simp
      · rw [hsplit, declined_append, declined_append]
        simp
      · unfold outstanding
        rw [hsplit, answers_append, calls_append, answers_append, calls_append]
        simp
      · rw [hsplit]
        have hfirst : Unheard (s.log ++ [.ended o]) := h.unheard.append nofun
        exact hfirst.append nofun
  obtain ⟨hrejected, hdeclined, hout, hunheard⟩ := hstep
  refine ⟨fun hst => ?_, fun hd => hout.trans (h.declined (hdeclined.mp hd)), hunheard⟩
  rw [haction]
  cases o with
  | rejected e => simp [action_after]
  | resolved r =>
    refine h.action ?_
    unfold Stopped at hst
    rw [hrejected, hdeclined] at hst
    rcases hst with (hst | ⟨e, he⟩) | hst
    · exact Or.inl hst
    · cases he
    · exact Or.inr hst

/-- A call that is outstanding when the stream is stopped: the producer has rejected. -/
theorem Heeding.rejected (h : Heeding s) (hst : Stopped s.log) (hout : s.outstanding = true) :
    Rejected s.log := by
  refine hst.resolve_right fun hd => ?_
  rw [h.declined hd] at hout
  cases hout

/-- The answer to that call, which is not `Continue`. -/
theorem Heeding.halted_answer (h : Heeding s) {a : Answer E} (hop : Heeds (.answer a) s)
    (hst : Stopped s.log) (hout : s.outstanding = true) :
    Halted (PromiseStreamState.step b call (.answer a) s).1 := by
  have hrejected := h.rejected hst hout
  have hanswer : PromiseStreamState.step b call (.answer a) s
      = continuation b call (process_data b call (s.buffer.length + 1)) a s :=
    if_pos hout
  cases a with
  | ok action =>
    have haction : action ≠ .Continue := fun ha => hop (by rw [ha]) hout hrejected
    have htick : Tick b call (.answer (.ok action)) s { s with
        action := action, consumer_is_running := false
        log := s.log ++ [.answer (.ok action)] } := .answer_action hout (Or.inl rfl)
    have hgoes : ProcessSpec b call (.answer (.ok action)) _ _ :=
      process_spec (htick.sane h.sane)
    rw [hanswer, continuation_ok b call _ h.sane hout action]
    exact (Ticks.stopping rfl (htick.sane h.sane) (h.answered rfl haction) hgoes.ticks).halted
  | error e =>
    -- the result of the producer is there, so the handler leaves it as it is
    have hr : s.result = .resolved ∨ s.result = .rejected := by
      obtain ⟨e', he'⟩ := hrejected
      have hne := h.ended _ he'
      have hnf := (h.sane.running hout).2.2
      cases hresult : s.result <;> simp_all
    rw [hanswer, continuation_late b call _ hr e]
    have hstopping : Stopping { s with
        action := .Stop, log := s.log ++ [.answer (.error e)] } := h.answered rfl nofun
    exact hstopping.halted

/-- What is done while that call is outstanding: `process_data` is not entered before it
is answered. -/
theorem Heeding.halted_outstanding (h : Heeding s) (hop : Heeds op s) (hends : op.ends = none)
    (hst : Stopped s.log) (hout : s.outstanding = true) :
    Halted (PromiseStreamState.step b call op s).1 := by
  have hrun := (h.sane.running hout).1
  cases op with
  | resolve | reject => cases hends
  | write d =>
    have heq : PromiseStreamState.step b call (.write d) s = returns (s.logged (.write d)) := by
      show write b call d s = _
      rw [write_eq, if_neg (h.action hst), returns_andThen]
      exact process_running hrun
    rw [heq]
    exact h.waits rfl hout (Or.inr ⟨d, rfl⟩) rfl hst
  | stream c =>
    have heq : (PromiseStreamState.step b call (.stream c) s).1.log = s.log ∧
        (PromiseStreamState.step b call (.stream c) s).1.action = s.action := by
      show (set_data_callback b call c s).1.log = _ ∧ (set_data_callback b call c s).1.action = _
      unfold set_data_callback set_data_callback_assigned
      split
      · exact ⟨rfl, rfl⟩
      · split
        · exact ⟨rfl, rfl⟩
        · rw [returns_andThen, process_running (by exact hrun)]
          exact ⟨rfl, rfl⟩
    exact h.waits (by rw [heq.1, List.append_nil]) hout (Or.inl rfl) heq.2 hst
  | bind_result k => exact h.waits (List.append_nil _).symm hout (Or.inl rfl) rfl hst
  | answer a => exact h.halted_answer hop hst hout

/-- **A step that heeds `reject` keeps a stream stopped.** -/
theorem Heeding.halted_step (h : Heeding s) (hop : Heeds op s) :
    Halted (step b call op s).1 := by
  have hspec : StepSpec b call op s (PromiseStreamState.step b call op s) := step_spec h.sane op
  cases hends : op.ends with
  | some o =>
    refine h.ends hends ?_ (hspec.ended o hends).2
    cases op with
    | resolve result =>
      cases hends
      exact end_with_action b call (.resolved result) s
    | reject error =>
      cases hends
      exact end_with_action b call (.rejected error) s
    | _ => cases hends
  | none =>
    by_cases hst : Stopped s.log ∧ s.outstanding = true
    · exact h.halted_outstanding hop hends hst.1 hst.2
    · have hstopping : Stopping s := by
        refine ⟨fun hst' => ⟨h.action hst', ?_⟩, h.unheard⟩
        by_contra hout
        exact hst ⟨hst', by simpa using hout⟩
      exact (Ticks.stopping hends h.sane hstopping hspec.ticks).halted

theorem Heeding.step (h : Heeding s) (hop : Heeds op s) : Heeding (step b call op s).1 := by
  have hspec : StepSpec b call op s (PromiseStreamState.step b call op s) := step_spec h.sane op
  have hhalted : Halted (PromiseStreamState.step b call op s).1 := h.halted_step hop
  obtain ⟨haction, hdeclined, hunheard⟩ := hhalted
  refine ⟨step_sane h.sane op, haction, hdeclined, hunheard,
    fun o ho => step_ended h.sane h.ended op ho, ?_⟩
  rcases h.idle with hidle | ⟨e, he⟩
  · refine (hspec.idle hidle).imp_right fun ⟨new, e, hlog, hmem⟩ => ⟨e, ?_⟩
    rw [hlog]
    exact List.mem_append_right _ hmem
  · exact Or.inr ⟨e, hspec.ticks.log_mono.subset he⟩

/-- Every step of the run heeds `reject`. -/
def AllHeed (b : Build) (call : K → Outcome R E → σ → Ended σ (ExceptionPtr E))
    (ops : List (Op R D E K σ)) (s : PromiseStreamState R D E K σ) : Prop :=
  ∀ earlier op later, ops = earlier ++ op :: later → Heeds op (run b call earlier s)

theorem run_heeding (hs : Heeding s) (ops : List (Op R D E K σ)) (hall : AllHeed b call ops s) :
    Heeding (run b call ops s) := by
  induction ops using List.reverseRecOn with
  | nil => exact hs
  | append_singleton ops op ih =>
    have hbefore : AllHeed b call ops s := by
      intro earlier first later heq
      refine hall earlier first (later ++ [op]) ?_
      rw [heq, List.append_assoc]
      rfl
    rw [run_concat]
    exact (ih hbefore).step (hall ops op [] rfl)

/-! ## Writes -/

/-- A stream that has results of its consumer's failure to deliver: settling the
result promise throws nothing. The handler of a failure leaves that to the next
operation. -/
def FailsQuietly (b : Build) (call : K → Outcome R E → σ → Ended σ (ExceptionPtr E))
    (s : PromiseStreamState R D E K σ) : Prop :=
  (∃ e, .answer (.error e) ∈ s.log) → s.state = .streaming2 → s.consumer_is_running = false →
    ∀ o, s.completer = some o → (PromiseState.settle b call o s.proxy_promise s.world).2 = none

/-- The buffer of a stopped stream is emptied. -/
theorem Heeding.emptied (h : Heeding s) (hquiet : FailsQuietly b call s)
    (hstate : s.state = .streaming1 ∨ s.state = .streaming2) (hbound : s.on_data.isSome)
    (hrun : s.consumer_is_running = false) (d : D) :
    let r := set_buffer_is_empty b call { s.logged (.write d) with buffer := [] }
    r.2 = none ∧ r.1.buffer = [] := by
  intro r
  have hs : Sane (s.logged (.write d)) := h.sane.of_log (by simp) (by simp)
  rcases hstate with hstate | hstate
  · have hr : r = returns { s.logged (.write d) with buffer := [], buffer_is_empty := true } :=
      emptied_streaming1 b call hs hstate
    rw [hr]
    exact ⟨rfl, rfl⟩
  · -- something would have emptied the buffer before, unless the consumer has failed
    have hempty := (h.sane.streaming2_state hstate).2
    have hfailed : ∃ e, .answer (.error e) ∈ s.log := by
      refine h.idle.resolve_left fun hidle => ?_
      rw [hidle hbound hrun (Or.inr hstate)] at hempty
      cases hempty
    obtain ⟨o, ref, ho, hcompleted, hthrown⟩ := emptied_streaming2 b call hs hstate hrun
    refine ⟨hthrown.trans (hquiet hfailed hstate hrun o ho), ?_⟩
    show (set_buffer_is_empty b call { s.logged (.write d) with buffer := [] }).1.buffer = []
    rw [hcompleted]
    rfl

/-- **A write to a stopped stream is dropped.** -/
theorem Heeding.dropped (h : Heeding s) (hst : Stopped s.log) (hquiet : FailsQuietly b call s)
    (d : D) :
    (write b call d s).2 = none ∧
      ((write b call d s).1.buffer = s.buffer ∨ (write b call d s).1.buffer = []) := by
  have haction := h.action hst
  have heq : write b call d s = process b call (s.logged (.write d)) := by
    rw [write_eq, if_neg haction, returns_andThen]
  rw [heq, process, process_data]
  cases taking (s.logged (.write d)) with
  | nothing hnothing =>
    rw [take_data_nothing b call hnothing]
    exact ⟨rfl, Or.inl rfl⟩
  | drains hc hrun hstate hb =>
    rw [take_data_drains b call hc hrun hstate hb]
    obtain ⟨hreturns, hbuffer⟩ := h.emptied hquiet hstate (Option.isSome_of_mem hc) hrun d
    exact ⟨hreturns, Or.inr hbuffer⟩
  | takes hc hrun hstate ha hb => exact absurd ha haction

/-- Stopping is final: the action is not `Continue` any more, nothing has been handed
to the consumer since, and a write is dropped without an exception. -/
structure StaysStopped (b : Build) (call : K → Outcome R E → σ → Ended σ (ExceptionPtr E))
    (s : PromiseStreamState R D E K σ) : Prop where
  action : Stopped s.log → s.action ≠ .Continue
  unheard : Unheard s.log
  dropped : Stopped s.log → ∀ d, (write b call d s).2 = none ∧
    ((write b call d s).1.buffer = s.buffer ∨ (write b call d s).1.buffer = [])

/-- **Stopping is final**, in every run in which no call that is outstanding when the
producer rejects the stream is answered with `Continue`, and in whose states the
failure of the consumer can be passed on without an exception. -/
theorem run_stays_stopped [Inhabited R] (b : Build)
    (call : K → Outcome R E → σ → Ended σ (ExceptionPtr E)) (world : σ) (ops : List (Op R D E K σ))
    (hall : AllHeed b call ops (new world)) (hquiet : FailsQuietly b call (run b call ops (new world))) :
    StaysStopped b call (run b call ops (new world)) := by
  have h : Heeding (run b call ops (new world)) := run_heeding (heeding_new world) ops hall
  exact ⟨h.action, h.unheard, fun hst d => h.dropped hst hquiet d⟩

/-- The consumer answers `Stop` while the stream is being rejected. -/
theorem run_stays_stopped_answer_stop :
    StaysStopped Build.debug (fun _ _ w => returns w)
      (run (R := ℕ) (D := ℕ) (E := Unit) (K := Unit) Build.debug (fun _ _ w => returns w)
        [.stream fun w _ => (w, .pending), .write 1, .write 2, .reject (.user ()),
          .answer (.ok .Stop), .write 3] (new ())) := by
  refine run_stays_stopped _ _ _ _ (fun earlier op later heq hop => ?_) ?_
  · -- there is no such answer
    have hmem : op ∈ [Op.stream (fun w _ => (w, .pending)), .write 1, .write 2, .reject (.user ()),
        .answer (.ok .Stop), .write 3] := by
      rw [heq]
      simp
    rw [hop] at hmem
    simp at hmem
  · rintro ⟨e, he⟩
    have hanswers : answers (run (R := ℕ) (D := ℕ) (E := Unit) (K := Unit) Build.debug
        (fun _ _ w => returns w) [.stream fun w _ => (w, .pending), .write 1, .write 2,
          .reject (.user ()), .answer (.ok .Stop), .write 3] (new ())).log = [.ok .Stop] := by
      decide +kernel
    have hmem : .error e ∈ answers _ := List.mem_filterMap.mpr ⟨_, he, rfl⟩
    rw [hanswers] at hmem
    simp at hmem

/-- A stream that is rejected while a call of its consumer is outstanding: the answer
`Continue` sets the action back, and the second datum is handed over. -/
theorem not_stays_stopped_answer_continue :
    ¬ StaysStopped Build.debug (fun _ _ w => returns w)
      (run (R := ℕ) (D := ℕ) (E := Unit) (K := Unit) Build.debug (fun _ _ w => returns w)
        [.stream fun w _ => (w, .pending), .write 1, .write 2, .reject (.user ()),
          .answer (.ok .Continue)] (new ())) := by
  intro h
  refine h.action (Or.inl ⟨.user (), by decide +kernel⟩) ?_
  decide +kernel

end PromiseStreamState
end Kaiu
