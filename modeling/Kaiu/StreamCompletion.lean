/-
Stream completion: when a stream that has come to rest is completed.

Completion is triggered by `process_data` finding the buffer empty, or by the
producer's result coming to an empty buffer. As long as no call of the consumer
fails, every operation leaves a stream on which `process_data` has been called
since anything changed, so that nothing is left to do (`AtRest`). The handler of
a failed call does not go on to `process_data`, and the stream stays as it is.
-/
import Kaiu.StreamSteps
import Mathlib.Data.List.Induction

set_option autoImplicit false

namespace Kaiu
namespace PromiseStreamState

open Exit Relation

variable {R D E K σ : Type*} {b : Build} {call : K → Outcome R E → σ → Ended σ (ExceptionPtr E)}
  {op : Op R D E K σ} {s s' : PromiseStreamState R D E K σ}

/-- No call of the consumer has failed. -/
def NoFailure (log : List (StreamEvent R D E σ)) : Prop :=
  ∀ e, .answer (.error e) ∉ log

theorem NoFailure.before {log log' : List (StreamEvent R D E σ)} (h : NoFailure log')
    (hpre : log <+: log') : NoFailure log :=
  fun e hmem => h e (hpre.subset hmem)

theorem Failed.not_noFailure (hf : Failed s s') : ¬ NoFailure s'.log := by
  intro h
  obtain ⟨new, e, hlog, hmem⟩ := hf
  refine h e ?_
  rw [hlog]
  exact List.mem_append_right _ hmem

/-- The flag of a stream whose consumer has not failed tells whether a call is
outstanding: a failure that comes too late leaves it set. -/
theorem Tick.running_outstanding (hs : Sane s) (h : NoFailure s'.log)
    (hrun : s.consumer_is_running = true → s.outstanding = true) (ht : Tick b call op s s') :
    s'.consumer_is_running = true → s'.outstanding = true := by
  have hle := hs.answered
  simp only [outstanding, decide_eq_true_eq] at hrun ⊢
  cases ht with
  | call hc hrun' hst ha hb =>
    intro _
    simpa using Nat.lt_succ_of_le hle
  | answer_late hout hans hr =>
    rename_i e
    exact absurd (List.mem_append_right _ (List.mem_singleton_self _)) (h e)
  | _ => simp_all [logged, completed]

theorem Ticks.running_outstanding (hs : Sane s) (h : NoFailure s'.log)
    (hrun : s.consumer_is_running = true → s.outstanding = true) (ht : Ticks b call op s s') :
    s'.consumer_is_running = true → s'.outstanding = true := by
  induction ht with
  | refl => exact hrun
  | @tail t u hticks htick ih =>
    have hpre : t.log <+: u.log := Ticks.log_mono (.single htick)
    exact htick.running_outstanding (Ticks.sane hs hticks) h (ih (h.before hpre))

/-- A result that has been recorded stands. -/
theorem Tick.result_ne (hr : s.result ≠ .pending) (ht : Tick b call op s s') :
    s'.result ≠ .pending := by
  cases ht <;> simp_all [logged, completed]

theorem Ticks.ended_or {o : Outcome R E} (ht : Ticks b call op s s') (ho : .ended o ∈ s'.log) :
    op.ends ≠ none ∨ .ended o ∈ s.log := by
  refine History.keeps
    (I := fun t : PromiseStreamState R D E K σ =>
      .ended o ∈ t.log → op.ends ≠ none ∨ .ended o ∈ s.log) (fun t u ih htick hu => ?_)
    Or.inr ht ho
  rcases htick.ended_or hu with hends | hu
  · left
    rw [hends]
    exact Option.some_ne_none o
  · exact ih hu

/-- What holds of a stream between two operations, if no call of its consumer has
failed. -/
structure AtRest (s : PromiseStreamState R D E K σ) : Prop where
  sane : Sane s
  idle : Idle s
  running_outstanding : s.consumer_is_running = true → s.outstanding = true
  ended : ∀ o, .ended o ∈ s.log → s.result ≠ .pending

theorem atRest_new [Inhabited R] (world : σ) :
    AtRest (new world : PromiseStreamState R D E K σ) :=
  ⟨sane_new world, fun _ _ _ => rfl, nofun, nofun⟩

/-- A stream that the producer has ended has a result. -/
theorem step_ended (hs : Sane s) (h : ∀ o, .ended o ∈ s.log → s.result ≠ .pending)
    (op : Op R D E K σ) {o : Outcome R E} (ho : .ended o ∈ (step b call op s).1.log) :
    (step b call op s).1.result ≠ .pending := by
  have hspec : StepSpec b call op s (PromiseStreamState.step b call op s) := step_spec hs op
  cases hop : op.ends with
  | none =>
    -- the end of the stream was logged by an earlier operation
    have hbefore := (hspec.ticks.ended_or ho).resolve_left fun hne => hne hop
    exact History.keeps (I := fun t => t.result ≠ .pending)
      (fun _ _ hr htick => htick.result_ne hr) (h o hbefore) hspec.ticks
  | some o' => exact (hspec.ended o' hop).1

/-- **Every operation in which no call fails comes to rest.** -/
theorem AtRest.step (hs : AtRest s) (op : Op R D E K σ)
    (h : NoFailure (step b call op s).1.log) : AtRest (step b call op s).1 := by
  have hspec : StepSpec b call op s (PromiseStreamState.step b call op s) := step_spec hs.sane op
  obtain ⟨hticks, hidle, -, -⟩ := hspec
  refine ⟨hticks.sane hs.sane, ?_, hticks.running_outstanding hs.sane h hs.running_outstanding,
    fun o ho => step_ended hs.sane hs.ended op ho⟩
  exact (hidle hs.idle).resolve_right fun hf => hf.not_noFailure h

theorem run_atRest (hs : AtRest s) (ops : List (Op R D E K σ))
    (h : NoFailure (run b call ops s).log) : AtRest (run b call ops s) := by
  induction ops using List.reverseRecOn with
  | nil => exact hs
  | append_singleton ops op ih =>
    have hbefore := ih (h.before (run_log_mono hs.sane ops op))
    rw [run_concat] at h ⊢
    exact hbefore.step op h

/-- A stream at rest that could go on has been completed. -/
theorem AtRest.completed (hs : AtRest s) (hbound : s.on_data.isSome)
    (hended : ∃ o, .ended o ∈ s.log) (hout : s.outstanding = false) : s.state = .completed := by
  obtain ⟨o, ho⟩ := hended
  have hr := hs.ended o ho
  have hrun : s.consumer_is_running = false := by
    by_contra hne
    have := hs.running_outstanding (by simpa using hne)
    rw [hout] at this
    cases this
  rcases hs.sane.states with hst | hst | hst | hst
  · exact absurd (hs.sane.pending_state hst).2.2.1 hr
  · exact absurd (hs.sane.streaming1_state hst) hr
  · -- the buffer would have been found empty
    have hempty := hs.idle hbound hrun (Or.inr hst)
    rw [(hs.sane.streaming2_state hst).2] at hempty
    cases hempty
  · exact hst

/-- The stream is not stuck: it has been completed, or has a reason to wait. -/
def Finishes (s : PromiseStreamState R D E K σ) : Prop :=
  s.on_data.isSome → (∃ o, .ended o ∈ s.log) → s.outstanding = false →
    s.state = .completed ∧ s.proxy_promise.state ≠ .pending

/-- **No stuck stream.** After any run in which no call of the consumer has failed:
a stream that a consumer is bound to, that the producer has ended and that waits
for no answer is completed, and its result promise is settled. -/
theorem run_finishes [Inhabited R] (b : Build)
    (call : K → Outcome R E → σ → Ended σ (ExceptionPtr E)) (world : σ)
    (ops : List (Op R D E K σ)) (h : NoFailure (run b call ops (new world)).log) :
    Finishes (run b call ops (new world)) := by
  have hrest : AtRest (run b call ops (new world)) := run_atRest (atRest_new world) ops h
  intro hbound hended hout
  have hcompleted := hrest.completed hbound hended hout
  exact ⟨hcompleted, (hrest.sane.completed_state hcompleted).2.2⟩

/-- The consumer discards the stream at its second datum, after the producer has
resolved it. -/
theorem run_finishes_discard :
    let s := run (R := ℕ) (D := ℕ) (E := Unit) (K := Unit) Build.debug (fun _ _ w => returns w)
      [.write 1, .stream fun w _ => (w, .pending), .write 2, .write 3, .answer (.ok .Continue),
        .resolve 7, .answer (.ok .Discard)] (new ())
    s.state = .completed ∧ s.proxy_promise.state ≠ .pending := by
  intro s
  have hlog : answers s.log = [.ok .Continue, .ok .Discard] := by decide +kernel
  refine run_finishes _ _ _ _ (fun e he => ?_) ?_ ⟨.resolved 7, ?_⟩ ?_
  · have : .error e ∈ answers s.log := List.mem_filterMap.mpr ⟨_, he, rfl⟩
    simp [hlog] at this
  · decide +kernel
  · decide +kernel
  · decide +kernel

/-- A consumer that throws at the first datum, and a producer that then resolves
the stream: the handler has left the datum's buffer marked as it was, and nobody
calls `process_data` any more. -/
theorem not_finishes_throwing_consumer :
    ¬ Finishes (run (R := ℕ) (D := ℕ) (E := Unit) (K := Unit) Build.debug
      (fun _ _ w => returns w)
      [.stream fun w _ => (w, .throws (.user ())), .write 1, .resolve 7] (new ())) := by
  intro h
  have hstate := (h (by decide +kernel) ⟨.resolved 7, by decide +kernel⟩ (by decide +kernel)).1
  revert hstate
  decide +kernel

end PromiseStreamState
end Kaiu
