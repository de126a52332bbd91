/-
A consumer that fails, and the result that the producer has set.

`set_stream_result` takes a consumer's failure for one more result: it is
recorded when there is none yet, and refused like a second resolution otherwise.
A failure that is recorded stays (`FailedWith`), whatever the producer does
afterwards; one that is refused changes nothing about the result. Hence failures
override the producer in exactly those runs in which they come first
(`overrides_iff`).
-/
import Kaiu.StreamSteps

set_option autoImplicit false

namespace Kaiu
namespace PromiseStreamState

open Exit Relation

variable {R D E K σ : Type*} {b : Build} {call : K → Outcome R E → σ → Ended σ (ExceptionPtr E)}
  {op : Op R D E K σ} {s s' : PromiseStreamState R D E K σ} {e : ExceptionPtr E}

/-! ## Results that stand -/

/-- A result that has been recorded is not changed. -/
theorem Tick.result_eq (hr : s.result ≠ .pending) (ht : Tick b call op s s') :
    s'.result = s.result := by
  cases ht <;> first | rfl | contradiction

theorem Ticks.result_eq (hr : s.result ≠ .pending) (ht : Ticks b call op s s') :
    s'.result = s.result := by
  refine History.keeps (I := fun t => t.result = s.result) (fun t u heq htick => ?_) rfl ht
  rw [htick.result_eq (heq ▸ hr), heq]

/-- Only an operation that ends the stream records a result of the producer. -/
theorem Tick.result_of_not_ends (hop : op.ends = none)
    (hr : s.result = .pending ∨ s.result = .consumer_failed) (ht : Tick b call op s s') :
    s'.result = .pending ∨ s'.result = .consumer_failed := by
  cases ht <;> first | exact hr | simp_all

/-- The result promise of a stream that is not completed has not been settled. -/
def Unsettled (s : PromiseStreamState R D E K σ) : Prop :=
  s.state ≠ .completed → settlements s.log = []

theorem Tick.unsettled (hs : Sane s) (h : Unsettled s) (ht : Tick b call op s s') :
    Unsettled s' := by
  intro hne
  cases ht with
  | recorded_completes | drained_completes => exact absurd rfl hne
  | write_kept hop ha hst => simpa using h hst
  | recorded hop hr hst => exact h (by simp [hst])
  | answer_failed hout =>
    -- the consumer of a completed stream is not running
    have hst : s.state ≠ .completed := by
      rcases (hs.running hout).2.1 with hst | hst <;> simp [hst]
    simpa using h hst
  | write_dropped | write_refused | write_late | ended | call | answer_action | answer_late =>
    simpa [logged] using h hne
  | refused | bound | result_bound | stopped | drained => exact h hne

/-- The failure with `e` is the result of the stream. -/
structure FailedWith (e : ExceptionPtr E) (s : PromiseStreamState R D E K σ) : Prop where
  result : s.result = .consumer_failed
  completer : s.state ≠ .completed → s.completer = some (.rejected e)
  settled : ∀ p ∈ settlements s.log, p.1 = .rejected e

/-- A consumer that has failed is not called again, and the producer's results are
ignored. -/
theorem Tick.failedWith (hs : Sane s) (hf : FailedWith e s) (ht : Tick b call op s s') :
    FailedWith e s' := by
  obtain ⟨hresult, hcompleter, hsettled⟩ := hf
  have hrunning := hs.running
  have haction := hs.failed hresult
  cases ht with
  | drained_completes hrun hst hb ho =>
    -- the completer that runs is the one that the failure has left
    rename_i o ref
    have hsame : some o = some (.rejected e) := ho.symm.trans (hcompleter (by simp [hst]))
    refine ⟨hresult, fun h => absurd rfl h, fun p hp => ?_⟩
    simp only [PromiseStreamState.completed, settlements_append, List.mem_append,
      List.mem_singleton] at hp
    rcases hp with hp | rfl
    · exact hsettled p hp
    · exact Option.some.inj hsame
  | recorded_completes hop hr hst hlog =>
    rw [hresult] at hr
    cases hr
  | _ =>
    refine ⟨?_, ?_, by simpa [logged] using hsettled⟩
    all_goals simp_all [logged]

/-- A consumer that has failed gives no more answers. -/
theorem Tick.answers_eq (hs : Sane s) (hr : s.result = .consumer_failed) (ht : Tick b call op s s') :
    answers s'.log = answers s.log := by
  have hrunning := hs.running
  cases ht <;> simp_all [logged, completed]

/-! ## Operations and runs -/

/-- Between the two states a call of the consumer has failed with `e`. -/
def FailsWith (e : ExceptionPtr E) (s s' : PromiseStreamState R D E K σ) : Prop :=
  ∃ new, s'.log = s.log ++ new ∧ .answer (.error e) ∈ new

/-- A failure between two states comes before or after one on the way. -/
theorem FailsWith.split {t : PromiseStreamState R D E K σ} (hst : s.log <+: t.log)
    (hts : t.log <+: s'.log) (hf : FailsWith e s s') : FailsWith e s t ∨ FailsWith e t s' := by
  obtain ⟨new, hlog, hmem⟩ := hf
  obtain ⟨earlier, hearlier⟩ := hst
  obtain ⟨later, hlater⟩ := hts
  have hnew : new = earlier ++ later := by
    refine List.append_cancel_left (?_ : s.log ++ new = s.log ++ (earlier ++ later))
    rw [← hlog, ← hlater, ← hearlier, List.append_assoc]
  rw [hnew, List.mem_append] at hmem
  exact hmem.imp (fun h => ⟨earlier, hearlier.symm, h⟩) (fun h => ⟨later, hlater.symm, h⟩)

/-- The small step in which a call of the consumer fails. -/
theorem Tick.failedWith_of_failsWith (hs : Sane s) (hu : Unsettled s)
    (hr : s.result = .pending ∨ s.result = .consumer_failed) (ht : Tick b call op s s')
    (hf : FailsWith e s s') : FailedWith e s' := by
  obtain ⟨new, hlog, hmem⟩ := hf
  cases ht with
  | answer_failed hout hans hr' =>
    rename_i e'
    obtain rfl : [.answer (.error e')] = new := List.append_cancel_left hlog
    obtain rfl : e = e' := by simpa using hmem
    have hne : s.state ≠ .completed := by rcases (hs.running hout).2.1 with h | h <;> simp [h]
    exact ⟨rfl, fun _ => rfl, by simp [hu hne]⟩
  | answer_late hout hans hr' =>
    rcases hr with hr | hr <;> rcases hr' with hr' | hr' <;> rw [hr] at hr' <;> cases hr'
  | _ =>
    -- nothing is logged, or another event
    simp only [logged, PromiseStreamState.completed, List.append_cancel_left_eq,
      List.self_eq_append_right] at hlog
    subst hlog
    simp at hmem

theorem Ticks.failedWith (hs : Sane s) (hf : FailedWith e s) (ht : Ticks b call op s s') :
    FailedWith e s' :=
  (History.keeps (I := fun t => Sane t ∧ FailedWith e t)
    (fun _ _ ⟨hs, hf⟩ h => ⟨h.sane hs, h.failedWith hs hf⟩) ⟨hs, hf⟩ ht).2

theorem Ticks.unsettled (hs : Sane s) (hu : Unsettled s) (ht : Ticks b call op s s') : Unsettled s' :=
  (History.keeps (I := fun t => Sane t ∧ Unsettled t)
    (fun _ _ ⟨hs, hu⟩ h => ⟨h.sane hs, h.unsettled hs hu⟩) ⟨hs, hu⟩ ht).2

/-- A failure that comes before any result is the result. The induction is on the
small steps: the failure is one of those before the last, or it is the last. -/
theorem Ticks.failedWith_of_failsWith (hs : Sane s) (hu : Unsettled s) (hop : op.ends = none)
    (hr : s.result = .pending) (ht : Ticks b call op s s') (hf : FailsWith e s s') :
    FailedWith e s' := by
  induction ht with
  | refl =>
    obtain ⟨new, hlog, hmem⟩ := hf
    have hnil : new = [] := by simpa using hlog
    simp [hnil] at hmem
  | @tail t u hticks htick ih =>
    have hsane : Sane t := Ticks.sane hs hticks
    have hresult : t.result = .pending ∨ t.result = .consumer_failed :=
      History.keeps (I := fun t => t.result = .pending ∨ t.result = .consumer_failed)
        (fun _ _ hr htick => htick.result_of_not_ends hop hr) (Or.inl hr) hticks
    have hpre : t.log <+: u.log := Ticks.log_mono (.single htick)
    rcases hf.split (Ticks.log_mono hticks) hpre with hbefore | hnow
    · exact htick.failedWith hsane (ih hbefore)
    · exact htick.failedWith_of_failsWith hsane (Ticks.unsettled hs hu hticks) hresult hnow

/-- A stream whose consumer has failed sees no second failure. -/
theorem Ticks.not_failsWith (hs : Sane s) (hr : s.result = .consumer_failed)
    (ht : Ticks b call op s s') : ¬ FailsWith e s s' := by
  rintro ⟨new, hlog, hmem⟩
  have hanswers : answers s'.log = answers s.log :=
    (History.keeps
      (I := fun t => Sane t ∧ t.result = .consumer_failed ∧ answers t.log = answers s.log)
      (fun t u ⟨hs, hr, heq⟩ h => ⟨h.sane hs, (h.result_eq (by simp [hr])).trans hr,
        (h.answers_eq hs hr).trans heq⟩) ⟨hs, hr, rfl⟩ ht).2.2
  have hnil : answers new = [] := by
    rw [hlog, answers, List.filterMap_append] at hanswers
    simpa [answers] using hanswers
  have : .error e ∈ answers new := List.mem_filterMap.mpr ⟨_, hmem, rfl⟩
  rw [hnil] at this
  cases this

/-- In an operation that ends the stream no call is made or answered. -/
theorem FailsWith.not_ends (hs : Sane s) (hf : FailsWith e s (step b call op s).1) :
    op.ends = none := by
  by_contra hne
  obtain ⟨o, ho⟩ := Option.ne_none_iff_exists'.mp hne
  obtain ⟨new, hlog, hmem⟩ := hf
  have hspec : StepSpec b call op s (step b call op s) := step_spec hs op
  rcases (hspec.ended o ho).2 with heq | ⟨world, heq⟩ <;>
    rw [hlog, List.append_cancel_left_eq] at heq <;> simp [heq] at hmem

/-- **One step.** The failure becomes the result if and only if there was none, and
then the operation returns. -/
theorem step_failure (hs : Sane s) (hu : Unsettled s) (hf : FailsWith e s (step b call op s).1) :
    (s.result = .pending →
      FailedWith e (step b call op s).1 ∧ (step b call op s).2 = none) ∧
    (s.result ≠ .pending → (step b call op s).1.result ≠ .consumer_failed) := by
  have hspec : StepSpec b call op s (step b call op s) := step_spec hs op
  refine ⟨fun hr => ?_, fun hr => ?_⟩
  · have hfailed : FailedWith e (step b call op s).1 :=
      Ticks.failedWith_of_failsWith hs hu (hf.not_ends hs) hr hspec.ticks hf
    exact ⟨hfailed, hspec.failure_returns hr hfailed.result⟩
  · rw [Ticks.result_eq hr hspec.ticks]
    intro hfailed
    exact Ticks.not_failsWith hs hfailed hspec.ticks hf

theorem run_unsettled (hs : Sane s) (hu : Unsettled s) (ops : List (Op R D E K σ)) :
    Unsettled (run b call ops s) := by
  induction ops generalizing s with
  | nil => exact hu
  | cons op ops ih =>
    exact ih (step_sane hs op) (Ticks.unsettled hs hu (step_spec hs op).ticks)

theorem run_failedWith (hs : Sane s) (hf : FailedWith e s) (ops : List (Op R D E K σ)) :
    FailedWith e (run b call ops s) := by
  induction ops generalizing s with
  | nil => exact hf
  | cons op ops ih =>
    exact ih (step_sane hs op) (Ticks.failedWith hs hf (step_spec hs op).ticks)

/-- Every failure of the consumer becomes the result of the stream, so that the
result promise is rejected with it when it settles, and the operation in which it
fails does not take it for a second resolution. -/
def Overrides (b : Build) (call : K → Outcome R E → σ → Ended σ (ExceptionPtr E))
    (s₀ : PromiseStreamState R D E K σ) (ops : List (Op R D E K σ)) : Prop :=
  ∀ before op after e, ops = before ++ op :: after →
    FailsWith e (run b call before s₀) (step b call op (run b call before s₀)).1 →
    (step b call op (run b call before s₀)).1.result = .consumer_failed ∧
    (step b call op (run b call before s₀)).2
      ≠ some (.logic_error "Attempted to resolve promise stream multiple times") ∧
    ∀ p ∈ settlements (run b call ops s₀).log, p.1 = .rejected e

/-- Every failure of the consumer finds a stream without a result. -/
def FailsFirst (b : Build) (call : K → Outcome R E → σ → Ended σ (ExceptionPtr E))
    (s₀ : PromiseStreamState R D E K σ) (ops : List (Op R D E K σ)) : Prop :=
  ∀ before op after e, ops = before ++ op :: after →
    FailsWith e (run b call before s₀) (step b call op (run b call before s₀)).1 →
    (run b call before s₀).result = .pending

/-- **Consumer failure overrides the producer** in exactly those runs in which the
producer has not set a result before. -/
theorem overrides_iff [Inhabited R] (b : Build)
    (call : K → Outcome R E → σ → Ended σ (ExceptionPtr E)) (world : σ)
    (ops : List (Op R D E K σ)) :
    Overrides b call (new world) ops ↔ FailsFirst b call (new world) ops := by
  have hreach : ∀ before : List (Op R D E K σ), Sane (run b call before (new world)) ∧
      Unsettled (run b call before (new world)) := fun before =>
    ⟨run_sane (sane_new world) before, run_unsettled (sane_new world) (fun _ => rfl) before⟩
  constructor
  · intro h before op after e hops hf
    obtain ⟨hs, hu⟩ := hreach before
    by_contra hr
    exact (step_failure hs hu hf).2 hr (h before op after e hops hf).1
  · intro h before op after e hops hf
    obtain ⟨hs, hu⟩ := hreach before
    obtain ⟨hfailed, hreturns⟩ := (step_failure hs hu hf).1 (h before op after e hops hf)
    refine ⟨hfailed.result, by simp [hreturns], ?_⟩
    rw [hops, run_append]
    exact (run_failedWith (step_sane hs op) hfailed after).settled

/-- A datum and the producer's result are there before the consumer, which throws:
`stream` throws that the stream is resolved multiple times, and the result is
still the producer's. -/
theorem not_overrides_resolved_before :
    ¬ Overrides (R := ℕ) (D := ℕ) (E := Unit) (K := Unit) Build.debug (fun _ _ w => returns w)
      (new ()) [.write 1, .resolve 7, .stream fun w _ => (w, .throws (.user ()))] := by
  intro h
  have hresult := (h [.write 1, .resolve 7] _ [] (.user ()) rfl
    ⟨[.call 1, .answer (.error (.user ()))], by decide +kernel, by decide⟩).1
  revert hresult
  decide +kernel

end PromiseStreamState
end Kaiu
