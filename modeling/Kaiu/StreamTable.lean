/-
The table of the states of a stream, and the arrows between them.

The documentation says for each state what has been written, whether there is a
result, whether the buffer is empty and whether the consumer is running. The
flags that `update_state` looks at are set by different functions, so that the table
alone is not kept by their steps: what is kept is the table together with `Sane`,
which says what the flags are worth between two small steps (`Tabled`). Only a write
that comes after the producer has ended the stream puts something into a buffer that
nobody looks at any more.
-/
import Kaiu.StreamCompletion
import Kaiu.StreamDelivery

set_option autoImplicit false

namespace Kaiu
namespace PromiseStreamState

open Exit Relation

variable {R D E K σ : Type*} {b : Build} {call : K → Outcome R E → σ → Ended σ (ExceptionPtr E)}
  {op : Op R D E K σ} {s s' : PromiseStreamState R D E K σ}

/-! ## The arrows -/

/-- The state transition graph. -/
inductive Arrow : stream_state → stream_state → Prop where
  | written : Arrow .pending .streaming1
  | result : Arrow .streaming1 .streaming2
  | buffer_empty : Arrow .streaming2 .streaming3
  | consumer_not_running : Arrow .streaming3 .completed
  | result_not_written : Arrow .pending .completed

/-- From a state to one that is reached from it. -/
abbrev Arrows := ReflTransGen Arrow

theorem arrows_streaming2 : Arrows .streaming2 .completed :=
  (ReflTransGen.single .buffer_empty).tail .consumer_not_running

theorem arrows_streaming1 : Arrows .streaming1 .completed :=
  .head .result arrows_streaming2

/-- `set_state` accepts the arrows, and nothing else is an arrow. -/
theorem check_transition_iff (state next_state : stream_state) :
    check_transition .debug state next_state = none ↔ Arrow state next_state := by
  constructor
  · intro h
    cases state <;> cases next_state <;> first | constructor | simp [check_transition, Build.debug] at h
  · intro h
    cases h <;> rfl

/-- **Every small step follows the arrows.** -/
theorem Tick.arrows (hs : Sane s) (ht : Tick b call op s s') : Arrows s.state s'.state := by
  cases ht with
  | write_kept hop ha hst =>
    by_cases hp : s.state = .pending
    · show Arrows s.state (if s.state = .pending then .streaming1 else s.state)
      rw [if_pos hp, hp]
      exact .single .written
    · show Arrows s.state (if s.state = .pending then .streaming1 else s.state)
      rw [if_neg hp]
  | recorded hop hr hst hb hlog =>
    show Arrows s.state .streaming2
    rw [hst]
    exact .single .result
  | recorded_completes hop hr hst hlog =>
    show Arrows s.state .completed
    rcases hst with hst | ⟨hst, -⟩
    · rw [hst]
      exact .single .result_not_written
    · rw [hst]
      exact arrows_streaming1
  | answer_failed hout hans hr =>
    -- a call is outstanding and there is no result
    have hst : s.state = .streaming1 :=
      (hs.running hout).2.1.resolve_right fun h => (hs.streaming2_state h).1 hr
    show Arrows s.state .streaming2
    rw [hst]
    exact .single .result
  | drained_completes hrun hst hb ho =>
    show Arrows s.state .completed
    rw [hst]
    exact arrows_streaming2
  | _ => exact .refl

theorem Ticks.arrows (hs : Sane s) (ht : Ticks b call op s s') : Arrows s.state s'.state := by
  induction ht with
  | refl => exact .refl
  | tail hticks htick ih => exact ih.trans (htick.arrows (Ticks.sane hs hticks))

/-! ## The table -/

/-- The producer has not ended the stream when it writes. -/
def WritesBefore (op : Op R D E K σ) (s : PromiseStreamState R D E K σ) : Prop :=
  ∀ d, op = .write d → ∀ o, .ended o ∉ s.log

/-- What holds between the small steps besides `Sane`. -/
structure Tabled (s : PromiseStreamState R D E K σ) : Prop where
  pending : s.state = .pending → writes s.log = [] ∧ s.buffer = []
  streaming : s.state = .streaming1 ∨ s.state = .streaming2 → writes s.log ≠ []
  completed : s.state = .completed → s.buffer = []
  result : s.result = .resolved ∨ s.result = .rejected → ∃ o, .ended o ∈ s.log

theorem tabled_new [Inhabited R] (world : σ) :
    Tabled (new world : PromiseStreamState R D E K σ) := by
  constructor <;> simp [new, writes]

theorem Tick.writesBefore (hw : WritesBefore op s) (ht : Tick b call op s s') :
    WritesBefore op s' := by
  intro d hop o ho
  rcases ht.ended_or ho with hends | ho
  · rw [hop] at hends
    cases hends
  · exact hw d hop o ho

/-- A stream that streams: the table asks for the written data and, if there is a
result, for its end. -/
theorem tabled_streaming (hst : s.state = .streaming1 ∨ s.state = .streaming2)
    (hwrites : writes s.log ≠ [])
    (hresult : s.result = .resolved ∨ s.result = .rejected → ∃ o, .ended o ∈ s.log) :
    Tabled s where
  pending hp := by
    rw [hp] at hst
    rcases hst with hst | hst <;> cases hst
  streaming _ := hwrites
  completed hc := by
    rw [hc] at hst
    rcases hst with hst | hst <;> cases hst
  result := hresult

/-- A write finds no result of the producer. -/
theorem Tabled.open_at_write {d : D} (hs : Sane s) (h : Tabled s) (hw : WritesBefore (.write d) s)
    (ha : s.action = .Continue) : s.result = .pending := by
  cases hr : s.result with
  | pending => rfl
  | consumer_failed => exact absurd ha (hs.failed hr)
  | resolved =>
    obtain ⟨o, ho⟩ := h.result (Or.inl hr)
    exact absurd ho (hw d rfl o)
  | rejected =>
    obtain ⟨o, ho⟩ := h.result (Or.inr hr)
    exact absurd ho (hw d rfl o)

/-- **Every small step keeps the table.** -/
theorem Tick.tabled (hs : Sane s) (hw : WritesBefore op s) (h : Tabled s)
    (ht : Tick b call op s s') : Tabled s' := by
  have hmono : ∀ o, .ended o ∈ s.log → .ended o ∈ s'.log :=
    fun o ho => (Ticks.log_mono (.single ht)).subset ho
  have hresult : s'.result = s.result →
      (s'.result = .resolved ∨ s'.result = .rejected → ∃ o, .ended o ∈ s'.log) := by
    intro heq hr
    rw [heq] at hr
    obtain ⟨o, ho⟩ := h.result hr
    exact ⟨o, hmono o ho⟩
  have hwrites : ∀ {event : StreamEvent R D E σ},
      (s.state = .streaming1 ∨ s.state = .streaming2) → writes (s.log ++ [event]) ≠ [] := by
    intro event hst
    rw [writes_append]
    exact List.append_ne_nil_of_left_ne_nil (h.streaming hst) _
  cases ht with
  | write_kept hop ha hst =>
    refine tabled_streaming ?_ ?_ (hresult rfl)
    · show (if s.state = .pending then stream_state.streaming1 else s.state) = _ ∨
        (if s.state = .pending then stream_state.streaming1 else s.state) = _
      have hlate := hs.streaming3_state
      cases hstate : s.state <;> simp_all
    · rw [writes_append]
      simp
  | write_dropped hop ha =>
    -- a stream that is `pending` has not been told to stop
    refine ⟨fun hp => ?_, fun hst => ?_, h.completed, hresult rfl⟩
    · exact absurd (hs.pending_state hp).2.2.2 ha
    · show writes (s.log ++ _) ≠ []
      rw [writes_append]
      simp
  | write_refused hop ha hr =>
    subst hop
    -- the producer has not ended the stream, so no write is refused
    have hnone := h.open_at_write hs hw ha
    rw [hnone] at hr
    rcases hr with hr | hr <;> cases hr
  | write_late hop ha hst =>
    subst hop
    exact absurd (h.open_at_write hs hw ha) (hs.completed_state hst).2.1
  | ended hop =>
    refine ⟨fun hp => ?_, hwrites, h.completed, hresult rfl⟩
    show writes (s.log ++ _) = [] ∧ _
    rw [writes_append, List.append_nil]
    exact h.pending hp
  | refused | bound | result_bound | stopped =>
    exact ⟨h.pending, h.streaming, h.completed, hresult rfl⟩
  | recorded hop hr hst hb hlog =>
    exact tabled_streaming (Or.inr rfl) (h.streaming (Or.inl hst)) fun _ => ⟨_, hlog⟩
  | recorded_completes hop hr hst hlog =>
    refine ⟨nofun, nofun, fun _ => ?_, fun _ => ⟨_, hmono _ hlog⟩⟩
    rcases hst with hst | ⟨hst, hempty⟩
    · exact (h.pending hst).2
    · exact (hs.empty hempty (by simp [hst])).1
  | call hc hrun hst ha hb =>
    exact tabled_streaming hst (hwrites hst) (hresult rfl)
  | answer_action hout hans | answer_late hout hans hr =>
    have hst := (hs.running hout).2.1
    exact tabled_streaming hst (hwrites hst) (hresult rfl)
  | answer_failed hout hans hr =>
    refine tabled_streaming (Or.inr rfl) (hwrites (hs.running hout).2.1) ?_
    rintro (h | h) <;> cases h
  | drained hrun hst hb =>
    refine ⟨fun hp => ?_, h.streaming, fun _ => rfl, hresult rfl⟩
    exact ⟨(h.pending hp).1, rfl⟩
  | drained_completes hrun hst hb ho =>
    exact ⟨nofun, nofun, fun _ => rfl, hresult rfl⟩

theorem Ticks.tabled (hs : Sane s) (hw : WritesBefore op s) (h : Tabled s)
    (ht : Ticks b call op s s') : Tabled s' := by
  have hall : Sane s' ∧ WritesBefore op s' ∧ Tabled s' := by
    refine History.keeps (I := fun t => Sane t ∧ WritesBefore op t ∧ Tabled t)
      (fun t u ⟨hs, hw, h⟩ htick => ?_) ⟨hs, hw, h⟩ ht
    exact ⟨htick.sane hs, htick.writesBefore hw, htick.tabled hs hw h⟩
  exact hall.2.2

/-! ## Runs -/

/-- The table of the states, as it is documented, and what `buffer_is_empty` means. -/
structure StateTable (s : PromiseStreamState R D E K σ) : Prop where
  pending : s.state = .pending →
    writes s.log = [] ∧ s.buffer = [] ∧ s.outstanding = false ∧ s.result = .pending
  streaming1 : s.state = .streaming1 → writes s.log ≠ [] ∧ s.result = .pending
  streaming2 : s.state = .streaming2 → writes s.log ≠ [] ∧ s.result ≠ .pending
  streaming3 : s.state = .streaming3 → s.outstanding = true
  completed : s.state = .completed →
    s.result ≠ .pending ∧ s.buffer = [] ∧ s.outstanding = false
  buffer_is_empty : s.buffer_is_empty = true → s.buffer = [] ∧ s.outstanding = false
  result : ∀ o, .ended o ∈ s.log → s.result ≠ .pending

/-- The stream between two operations. -/
theorem stateTable_of_tabled (hs : Sane s) (h : Tabled s)
    (hresult : ∀ o, .ended o ∈ s.log → s.result ≠ .pending) : StateTable s := by
  -- a call is outstanding while data are streaming
  have hwaits : s.state ≠ .streaming1 → s.state ≠ .streaming2 → s.outstanding = false := by
    intro h1 h2
    by_contra hout
    exact (hs.running (by simpa using hout)).2.1.elim h1 h2
  refine ⟨fun hst => ?_, fun hst => ?_, fun hst => ?_, fun hst => ?_, fun hst => ?_,
    fun hempty => ?_, hresult⟩
  · obtain ⟨hw, hb⟩ := h.pending hst
    exact ⟨hw, hb, hwaits (by simp [hst]) (by simp [hst]), (hs.pending_state hst).2.2.1⟩
  · exact ⟨h.streaming (Or.inl hst), hs.streaming1_state hst⟩
  · exact ⟨h.streaming (Or.inr hst), (hs.streaming2_state hst).1⟩
  · exact absurd hst hs.streaming3_state
  · exact ⟨(hs.completed_state hst).2.1, h.completed hst, hwaits (by simp [hst]) (by simp [hst])⟩
  · by_cases hst : s.state = .completed
    · exact ⟨h.completed hst, hwaits (by simp [hst]) (by simp [hst])⟩
    · obtain ⟨hb, hrun⟩ := hs.empty hempty hst
      exact ⟨hb, hs.not_outstanding hrun⟩

/-- The producer does not write after it has ended the stream. -/
def NoLateWrite (ops : List (Op R D E K σ)) : Prop :=
  ops.Pairwise fun op later => op.ends.isSome → ∀ d, later ≠ .write d

/-- What is known of a stream after a run. -/
structure Run (ops : List (Op R D E K σ)) (s : PromiseStreamState R D E K σ) : Prop where
  sane : Sane s
  tabled : Tabled s
  result : ∀ o, .ended o ∈ s.log → s.result ≠ .pending
  played : Played ops s

theorem run_tabled {world : σ} [Inhabited R] (ops : List (Op R D E K σ)) (h : NoLateWrite ops) :
    Run ops (run b call ops (new world)) := by
  induction ops using List.reverseRecOn with
  | nil => exact ⟨sane_new world, tabled_new world, nofun, ⟨nofun, nofun⟩⟩
  | append_singleton ops op ih =>
    have hpairs := List.pairwise_append.mp h
    obtain ⟨hs, ht, hr, hp⟩ := ih hpairs.1
    rw [run_concat]
    have hw : WritesBefore op (run b call ops (new world)) := by
      intro d hop o ho
      obtain ⟨earlier, hmem, hends⟩ := hp.ended o ho
      exact hpairs.2.2 earlier hmem op (List.mem_singleton_self op) (by simp [hends]) d hop
    have hspec : StepSpec b call op (run b call ops (new world)) _ := step_spec hs op
    have hplayed : Played (ops ++ [op]) (run b call ops (new world)) :=
      hp.mono (List.subset_append_left ..)
    exact ⟨step_sane hs op, hspec.ticks.tabled hs hw ht, fun o ho => step_ended hs hr op ho,
      hspec.ticks.played hplayed (by simp)⟩

/-- **The state table.** After any run in which the producer does not write after it
has ended the stream: the state is what the table says, and every operation of the
run has followed the arrows. -/
theorem state_table [Inhabited R] (b : Build)
    (call : K → Outcome R E → σ → Ended σ (ExceptionPtr E)) (world : σ) (ops : List (Op R D E K σ))
    (h : NoLateWrite ops) :
    StateTable (run b call ops (new world)) ∧
    ∀ earlier op later, ops = earlier ++ op :: later →
      Arrows (run b call earlier (new world)).state
        (step b call op (run b call earlier (new world))).1.state := by
  have hrun : Run ops (run b call ops (new world)) := run_tabled ops h
  refine ⟨stateTable_of_tabled hrun.sane hrun.tabled hrun.result, fun earlier op later _ => ?_⟩
  have hs : Sane (run b call earlier (new world)) := run_sane (sane_new world) earlier
  exact (step_spec hs op).ticks.arrows hs

/-- A consumer that answers later, after the producer has ended the stream. -/
theorem state_table_answers_later :
    let s := run (R := ℕ) (D := ℕ) (E := Unit) (K := Unit) Build.debug (fun _ _ w => returns w)
      [.write 1, .stream fun w _ => (w, .pending), .resolve 7, .answer (.ok .Continue)] (new ())
    s.state = .completed ∧ s.buffer = [] := by
  intro s
  have hstate : s.state = .completed := by decide +kernel
  have htable : StateTable s := (state_table _ _ _ _ (by simp [NoLateWrite, Op.ends])).1
  exact ⟨hstate, (htable.completed hstate).2.1⟩

end PromiseStreamState
end Kaiu
