/-
Stream delivery: what the consumer is given, and when the result promise is
settled, in runs with one binding, one end by the producer and no write after it.

The invariant `Delivers` has two phases. While the consumer wants data, what it
has been given and what is in the buffer are together what was written. Once it
has answered something else than `Continue`, or the producer has rejected the
stream before the data were given out, the stream is `Abandoned`: the consumer is
not called again, and what it has been given stays a prefix of what is written.
-/
import Kaiu.StreamSteps
import Mathlib.Data.List.Induction

set_option autoImplicit false

namespace Kaiu
namespace PromiseStreamState

open Exit Relation

variable {R D E K σ : Type*} {b : Build} {call : K → Outcome R E → σ → Ended σ (ExceptionPtr E)}

/-- The consumer that the operation binds. -/
def Op.binds : Op R D E K σ → Option (Consumer D E σ)
  | .stream consumer => some consumer
  | _ => none

/-- One binding, one end by the producer, and no write after it. -/
structure Disciplined (ops : List (Op R D E K σ)) : Prop where
  bindings : ops.Pairwise fun op later => op.binds.isSome → later.binds = none
  endings : ops.Pairwise fun op later =>
    op.ends.isSome → later.ends = none ∧ ∀ d, later ≠ .write d

/-- What the world has become by consuming the data it has been called with. -/
def consumed (world : σ) (s : PromiseStreamState R D E K σ) : σ :=
  match s.on_data with
  | none => world
  | some c => (calls s.log).foldl (fun world d => (c world d).1) world

/-- The consumer is not called any more. -/
structure Abandoned (s : PromiseStreamState R D E K σ) : Prop where
  action : s.action ≠ .Continue
  answered : s.outstanding = false
  calls_initial : calls s.log <+: writes s.log
  reason : (∃ a ∈ answers s.log, a ≠ .ok .Continue) ∨ ∃ e, .ended (.rejected e) ∈ s.log

/-- What the settlement with `o` that found `world` amounts to. -/
def Final (world₀ : σ) (s : PromiseStreamState R D E K σ) (o : Outcome R E) (world : σ) : Prop :=
  ∀ r, .ended (.resolved r) ∈ s.log → (∀ a ∈ answers s.log, a = .ok .Continue) →
    calls s.log = writes s.log ∧ o = .resolved r ∧ world = consumed world₀ s

/-- What the recorded result says about the log. -/
structure Results (s : PromiseStreamState R D E K σ) : Prop where
  ended_unique : ∀ o o', .ended o ∈ s.log → .ended o' ∈ s.log → o = o'
  resolved_result : s.result = .resolved → ∃ r, .ended (.resolved r) ∈ s.log ∧
    (s.state ≠ .completed → s.completer = some (.resolved r))
  rejected_result : s.result = .rejected → ∃ e, .ended (.rejected e) ∈ s.log
  failed_result : s.result = .consumer_failed → ∃ e, .error e ∈ answers s.log

/-- What the consumer has been given, and is still to be given. -/
def Order (s : PromiseStreamState R D E K σ) : Prop :=
  calls s.log ++ s.buffer = writes s.log ∧
    (s.action ≠ .Continue → ∃ e, .ended (.rejected e) ∈ s.log) ∨ Abandoned s

/-- The world of the user's code, which only the consumer changes until the stream
is completed. -/
structure Worlds (world₀ : σ) (s : PromiseStreamState R D E K σ) : Prop where
  world_eq : s.state ≠ .completed → s.world = consumed world₀ s
  unbound : s.on_data = none → calls s.log = []

/-- The result promise is settled when the stream is completed. -/
structure Settles (world₀ : σ) (s : PromiseStreamState R D E K σ) : Prop where
  unsettled : s.state ≠ .completed → settlements s.log = []
  settled : s.state = .completed →
    ∃ o world, settlements s.log = [(o, world)] ∧ Final world₀ s o world

/-- The invariant. -/
structure Delivers (world₀ : σ) (s : PromiseStreamState R D E K σ) : Prop where
  results : Results s
  order : Order s
  worlds : Worlds world₀ s
  settles : Settles world₀ s

/-- What a disciplined run lets the operation `op` do now. -/
structure Guard (op : Op R D E K σ) (s : PromiseStreamState R D E K σ) : Prop where
  write : ∀ d, op = .write d → ∀ o, .ended o ∉ s.log
  ended : ∀ o o', op.ends = some o → .ended o' ∈ s.log → o' = o
  bound : ∀ c c', op = .stream c → s.on_data = some c' → c' = c

variable {op : Op R D E K σ} {s s' : PromiseStreamState R D E K σ} {world₀ : σ}

/-- The guard holds throughout the operation. -/
theorem Tick.guard (hg : Guard op s) (ht : Tick b call op s s') : Guard op s' := by
  constructor
  · intro d hop o ho
    rcases ht.ended_or ho with hends | ho
    · rw [hop] at hends
      cases hends
    · exact hg.write d hop o ho
  · intro o o' hop ho'
    rcases ht.ended_or ho' with hends | ho'
    · rw [hop] at hends
      cases hends
      rfl
    · exact hg.ended o o' hop ho'
  · intro c c' hop hc'
    rcases ht.bound_or hc' with hop' | hc'
    · rw [hop] at hop'
      cases hop'
      rfl
    · exact hg.bound c c' hop hc'

/-- The result stays as it is. -/
theorem Results.keep (hr : Results s) (hlog : s.log <+: s'.log)
    (huniq : ∀ o o', .ended o ∈ s'.log → .ended o' ∈ s'.log → o = o')
    (hresult : s'.result = s.result)
    (hcompleter : s'.state ≠ .completed → s.state ≠ .completed ∧ s'.completer = s.completer) :
    Results s' := by
  refine ⟨huniq, ?_, ?_, ?_⟩ <;> rw [hresult]
  · intro hres
    obtain ⟨r, hmem, hsome⟩ := hr.resolved_result hres
    refine ⟨r, hlog.subset hmem, fun hne => ?_⟩
    obtain ⟨hne', heq⟩ := hcompleter hne
    rw [heq]
    exact hsome hne'
  · intro hres
    obtain ⟨e, hmem⟩ := hr.rejected_result hres
    exact ⟨e, hlog.subset hmem⟩
  · intro hres
    obtain ⟨e, hmem⟩ := hr.failed_result hres
    exact ⟨e, (hlog.filterMap _).subset hmem⟩

/-- The result of the producer comes. -/
theorem results_recorded {o : Outcome R E}
    (huniq : ∀ o o', .ended o ∈ s.log → .ended o' ∈ s.log → o = o') (hresult : s.result = recorded o)
    (hmem : .ended o ∈ s.log) (hcompleter : s.state ≠ .completed → s.completer = some o) :
    Results s := by
  refine ⟨huniq, ?_, ?_, ?_⟩ <;> rw [hresult]
  · intro hres
    cases o with
    | resolved r => exact ⟨r, hmem, hcompleter⟩
    | rejected e => cases hres
  · intro hres
    cases o with
    | resolved r => cases hres
    | rejected e => exact ⟨e, hmem⟩
  · intro hres
    exact absurd hres (recorded_ne o).2

theorem Tick.results (hg : Guard op s) (hr : Results s) (ht : Tick b call op s s') :
    Results s' := by
  have hlog : s.log <+: s'.log := Ticks.log_mono (.single ht)
  -- the producer ends the stream once
  have huniq : ∀ o o', .ended o ∈ s'.log → .ended o' ∈ s'.log → o = o' := by
    intro o o' ho ho'
    rcases ht.ended_or ho with hends | ho
    · rcases ht.ended_or ho' with hends' | ho'
      · rw [hends] at hends'
        exact Option.some.inj hends'
      · exact (hg.ended o o' hends ho').symm
    · rcases ht.ended_or ho' with hends' | ho'
      · exact hg.ended o' o hends' ho
      · exact hr.ended_unique o o' ho ho'
  cases ht with
  | recorded hop hr' hst hb hmem => exact results_recorded huniq rfl hmem fun _ => rfl
  | recorded_completes hop hr' hst hmem =>
    exact results_recorded huniq rfl (hlog.subset hmem) fun hne => absurd rfl hne
  | @answer_failed e =>
    refine ⟨huniq, nofun, nofun, fun _ => ⟨e, ?_⟩⟩
    rw [answers_append]
    exact List.mem_append_right _ (List.mem_singleton_self _)
  | write_kept hop ha hst => exact hr.keep hlog huniq rfl fun _ => ⟨hst, rfl⟩
  | drained_completes => exact hr.keep hlog huniq rfl fun hne => absurd rfl hne
  | write_dropped | write_refused | write_late | ended | refused | bound | result_bound | call
    | answer_action | answer_late | stopped | drained =>
    exact hr.keep hlog huniq rfl fun hne => ⟨hne, rfl⟩

/-- The order of the data does not depend on the other members and events. -/
theorem Order.of_log (ho : Order s) (hb : s'.buffer = s.buffer) (ha : s'.action = s.action)
    (hc : calls s'.log = calls s.log) (hw : writes s'.log = writes s.log)
    (hans : answers s'.log = answers s.log) (hmem : ∀ event ∈ s.log, event ∈ s'.log) :
    Order s' := by
  rcases ho with ⟨hbuffer, hreason⟩ | ⟨hact, hout, hpre, hreason⟩
  · refine Or.inl ⟨by rw [hc, hb, hw, hbuffer], fun hne => ?_⟩
    obtain ⟨e, he⟩ := hreason (ha ▸ hne)
    exact ⟨e, hmem _ he⟩
  · refine Or.inr ⟨ha ▸ hact, by rw [outstanding, hc, hans]; exact hout, by rwa [hc, hw], ?_⟩
    rw [hans]
    rcases hreason with hdeclined | ⟨e, he⟩
    · exact Or.inl hdeclined
    · exact Or.inr ⟨e, hmem _ he⟩

/-- The action after the end of the stream. -/
theorem Order.ending {o : Outcome R E} (ho : Order s) (hlog : .ended o ∈ s.log) :
    Order { s with action := action_after o s.action } := by
  cases o with
  | resolved r => exact ho
  | rejected e =>
    rcases ho with ⟨hbuffer, -⟩ | ⟨-, hout, hpre, hreason⟩
    · exact Or.inl ⟨hbuffer, fun _ => ⟨e, hlog⟩⟩
    · exact Or.inr ⟨by simp [action_after], hout, hpre, hreason⟩

/-- An answer that is not `Continue` is the last. -/
theorem Order.abandon {a : Answer E} {action : StreamAction} (hs : Sane s) (ho : Order s)
    (hout : s.outstanding = true) (ha : action ≠ .Continue) (hne : a ≠ .ok .Continue) :
    Order { s with action := action, log := s.log ++ [.answer a] } := by
  rcases ho with ⟨hbuffer, -⟩ | hab
  · have hle := hs.calls_le
    refine Or.inr ⟨ha, by simpa [outstanding] using hle, ?_, Or.inl ⟨a, by simp, hne⟩⟩
    simp only [calls_append, writes_append, List.append_nil]
    exact hbuffer ▸ List.prefix_append ..
  · rw [hab.answered] at hout
    cases hout

/-- The buffer is emptied only when it is empty, or the stream is abandoned. -/
theorem Order.drain (hs : Sane s) (ho : Order s) (hrun : s.consumer_is_running = false)
    (hb : s.buffer = [] ∨ s.action ≠ .Continue) :
    Order { s with buffer := [], buffer_is_empty := true } := by
  rcases ho with ⟨hbuffer, hreason⟩ | hab
  · by_cases ha : s.action = .Continue
    · have hnil := hb.resolve_right (not_not_intro ha)
      exact Or.inl ⟨by rw [hnil] at hbuffer; exact hbuffer, hreason⟩
    · exact Or.inr ⟨ha, hs.not_outstanding hrun, hbuffer ▸ List.prefix_append ..,
        Or.inr (hreason ha)⟩
  · exact Or.inr ⟨hab.action, hab.answered, hab.calls_initial, hab.reason⟩

/-- What is given to the consumer comes from the front of the buffer, and what is
written goes to its end. -/
theorem Tick.order (hs : Sane s) (hg : Guard op s) (hr : Results s) (ho : Order s)
    (ht : Tick b call op s s') : Order s' := by
  have hnone : ∀ d, op = .write d → s.result ≠ .resolved ∧ s.result ≠ .rejected := by
    intro d hop
    refine ⟨fun h => ?_, fun h => ?_⟩
    · obtain ⟨r, hmem, -⟩ := hr.resolved_result h
      exact hg.write d hop _ hmem
    · obtain ⟨e, hmem⟩ := hr.rejected_result h
      exact hg.write d hop _ hmem
  cases ht with
  | write_kept hop ha hst =>
    rcases ho with ⟨hbuffer, -⟩ | hab
    · exact Or.inl ⟨by simp [← hbuffer], fun hne => absurd ha hne⟩
    · exact absurd ha hab.action
  | write_dropped hop ha =>
    rcases ho with ⟨-, hreason⟩ | ⟨hact, hout, hpre, hreason⟩
    · obtain ⟨e, hmem⟩ := hreason ha
      exact absurd hmem (hg.write _ hop _)
    · refine Or.inr ⟨hact, by simpa [outstanding, logged] using hout, ?_, ?_⟩
      · simpa [logged] using hpre.trans (List.prefix_append _ _)
      · simpa [logged] using hreason
  | write_refused hop ha hres =>
    exact absurd hres (not_or.mpr (hnone _ hop))
  | write_late hop ha hst =>
    -- a completed stream that the producer has not ended is one that failed
    exfalso
    have hne := (hs.completed_state hst).2.1
    have := hnone _ hop
    cases hres : s.result <;> simp_all
    exact hs.failed hres ha
  | ended hop =>
    refine ho.of_log rfl rfl ?_ ?_ ?_ fun _ h => List.mem_append_left _ h
    all_goals simp [logged]
  | refused hop hres hlog => exact ho.ending hlog
  | recorded hop hres hst hb hlog =>
    exact (ho.ending hlog).of_log rfl rfl rfl rfl rfl fun _ h => h
  | recorded_completes hop hres hst hlog =>
    refine (ho.ending hlog).of_log rfl rfl ?_ ?_ ?_ fun _ h => List.mem_append_left _ h
    all_goals simp [completed]
  | bound hop => exact ho.of_log rfl rfl rfl rfl rfl fun _ h => h
  | result_bound hop => exact ho.of_log rfl rfl rfl rfl rfl fun _ h => h
  | stopped hout => exact ho.of_log rfl rfl rfl rfl rfl fun _ h => h
  | call hc hrun hst ha hb =>
    rcases ho with ⟨hbuffer, -⟩ | hab
    · exact Or.inl ⟨by simpa [hb] using hbuffer, fun hne => absurd ha hne⟩
    · exact absurd ha hab.action
  | answer_action hout hans =>
    rename_i a
    by_cases ha : a = .Continue
    · rcases ho with ⟨hbuffer, -⟩ | hab
      · exact Or.inl ⟨by simpa using hbuffer, fun hne => absurd ha hne⟩
      · rw [hab.answered] at hout
        cases hout
    · have hne : (.ok a : Answer E) ≠ .ok .Continue := by simpa using ha
      exact (ho.abandon hs hout ha hne).of_log rfl rfl rfl rfl rfl fun _ h => h
  | answer_failed hout hans hres =>
    rename_i e
    have hne : (.error e : Answer E) ≠ .ok .Continue := by simp
    have hstop : StreamAction.Stop ≠ .Continue := by simp
    exact (ho.abandon hs hout hstop hne).of_log rfl rfl rfl rfl rfl fun _ h => h
  | answer_late hout hans hres =>
    exact ho.abandon hs hout (by simp) (by simp)
  | drained hrun hst hb => exact ho.drain hs hrun hb
  | drained_completes hrun hst hb hc =>
    refine (ho.drain hs hrun hb).of_log rfl rfl ?_ ?_ ?_ fun _ h => List.mem_append_left _ h
    all_goals simp [completed]

/-- The consumer is neither bound nor called. -/
theorem Worlds.keep (hw : Worlds world₀ s) (hdata : s'.on_data = s.on_data)
    (hcalls : calls s'.log = calls s.log)
    (hworld : s'.state ≠ .completed → s.state ≠ .completed ∧ s'.world = s.world) :
    Worlds world₀ s' := by
  constructor
  · intro hst
    obtain ⟨hst', heq⟩ := hworld hst
    unfold consumed
    rw [heq, hdata, hcalls]
    exact hw.world_eq hst'
  · intro hnone
    rw [hcalls]
    exact hw.unbound (hdata.symm.trans hnone)

theorem Tick.worlds (hs : Sane s) (hg : Guard op s) (hw : Worlds world₀ s)
    (ht : Tick b call op s s') : Worlds world₀ s' := by
  cases ht with
  | call hc hrun hst ha hb =>
    constructor
    · intro hne
      unfold consumed
      rw [hw.world_eq hne]
      simp [consumed, hc]
    · intro hnone
      rw [hc] at hnone
      cases hnone
  | @bound c ref hop =>
    constructor
    · intro hne
      show s.world = (calls s.log).foldl (fun world d => (c world d).1) world₀
      rw [hw.world_eq hne]
      unfold consumed
      cases hc : s.on_data with
      | none =>
        rw [hw.unbound hc]
        rfl
      | some c' => rw [hg.bound c c' hop hc]
    · intro hnone
      cases hnone
  | @result_bound k hop =>
    -- the callbacks are not called while the result promise is pending
    have hresult := (PromiseState.set_callbacks_state b call k s.proxy_promise s.world).2
    exact hw.keep rfl rfl fun hne => ⟨hne, hresult (hs.proxy hne)⟩
  | write_kept hop ha hst => exact hw.keep rfl (by simp) fun _ => ⟨hst, rfl⟩
  | @answer_failed e hout hans hr =>
    have hne : s.state ≠ .completed := by
      rcases (hs.running hout).2.1 with hst | hst <;> simp [hst]
    exact hw.keep rfl (by simp) fun _ => ⟨hne, rfl⟩
  | recorded hop hr hst => exact hw.keep rfl rfl fun _ => ⟨by simp [hst], rfl⟩
  | recorded_completes | drained_completes =>
    exact hw.keep rfl (by simp [completed]) fun hne => absurd rfl hne
  | write_dropped | write_refused | write_late | ended | answer_action | answer_late =>
    exact hw.keep rfl (by simp [logged]) fun hne => ⟨hne, rfl⟩
  | refused | stopped | drained => exact hw.keep rfl rfl fun hne => ⟨hne, rfl⟩

/-- Whether the data have been given out when the result promise is settled. -/
theorem final_of_order {o : Outcome R E} (hr : Results s) (ho : Order s)
    (hw : s.world = consumed world₀ s) (hb : s.buffer = [] ∨ s.action ≠ .Continue)
    (hcompleter : ∀ r, .ended (.resolved r) ∈ s.log →
      (∀ a ∈ answers s.log, a = .ok .Continue) → o = .resolved r) :
    Final world₀ s o s.world := by
  intro r hended hall
  -- neither a rejection nor an answer other than `Continue` is in the log
  have hnot : ¬ ∃ e, .ended (.rejected e) ∈ s.log := by
    rintro ⟨e, he⟩
    have := hr.ended_unique _ _ hended he
    cases this
  rcases ho with ⟨hbuffer, hreason⟩ | hab
  · have hnil : s.buffer = [] := hb.resolve_right fun ha => hnot (hreason ha)
    rw [hnil, List.append_nil] at hbuffer
    exact ⟨hbuffer, hcompleter r hended hall, hw⟩
  · rcases hab.reason with ⟨a, ha, hne⟩ | hrejected
    · exact absurd (hall a ha) hne
    · exact absurd hrejected hnot

/-- A small step that settles nothing. -/
theorem Settles.keep (hd : Settles world₀ s)
    (hst : s'.state = .completed ↔ s.state = .completed)
    (hlog : settlements s'.log = settlements s.log)
    (hfinal : s.state = .completed → ∀ o world, Final world₀ s o world → Final world₀ s' o world) :
    Settles world₀ s' where
  unsettled h := by
    rw [hlog]
    exact hd.unsettled fun h' => h (hst.mpr h')
  settled h := by
    obtain ⟨o, world, heq, hf⟩ := hd.settled (hst.mp h)
    exact ⟨o, world, hlog.trans heq, hfinal (hst.mp h) o world hf⟩

/-- The producer's end completes a stream whose buffer is empty. -/
theorem Delivers.final_recorded (hs : Sane s) (hd : Delivers world₀ s) {o : Outcome R E}
    (hst : s.state = .pending ∨ s.state = .streaming1 ∧ s.buffer_is_empty = true)
    (hlog : .ended o ∈ s.log) : s.state ≠ .completed ∧ Final world₀ s o s.world := by
  have hne : s.state ≠ .completed := by rcases hst with h | ⟨h, -⟩ <;> simp [h]
  have hempty : s.buffer_is_empty = true := by
    rcases hst with h | ⟨-, h⟩
    · exact (hs.pending_state h).2.1
    · exact h
  refine ⟨hne, final_of_order hd.results hd.order (hd.worlds.world_eq hne)
    (Or.inl (hs.empty hempty hne).1) fun r hended _ => ?_⟩
  exact hd.results.ended_unique _ _ hlog hended

/-- The last answer completes a stream that has a result: it is the producer's unless the
consumer has failed. -/
theorem Delivers.final_drained (hs : Sane s) (hd : Delivers world₀ s) {o : Outcome R E}
    (hst : s.state = .streaming2) (hb : s.buffer = [] ∨ s.action ≠ .Continue)
    (hc : s.completer = some o) : Final world₀ s o s.world := by
  have hne : s.state ≠ .completed := by simp [hst]
  refine final_of_order hd.results hd.order (hd.worlds.world_eq hne) hb fun r hended hall => ?_
  cases hres : s.result with
  | pending => exact absurd hres (hs.streaming2_state hst).1
  | resolved =>
    obtain ⟨r', hr', hcompleter⟩ := hd.results.resolved_result hres
    cases hd.results.ended_unique _ _ hended hr'
    rw [hcompleter hne] at hc
    exact (Option.some.inj hc).symm
  | rejected =>
    obtain ⟨e, he⟩ := hd.results.rejected_result hres
    cases hd.results.ended_unique _ _ hended he
  | consumer_failed =>
    obtain ⟨e, he⟩ := hd.results.failed_result hres
    cases hall _ he

/-- A stream that has been completed without a failure was ended before. -/
theorem Delivers.ended_before (hs : Sane s) (hg : Guard op s) (hd : Delivers world₀ s)
    {o : Outcome R E} (hop : op.ends = some o) (hst : s.state = .completed) {r : R}
    (hended : .ended (.resolved r) ∈ (s.logged (.ended o)).log)
    (hall : ∀ a ∈ answers s.log, a = .ok .Continue) : .ended (.resolved r) ∈ s.log := by
  rcases List.mem_append.mp hended with h | h
  · exact h
  · obtain rfl : Outcome.resolved r = o := by simpa using h
    cases hres : s.result with
    | pending => exact absurd hres (hs.completed_state hst).2.1
    | resolved =>
      obtain ⟨r', hr', -⟩ := hd.results.resolved_result hres
      exact hg.ended _ _ hop hr' ▸ hr'
    | rejected =>
      obtain ⟨e, he⟩ := hd.results.rejected_result hres
      cases hg.ended _ _ hop he
    | consumer_failed =>
      obtain ⟨e, he⟩ := hd.results.failed_result hres
      cases hall _ he

theorem Tick.settles (hs : Sane s) (hg : Guard op s) (hd : Delivers world₀ s)
    (ht : Tick b call op s s') : Settles world₀ s' := by
  have hsettles := hd.settles
  have hunb := hd.worlds.unbound
  have huns := hsettles.unsettled
  cases ht with
  | recorded_completes hop hres hst hlog =>
    rename_i o ref
    obtain ⟨hne, hfinal⟩ := hd.final_recorded hs hst hlog
    exact ⟨fun h => absurd rfl h, fun _ => ⟨o, s.world, by simp [completed, huns hne],
      by simpa [Final, completed, consumed] using hfinal⟩⟩
  | drained_completes hrun hst hb hc =>
    rename_i o ref
    have hne : s.state ≠ .completed := by simp [hst]
    have hfinal := hd.final_drained hs hst hb hc
    exact ⟨fun h => absurd rfl h, fun _ => ⟨o, s.world, by simp [completed, huns hne],
      by simpa [Final, completed, consumed] using hfinal⟩⟩
  | ended hop =>
    refine hsettles.keep Iff.rfl (by simp [logged]) fun hst o' world hfinal r hended hall => ?_
    have hall : ∀ a ∈ answers s.log, a = .ok .Continue := by simpa [logged] using hall
    have hwas := hfinal r (hd.ended_before hs hg hop hst hended hall) hall
    simpa [logged, consumed] using hwas
  | bound hop =>
    rename_i c ref
    -- no datum has been consumed before the consumer is bound
    refine hsettles.keep Iff.rfl rfl fun hst o world hfinal r hended hall => ?_
    obtain ⟨hcalls, ho, hw⟩ := hfinal r hended hall
    refine ⟨hcalls, ho, hw.trans ?_⟩
    cases hc : s.on_data with
    | none => simp [consumed, hc, hunb hc]
    | some c' => simp [consumed, hc, hg.bound c c' hop hc]
  | write_kept hop ha hst =>
    refine hsettles.keep ?_ (by simp) fun hst' => absurd hst' hst
    simp only
    split
    · simpa using hst
    · rfl
  | write_dropped hop ha | write_refused hop ha hres | write_late hop ha hst =>
    refine hsettles.keep Iff.rfl (by simp [logged]) fun _ o world _ r hended => ?_
    exact absurd hended (by simpa [logged] using hg.write _ hop _)
  | refused hop hres hlog => exact hsettles.keep Iff.rfl rfl fun _ _ _ h => h
  | result_bound hop => exact hsettles.keep Iff.rfl rfl fun _ _ _ h => h
  | stopped hout => exact hsettles.keep Iff.rfl rfl fun _ _ _ h => h
  | recorded hop hres hst hb hlog =>
    exact hsettles.keep (by simp [hst]) rfl fun h => by simp [hst] at h
  | call hc hrun hst ha hb =>
    have hne : s.state ≠ .completed := by rcases hst with h | h <;> simp [h]
    exact hsettles.keep Iff.rfl (by simp) fun h => absurd h hne
  | answer_action hout | answer_late hout hans hres =>
    have hne : s.state ≠ .completed := by rcases (hs.running hout).2.1 with h | h <;> simp [h]
    exact hsettles.keep Iff.rfl (by simp) fun h => absurd h hne
  | answer_failed hout hans hres =>
    have hne : s.state ≠ .completed := by rcases (hs.running hout).2.1 with h | h <;> simp [h]
    exact hsettles.keep (by simpa using hne) (by simp) fun h => absurd h hne
  | drained hrun hst hb =>
    exact hsettles.keep Iff.rfl rfl fun h => by simp [hst] at h

/-- **Every small step of a disciplined run delivers.** -/
theorem Tick.delivers (hs : Sane s) (hg : Guard op s) (hd : Delivers world₀ s)
    (ht : Tick b call op s s') : Delivers world₀ s' :=
  ⟨ht.results hg hd.results, ht.order hs hg hd.results hd.order, ht.worlds hs hg hd.worlds,
    ht.settles hs hg hd⟩

theorem Ticks.delivers (hs : Sane s) (hg : Guard op s) (hd : Delivers world₀ s)
    (ht : Ticks b call op s s') : Sane s' ∧ Guard op s' ∧ Delivers world₀ s' :=
  History.keeps (I := fun s => Sane s ∧ Guard op s ∧ Delivers world₀ s)
    (fun _ _ ⟨hs, hg, hd⟩ h => ⟨h.sane hs, h.guard hg, h.delivers hs hg hd⟩) ⟨hs, hg, hd⟩ ht

/-! ## Runs -/

/-- What is in the state comes from the operations that have been played. -/
structure Played (ops : List (Op R D E K σ)) (s : PromiseStreamState R D E K σ) : Prop where
  ended : ∀ o, .ended o ∈ s.log → ∃ op ∈ ops, op.ends = some o
  bound : ∀ c, s.on_data = some c → .stream c ∈ ops

theorem Tick.played {ops : List (Op R D E K σ)} (hp : Played ops s) (hop : op ∈ ops)
    (ht : Tick b call op s s') : Played ops s' := by
  constructor
  · intro o ho
    rcases ht.ended_or ho with hends | ho
    · exact ⟨op, hop, hends⟩
    · exact hp.ended o ho
  · intro c hc
    rcases ht.bound_or hc with hbinds | hc
    · rw [← hbinds]
      exact hop
    · exact hp.bound c hc

theorem Ticks.played {ops : List (Op R D E K σ)} (hp : Played ops s) (hop : op ∈ ops)
    (ht : Ticks b call op s s') : Played ops s' :=
  History.keeps (fun _ _ hp h => h.played hp hop) hp ht

theorem Played.mono {ops later : List (Op R D E K σ)} (hp : Played ops s)
    (hsub : ops ⊆ later) : Played later s where
  ended o ho := by
    obtain ⟨op, hop, heq⟩ := hp.ended o ho
    exact ⟨op, hsub hop, heq⟩
  bound c hc := hsub (hp.bound c hc)

theorem Disciplined.init {ops : List (Op R D E K σ)} (h : Disciplined (ops ++ [op])) :
    Disciplined ops :=
  ⟨(List.pairwise_append.mp h.bindings).1, (List.pairwise_append.mp h.endings).1⟩

/-- The discipline of a run guards its last operation. -/
theorem Disciplined.guard {ops : List (Op R D E K σ)} (h : Disciplined (ops ++ [op]))
    (hp : Played ops s) : Guard op s := by
  obtain ⟨hb, he⟩ := h
  rw [List.pairwise_append] at hb he
  refine ⟨fun d hop o ho => ?_, fun o o' hop ho => ?_, fun c c' hop hc => ?_⟩
  · obtain ⟨earlier, hmem, hends⟩ := hp.ended o ho
    exact (he.2.2 earlier hmem op (by simp) (by simp [hends])).2 d hop
  · obtain ⟨earlier, hmem, hends⟩ := hp.ended o' ho
    have := (he.2.2 earlier hmem op (by simp) (by simp [hends])).1
    rw [hop] at this
    cases this
  · have := hb.2.2 _ (hp.bound c' hc) op (by simp) rfl
    rw [hop] at this
    cases this

/-- The bound consumer is the only one. -/
theorem Disciplined.unique {ops : List (Op R D E K σ)} (h : Disciplined ops)
    {c c' : Consumer D E σ} (hc : .stream c ∈ ops) (hc' : .stream c' ∈ ops) : c = c' := by
  -- two operations that bind are one, whichever of them comes first
  have hsame : ∀ op ∈ ops, ∀ later ∈ ops, op.binds.isSome → later.binds.isSome → op = later := by
    refine List.Pairwise.forall_of_forall_of_flip (fun _ _ _ _ => rfl) ?_ ?_
    · refine h.bindings.imp fun hb hsome hsome' => ?_
      rw [hb hsome] at hsome'
      cases hsome'
    · refine h.bindings.imp fun hb hsome hsome' => ?_
      rw [hb hsome'] at hsome
      cases hsome
  have := hsame _ hc _ hc' rfl rfl
  injection this

/-- What is known of a state that a disciplined run goes through. -/
structure Sound (world₀ : σ) (ops : List (Op R D E K σ)) (s : PromiseStreamState R D E K σ) :
    Prop where
  sane : Sane s
  delivers : Delivers world₀ s
  played : Played ops s

theorem sound_new [Inhabited R] (world₀ : σ) :
    Sound world₀ [] (new world₀ : PromiseStreamState R D E K σ) := by
  refine ⟨sane_new world₀, ⟨?_, Or.inl ?_, ?_, ?_⟩, ?_⟩
  · constructor <;> simp [new]
  · simp [new, calls, writes]
  · constructor <;> simp [new, consumed, calls]
  · constructor <;> simp [new, settlements]
  · constructor <;> simp [new]

/-- The operation goes through sound states only. -/
theorem Sound.ticks {ops : List (Op R D E K σ)} (h : Disciplined (ops ++ [op]))
    (hs : Sound world₀ ops s) (ht : Ticks b call op s s') : Sound world₀ (ops ++ [op]) s' := by
  have hplayed : Played (ops ++ [op]) s := hs.played.mono (List.subset_append_left ..)
  obtain ⟨hsane, -, hdelivers⟩ := ht.delivers hs.sane (h.guard hs.played) hs.delivers
  exact ⟨hsane, hdelivers, ht.played hplayed (by simp)⟩

/-- **Every point of a disciplined run is the log of a sound state.** The induction
takes the last operation off the run: a point is one of the run before it, or lies
within it. -/
theorem run_points [Inhabited R] (b : Build) (call : K → Outcome R E → σ → Ended σ (ExceptionPtr E))
    (world₀ : σ) (ops : List (Op R D E K σ)) (h : Disciplined ops) :
    Sound world₀ ops (run b call ops (new world₀)) ∧
      ∀ point, point <+: (run b call ops (new world₀)).log →
        ∃ s, Sound world₀ ops s ∧ s.log = point := by
  induction ops using List.reverseRecOn with
  | nil =>
    refine ⟨sound_new world₀, fun point hpoint => ⟨_, sound_new world₀, ?_⟩⟩
    exact (List.prefix_nil.mp hpoint).symm
  | append_singleton ops op ih =>
    obtain ⟨hsound, hpoints⟩ := ih h.init
    have hticks : Ticks b call op _ _ := (step_spec hsound.sane op).ticks
    rw [run_concat]
    refine ⟨hsound.ticks h hticks, fun point hpoint => ?_⟩
    rcases List.prefix_or_prefix_of_prefix hpoint hticks.log_mono with hearlier | hwithin
    · obtain ⟨u, hu, hlog⟩ := hpoints point hearlier
      exact ⟨u, ⟨hu.sane, hu.delivers, hu.played.mono (List.subset_append_left ..)⟩, hlog⟩
    · obtain ⟨u, hu, hlog⟩ := (tick_appends op).exists_point hticks hwithin hpoint
      exact ⟨u, hsound.ticks h hu, hlog⟩

theorem Delivers.calls_initial (hd : Delivers world₀ s) : calls s.log <+: writes s.log := by
  rcases hd.order with ⟨hbuffer, -⟩ | hab
  · exact hbuffer ▸ List.prefix_append ..
  · exact hab.calls_initial

/-- The result promise has not been settled, or it has been settled once, while no
call of the consumer was outstanding. -/
theorem Delivers.settled_once (hs : Sane s) (hd : Delivers world₀ s) :
    settlements s.log = [] ∨ ∃ o world, settlements s.log = [(o, world)] ∧
      Final world₀ s o world ∧ (calls s.log).length = (answers s.log).length := by
  by_cases hst : s.state = .completed
  · obtain ⟨o, world, hlog, hfinal⟩ := hd.settles.settled hst
    have hout : s.outstanding = false := by
      by_contra hne
      have := (hs.running (by simpa using hne)).2.1
      simp [hst] at this
    have hle := hs.answered
    simp only [outstanding, decide_eq_false_iff_not] at hout
    exact Or.inr ⟨o, world, hlog, hfinal, by omega⟩
  · exact Or.inl (hd.settles.unsettled hst)

/-- The world that the consumer leaves is the left fold over what it was given. -/
theorem Sound.consumed_eq {ops : List (Op R D E K σ)} (h : Disciplined ops)
    (hs : Sound world₀ ops s) {c : Consumer D E σ} (hc : .stream c ∈ ops) :
    consumed world₀ s = (calls s.log).foldl (fun world d => (c world d).1) world₀ := by
  cases hbound : s.on_data with
  | none => simp [consumed, hbound, hs.delivers.worlds.unbound hbound]
  | some c' =>
    obtain rfl := h.unique (hs.played.bound c' hbound) hc
    simp [consumed, hbound]

/-- **Stream delivery.** At every point of a run with one binding, one end by the
producer and no write after it: the data that the consumer has been called with
are a prefix of the data written; at most one call is outstanding; the result
promise is settled at most once, and never while a call is outstanding; and when
the producer has resolved and every answer was `Continue`, the consumer has been
called with everything when the result promise settles, which resolves with the
producer's value, for a stateful stream together with the left fold of the
consumer over the data. -/
theorem stream_delivery [Inhabited R] (b : Build)
    (call : K → Outcome R E → σ → Ended σ (ExceptionPtr E)) (world₀ : σ)
    (ops : List (Op R D E K σ)) (h : Disciplined ops) (point : List (StreamEvent R D E σ))
    (hpoint : point <+: (run b call ops (new world₀)).log) :
    calls point <+: writes point ∧
    (calls point).length ≤ (answers point).length + 1 ∧
    (settlements point).length ≤ 1 ∧
    (settlements point ≠ [] → (calls point).length = (answers point).length) ∧
    ∀ o world r, (o, world) ∈ settlements point → .ended (.resolved r) ∈ point →
      (∀ a ∈ answers point, a = .ok .Continue) →
      calls point = writes point ∧ o = .resolved r ∧
      ∀ c, .stream c ∈ ops → stateful_outcome world o
        = .resolved ((writes point).foldl (fun world d => (c world d).1) world₀, r) := by
  obtain ⟨s, hs, rfl⟩ := (run_points b call world₀ ops h).2 point hpoint
  refine ⟨hs.delivers.calls_initial, hs.sane.calls_le, ?_⟩
  rcases hs.delivers.settled_once hs.sane with hnil | ⟨o, world, hlog, hfinal, hlen⟩
  · simp [hnil]
  · refine ⟨by simp [hlog], fun _ => hlen, fun o' world' r hmem hended hall => ?_⟩
    rw [hlog] at hmem
    cases List.mem_singleton.mp hmem
    obtain ⟨hcalls, rfl, rfl⟩ := hfinal r hended hall
    refine ⟨hcalls, rfl, fun c hc => ?_⟩
    rw [stateful_outcome, hs.consumed_eq h hc, hcalls]

/-- A consumer that adds up the data and answers later: bound after the first
datum, and not done with the second one when the producer resolves the stream. -/
theorem stream_delivery_answers_later :
    let call : Unit → Outcome ℕ Unit → ℕ → Ended ℕ (ExceptionPtr Unit) := fun _ _ w => returns w
    let sum : Consumer ℕ Unit ℕ := fun w d => (w + d, .pending)
    let ops : List (Op ℕ ℕ Unit Unit ℕ) :=
      [.write 1, .stream sum, .write 2, .answer (.ok .Continue), .resolve 7,
        .answer (.ok .Continue)]
    let log := (run Build.debug call ops (new 0)).log
    calls log <+: writes log ∧ settlements log = [(.resolved 7, 3)] ∧
      stateful_outcome 3 (.resolved 7 : Outcome ℕ Unit) = .resolved (3, 7) := by
  intro call sum ops log
  have hops : Disciplined ops := by
    constructor <;> simp [ops, Op.binds, Op.ends]
  have hlog : log = [.write 1, .call 1, .write 2, .answer (.ok .Continue), .call 2,
      .ended (.resolved 7), .answer (.ok .Continue), .settle (.resolved 7) 3] := by
    decide +kernel
  obtain ⟨hpre, -, -, -, hfinal⟩ := stream_delivery Build.debug call 0 ops hops log List.prefix_rfl
  have hsettled : settlements log = [(.resolved 7, 3)] := by rw [hlog]; rfl
  have hended : .ended (.resolved 7) ∈ log := by simp [hlog]
  have hanswers : ∀ a ∈ answers log, a = .ok .Continue := by simp [hlog, answers]
  obtain ⟨-, -, hfold⟩ := hfinal (.resolved 7) 3 7 (by simp [hsettled]) hended hanswers
  refine ⟨hpre, hsettled, (hfold sum (by simp [ops])).trans ?_⟩
  rw [hlog]
  rfl

end PromiseStreamState
end Kaiu
