/-
The order of what a streaming task carries from one stream to the other.

The inner stream waits for the answer to one datum before it gives out the next, or
completes. So there is one event for a datum on its way at most, and none when the
result is sent (`Feeds.count`), and the data written to the outer stream and the
one that is on its way are what the inner consumer has been called with. No event
overtakes another one, in whichever pools they run.
-/
import Kaiu.StreamFeeding
import Kaiu.TaskStream

set_option autoImplicit false

namespace Kaiu
namespace TaskStream

open Exit EventLoop EventLoop.ParallelEventLoop Relation PromiseStreamState

variable {P W R D E K σ : Type*} {b : Build} {consumer_pool reaction_pool : P}

/-! ## The events -/

/-- The event is one of the task's first. -/
@[simp] def Event.starts : Event R D E → Bool
  | .producer | .stream | .bind => true
  | _ => false

/-- The event answers the inner stream. -/
@[simp] def Event.answers : Event R D E → Bool
  | .consumer _ | .data_action | .answer _ => true
  | _ => false

/-- The datum that the event is to write. -/
@[simp] def Event.unwritten : Event R D E → List D
  | .consumer datum => [datum]
  | _ => []

/-- The outcome that the event is to end the outer stream with. -/
@[simp] def Event.outcomes : Event R D E → List (Outcome R E)
  | .result o => [o]
  | _ => []

/-! ## The inner stream -/

section Inner

variable {op : Op R D E Unit (Pushed P R D E)}
  {s s' : PromiseStreamState R D E Unit (Pushed P R D E)}

/-- What holds of the inner stream. What its callbacks have pushed are the data that
its consumer has been called with, and then the result. -/
abbrev Feeds (consumer_pool reaction_pool : P)
    (s : PromiseStreamState R D E Unit (Pushed P R D E)) : Prop :=
  PromiseStreamState.Feeds (fun d => (consumer_pool, .consumer d))
    (fun o => (reaction_pool, .result o)) s

theorem calls_eq (hf : Feeds consumer_pool reaction_pool s) :
    calls s.log = s.world.flatMap fun event => event.2.unwritten := by
  simp [hf.noted, List.flatMap_map]

theorem called_eq (hf : Feeds consumer_pool reaction_pool s) :
    s.proxy_promise.called = s.world.flatMap fun event => event.2.outcomes := by
  simp [hf.noted, List.flatMap_map]

theorem mem_world (hf : Feeds consumer_pool reaction_pool s) {event : P × Event R D E}
    (h : event ∈ s.world) : (∃ d, event.2 = .consumer d) ∨ ∃ o, event.2 = .result o := by
  rw [hf.noted, List.mem_append, List.mem_map, List.mem_map] at h
  rcases h with ⟨d, -, rfl⟩ | ⟨o, -, rfl⟩
  · exact Or.inl ⟨d, rfl⟩
  · exact Or.inr ⟨o, rfl⟩

/-- What happens between two states of the inner stream is pushed. -/
structure Fed (s s' : PromiseStreamState R D E Unit (Pushed P R D E)) : Prop where
  calls : ∃ new, calls s'.log = calls s.log ++ new ∧ new.length
      = tally Event.answers (pushes (pushed_between s s')) ∧
    (new : Multiset D) = gather Event.unwritten (pushes (pushed_between s s'))
  results : ∃ new, s'.proxy_promise.called = s.proxy_promise.called ++ new ∧
    (new : Multiset (Outcome R E)) = gather Event.outcomes (pushes (pushed_between s s'))
  others : ∀ event ∈ pushes (pushed_between s s'),
    event.starts = false ∧ ∀ a, event ≠ .answer a

/-- **One event is pushed at most**, and it is the one for what has happened. -/
theorem fed (hf : Feeds consumer_pool reaction_pool s)
    (hf' : Feeds consumer_pool reaction_pool s') (hpre : s.world <+: s'.world)
    (hans : (answers s'.log).length ≤ (calls s.log).length) : Fed s s' := by
  obtain ⟨new, hnew⟩ := hpre
  have hlen : new.length ≤ 1 := by
    have hcount := hf'.count
    have hworld := congrArg List.length hf.noted
    have hworld' := congrArg List.length hf'.noted
    rw [← hnew] at hworld'
    simp only [List.length_append, List.length_map] at hworld hworld'
    omega
  have hpushed : pushed_between s s' = new.head? := by
    rw [pushed_between, ← hnew, List.drop_left]
  have hcalls : calls s'.log = calls s.log ++ new.flatMap fun event => event.2.unwritten := by
    rw [calls_eq hf', calls_eq hf, ← hnew, List.flatMap_append]
  have hcalled : s'.proxy_promise.called
      = s.proxy_promise.called ++ new.flatMap fun event => event.2.outcomes := by
    rw [called_eq hf', called_eq hf, ← hnew, List.flatMap_append]
  rcases new with _ | ⟨event, _ | ⟨event', rest⟩⟩
  · rw [List.head?_nil] at hpushed
    refine ⟨⟨[], by simpa using hcalls, ?_, ?_⟩, ⟨[], by simpa using hcalled, ?_⟩, ?_⟩ <;>
      simp [hpushed]
  · rw [List.head?_cons] at hpushed
    have hmem : event ∈ s'.world := by simp [← hnew]
    obtain ⟨p, task⟩ := event
    rcases mem_world hf' hmem with ⟨d, rfl⟩ | ⟨o, rfl⟩
    · refine ⟨⟨[d], by simpa using hcalls, ?_, ?_⟩, ⟨[], by simpa using hcalled, ?_⟩, ?_⟩ <;>
        simp [hpushed]
    · refine ⟨⟨[], by simpa using hcalls, ?_, ?_⟩, ⟨[o], by simpa using hcalled, ?_⟩, ?_⟩ <;>
        simp [hpushed]
  · simp at hlen

end Inner

/-! ## The outer stream -/

section Outer

variable {op : Op R D E K σ} {s s' : PromiseStreamState R D E K σ}
  {log new : List (StreamEvent R D E σ)}

/-- Nothing is written after the end. -/
def Closed (log : List (StreamEvent R D E σ)) : Prop :=
  log.Pairwise fun event later => (∃ o, event = .ended o) → ∀ d, later ≠ .write d

theorem not_written (hnew : writes new = []) (d : D) : .write d ∉ new := by
  intro h
  have hmem : d ∈ writes new := List.mem_filterMap.mpr ⟨_, h, rfl⟩
  rw [hnew] at hmem
  cases hmem

theorem Closed.append (h : Closed log) (hnew : writes new = []) : Closed (log ++ new) := by
  refine List.pairwise_append.mpr ⟨h, ?_, ?_⟩
  · refine List.pairwise_of_forall_mem_list fun event _ later hlater _ d heq => ?_
    exact not_written hnew d (heq ▸ hlater)
  · intro event _ later hlater _ d heq
    exact not_written hnew d (heq ▸ hlater)

theorem closed_of_ends (h : ends log = []) : Closed log := by
  refine List.pairwise_of_forall_mem_list fun event hevent later _ hended => ?_
  obtain ⟨o, rfl⟩ := hended
  have hmem := mem_ends.mpr hevent
  rw [h] at hmem
  cases hmem

theorem Closed.of_writes (h : Closed s.log) (hpre : s.log <+: s'.log)
    (hwrites : writes s'.log = writes s.log) : Closed s'.log := by
  obtain ⟨new, hnew⟩ := hpre
  rw [← hnew] at hwrites ⊢
  refine h.append ?_
  simpa [writes, List.filterMap_append] using hwrites

end Outer

/-! ## The connection -/

/-- **The invariant.** What is on its way between the two streams is in one of their
logs, and in no order but theirs. -/
structure Connected (consumer_pool reaction_pool : P)
    (bag : Bag (State P R D E K σ) (Event R D E)) : Prop where
  feeds : Feeds consumer_pool reaction_pool bag.state.inner
  sane : Sane bag.state.stream
  given : Given IsAction bag.state.stream
  starts : tally Event.starts bag.events
    + bag.state.inner.proxy_promise.callbacks_assigned.toNat ≤ bag.state.called.toNat
  tokens : tally Event.answers bag.events + (answers bag.state.inner.log).length
    = (calls bag.state.inner.log).length
  order : ∃ l, calls bag.state.inner.log = writes bag.state.stream.log ++ l ∧
    (l : Multiset D) = gather Event.unwritten bag.events
  results : gather Event.outcomes bag.events + ends bag.state.stream.log
    = bag.state.inner.proxy_promise.called
  pending : ends bag.state.stream.log = [] → bag.state.stream.result = .pending
  closed : Closed bag.state.stream.log
  answered : ∀ a ∈ answers bag.state.inner.log, ∃ action ∈ bag.state.actions, a = .ok action
  answers : ∀ a, .answer a ∈ bag.events → ∃ action ∈ bag.state.actions, a = .ok action

variable {bag : Bag (State P R D E K σ) (Event R D E)}

theorem connected_new [Inhabited R] (world : σ) :
    Connected consumer_pool reaction_pool ⟨(new world : State P R D E K σ), 0⟩ := by
  have hsound := sound_new (R := R) (D := D) (E := E) (K := Unit) ([] : Pushed P R D E)
  refine ⟨⟨hsound.sane, hsound.delivers, nofun, ⟨nofun, nofun⟩, Sends.new, rfl, rfl⟩,
    sane_new world, nofun, ?_, rfl, ⟨[], rfl, rfl⟩, rfl, fun _ => rfl, .nil, nofun, ?_⟩
  · simp [new, PromiseStreamState.new, PromiseState.new]
  · simp

/-- The inner stream has gone on. -/
theorem Connected.inner (hc : Connected consumer_pool reaction_pool bag)
    {inner' : PromiseStreamState R D E Unit (Pushed P R D E)} {events : Multiset (Event R D E)}
    (hf : Feeds consumer_pool reaction_pool inner') (hfed : Fed bag.state.inner inner')
    (hstarts : tally Event.starts events + inner'.proxy_promise.callbacks_assigned.toNat
      ≤ bag.state.called.toNat)
    (htokens : tally Event.answers events + (PromiseStreamState.answers inner'.log).length
      = (calls bag.state.inner.log).length)
    (hunwritten : gather Event.unwritten events = gather Event.unwritten bag.events)
    (houtcomes : gather Event.outcomes events = gather Event.outcomes bag.events)
    (hanswered : ∀ a ∈ PromiseStreamState.answers inner'.log,
      ∃ action ∈ bag.state.actions, a = .ok action)
    (hanswers : ∀ a, .answer a ∈ events → ∃ action ∈ bag.state.actions, a = .ok action) :
    Connected consumer_pool reaction_pool
      ⟨{ bag.state with inner := inner' },
        events + pushes (pushed_between bag.state.inner inner')⟩ := by
  obtain ⟨l, hcalls, hl⟩ := hc.order
  obtain ⟨⟨new, hnew, hlen, hdata⟩, ⟨new', hnew', hresults⟩, hothers⟩ := hfed
  have hnone : tally Event.starts (pushes (pushed_between bag.state.inner inner')) = 0 := by
    refine Multiset.countP_eq_zero.mpr fun event hevent => ?_
    rw [(hothers event hevent).1]
    exact Bool.false_ne_true
  refine ⟨hf, hc.sane, hc.given, ?_, ?_, ⟨l ++ new, ?_, ?_⟩, ?_, hc.pending, hc.closed, hanswered,
    fun a ha => ?_⟩
  · rw [tally_add, hnone]
    exact hstarts
  · simp only
    rw [tally_add, hnew, List.length_append, hlen, ← htokens]
    omega
  · rw [hnew, hcalls, List.append_assoc]
  · rw [← Multiset.coe_add, hl, hdata, gather_add, hunwritten]
  · simp only
    rw [hnew', ← Multiset.coe_add, hresults, gather_add, houtcomes, ← hc.results]
    abel
  · rcases Multiset.mem_add.mp ha with ha | ha
    · exact hanswers a ha
    · exact absurd rfl ((hothers _ ha).2 a)

/-- No call of the inner consumer is on its way, so no datum is. -/
theorem unwritten_eq_zero {events : Multiset (Event R D E)}
    (h : tally Event.answers events = 0) :
    gather Event.unwritten events = 0 := by
  have hnone := Multiset.countP_eq_zero.mp h
  refine Multiset.eq_zero_of_forall_notMem fun d hd => ?_
  obtain ⟨event, hevent, hmem⟩ := Multiset.mem_bind.mp hd
  have := hnone event hevent
  cases event <;> simp_all

/-- While a datum is on its way the inner stream has not been completed, and the
outer stream has not been ended. -/
theorem Connected.open_of_token (hc : Connected consumer_pool reaction_pool bag)
    (h : (PromiseStreamState.answers bag.state.inner.log).length
      < (calls bag.state.inner.log).length) :
    ends bag.state.stream.log = [] ∧ bag.state.stream.result = .pending := by
  have hcount := hc.feeds.count
  have hcalled : bag.state.inner.proxy_promise.called = [] :=
    List.length_eq_zero_iff.mp (by omega)
  have hresults := hc.results
  rw [hcalled] at hresults
  have hends : ends bag.state.stream.log = [] := by
    have := congrArg Multiset.card hresults
    simp only [Multiset.card_add, Multiset.coe_card, List.length_nil] at this
    exact List.length_eq_zero_iff.mp (by omega)
  exact ⟨hends, hc.pending hends⟩

section Steps

variable {call : K → Outcome R E → σ → Ended σ (ExceptionPtr E)} {producer_pool : P}
  {s s' : State P R D E K σ} {rest : Multiset (Event R D E)}

theorem consumes_spec {op : Op R D E K σ} (h : consumes op) :
    op.gives IsAction ∧ op.ends = none ∧ ∀ d, op ≠ .write d := by
  cases op with
  | write d | resolve r | reject e => exact h.elim
  | stream c | answer a | bind_result k => exact ⟨h, rfl, nofun⟩

/-- The outer consumer, and whoever waits for the outer result. -/
theorem Connected.consumes (hc : Connected consumer_pool reaction_pool bag) {op : Op R D E K σ}
    (hop : TaskStream.consumes op) :
    Connected consumer_pool reaction_pool
      ⟨{ bag.state with stream := (PromiseStreamState.step b call op bag.state.stream).1 },
        bag.events⟩ := by
  obtain ⟨hgives, hends, hwrite⟩ := consumes_spec hop
  have hticks : Ticks b call op _ _ := (step_spec hc.sane op).ticks
  have hadds := hticks.adds hgives hc.given
  have hwrites := hadds.writes hwrite
  have hends' := hadds.ends hends
  refine ⟨hc.feeds, hticks.sane hc.sane, hadds.given, hc.starts, hc.tokens, ?_, ?_, fun h => ?_,
    hc.closed.of_writes hticks.log_mono hwrites, hc.answered, hc.answers⟩
  · rw [hwrites]
    exact hc.order
  · rw [hends']
    exact hc.results
  · rw [hends'] at h
    exact hticks.result_pending hgives hends hc.given (hc.pending h)

/-- `stream->write(datum)`, which returns. -/
theorem Connected.write (b : Build) (call : K → Outcome R E → σ → Ended σ (ExceptionPtr E)) {d : D}
    (hc : Connected consumer_pool reaction_pool ⟨s, .consumer d ::ₘ rest⟩) :
    (PromiseStreamState.write b call d s.stream).2 = none ∧
    Connected consumer_pool reaction_pool
      ⟨{ s with stream := (PromiseStreamState.write b call d s.stream).1 },
        .data_action ::ₘ rest⟩ := by
  have htokens := hc.tokens
  simp only [tally_cons, Event.answers, Bool.toNat_true] at htokens
  have hle := hc.feeds.sane.calls_le
  simp only at hle
  obtain ⟨hends, hpending⟩ := hc.open_of_token (by simp only; omega)
  obtain ⟨hwrites', hends'⟩ := write_adds b call hc.sane hc.given d
  have hticks : Ticks b call (.write d) s.stream _ := (write_spec hc.sane d).ticks
  have hop : Op.gives IsAction (.write d : Op R D E K σ) := trivial
  -- the datum is the one that the inner stream waits for
  have hrest := unwritten_eq_zero (show tally Event.answers rest = 0 by omega)
  obtain ⟨l, hcalls, hl⟩ := hc.order
  simp only [gather_cons, Event.unwritten, hrest, add_zero, Multiset.coe_singleton,
    Multiset.coe_eq_singleton] at hl
  subst hl
  refine ⟨write_returns hc.sane hc.given hpending d, ⟨hc.feeds, hticks.sane hc.sane,
    (hticks.adds hop hc.given).given, ?_, ?_, ⟨[], ?_, ?_⟩, ?_, fun _ => ?_, closed_of_ends ?_,
    hc.answered, fun a ha => hc.answers a ?_⟩⟩
  · simpa using hc.starts
  · simpa using htokens
  · simp only
    rw [hwrites', hcalls, List.append_nil]
  · simp [hrest]
  · simp only
    rw [hends']
    simpa using hc.results
  · exact hticks.result_pending hop rfl hc.given hpending
  · exact hends'.trans hends
  · simpa using ha

/-- `stream->resolve(...)` or `stream->reject(...)`. -/
theorem Connected.result (b : Build) (call : K → Outcome R E → σ → Ended σ (ExceptionPtr E))
    {o : Outcome R E}
    (hc : Connected consumer_pool reaction_pool ⟨s, .result o ::ₘ rest⟩) :
    Connected consumer_pool reaction_pool
      ⟨{ s with stream := (PromiseStreamState.step b call (end_op o) s.stream).1 }, rest⟩ := by
  have hends : (end_op o : Op R D E K σ).ends = some o := by cases o <;> rfl
  have hgives : (end_op o : Op R D E K σ).gives IsAction := by cases o <;> trivial
  have hspec : StepSpec b call (end_op o) s.stream _ := step_spec hc.sane _
  have hadds := hspec.ticks.adds hgives hc.given
  have hwrites := hadds.writes (by cases o <;> simp [end_op])
  have hends' : ends (PromiseStreamState.step b call (end_op o) s.stream).1.log
      = ends s.stream.log ++ [o] := by
    rcases (hspec.ended o hends).2 with hlog | ⟨world, hlog⟩ <;>
      simp [hlog, ends, List.filterMap_append]
  obtain ⟨l, hcalls, hl⟩ := hc.order
  refine ⟨hc.feeds, hspec.ticks.sane hc.sane, hadds.given, ?_, ?_, ⟨l, ?_, ?_⟩, ?_, fun h => ?_,
    hc.closed.of_writes hspec.ticks.log_mono hwrites, hc.answered, fun a ha => hc.answers a ?_⟩
  · simpa using hc.starts
  · simpa using hc.tokens
  · simp only
    rw [hwrites, hcalls]
  · simpa using hl
  · simp only
    rw [hends', ← hc.results, gather_cons, ← Multiset.coe_add, Event.outcomes]
    abel
  · simp [hends'] at h
  · simp [ha]

@[simp] theorem ended_rest (x : Option (ExceptionPtr E)) :
    (ended x : Then (Event R D E) (ExceptionPtr E)).rest = 0 := by
  cases x <;> rfl

theorem goes_on_rest (task : Event R D E) (x : Option (ExceptionPtr E)) :
    (goes_on task x).rest = {task} ∨ (goes_on task x).rest = 0 := by
  cases x
  · exact Or.inl rfl
  · exact Or.inr rfl

/-- An operation on the inner stream that answers nothing. -/
theorem Connected.step_inner (hc : Connected consumer_pool reaction_pool bag)
    {op : Op R D E Unit (Pushed P R D E)} {events : Multiset (Event R D E)}
    (hg : Guard op bag.state.inner) (hgives : ∀ A : Answer E → Prop, op.gives A)
    (hstream : ∀ c, op = .stream c → c = consumer consumer_pool)
    (hbind : ∀ k, op ≠ .bind_result k)
    (hstarts : tally Event.starts events ≤ tally Event.starts bag.events)
    (htokens : tally Event.answers events = tally Event.answers bag.events)
    (hunwritten : gather Event.unwritten events = gather Event.unwritten bag.events)
    (houtcomes : gather Event.outcomes events = gather Event.outcomes bag.events)
    (hanswers : ∀ a, .answer a ∈ events → .answer a ∈ bag.events) :
    Connected consumer_pool reaction_pool
      ⟨{ bag.state with
          inner := (PromiseStreamState.step b (callbacks reaction_pool) op bag.state.inner).1 },
        events + pushes (pushed_between bag.state.inner
          (PromiseStreamState.step b (callbacks reaction_pool) op bag.state.inner).1)⟩ := by
  obtain ⟨hf, hpre, hassigned⟩ := hc.feeds.step (b := b) hg (hgives _) hstream hbind
  have hticks : Ticks b (callbacks reaction_pool) op bag.state.inner _ :=
    (step_spec hc.feeds.sane op).ticks
  -- the consumer answers nothing at once
  obtain ⟨new, hnew, hnone⟩ := (hticks.adds (hgives fun _ => False) hc.feeds.given).answers
  have hsame : PromiseStreamState.answers
      (PromiseStreamState.step b (callbacks reaction_pool) op bag.state.inner).1.log
      = PromiseStreamState.answers bag.state.inner.log := by
    rw [hnew, List.eq_nil_iff_forall_not_mem.mpr hnone, List.append_nil]
  refine hc.inner hf (fed hc.feeds hf hpre ?_) ?_ ?_ hunwritten houtcomes ?_ fun a ha => ?_
  · rw [hsame]
    exact hc.feeds.sane.answered
  · rw [hassigned]
    exact (Nat.add_le_add_right hstarts _).trans hc.starts
  · rw [hsame, htokens]
    exact hc.tokens
  · rw [hsame]
    exact hc.answered
  · exact hc.answers a (hanswers a ha)

/-- The producer writes to its stream or ends it. -/
theorem Connected.produces (hc : Connected consumer_pool reaction_pool bag)
    {op : Op R D E Unit (Pushed P R D E)} (hop : TaskStream.produces op)
    (hopen : ∀ o, .ended o ∉ bag.state.inner.log) :
    Connected consumer_pool reaction_pool
      ⟨{ bag.state with
          inner := (PromiseStreamState.step b (callbacks reaction_pool) op bag.state.inner).1 },
        bag.events + pushes (pushed_between bag.state.inner
          (PromiseStreamState.step b (callbacks reaction_pool) op bag.state.inner).1)⟩ := by
  refine hc.step_inner ⟨fun _ _ => hopen, fun _ o' _ h => absurd h (hopen o'), fun c c' h => ?_⟩
    (fun A => ?_) (fun c h => ?_) (fun k h => ?_) le_rfl rfl rfl rfl fun _ h => h
  · subst h
    exact hop.elim
  · cases op with
    | write _ | resolve _ | reject _ => trivial
    | stream _ | answer _ | bind_result _ => exact hop.elim
  · subst h
    exact hop.elim
  · subst h
    exact hop.elim

/-- `->then(resolve, reject)`. -/
theorem Connected.bind (hc : Connected consumer_pool reaction_pool ⟨s, .bind ::ₘ rest⟩) :
    Connected consumer_pool reaction_pool
      ⟨{ s with
          inner := (PromiseStreamState.step b (callbacks reaction_pool) (.bind_result ()) s.inner).1 },
        rest + pushes (pushed_between s.inner
          (PromiseStreamState.step b (callbacks reaction_pool) (.bind_result ()) s.inner).1)⟩ := by
  have hstarts := hc.starts
  simp only [tally_cons, Event.starts, Bool.toNat_true] at hstarts
  have hle := s.called.toNat_le
  have ha : s.inner.proxy_promise.callbacks_assigned = false := by
    rw [← Bool.toNat_eq_zero]
    omega
  obtain ⟨hf, hpre, hlog⟩ := hc.feeds.bind (b := b) ha
  refine hc.inner hf (fed hc.feeds hf hpre ?_) ?_ ?_ (by simp) (by simp) ?_ fun a h => ?_
  · rw [hlog]
    exact hc.feeds.sane.answered
  · have := Bool.toNat_le (PromiseStreamState.step b (callbacks reaction_pool) (.bind_result ())
      s.inner).1.proxy_promise.callbacks_assigned
    simp only
    omega
  · rw [hlog]
    simpa using hc.tokens
  · rw [hlog]
    exact hc.answered
  · exact hc.answers a (Multiset.mem_cons_of_mem h)

/-- `consumer_action->resolve(...)`, which is the answer to the call that is
outstanding. -/
theorem Connected.answer {a : Answer E}
    (hc : Connected consumer_pool reaction_pool ⟨s, .answer a ::ₘ rest⟩) :
    Connected consumer_pool reaction_pool
      ⟨{ s with
          inner := (PromiseStreamState.step b (callbacks reaction_pool) (.answer a) s.inner).1 },
        rest + pushes (pushed_between s.inner
          (PromiseStreamState.step b (callbacks reaction_pool) (.answer a) s.inner).1)⟩ := by
  obtain ⟨action, haction, rfl⟩ := hc.answers a (Multiset.mem_cons_self _ _)
  have hg : Guard (.answer (.ok action)) s.inner := guard_of_none nofun rfl nofun
  obtain ⟨hf, hpre, hassigned⟩ := hc.feeds.step (b := b) hg ⟨action, rfl⟩
    nofun nofun
  have htokens := hc.tokens
  simp only [tally_cons, Event.answers, Bool.toNat_true] at htokens
  -- the token of an answer belongs to a call that is outstanding
  have hout : s.inner.outstanding = true := by
    simp only [outstanding, decide_eq_true_eq]
    omega
  have hadds : PromiseStreamState.answers
      (PromiseStreamState.step b (callbacks reaction_pool) (.answer (.ok action)) s.inner).1.log
      = PromiseStreamState.answers s.inner.log ++ [.ok action] :=
    answer_adds b (callbacks reaction_pool) hc.feeds.sane hc.feeds.given hout action
  refine hc.inner hf (fed hc.feeds hf hpre ?_) ?_ ?_ (by simp) (by simp) ?_ fun a h => ?_
  · rw [hadds, List.length_append, List.length_singleton]
    simp only
    omega
  · rw [hassigned]
    simpa using hc.starts
  · rw [hadds, List.length_append, List.length_singleton]
    simp only
    omega
  · rw [hadds]
    intro a ha
    rcases List.mem_append.mp ha with ha | ha
    · exact hc.answered a ha
    · exact ⟨action, haction, List.mem_singleton.mp ha⟩
  · exact hc.answers a (Multiset.mem_cons_of_mem h)

/-- A step of the task that touches neither stream. -/
theorem Connected.events (hc : Connected consumer_pool reaction_pool bag) {called : Bool}
    {actions : List StreamAction} {events : Multiset (Event R D E)}
    (hstarts : tally Event.starts events
      + bag.state.inner.proxy_promise.callbacks_assigned.toNat ≤ called.toNat)
    (htokens : tally Event.answers events = tally Event.answers bag.events)
    (hunwritten : gather Event.unwritten events = gather Event.unwritten bag.events)
    (houtcomes : gather Event.outcomes events = gather Event.outcomes bag.events)
    (hactions : bag.state.actions ⊆ actions)
    (hanswers : ∀ a, .answer a ∈ events → .answer a ∈ bag.events ∨
      ∃ action ∈ actions, a = .ok action) :
    Connected consumer_pool reaction_pool
      ⟨{ bag.state with called := called, actions := actions }, events⟩ := by
  have hmono : ∀ {a : Answer E}, (∃ action ∈ bag.state.actions, a = .ok action) →
      ∃ action ∈ actions, a = .ok action := fun ⟨action, hmem, h⟩ => ⟨action, hactions hmem, h⟩
  refine ⟨hc.feeds, hc.sane, hc.given, hstarts, ?_, ?_, ?_, hc.pending, hc.closed,
    fun a ha => hmono (hc.answered a ha), fun a ha => ?_⟩
  · rw [htokens]
    exact hc.tokens
  · rw [hunwritten]
    exact hc.order
  · rw [houtcomes]
    exact hc.results
  · exact (hanswers a ha).elim (fun h => hmono (hc.answers a h)) id

/-- The user's code keeps the streams connected. -/
theorem Connected.user (hc : Connected consumer_pool reaction_pool bag)
    {event : Option (P × Event R D E)}
    (h : User b call producer_pool reaction_pool bag.state s' event) :
    Connected consumer_pool reaction_pool ⟨s', bag.events + pushes event⟩ := by
  have hstarts := hc.starts
  cases h with
  | calls h =>
    refine hc.events ?_ (by simp) (by simp) (by simp) (List.Subset.refl _) fun a ha => ?_
    · rw [h] at hstarts
      simp only [Bool.toNat_false, nonpos_iff_eq_zero, Nat.add_eq_zero_iff] at hstarts
      simp [hstarts]
    · exact Or.inl (by simpa using ha)
  | pushes =>
    refine hc.events ?_ (by simp) (by simp) (by simp) (List.Subset.refl _) fun a ha => ?_
    · simpa using hstarts
    · exact Or.inl (by simpa using ha)
  | produces hop hopen => exact hc.produces hop hopen
  | consumes hop =>
    simp only [pushes, add_zero]
    exact hc.consumes hop

/-- **Every step keeps the streams connected.** -/
theorem Connected.step {bag' : Bag (State P R D E K σ) (Event R D E)}
    (hc : Connected consumer_pool reaction_pool bag)
    (h : Bag.Step (task_stream b call producer_pool consumer_pool reaction_pool) bag bag') :
    Connected consumer_pool reaction_pool bag' := by
  cases h with
  | env h => exact hc.user h
  | act h =>
    rename_i s s' task rest event next
    have hstarts := hc.starts
    simp only [tally_cons] at hstarts
    cases h with
    | user h => simpa using hc.user h
    | factory_returns =>
      refine hc.events ?_ (by simp) (by simp) (by simp) (List.Subset.refl _) fun a ha => ?_
      · simpa using hstarts
      · exact Or.inl (by simpa using ha)
    | factory_throws | other_ends =>
      refine hc.events ?_ (by simp) (by simp) (by simp) (List.Subset.refl _) fun a ha => ?_
      · simp only [rest_throws, ended_rest, zero_add, pushes, add_zero]
        omega
      · exact Or.inl (by simpa using ha)
    | stream h =>
      subst h
      have hstream : ∀ c, (.stream (consumer consumer_pool) : Op R D E Unit (Pushed P R D E))
          = .stream c → c = consumer consumer_pool := fun c hc => by
        cases hc
        rfl
      rcases goes_on_rest (.bind : Event R D E) (PromiseStreamState.step b
        (callbacks reaction_pool) (.stream (consumer consumer_pool)) s.inner).2 with h | h <;>
        rw [h]
      · refine hc.step_inner hc.feeds.guard_stream (fun A => feeding_gives) hstream (fun k hk => by cases hk)
          (by simp [add_comm]) (by simp) (by simp) (by simp) fun a ha => ?_
        simpa using ha
      · refine hc.step_inner hc.feeds.guard_stream (fun A => feeding_gives) hstream (fun k hk => by cases hk)
          (by simp) (by simp) (by simp) (by simp) fun a ha => ?_
        simpa using ha
    | bind h =>
      subst h
      simpa using hc.bind (b := b)
    | write h =>
      obtain ⟨-, hc'⟩ := hc.write b call
      have h : PromiseStreamState.write b call _ s.stream = _ := h
      rw [h] at hc'
      simpa using hc'
    | write_throws h =>
      -- the outer stream has not been ended, so that `write` returns
      obtain ⟨hreturns, -⟩ := hc.write b call
      have h : PromiseStreamState.write b call _ s.stream = _ := h
      rw [h] at hreturns
      cases hreturns
    | data_action =>
      refine hc.events ?_ (by simp) (by simp) (by simp) (List.subset_append_left ..) fun a ha => ?_
      · simpa using hstarts
      · simp only [rest_goes_on, pushes, add_zero, Multiset.singleton_add, Multiset.mem_cons] at ha
        rcases ha with ha | ha
        · cases ha
          exact Or.inr ⟨_, by simp, rfl⟩
        · exact Or.inl (Multiset.mem_cons_of_mem ha)
    | answer h =>
      subst h
      simpa using hc.answer (b := b)
    | result h =>
      subst h
      simpa using hc.result b call

end Steps

/-! ## Runs -/

variable [Fintype P] [Fintype W] [DecidableEq P] [DecidableEq W] [Inhabited R]
  {s : ParallelEventLoop P W (State P R D E K σ) (Event R D E) (ExceptionPtr E)}

/-- **A streaming task preserves the stream.** In every state that the loop reaches,
in whatever pools its events are and in whatever order they are executed: the data
that have been written to the outer stream are, in order, a prefix of those that
have been written to the inner one; the outer stream has been ended once at most, as
the producer has ended the inner one, and nothing has been written to it after that;
and if the producer has resolved the inner stream and the outer stream's action was
`Continue` whenever it was asked for, everything was written before. -/
theorem task_stream_preserves (b : Build) (call : K → Outcome R E → σ → Ended σ (ExceptionPtr E))
    (pools : Pools P W) (producer_pool consumer_pool reaction_pool : P) (world : σ)
    (hrun : ReflTransGen (Step pools (task_stream b call producer_pool consumer_pool reaction_pool))
      (ParallelEventLoop.start (new world)) s) :
    writes s.state.stream.log <+: writes s.state.inner.log ∧
    (ends s.state.stream.log).length ≤ 1 ∧
    Closed s.state.stream.log ∧
    ∀ o, .ended o ∈ s.state.stream.log → .ended o ∈ s.state.inner.log ∧
      ∀ r, o = .resolved r → (∀ action ∈ s.state.actions, action = .Continue) →
        writes s.state.stream.log = writes s.state.inner.log := by
  have hc : Connected consumer_pool reaction_pool s.bag :=
    run_bag (connected_new world) (fun _ _ hc h => hc.step h) hrun
  have hstate : s.bag.state = s.state := rfl
  obtain ⟨l, hcalls, hl⟩ := hc.order
  have hresults := hc.results
  have hle := hc.feeds.result.called_le
  have hcount := hc.feeds.count
  have htokens := hc.tokens
  have hactions := hc.answered
  rw [hstate] at hcalls hresults hle hcount htokens hactions
  refine ⟨?_, ?_, hc.closed, fun o ho => ?_⟩
  · have hpre := hc.feeds.delivers.calls_initial
    rw [hstate, hcalls] at hpre
    exact (List.prefix_append ..).trans hpre
  · have hcard := congrArg Multiset.card hresults
    simp only [Multiset.card_add, Multiset.coe_card] at hcard
    omega
  · have hcalled : o ∈ s.state.inner.proxy_promise.called := by
      rw [← Multiset.mem_coe, ← hresults]
      exact Multiset.mem_add.mpr (Or.inr (mem_ends.mpr ho))
    obtain ⟨hone, houtcome⟩ := hc.feeds.result.outcome_of_called hcalled
    have hsettled := hc.feeds.settled
    rw [houtcome] at hsettled
    -- the result promise of the inner stream has been settled with `o`
    rcases hc.feeds.delivers.settled_once hc.feeds.sane with hnil | ⟨o', world', hlog, hfinal, -⟩
    · rw [hnil] at hsettled
      cases hsettled
    · rw [hlog] at hsettled
      obtain rfl : o = o' := Option.some.inj hsettled
      have hended := hc.feeds.honest.settled (o, world') (by simp [hlog])
      refine ⟨hended, fun r hr hall => ?_⟩
      subst hr
      have hcontinue : ∀ a ∈ PromiseStreamState.answers s.state.inner.log, a = .ok .Continue := by
        intro a ha
        obtain ⟨action, haction, rfl⟩ := hactions a ha
        rw [hall action haction]
      obtain ⟨heq, -, -⟩ := hfinal r hended hcontinue
      rw [hstate] at hone heq
      rw [hone, List.length_singleton] at hcount
      have hnone := unwritten_eq_zero (show tally Event.answers s.bag.events = 0 by omega)
      rw [hnone, Multiset.coe_eq_zero] at hl
      rw [← heq, hcalls, hl, List.append_nil]

/-- One pool with one worker: a datum goes through. -/
theorem task_stream_preserves_one_datum :
    ∃ s : ParallelEventLoop Unit Unit (State Unit ℕ ℕ Unit Unit Unit) (Event ℕ ℕ Unit)
        (ExceptionPtr Unit),
      writes s.state.stream.log = [1] ∧
      writes s.state.stream.log <+: writes s.state.inner.log := by
  let pools : Pools Unit Unit := ⟨id, [()], by simp⟩
  let call : Unit → Outcome ℕ Unit → Unit → Ended Unit (ExceptionPtr Unit) := fun _ _ w => returns w
  let program : Program Unit (State Unit ℕ ℕ Unit Unit Unit) (Event ℕ ℕ Unit)
    (ExceptionPtr Unit) := task_stream Build.debug call () () ()
  have hrun : ReflTransGen (Step pools program) (ParallelEventLoop.start (new ()))
      (ParallelEventLoop.start (new ())) := .refl
  have hrun := hrun.tail (.main (@MainStep.env _ _ _ _ _ _ _ pools program _ _
    (some ((), .producer)) (fun _ => rfl) (fun _ _ _ => rfl) (.calls rfl)))
  -- `producer`
  have hrun := hrun.trans (takes_event (w := ()) rfl rfl rfl)
  have hrun := hrun.tail (.run () (@RunStep.goes_on _ _ _ _ _ _ _ program () _ 0 .producer .stream _
    none rfl nofun .factory_returns))
  have hrun := hrun.tail (.run () (@RunStep.goes_on _ _ _ _ _ _ _ program () _ 0 .stream .bind _
    none rfl nofun (.stream rfl)))
  have hrun := hrun.tail (.run () (@RunStep.returns _ _ _ _ _ _ _ program () _ 0 .bind _
    none rfl nofun (.bind rfl)))
  have hrun := hrun.tail (.main (@MainStep.env _ _ _ _ _ _ _ pools program _ _
    (some ((), .consumer 1)) (fun _ => rfl) (fun _ _ _ => rfl)
    (@User.produces _ _ _ _ _ _ _ _ _ _ _ (.write 1) trivial
      (fun o h => List.not_mem_nil (mem_ends.mpr h)))))
  -- `consumer` and `proxy`
  have hrun := hrun.trans (takes_event (w := ()) rfl rfl rfl)
  have hrun := hrun.tail (.run () (@RunStep.goes_on _ _ _ _ _ _ _ program () _ 1 (.consumer 1)
    .data_action _ none rfl nofun (.write rfl)))
  have hrun := hrun.tail (.run () (@RunStep.goes_on _ _ _ _ _ _ _ program () _ 1 .data_action
    (.answer (.ok .Continue)) _ none rfl nofun .data_action))
  have hrun := hrun.tail (.run () (@RunStep.returns _ _ _ _ _ _ _ program () _ 1
    (.answer (.ok .Continue)) _ none rfl nofun (.answer rfl)))
  exact ⟨_, rfl, (task_stream_preserves Build.debug call pools () () () () hrun).1⟩

end TaskStream
end Kaiu
