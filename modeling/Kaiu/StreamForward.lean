/-
`PromiseStreamState::forward_to`: a stream that is forwarded to another one.

The consumer that `forward_to` binds to the source writes each datum to `next` and
answers with the action of `next`; the callbacks that it binds to the result promise
of the source end `next` with the result. These calls are made by functions of the
source while they run, one after the other. They lock `next` one by one, and what
other threads do to `next` may come between any two of them: between the write of a
datum and the reading of the action the consumer of `next` may be bound, or answer. So
a function of the source is cut here where it calls its consumer or its callbacks: it
notes the call that is to be made (`Nested`), and what is left of it is done when the
call has returned. That the source is locked until then is not used.

Both streams run behind one another and tell each other little: the source does not
know what the consumer of `next` will answer to the data that are still in its buffer.
The invariant (`Forwarded`) says that `next` is written what the source gives out, and
that the source is refused nothing unless `next` has been refused something, in which
case its consumer is handed nothing more, however much is written.
-/
import Kaiu.StreamFeeding
import Kaiu.StreamHanded

set_option autoImplicit false

namespace Kaiu
namespace PromiseStreamState

open Exit Relation

variable {R D E K σ : Type*}

/-- What the functions of the source call: the consumer that `forward_to` binds, or
the callbacks of the result promise. -/
inductive Nested (R D E : Type*) where
  /-- `next->write(datum)`, and `return next->data_action()`. -/
  | write (datum : D)
  /-- `next->resolve(...)` or `next->reject(...)`. -/
  | result (o : Outcome R E)
  deriving DecidableEq

/-- The datum that the call writes. -/
@[simp] def Nested.data : Nested R D E → List D
  | .write datum => [datum]
  | .result _ => []

/-- The outcome that the call ends `next` with. -/
@[simp] def Nested.outcomes : Nested R D E → List (Outcome R E)
  | .write _ => []
  | .result o => [o]

/-- A stream that is to be forwarded, and the one it is to be forwarded to. -/
structure Forward (R D E K σ : Type*) where
  /-- The world of its callbacks are the calls that are to be made. -/
  source : PromiseStreamState R D E Unit (List (Nested R D E))
  next : PromiseStreamState R D E K σ
  /-- How many of the calls have returned. -/
  made : ℕ := 0
  /-- `next->write(datum)` of the call that is being made has returned. -/
  reading : Bool := false

namespace Forward

/-- Two streams as their constructors leave them. -/
def new [Inhabited R] (world : σ) : Forward R D E K σ :=
  { source := PromiseStreamState.new [], next := PromiseStreamState.new world }

/-- The consumer in `forward_to`. -/
def consumer : Consumer D E (List (Nested R D E)) :=
  feeding .write

/-- The callbacks in `forward_to` of the result promise. -/
abbrev callbacks : Unit → Outcome R E → List (Nested R D E) →
    Ended (List (Nested R D E)) (ExceptionPtr E) :=
  sends .result

/-- `next->resolve(...)` or `next->reject(...)`. -/
def end_op : Outcome R E → Op R D E K σ
  | .resolved result => .resolve result
  | .rejected error => .reject error

section Steps

variable (b : Build) (call : K → Outcome R E → σ → Ended σ (ExceptionPtr E))
  (policy : List D → StreamAction) (c : Consumer D E σ)

/-- The functions of the source that are called from outside. -/
inductive SourceStep :
    PromiseStreamState R D E Unit (List (Nested R D E)) →
    PromiseStreamState R D E Unit (List (Nested R D E)) → Prop where
  | write {s : PromiseStreamState R D E Unit (List (Nested R D E))} {d : D}
      (h : ∀ o, .ended o ∉ s.log) : SourceStep s (step b callbacks (.write d) s).1
  | resolve {s : PromiseStreamState R D E Unit (List (Nested R D E))} {r : R}
      (h : ∀ o, .ended o ∉ s.log) : SourceStep s (step b callbacks (.resolve r) s).1
  /-- `this->stream<void>(...)` in `forward_to`. -/
  | forward {s : PromiseStreamState R D E Unit (List (Nested R D E))} (h : s.on_data = none) :
      SourceStep s (step b callbacks (.stream consumer) s).1
  /-- `->forward_to(next)` in `forward_to`. -/
  | forward_result {s : PromiseStreamState R D E Unit (List (Nested R D E))}
      (h : s.on_data.isSome) (ha : s.proxy_promise.callbacks_assigned = false) :
      SourceStep s (step b callbacks (.bind_result ()) s).1

/-- The functions of `next` that are called from outside: the consumer is bound,
settles its promises, and callbacks are bound to the result promise. -/
inductive ConsumerStep : PromiseStreamState R D E K σ → PromiseStreamState R D E K σ → Prop where
  | stream {s : PromiseStreamState R D E K σ} (h : s.on_data = none) :
      ConsumerStep s (step b call (.stream c) s).1
  | answer {s : PromiseStreamState R D E K σ} (h : s.outstanding = true) :
      ConsumerStep s (step b call (.answer (.ok (policy (calls s.log)))) s).1
  | bind_result {s : PromiseStreamState R D E K σ} {k : K} :
      ConsumerStep s (step b call (.bind_result k) s).1

/-- The steps of both streams, in any order. -/
inductive Step : Forward R D E K σ → Forward R D E K σ → Prop where
  | source {s : Forward R D E K σ} {source : PromiseStreamState R D E Unit (List (Nested R D E))}
      (h : SourceStep b s.source source) : Step s { s with source := source }
  | consumer {s : Forward R D E K σ} {next : PromiseStreamState R D E K σ}
      (h : ConsumerStep b call policy c s.next next) : Step s { s with next := next }
  /-- `next->write(datum)`. -/
  | write {s : Forward R D E K σ} {d : D} {next : PromiseStreamState R D E K σ}
      (hmade : s.source.world[s.made]? = some (.write d)) (hreading : s.reading = false)
      (h : step b call (.write d) s.next = (next, none)) :
      Step s { s with next := next, reading := true }
  | write_throws {s : Forward R D E K σ} {d : D} {next : PromiseStreamState R D E K σ}
      {error : ExceptionPtr E}
      (hmade : s.source.world[s.made]? = some (.write d)) (hreading : s.reading = false)
      (h : step b call (.write d) s.next = (next, some error)) :
      Step s { s with
        source := (step b callbacks (.answer (.error error)) s.source).1, next := next
        made := s.made + 1 }
  /-- `return next->data_action()`. -/
  | data_action {s : Forward R D E K σ} (hreading : s.reading = true) :
      Step s { s with
        source := (step b callbacks (.answer (.ok s.next.action)) s.source).1
        made := s.made + 1, reading := false }
  | result {s : Forward R D E K σ} {o : Outcome R E}
      (hmade : s.source.world[s.made]? = some (.result o)) :
      Step s { s with next := (step b call (end_op o) s.next).1, made := s.made + 1 }

end Steps

/-- Everything has happened: the producer has resolved the source with `r`, `forward_to`
has returned, and so have all calls; the consumer has been bound to `next`, and has
settled its promises. -/
structure Done (r : R) (s : Forward R D E K σ) : Prop where
  resolved : .ended (.resolved r) ∈ s.source.log
  forwarded : s.source.on_data.isSome
  result_forwarded : s.source.proxy_promise.callbacks_assigned = true
  made : s.made = s.source.world.length
  bound : s.next.on_data.isSome
  answered : s.next.outstanding = false

variable {b : Build} {call : K → Outcome R E → σ → Ended σ (ExceptionPtr E)}
  {policy : List D → StreamAction} {c : Consumer D E σ} {world₀ : σ}

/-! ## The source -/

section Source

variable {s s' : PromiseStreamState R D E Unit (List (Nested R D E))}

/-- What holds of the source. -/
abbrev Feeds (s : PromiseStreamState R D E Unit (List (Nested R D E))) : Prop :=
  PromiseStreamState.Feeds .write .result s

theorem calls_eq (hf : Feeds s) : calls s.log = s.world.flatMap Nested.data := by
  simp [hf.noted, List.flatMap_append, List.flatMap_map]

theorem called_eq (hf : Feeds s) : s.proxy_promise.called = s.world.flatMap Nested.outcomes := by
  simp [hf.noted, List.flatMap_append, List.flatMap_map]

/-- The result comes last. -/
theorem no_outcomes_before (hf : Feeds s) {n : ℕ} (hn : n < s.world.length) :
    (s.world.take n).flatMap Nested.outcomes = [] := by
  have hone := hf.result.called_le
  have hlen : n ≤ ((calls s.log).map (Nested.write (R := R) (E := E))).length := by
    rw [hf.noted, List.length_append, List.length_map, List.length_map] at hn
    rw [List.length_map]
    omega
  rw [hf.noted, List.take_append_of_le_length hlen, ← List.map_take, List.flatMap_map]
  simp

/-- What holds of the source between two of its functions. -/
structure Forwards (s : PromiseStreamState R D E Unit (List (Nested R D E))) : Prop where
  feeds : Feeds s
  rest : AtRest s
  unrejected : ∀ e, .ended (.rejected e) ∉ s.log

theorem forwards_new [Inhabited R] :
    Forwards (PromiseStreamState.new [] : PromiseStreamState R D E Unit (List (Nested R D E))) := by
  have hsound := sound_new (R := R) (D := D) (E := E) (K := Unit) ([] : List (Nested R D E))
  exact ⟨⟨hsound.sane, hsound.delivers, nofun, ⟨nofun, nofun⟩, Sends.new, rfl, rfl⟩,
    atRest_new [], nofun⟩

/-- A function of the source that does not reject it, and in which no call fails. -/
theorem Forwards.goes_on (hs : Forwards s) {op : Op R D E Unit (List (Nested R D E))}
    (hfeeds : Feeds (step b callbacks op s).1)
    (hends : ∀ o, op.ends = some o → ∃ r, o = .resolved r)
    (hfail : NoFailure (step b callbacks op s).1.log) : Forwards (step b callbacks op s).1 := by
  have hticks : Ticks b callbacks op s (PromiseStreamState.step b callbacks op s).1 :=
    (step_spec hs.feeds.sane op).ticks
  refine ⟨hfeeds, hs.rest.step op hfail, ?_⟩
  exact History.keeps (fun _ _ hr htick => htick.not_rejected hends hr) hs.unrejected hticks

theorem noFailure_of_answers (h : answers s'.log = answers s.log) (hfail : NoFailure s.log) :
    NoFailure s'.log := by
  intro e he
  have hmem : .error e ∈ answers s'.log := List.mem_filterMap.mpr ⟨_, he, rfl⟩
  rw [h] at hmem
  obtain ⟨event, hevent, heq⟩ := List.mem_filterMap.mp hmem
  cases event with
  | answer a =>
    cases heq
    exact hfail e hevent
  | _ => cases heq

/-- **The functions that are called from outside.** They may note another call, and
answer none. -/
theorem SourceStep.forwards (hs : Forwards s) (hfail : NoFailure s.log)
    (h : SourceStep b s s') :
    Forwards s' ∧ s.world <+: s'.world ∧ answers s'.log = answers s.log := by
  -- no call is answered but by the function that has made it
  have hnone : ∀ op : Op R D E Unit (List (Nested R D E)), op.gives (fun _ => False) →
      answers (step b callbacks op s).1.log = answers s.log := by
    intro op hop
    have hticks : Ticks b callbacks op s (step b callbacks op s).1 :=
      (step_spec hs.feeds.sane op).ticks
    obtain ⟨-, ⟨new, hnew, hall⟩, -, -⟩ := hticks.adds hop hs.feeds.given
    rw [hnew, List.eq_nil_iff_forall_not_mem.mpr hall, List.append_nil]
  have honward : ∀ op : Op R D E Unit (List (Nested R D E)), op.gives (fun _ => False) →
      (∀ o, op.ends = some o → ∃ r, o = .resolved r) →
      Feeds (step b callbacks op s).1 ∧ s.world <+: (step b callbacks op s).1.world →
      Forwards (step b callbacks op s).1 ∧ s.world <+: (step b callbacks op s).1.world ∧
        answers (step b callbacks op s).1.log = answers s.log := by
    rintro op hop hends ⟨hfeeds, hworld⟩
    have hanswers := hnone op hop
    exact ⟨hs.goes_on hfeeds hends (noFailure_of_answers hanswers hfail), hworld, hanswers⟩
  cases h with
  | write hended =>
    rename_i d
    have hg : Guard (.write d) s := ⟨fun _ _ => hended, nofun, nofun⟩
    have hon := hs.feeds.step hg trivial nofun nofun (b := b)
    exact honward _ trivial nofun ⟨hon.feeds, hon.noted⟩
  | resolve hended =>
    rename_i r
    have hg : Guard (.resolve r) s := ⟨nofun, fun o o' _ ho' => absurd ho' (hended o'), nofun⟩
    have hon := hs.feeds.step hg trivial nofun nofun (b := b)
    refine honward _ trivial (fun o ho => ?_) ⟨hon.feeds, hon.noted⟩
    cases ho
    exact ⟨r, rfl⟩
  | forward hbound =>
    have hg : Guard (.stream consumer) s := hs.feeds.guard_stream
    have hon := hs.feeds.step hg feeding_gives (fun c h => by cases h; rfl) nofun (b := b)
    exact honward _ feeding_gives nofun ⟨hon.feeds, hon.noted⟩
  | forward_result hbound ha =>
    obtain ⟨hfeeds, hworld, -⟩ := hs.feeds.bind (b := b) ha
    exact honward _ trivial nofun ⟨hfeeds, hworld⟩

/-- **The answer** to the call that is outstanding. It may be followed by another call. -/
theorem Forwards.answer (hs : Forwards s) (hfail : NoFailure s.log) (hout : s.outstanding = true)
    (action : StreamAction) :
    Forwards (step b callbacks (.answer (.ok action)) s).1 ∧
    s.world <+: (step b callbacks (.answer (.ok action)) s).1.world ∧
    answers (step b callbacks (.answer (.ok action)) s).1.log = answers s.log ++ [.ok action] := by
  have hg : Guard (.answer (.ok action)) s := guard_of_none nofun rfl nofun
  have hon := hs.feeds.step hg ⟨action, rfl⟩ nofun nofun (b := b)
  have hanswers : answers (step b callbacks (.answer (.ok action)) s).1.log
      = answers s.log ++ [.ok action] :=
    answer_adds b callbacks hs.feeds.sane hs.feeds.given hout action
  refine ⟨hs.goes_on hon.feeds nofun fun e he => ?_, hon.noted, hanswers⟩
  have hmem : .error e ∈ answers (step b callbacks (.answer (.ok action)) s).1.log :=
    List.mem_filterMap.mpr ⟨_, he, rfl⟩
  rw [hanswers, List.mem_append, List.mem_singleton] at hmem
  rcases hmem with hmem | heq
  · obtain ⟨event, hevent, heq⟩ := List.mem_filterMap.mp hmem
    cases event with
    | answer a =>
      cases heq
      exact hfail e hevent
    | _ => cases heq
  · cases heq

end Source

/-! ## The connection -/

/-- **The invariant.** -/
structure Forwarded (policy : List D → StreamAction) (world₀ : σ) (c : Consumer D E σ)
    (s : Forward R D E K σ) : Prop where
  source : Forwards s.source
  next : Served policy world₀ c s.next
  made_le : s.made + s.reading.toNat ≤ s.source.world.length
  reading : s.reading = true → ∃ d, s.source.world[s.made]? = some (.write d)
  written : writes s.next.log
    = (s.source.world.take (s.made + s.reading.toNat)).flatMap Nested.data
  ended : ends s.next.log = (s.source.world.take s.made).flatMap Nested.outcomes
  answered : (answers s.source.log).length
    = ((s.source.world.take s.made).flatMap Nested.data).length
  told : ∀ a ∈ answers s.source.log,
    ∃ action, a = .ok action ∧ (action ≠ .Continue → Refused s.next.log)

variable {s s' : Forward R D E K σ}

theorem forwarded_new [Inhabited R] :
    Forwarded policy world₀ c (new world₀ : Forward R D E K σ) :=
  ⟨forwards_new, served_new, Nat.le_refl _, nofun, rfl, rfl, rfl, nofun⟩

theorem Forwarded.noFailure (hs : Forwarded policy world₀ c s) : NoFailure s.source.log := by
  intro e he
  obtain ⟨action, h, -⟩ := hs.told (.error e) (List.mem_filterMap.mpr ⟨_, he, rfl⟩)
  cases h

/-- Until the call of a callback has returned, `next` has not been ended. -/
theorem Forwarded.open_of_call (hs : Forwarded policy world₀ c s)
    (hlt : s.made < s.source.world.length) (o : Outcome R E) : .ended o ∉ s.next.log := by
  intro hmem
  have hmem := mem_ends.mpr hmem
  rw [hs.ended, no_outcomes_before hs.source.feeds hlt] at hmem
  cases hmem

/-- The source goes on, and what has been done for it stays done. -/
theorem Forwarded.of_source (hs : Forwarded policy world₀ c s)
    {source : PromiseStreamState R D E Unit (List (Nested R D E))} (hsource : Forwards source)
    (hworld : s.source.world <+: source.world)
    (hanswers : answers source.log = answers s.source.log) :
    Forwarded policy world₀ c { s with source := source } := by
  obtain ⟨new, hnew⟩ := hworld
  have hle := hs.made_le
  have htake : ∀ n ≤ s.source.world.length, source.world.take n = s.source.world.take n := by
    intro n hn
    rw [← hnew, List.take_append_of_le_length hn]
  have hmade := htake s.made (by omega)
  refine ⟨hsource, hs.next, ?_, fun hreading => ?_, ?_, ?_, ?_, ?_⟩
  · rw [← hnew, List.length_append]
    exact Nat.le_add_right_of_le hle
  · obtain ⟨d, hd⟩ := hs.reading hreading
    obtain ⟨hlt, -⟩ := List.getElem?_eq_some_iff.mp hd
    refine ⟨d, ?_⟩
    rwa [← hnew, List.getElem?_append_left hlt]
  · rw [htake _ hle]
    exact hs.written
  · rw [hmade]
    exact hs.ended
  · rw [hanswers, hmade]
    exact hs.answered
  · rw [hanswers]
    exact hs.told

/-- `next` is called by somebody else. -/
theorem Forwarded.of_next (hc : Replies policy world₀ c) (hs : Forwarded policy world₀ c s)
    {op : Op R D E K σ} (hop : Serves policy c s.next op) (hw : ∀ d, op ≠ .write d)
    (he : op.ends = none) :
    Forwarded policy world₀ c { s with next := (step b call op s.next).1 } := by
  have hticks : Ticks b call op s.next (step b call op s.next).1 :=
    (step_spec hs.next.rest.sane op).ticks
  have hgives : op.gives fun _ : Answer E => True := by
    cases op <;> first | trivial | exact fun _ _ _ _ => trivial
  obtain ⟨-, -, hwrites, hends⟩ := hticks.adds hgives fun _ _ _ _ _ _ => trivial
  refine ⟨hs.source, hs.next.step hc hop, hs.made_le, hs.reading, ?_, ?_, hs.answered, ?_⟩
  · rw [hwrites hw]
    exact hs.written
  · rw [hends he]
    exact hs.ended
  · intro a ha
    obtain ⟨action, heq, hrefused⟩ := hs.told a ha
    exact ⟨action, heq, fun hne => (hrefused hne).mono hticks.log_mono⟩

/-- The datum is written. -/
theorem Forwarded.write (hc : Replies policy world₀ c) (hs : Forwarded policy world₀ c s) {d : D}
    (hmade : s.source.world[s.made]? = some (.write d)) (hreading : s.reading = false) :
    Forwarded policy world₀ c
      { s with next := (PromiseStreamState.step b call (.write d) s.next).1, reading := true } := by
  obtain ⟨hlt, hget⟩ := List.getElem?_eq_some_iff.mp hmade
  have hticks : Ticks b call (.write d) s.next (PromiseStreamState.step b call (.write d) s.next).1 :=
    (step_spec hs.next.rest.sane _).ticks
  have hgiven : Given (fun _ => True) s.next := fun _ _ _ _ _ _ => trivial
  obtain ⟨hwrites, hends⟩ := write_adds b call hs.next.rest.sane hgiven d
  have hserves : Serves policy c s.next (.write d) := hs.open_of_call hlt
  refine ⟨hs.source, hs.next.step hc hserves, ?_, fun _ => ⟨d, hmade⟩, ?_, ?_, hs.answered, ?_⟩
  · simpa using Nat.succ_le_of_lt hlt
  · have hwritten := hs.written
    rw [hreading, Bool.toNat_false, Nat.add_zero] at hwritten
    simp only [Bool.toNat_true]
    rw [List.take_add_one, hmade, List.flatMap_append, ← hwritten]
    exact hwrites
  · exact hends.trans hs.ended
  · intro a ha
    obtain ⟨action, heq, hrefused⟩ := hs.told a ha
    exact ⟨action, heq, fun hne => (hrefused hne).mono hticks.log_mono⟩

/-- The call that is being made has not been answered. -/
theorem Forwarded.outstanding (hs : Forwarded policy world₀ c s) {d : D}
    (hmade : s.source.world[s.made]? = some (.write d)) : s.source.outstanding = true := by
  have hsplit := List.take_append_drop s.made s.source.world
  have hdrop : s.source.world.drop s.made = .write d :: s.source.world.drop (s.made + 1) := by
    obtain ⟨hlt, hget⟩ := List.getElem?_eq_some_iff.mp hmade
    rw [List.drop_eq_getElem_cons hlt, hget]
  have hcalls := calls_eq hs.source.feeds
  rw [← hsplit, hdrop, List.flatMap_append, List.flatMap_cons] at hcalls
  simp only [PromiseStreamState.outstanding, decide_eq_true_eq]
  rw [hcalls, hs.answered]
  simp only [List.length_append, Nested.data, List.length_singleton]
  omega

/-- **The action is read**, and the source goes on. -/
theorem Forwarded.data_action (hs : Forwarded policy world₀ c s) (hreading : s.reading = true) :
    Forwarded policy world₀ c { s with
      source := (PromiseStreamState.step b callbacks (.answer (.ok s.next.action)) s.source).1
      made := s.made + 1, reading := false } := by
  obtain ⟨d, hmade⟩ := hs.reading hreading
  obtain ⟨hsource, ⟨new, hnew⟩, hanswers⟩ :=
    hs.source.answer hs.noFailure (hs.outstanding hmade) s.next.action (b := b)
  obtain ⟨hlt, hget⟩ := List.getElem?_eq_some_iff.mp hmade
  -- what the source has handed over before stays as it was
  have htake : ∀ n ≤ s.source.world.length,
      (PromiseStreamState.step b callbacks (.answer (.ok s.next.action)) s.source).1.world.take n
        = s.source.world.take n := by
    intro n hn
    rw [← hnew, List.take_append_of_le_length hn]
  have hlast : s.source.world.take (s.made + 1) = s.source.world.take s.made ++ [.write d] := by
    rw [List.take_add_one, hmade]
    rfl
  refine ⟨hsource, hs.next, ?_, nofun, ?_, ?_, ?_, ?_⟩
  · simp only [Bool.toNat_false, Nat.add_zero]
    rw [← hnew, List.length_append]
    omega
  · have hwritten := hs.written
    rw [hreading] at hwritten
    simp only [Bool.toNat_false, Nat.add_zero]
    rw [htake _ hlt]
    exact hwritten
  · simp only
    rw [htake _ hlt, hlast, List.flatMap_append, hs.ended]
    simp
  · simp only
    rw [htake _ hlt, hlast, hanswers, List.flatMap_append, List.length_append, List.length_append,
      hs.answered]
    rfl
  · intro a ha
    simp only at ha
    rw [hanswers, List.mem_append, List.mem_singleton] at ha
    rcases ha with ha | rfl
    · exact hs.told a ha
    · exact ⟨s.next.action, rfl, hs.next.refused_of_action⟩

/-- The result is passed on. -/
theorem Forwarded.result (hc : Replies policy world₀ c) (hs : Forwarded policy world₀ c s)
    {o : Outcome R E} (hmade : s.source.world[s.made]? = some (.result o)) :
    Forwarded policy world₀ c { s with
      next := (PromiseStreamState.step b call (end_op o) s.next).1, made := s.made + 1 } := by
  obtain ⟨hlt, hget⟩ := List.getElem?_eq_some_iff.mp hmade
  -- the source has been resolved
  have hcalled : o ∈ s.source.proxy_promise.called := by
    rw [called_eq hs.source.feeds]
    have hmem : .result o ∈ s.source.world := hget ▸ List.getElem_mem hlt
    exact List.mem_flatMap.mpr ⟨.result o, hmem, List.mem_singleton_self o⟩
  have hlog : .ended o ∈ s.source.log := by
    have hsettled := hs.source.feeds.settled
    rw [(hs.source.feeds.result.outcome_of_called hcalled).2] at hsettled
    obtain ⟨p, hp, rfl⟩ := Option.map_eq_some_iff.mp hsettled.symm
    exact hs.source.feeds.honest.settled p (List.mem_of_head? hp)
  obtain ⟨r, rfl⟩ : ∃ r, o = .resolved r := by
    cases o with
    | resolved r => exact ⟨r, rfl⟩
    | rejected e => exact absurd hlog (hs.source.unrejected e)
  have hreading : s.reading = false := by
    by_contra hne
    obtain ⟨d, hd⟩ := hs.reading (by simpa using hne)
    rw [hmade] at hd
    cases hd
  have hserves : Serves policy c s.next (.resolve r) := hs.open_of_call hlt
  have hticks : Ticks b call (.resolve r) s.next
      (PromiseStreamState.step b call (.resolve r) s.next).1 :=
    (step_spec hs.next.rest.sane _).ticks
  have hspec : StepSpec b call (.resolve r) s.next
      (PromiseStreamState.step b call (.resolve r) s.next) :=
    step_spec hs.next.rest.sane _
  have hends : ends (PromiseStreamState.step b call (.resolve r) s.next).1.log
      = ends s.next.log ++ [.resolved r] := by
    rcases (hspec.ended _ rfl).2 with hlog | ⟨world, hlog⟩
    · rw [hlog, ends_append]
    · rw [hlog, List.append_cons, ends_append, ends_append, List.append_nil]
  have hgives : Op.gives (fun _ : Answer E => True) (.resolve r : Op R D E K σ) := trivial
  obtain ⟨-, -, hwrites, -⟩ := hticks.adds hgives fun _ _ _ _ _ _ => trivial
  have hlast : s.source.world.take (s.made + 1)
      = s.source.world.take s.made ++ [.result (.resolved r)] := by
    rw [List.take_add_one, hmade]
    rfl
  have hwritten := hs.written
  rw [hreading, Bool.toNat_false, Nat.add_zero] at hwritten
  refine ⟨hs.source, hs.next.step hc hserves, ?_, fun h => ?_, ?_, ?_, ?_, ?_⟩
  · simpa [hreading] using Nat.succ_le_of_lt hlt
  · rw [hreading] at h
    cases h
  · simp only [hreading, Bool.toNat_false, Nat.add_zero]
    rw [hlast, List.flatMap_append, ← hwritten]
    simpa [end_op] using hwrites nofun
  · simp only
    rw [hlast, List.flatMap_append, ← hs.ended]
    exact hends
  · simp only
    rw [hlast, List.flatMap_append, hs.answered]
    simp
  · intro a ha
    obtain ⟨action, heq, hrefused⟩ := hs.told a ha
    exact ⟨action, heq, fun hne => (hrefused hne).mono hticks.log_mono⟩

/-- **Every step keeps the connection.** -/
theorem Step.forwarded (hc : Replies policy world₀ c) (hs : Forwarded policy world₀ c s)
    (h : Step b call policy c s s') : Forwarded policy world₀ c s' := by
  cases h with
  | source h =>
    obtain ⟨hsource, hworld, hanswers⟩ := h.forwards hs.source hs.noFailure
    exact hs.of_source hsource hworld hanswers
  | consumer h =>
    cases h with
    | stream h => exact hs.of_next hc ⟨h, rfl⟩ nofun rfl
    | answer h => exact hs.of_next hc (fun _ => rfl) nofun rfl
    | bind_result => exact hs.of_next hc trivial nofun rfl
  | write hmade hreading h =>
    rename_i d next
    have hwrite : Forwarded policy world₀ c { s with
        next := (PromiseStreamState.step b call (.write d) s.next).1, reading := true } :=
      hs.write hc hmade hreading
    rwa [h] at hwrite
  | write_throws hmade hreading h =>
    -- `next` has not been ended, so the write returns
    rename_i d next error
    obtain ⟨hlt, -⟩ := List.getElem?_eq_some_iff.mp hmade
    have hreturns : (PromiseStreamState.write b call d s.next).2 = none :=
      hs.next.write_returns hc (hs.open_of_call hlt) d
    have hthrows : (PromiseStreamState.write b call d s.next).2 = some error := congrArg Prod.snd h
    rw [hreturns] at hthrows
    cases hthrows
  | data_action hreading => exact hs.data_action hreading
  | result hmade => exact hs.result hc hmade

theorem run_forwarded [Inhabited R] (hc : Replies policy world₀ c)
    (hrun : ReflTransGen (Step b call policy c) (new world₀) s) :
    Forwarded policy world₀ c s :=
  History.keeps (fun _ _ hs h => h.forwarded hc hs) forwarded_new hrun

/-- The source is completed, and its result has been passed on. -/
theorem Forwarded.ended_next (hs : Forwarded policy world₀ c s) {r : R} (hdone : Done r s) :
    writes s.next.log = calls s.source.log ∧ .ended (.resolved r) ∈ s.next.log := by
  have hall : ∀ n, s.source.world.take (s.made + n) = s.source.world := fun n =>
    List.take_of_length_le (by rw [hdone.made]; omega)
  have hanswered := hs.answered
  rw [← Nat.add_zero s.made, hall, ← calls_eq hs.source.feeds] at hanswered
  have hout : s.source.outstanding = false := by
    rw [PromiseStreamState.outstanding, hanswered, decide_eq_false_iff_not]
    exact Nat.lt_irrefl _
  have hcompleted := hs.source.rest.completed hdone.forwarded ⟨_, hdone.resolved⟩ hout
  obtain ⟨o, world, hlog, -⟩ := hs.source.feeds.delivers.settles.settled hcompleted
  -- the callbacks are called with what the producer has resolved the source with
  have hended : .ended o ∈ s.source.log :=
    hs.source.feeds.honest.settled (o, world) (by simp [hlog])
  obtain rfl : o = .resolved r :=
    hs.source.feeds.delivers.results.ended_unique _ _ hended hdone.resolved
  have hcalled : s.source.proxy_promise.called = [.resolved r] := by
    refine hs.source.feeds.result.called_eq hdone.result_forwarded ?_
    rw [hs.source.feeds.settled, hlog]
    rfl
  refine ⟨?_, mem_ends.mp ?_⟩
  · rw [hs.written, hall, calls_eq hs.source.feeds]
  · have hends := hs.ended
    rw [← Nat.add_zero s.made, hall, ← called_eq hs.source.feeds, hcalled] at hends
    rw [hends]
    exact List.mem_singleton_self _

/-- **What the consumer of `next` is handed** are the data written to the source, up to
the one that it refuses. -/
theorem Forwarded.finished (hs : Forwarded policy world₀ c s) {r : R} (hdone : Done r s) :
    calls s.next.log = handed policy [] (writes s.source.log) ∧
    settlements s.next.log = [(.resolved r,
      (handed policy [] (writes s.source.log)).foldl (fun w d => (c w d).1) world₀)] := by
  obtain ⟨hwrites, hended⟩ := hs.ended_next hdone
  obtain ⟨hcalls, hsettled⟩ := hs.next.finished hdone.bound hended hdone.answered
  have hhanded : handed policy [] (writes s.next.log) = handed policy [] (writes s.source.log) := by
    have hpre : writes s.next.log <+: writes s.source.log :=
      hwrites ▸ hs.source.feeds.delivers.calls_initial
    by_cases hrefused : Refused s.next.log
    · rw [← hcalls, hs.next.handed_of_refused hrefused hpre]
    · -- the source has not been refused anything either, and has given out everything
      have hall : ∀ a ∈ answers s.source.log, a = .ok .Continue := by
        intro a ha
        obtain ⟨action, rfl, h⟩ := hs.told a ha
        by_contra hne
        exact hrefused (h fun heq => hne (by rw [heq]))
      have hcompleted := hs.source.feeds.delivers.settled_once hs.source.feeds.sane
      have hmem : settlements s.source.log ≠ [] := by
        intro hnil
        have hsettled := hs.source.feeds.settled
        rw [hnil] at hsettled
        have hresult : s.source.proxy_promise.called = [] := by
          refine List.eq_nil_iff_forall_not_mem.mpr fun o ho => ?_
          rw [(hs.source.feeds.result.outcome_of_called ho).2] at hsettled
          cases hsettled
        have hends := hs.ended
        rw [hdone.made, List.take_length, ← called_eq hs.source.feeds, hresult] at hends
        have hmem := mem_ends.mpr hended
        rw [hends] at hmem
        cases hmem
      obtain ⟨o, world, -, hfinal, -⟩ := hcompleted.resolve_left hmem
      rw [hwrites, (hfinal r hdone.resolved hall).1]
  rw [hhanded] at hcalls hsettled
  exact ⟨hcalls, hsettled⟩

/-- **Forwarding is invisible to the consumer.** Take any run in which the source is
forwarded, the steps of the producer, of `forward_to`, of the binding of the consumer
and of its settlements being in any order, and any run in which the consumer is bound
to the source itself. When everything has happened, and the producer has written the
same data in both, the consumer has been handed the same data in the same order, and
the result promise has been resolved with the same value; so has the pair of it and
the state of the consumer, if the stream is a stateful one. -/
theorem forward_invisible [Inhabited R] {r : R} {t : PromiseStreamState R D E K σ}
    (hc : Replies policy world₀ c)
    (hforward : ReflTransGen (Step b call policy c) (new world₀) s) (hdone : Done r s)
    (hdirect : ReflTransGen (Serving b call policy c) (PromiseStreamState.new world₀) t)
    (hbound : t.on_data.isSome) (hresolved : .ended (.resolved r) ∈ t.log)
    (hanswered : t.outstanding = false) (hwrites : writes t.log = writes s.source.log) :
    calls s.next.log = calls t.log ∧ settlements s.next.log = settlements t.log ∧
      ∃ state, settlements s.next.log = [(.resolved r, state)] := by
  obtain ⟨hcalls, hsettled⟩ := (run_forwarded hc hforward).finished hdone
  obtain ⟨hcalls', hsettled'⟩ := (run_served hc hdirect).finished hbound hresolved hanswered
  rw [hwrites] at hcalls' hsettled'
  exact ⟨hcalls.trans hcalls'.symm, hsettled.trans hsettled'.symm, _, hsettled⟩

section Example

/-- A consumer that answers later, and adds up the data. -/
def adds : Consumer ℕ Unit ℕ := fun sum d => (sum + d, .pending)

/-- It stops the stream at the first datum. -/
def stops : List ℕ → StreamAction := fun _ => .Stop

/-- The callbacks of the result promise do nothing. -/
abbrev ignores : Unit → Outcome ℕ Unit → ℕ → Ended ℕ (ExceptionPtr Unit) := fun _ _ w =>
  returns w

/-- The second datum is in the buffer of `next` when the consumer stops the stream. -/
theorem forward_invisible_stop :
    ∃ (s : Forward ℕ ℕ Unit Unit ℕ) (t : PromiseStreamState ℕ ℕ Unit Unit ℕ),
      ReflTransGen (Step Build.debug ignores stops adds) (new 0) s ∧
      writes s.source.log = [1, 2] ∧ calls s.next.log = calls t.log ∧ calls t.log = [1] ∧
      settlements s.next.log = [(.resolved 7, 1)] := by
  have hreplies : Replies stops 0 adds := fun _ _ _ h => by cases h
  -- the source is forwarded
  have h1 : ReflTransGen (Step Build.debug ignores stops adds) (new 0) _ :=
    .single (.source (.write (d := 1) (not_ended rfl)))
  have h2 := h1.tail (.source (.forward rfl))
  have h3 := h2.tail (.write (d := 1) (by decide +kernel) rfl (Prod.ext rfl (by decide +kernel)))
  have h4 := h3.tail (.consumer (.stream (Option.isNone_iff_eq_none.mp (by decide +kernel))))
  have h5 := h4.tail (.data_action rfl)
  have h6 := h5.tail (.source (.write (d := 2) (not_ended (by decide +kernel))))
  have h7 := h6.tail (.write (d := 2) (by decide +kernel) rfl (Prod.ext rfl (by decide +kernel)))
  have h8 := h7.tail (.consumer (.answer (by decide +kernel)))
  have h9 := h8.tail (.data_action rfl)
  have h10 := h9.tail (.source (.resolve (r := 7) (not_ended (by decide +kernel))))
  have h11 := h10.tail (.source (.forward_result (by decide +kernel) (by decide +kernel)))
  have h12 := h11.tail (.result (o := .resolved 7) (by decide +kernel))
  -- the consumer is bound to the source
  have t1 : ReflTransGen (Serving Build.debug ignores stops adds) (PromiseStreamState.new 0) _ :=
    .single ⟨.stream adds, ⟨rfl, rfl⟩, rfl⟩
  have t2 := t1.tail ⟨.write 1, not_ended (by decide +kernel), rfl⟩
  have t3 := t2.tail ⟨.write 2, not_ended (by decide +kernel), rfl⟩
  have t4 := t3.tail ⟨.answer (.ok .Stop), fun _ => rfl, rfl⟩
  have t5 := t4.tail ⟨.resolve 7, not_ended (by decide +kernel), rfl⟩
  obtain ⟨hcalls, hsettled, -⟩ := forward_invisible (r := 7) hreplies h12
    ⟨by decide +kernel, by decide +kernel, by decide +kernel, by decide +kernel,
      by decide +kernel, by decide +kernel⟩
    t5 (by decide +kernel) (by decide +kernel) (by decide +kernel) (by decide +kernel)
  exact ⟨_, _, h12, by decide +kernel, hcalls, by decide +kernel,
    hsettled.trans (by decide +kernel)⟩

end Example

end Forward
end PromiseStreamState
end Kaiu
