/-
What one operation adds to the log of a stream.

A stream that is fed by another one, or feeds another one, is seen from outside:
what has been written to it, how it was ended, what its consumer has been called
with and what it has answered. An operation adds to each of these what its name
says and nothing else, provided that the answers of the consumer come later
(`Gives`): then a call of it is answered by the operation `answer` only.
-/
import Kaiu.StreamSteps

set_option autoImplicit false

namespace Kaiu
namespace PromiseStreamState

open Exit Relation

variable {R D E K σ : Type*} {b : Build} {call : K → Outcome R E → σ → Ended σ (ExceptionPtr E)}
  {op : Op R D E K σ} {s s' : PromiseStreamState R D E K σ}

/-- How the producer has ended the stream. -/
def ends : List (StreamEvent R D E σ) → List (Outcome R E) :=
  List.filterMap fun | .ended o => some o | _ => none

@[simp] theorem ends_append (log : List (StreamEvent R D E σ)) (event : StreamEvent R D E σ) :
    ends (log ++ [event]) = ends log ++ match event with | .ended o => [o] | _ => [] := by
  rw [ends, List.filterMap_append]
  cases event <;> rfl

theorem mem_ends {log : List (StreamEvent R D E σ)} {o : Outcome R E} :
    o ∈ ends log ↔ .ended o ∈ log := by
  unfold ends
  rw [List.mem_filterMap]
  constructor
  · rintro ⟨event, hmem, heq⟩
    cases event <;> simp_all
  · exact fun h => ⟨_, h, rfl⟩

theorem not_ended {log : List (StreamEvent R D E σ)} (h : ends log = []) (o : Outcome R E) :
    .ended o ∉ log := by
  intro ho
  have hmem := mem_ends.mpr ho
  rw [h] at hmem
  cases hmem

/-- The answers that the consumer gives at once satisfy `A`. -/
def Gives (A : Answer E → Prop) (c : Consumer D E σ) : Prop :=
  ∀ world d a, (data c world d).2 = some a → A a

/-- The answers that the operation brings, or makes its consumer give at once,
satisfy `A`. -/
def Op.gives (A : Answer E → Prop) : Op R D E K σ → Prop
  | .answer a => A a
  | .stream c => Gives A c
  | _ => True

/-- The answers that a bound consumer gives at once satisfy `A`. -/
def Given (A : Answer E → Prop) (s : PromiseStreamState R D E K σ) : Prop :=
  ∀ c, s.on_data = some c → Gives A c

variable {A : Answer E → Prop}

theorem Answered.given {a : Answer E} (hop : op.gives A) (hs : Given A s) (h : Answered op s a) :
    A a := by
  rcases h with rfl | ⟨c, world, d, hc, heq⟩
  · exact hop
  · exact hs c hc world d a heq

/-- What a step adds to the log, and what it does to the bound consumer. -/
structure Adds (A : Answer E → Prop) (op : Op R D E K σ) (s s' : PromiseStreamState R D E K σ) :
    Prop where
  given : Given A s'
  answers : ∃ new, answers s'.log = answers s.log ++ new ∧ ∀ a ∈ new, A a
  writes : (∀ d, op ≠ .write d) → writes s'.log = writes s.log
  ends : op.ends = none → ends s'.log = ends s.log

theorem Tick.adds (hop : op.gives A) (hs : Given A s) (ht : Tick b call op s s') :
    Adds A op s s' := by
  cases ht with
  | bound hc =>
    subst hc
    refine ⟨fun c hc => ?_, ⟨[], by simp, nofun⟩, fun _ => rfl, fun _ => rfl⟩
    cases hc
    exact hop
  | answer_action hout hans | answer_failed hout hans hr | answer_late hout hans hr =>
    refine ⟨hs, ⟨_, answers_append .., ?_⟩, by simp, by simp⟩
    simpa using hans.given hop hs
  | _ =>
    refine ⟨hs, ⟨[], ?_, nofun⟩, ?_, ?_⟩
    all_goals simp_all [logged, completed]

theorem Ticks.adds (hop : op.gives A) (hs : Given A s) (ht : Ticks b call op s s') :
    Adds A op s s' := by
  refine History.keeps (I := Adds A op s) (fun t u ⟨hgiven, ⟨new, hnew, hall⟩, hw, he⟩ htick => ?_)
    ⟨hs, ⟨[], by simp, nofun⟩, fun _ => rfl, fun _ => rfl⟩ ht
  obtain ⟨hgiven', ⟨new', hnew', hall'⟩, hw', he'⟩ := htick.adds hop hgiven
  refine ⟨hgiven', ⟨new ++ new', ?_, ?_⟩, fun h => (hw' h).trans (hw h),
    fun h => (he' h).trans (he h)⟩
  · rw [hnew', hnew, List.append_assoc]
  · intro a ha
    exact (List.mem_append.mp ha).elim (hall a) (hall' a)

/-! ## Operations -/

/-- `process_data` writes nothing and ends nothing, and its consumer answers what it
gives at once. -/
theorem process_adds (b : Build) (call : K → Outcome R E → σ → Ended σ (ExceptionPtr E))
    (hs : Sane s) (hgiven : Given A s) :
    Given A (process b call s).1 ∧
    (∃ new, answers (process b call s).1.log = answers s.log ++ new ∧ ∀ a ∈ new, A a) ∧
    writes (process b call s).1.log = writes s.log ∧ ends (process b call s).1.log = ends s.log := by
  -- `process_data` is the same in every operation
  let later : Consumer D E σ := fun world _ => (world, .pending)
  have hlater : Op.gives A (.stream later : Op R D E K σ) := fun _ _ _ h => by cases h
  have hticks : Ticks b call (.stream later) s (process b call s).1 := (process_spec hs).ticks
  obtain ⟨hgiven', hanswers, hwrites, hends⟩ := hticks.adds hlater hgiven
  exact ⟨hgiven', hanswers, hwrites nofun, hends rfl⟩

/-- A write adds the datum. -/
theorem write_adds (b : Build) (call : K → Outcome R E → σ → Ended σ (ExceptionPtr E))
    (hs : Sane s) (hgiven : Given A s) (d : D) :
    writes (write b call d s).1.log = writes s.log ++ [d] ∧
    ends (write b call d s).1.log = ends s.log := by
  obtain ⟨t, htick, hlog, -, hdata, heq | ⟨⟨x, heq⟩, -, -⟩⟩ := write_cases b call hs d
  · have hgiven' : Given A t := fun c hc => hgiven c (hdata ▸ hc)
    obtain ⟨-, -, hwrites, hends⟩ := process_adds b call (htick.sane hs) hgiven'
    rw [heq, hwrites, hends, hlog]
    simp
  · rw [heq, throws_fst, hlog]
    simp

/-- An answer is added as it is, if the consumer answers the next call later. -/
theorem answer_adds (b : Build) (call : K → Outcome R E → σ → Ended σ (ExceptionPtr E))
    (hs : Sane s) (hgiven : Given (fun _ => False) s) (hout : s.outstanding = true)
    (a : StreamAction) :
    answers (answer b call (.ok a) s).1.log = answers s.log ++ [.ok a] := by
  have htick : Tick b call (.answer (.ok a)) s { s with
      action := a, consumer_is_running := false, log := s.log ++ [.answer (.ok a)] } :=
    .answer_action hout (Or.inl rfl)
  unfold answer
  rw [if_pos hout, continuation_ok b call _ hs hout a]
  obtain ⟨-, ⟨new, hnew, hnone⟩, -, -⟩ := process_adds b call (htick.sane hs) hgiven
  have hnil : new = [] := List.eq_nil_iff_forall_not_mem.mpr hnone
  rw [hnil, List.append_nil] at hnew
  refine Eq.trans hnew ?_
  simp

/-! ## Streams without a result -/

/-- The answer is an action. -/
def IsAction (a : Answer E) : Prop :=
  ∃ action, a = .ok action

theorem Tick.result_pending (hop : op.gives IsAction) (hends : op.ends = none)
    (hs : Given IsAction s) (hr : s.result = .pending) (ht : Tick b call op s s') :
    s'.result = .pending := by
  cases ht with
  | answer_failed hout hans hr' =>
    obtain ⟨action, h⟩ := hans.given hop hs
    cases h
  | _ => simp_all [logged, completed]

theorem Ticks.result_pending (hop : op.gives IsAction) (hends : op.ends = none)
    (hs : Given IsAction s) (hr : s.result = .pending) (ht : Ticks b call op s s') :
    s'.result = .pending := by
  refine (History.keeps (I := fun t => Given IsAction t ∧ t.result = .pending)
    (fun t u ⟨hgiven, hr⟩ htick => ⟨(htick.adds hop hgiven).given,
      htick.result_pending hop hends hgiven hr⟩) ⟨hs, hr⟩ ht).2

theorem Failed.not_actions {new : List (Answer E)} (hf : Failed s s')
    (hnew : answers s'.log = answers s.log ++ new) : ¬ ∀ a ∈ new, IsAction a := by
  intro hall
  obtain ⟨events, e, hlog, hmem⟩ := hf
  rw [hlog, answers, List.filterMap_append] at hnew
  have hans : answers events = new := List.append_cancel_left hnew
  obtain ⟨action, h⟩ := hall (.error e) (hans ▸ List.mem_filterMap.mpr ⟨_, hmem, rfl⟩)
  cases h

/-- **A write returns** as long as the stream has no result and its consumer does not
fail. -/
theorem write_returns (hs : Sane s) (hgiven : Given IsAction s) (hr : s.result = .pending)
    (d : D) : (write b call d s).2 = none := by
  obtain ⟨t, htick, -, hresult, hdata, heq | ⟨-, hne, -⟩⟩ := write_cases b call hs d
  · have hsane := htick.sane hs
    have hgiven' : Given IsAction t := fun c hc => hgiven c (hdata ▸ hc)
    rw [heq]
    by_contra hthrown
    have hspec : ProcessSpec b call (.write d) t (process b call t) := process_spec hsane
    rcases (hspec.thrown hthrown).2 with hcompleted | hfailed
    · have hop : Op.gives IsAction (.write d : Op R D E K σ) := trivial
      have hpending := Ticks.result_pending hop rfl hgiven' (hresult.trans hr) hspec.ticks
      exact ((hspec.ticks.sane hsane).completed_state hcompleted).2.1 hpending
    · obtain ⟨-, ⟨new, hnew, hall⟩, -, -⟩ := process_adds b call hsane hgiven'
      exact hfailed.not_actions hnew hall
  · exact absurd hr hne

/-! ## The result, if nothing fails -/

/-- The result is what the producer has ended the stream with. -/
structure Honest (s : PromiseStreamState R D E K σ) : Prop where
  completer : ∀ o, s.completer = some o → .ended o ∈ s.log
  settled : ∀ p ∈ settlements s.log, .ended p.1 ∈ s.log

theorem Tick.honest (hop : op.gives IsAction) (hs : Given IsAction s) (hh : Honest s)
    (ht : Tick b call op s s') : Honest s' := by
  obtain ⟨hcompleter, hsettled⟩ := hh
  have hmono : s.log ⊆ s'.log := (Ticks.log_mono (.single ht)).subset
  cases ht with
  | answer_failed hout hans hr =>
    obtain ⟨action, h⟩ := hans.given hop hs
    cases h
  | recorded hop' hr hst hb hlog =>
    refine ⟨fun o ho => ?_, hsettled⟩
    cases ho
    exact hlog
  | recorded_completes hop' hr hst hlog =>
    refine ⟨fun o ho => (by cases ho), fun p hp => hmono ?_⟩
    simp only [completed, settlements_append, List.mem_append, List.mem_singleton] at hp
    rcases hp with hp | rfl
    · exact hsettled p hp
    · exact hlog
  | drained_completes hrun hst hb ho =>
    refine ⟨fun o ho => (by cases ho), fun p hp => hmono ?_⟩
    simp only [completed, settlements_append, List.mem_append, List.mem_singleton] at hp
    rcases hp with hp | rfl
    · exact hsettled p hp
    · exact hcompleter _ ho
  | _ =>
    refine ⟨fun o ho => hmono (hcompleter o ho), fun p hp => hmono (hsettled p ?_)⟩
    simpa [logged] using hp

end PromiseStreamState
end Kaiu
