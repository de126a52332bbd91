/-
A promise that is settled once and bound once, to callbacks that put what they are
called with in a list and return.

`task` and `task_stream` bind such callbacks to the promises that they wait for:
what is in the list is pushed to another pool. The callbacks are called as soon as
the promise is both settled and bound, in whichever order that happens, and with
what it was settled with.
-/
import Kaiu.PromiseState

set_option autoImplicit false

namespace Kaiu

open Exit PromiseState

variable {V E α : Type*}

/-- The pair of callbacks: `place` says what they send. -/
def sends (place : Outcome V E → α) (_ : Unit) (o : Outcome V E) (sent : List α) :
    Ended (List α) (ExceptionPtr E) :=
  returns (sent ++ [place o])

/-- The callbacks have been called if the promise has been settled and bound. -/
structure Sends (p : PromiseState V E Unit) : Prop where
  pending : p.state = .pending → p.called = [] ∧ (p.callbacks_assigned → p.callbacks = some ())
  settled : ∀ o : Outcome V E, p.state = settled_state o →
    p.called = [] ∧ p.callbacks_assigned = false
  completed : p.state = .completed → p.callbacks_assigned = true ∧ ∃ o, p.called = [o]

namespace Sends

variable {p : PromiseState V E Unit}

theorem new [Inhabited V] : Sends (PromiseState.new : PromiseState V E Unit) := by
  refine ⟨fun _ => ⟨rfl, fun h => ?_⟩, fun o h => ?_, fun h => ?_⟩
  · cases h
  · cases o <;> cases h
  · cases h

/-- The callbacks have been called with `o`. -/
theorem complete (o : Outcome V E) (hc : p.called = []) (ha : p.callbacks_assigned = true) :
    Sends (PromiseState.complete o p) := by
  refine ⟨fun h => ?_, fun o' h => ?_, fun _ => ⟨ha, o, by simp [PromiseState.complete, hc]⟩⟩
  · cases h
  · cases o' <;> cases h

theorem called_nil (hp : Sends p) (hs : p.state ≠ .completed) : p.called = [] := by
  cases h : p.state with
  | pending => exact (hp.pending h).1
  | resolved => exact (hp.settled (.resolved p.result) h).1
  | rejected => exact (hp.settled (.rejected p.error) h).1
  | completed => exact absurd h hs

theorem unbound (hp : Sends p) (ha : p.callbacks_assigned = false) : p.called = [] := by
  refine hp.called_nil fun hs => ?_
  rw [(hp.completed hs).1] at ha
  cases ha

theorem called_le (hp : Sends p) : p.called.length ≤ 1 := by
  by_cases hs : p.state = .completed
  · obtain ⟨-, o, hcalled⟩ := hp.completed hs
    simp [hcalled]
  · simp [hp.called_nil hs]

/-- What the callbacks have been called with is what the promise was settled with. -/
theorem outcome_of_called (hp : Sends p) {o : Outcome V E} (ho : o ∈ p.called) :
    p.called = [o] ∧ outcome p = some o := by
  by_cases hs : p.state = .completed
  · obtain ⟨-, o', hcalled⟩ := hp.completed hs
    rw [hcalled, List.mem_singleton] at ho
    subst ho
    simp [hcalled, outcome, hs]
  · rw [hp.called_nil hs] at ho
    cases ho

/-- What the promise was settled with is what the callbacks have been called with. -/
theorem called_eq (hp : Sends p) (ha : p.callbacks_assigned = true) {o : Outcome V E}
    (ho : outcome p = some o) : p.called = [o] := by
  cases hs : p.state with
  | pending => simp [outcome, hs] at ho
  | resolved => simp [(hp.settled (.resolved p.result) hs).2] at ha
  | rejected => simp [(hp.settled (.rejected p.error) hs).2] at ha
  | completed =>
    obtain ⟨-, o', hcalled⟩ := hp.completed hs
    simpa [outcome, hs, hcalled] using ho

/-- What a settlement or a binding changes. -/
structure Change (place : Outcome V E → α) (p : PromiseState V E Unit) (sent : List α)
    (r : Ended (PromiseState V E Unit × List α) (ExceptionPtr E)) (new : List (Outcome V E)) :
    Prop where
  sends : Sends r.1.1
  called : r.1.1.called = p.called ++ new
  sent : r.1.2 = sent ++ new.map place

variable (place : Outcome V E → α) (b : Build) (sent : List α)

/-- The promise is settled. -/
theorem settle (hp : Sends p) (o : Outcome V E) (h : p.state = .pending) :
    (∃ new, Change place p sent (PromiseState.settle b (Kaiu.sends place) o p sent) new) ∧
    (PromiseState.settle b (Kaiu.sends place) o p sent).1.1.callbacks_assigned
      = p.callbacks_assigned ∧
    outcome (PromiseState.settle b (Kaiu.sends place) o p sent).1.1 = some o := by
  obtain ⟨hcalled, hk⟩ := hp.pending h
  rw [settle_pending b _ o sent h]
  by_cases ha : p.callbacks_assigned
  · rw [if_pos ha, run_callback_eq b _ sent (k := ()) (by simpa using hk ha) rfl]
    refine ⟨⟨[o], complete o (by simpa using hcalled) (by simpa using ha), ?_, rfl⟩, ?_, ?_⟩
    · simp [Kaiu.sends, returns, PromiseState.complete]
    · simp [Kaiu.sends, returns, PromiseState.complete]
    · simp [Kaiu.sends, returns, PromiseState.complete, outcome, hcalled]
  · rw [if_neg ha]
    refine ⟨⟨[], ⟨fun h => ?_, fun o' _ => ⟨by simpa using hcalled, by simpa using ha⟩,
      fun h => ?_⟩, by simp, by simp⟩, by simp, by simp⟩
    · exact absurd h (settled_state_ne o)
    · cases o <;> cases h

/-- The callbacks are bound. -/
theorem bind (hp : Sends p) (ha : p.callbacks_assigned = false) :
    (∃ new, Change place p sent (set_callbacks b (Kaiu.sends place) () p sent) new) ∧
    (set_callbacks b (Kaiu.sends place) () p sent).1.1.callbacks_assigned = true ∧
    outcome (set_callbacks b (Kaiu.sends place) () p sent).1.1 = outcome p := by
  -- a settled promise calls them at once
  have hsettled : ∀ o, p.state = settled_state o → outcome p = some o →
      (∃ new, Change place p sent (set_callbacks b (Kaiu.sends place) () p sent) new) ∧
      (set_callbacks b (Kaiu.sends place) () p sent).1.1.callbacks_assigned = true ∧
      outcome (set_callbacks b (Kaiu.sends place) () p sent).1.1 = outcome p := by
    intro o hs ho
    have hcalled := (hp.settled o hs).1
    rw [set_callbacks_settled b _ () sent ha hs ho,
      run_callback_eq b _ sent (p := bound () p) rfl hs]
    refine ⟨⟨[o], complete o hcalled rfl, rfl, rfl⟩, rfl, ?_⟩
    rw [ho]
    simp [Kaiu.sends, returns, PromiseState.complete, outcome, bound, hcalled]
  cases hs : p.state with
  | pending =>
    obtain ⟨hcalled, -⟩ := hp.pending hs
    rw [set_callbacks_pending b _ () sent ha hs]
    refine ⟨⟨[], ⟨fun _ => ⟨hcalled, fun _ => rfl⟩, fun o h => ?_, fun h => ?_⟩,
      by simp [bound], by simp⟩, rfl, rfl⟩
    · have h : p.state = settled_state o := h
      rw [hs] at h
      exact absurd h.symm (settled_state_ne o)
    · have h : p.state = .completed := h
      simp [hs] at h
  | resolved => exact hsettled (.resolved p.result) hs (by simp [outcome, hs])
  | rejected => exact hsettled (.rejected p.error) hs (by simp [outcome, hs])
  | completed =>
    rw [(hp.completed hs).1] at ha
    cases ha

end Sends
end Kaiu
