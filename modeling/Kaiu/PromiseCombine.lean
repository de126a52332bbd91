/-
`promise::combine`: the combined promise under every interleaving.

`HeterogenousCombineState` and `HomogenousCombineState` are one machine, over a
family `β` of types, which is constant for the vector. The critical sections of
`next`, `handler` and `finalizer` are single steps, and so are the calls of
`nextPromise->reject` and `nextPromise->resolve`, which are made after the lock
has been released. Where an input stands between these steps is its `pc`. The inputs are
distinct promises to which nothing is bound: a promise takes one pair of callbacks.

The invariant `Sound` says who is about to decide: the input whose handler was the
first, or the one whose finalizer found no other left (`remaining == 0`). The
number `remaining` is the census of the inputs that have not been finalized.
-/
import Kaiu.Exceptions
import Kaiu.Library.Census
import Kaiu.Library.History

set_option autoImplicit false

namespace Kaiu
namespace Combine

open Census Relation

variable {n : ℕ} {β : Fin n → Type*} {E : Type*}

/-- The members of `HeterogenousCombineState` and `HomogenousCombineState`.
`nextPromise` is what the combined promise has been settled with, call by call. -/
structure CombineState (β : Fin n → Type*) (E : Type*) where
  nextPromise : List (Outcome (∀ i, β i) E) := []
  results : ∀ i, β i
  remaining : ℕ := n
  failed : Bool := false

/-- A tuple of results. -/
abbrev HeterogenousCombineState (β : Fin n → Type*) (E : Type*) := CombineState β E

/-- A vector of results. -/
abbrev HomogenousCombineState (n : ℕ) (Result E : Type*) :=
  CombineState (fun _ : Fin n => Result) E

namespace CombineState

/-- `next`. -/
def next (index : Fin n) (result : β index) (s : CombineState β E) : CombineState β E :=
  if s.failed then s else { s with results := Function.update s.results index result }

/-- `handler`, up to the end of its critical section, and whether it goes on to
reject the combined promise. -/
def handler (s : CombineState β E) : CombineState β E × Bool :=
  if s.failed then (s, false) else ({ s with failed := true }, true)

/-- `finalizer` (`finally`), up to the end of its critical section, and `resolved`. -/
def finalizer (s : CombineState β E) : CombineState β E × Bool :=
  let s := { s with remaining := s.remaining - 1 }
  (s, s.remaining == 0 && !s.failed)

/-- `nextPromise->reject(error)`. -/
def reject (error : ExceptionPtr E) (s : CombineState β E) : CombineState β E :=
  { s with nextPromise := s.nextPromise ++ [.rejected error] }

/-- `nextPromise->resolve(std::move(results))`. -/
def resolve (s : CombineState β E) : CombineState β E :=
  { s with nextPromise := s.nextPromise ++ [.resolved s.results] }

@[simp] theorem next_failed (i : Fin n) (v : β i) (s : CombineState β E) :
    (s.next i v).failed = s.failed := by
  unfold next
  split <;> rfl

@[simp] theorem next_remaining (i : Fin n) (v : β i) (s : CombineState β E) :
    (s.next i v).remaining = s.remaining := by
  unfold next
  split <;> rfl

@[simp] theorem next_nextPromise (i : Fin n) (v : β i) (s : CombineState β E) :
    (s.next i v).nextPromise = s.nextPromise := by
  unfold next
  split <;> rfl

@[simp] theorem handler_remaining (s : CombineState β E) : s.handler.1.remaining = s.remaining := by
  unfold handler
  split <;> rfl

end CombineState

/-- Where the callbacks of an input stand. -/
inductive Pc (E : Type*) where
  | waiting
  | rejecting (error : ExceptionPtr E)
  | finalizing
  | resolving
  | done
  deriving DecidableEq, Repr

/-- `finalizer` has not been entered. -/
def Pc.unfinalized : Pc E → Bool
  | .waiting | .rejecting _ | .finalizing => true
  | .resolving | .done => false

/-- The combined promise, its inputs, and the loop that binds them. -/
structure System (β : Fin n → Type*) (E : Type*) where
  state : CombineState β E
  /-- What the inputs have been settled with. -/
  outcome : ∀ i, Option (Outcome (β i) E)
  bound : Fin n → Bool := fun _ => false
  /-- The callbacks of the input run in the loop, which has found it settled. -/
  in_loop : Fin n → Bool := fun _ => false
  pc : Fin n → Pc E := fun _ => .waiting
  /-- The inputs that the loop has come past. -/
  index : ℕ := 0
  /-- Not in the source: the inputs in the order in which they entered `handler`. -/
  handlers : List (Fin n) := []

/-- `combine` at the start of its loop. -/
def combine [∀ i, Inhabited (β i)] (outcome : ∀ i, Option (Outcome (β i) E)) : System β E :=
  { state := { results := fun _ => default }, outcome := outcome }

/-- The steps of the inputs' threads and of the loop. -/
inductive Step : System β E → System β E → Prop where
  | settle {s : System β E} (i : Fin n) (o : Outcome (β i) E) (ho : s.outcome i = none) :
      Step s { s with outcome := Function.update s.outcome i (some o) }
  | bind {s : System β E} (i : Fin n) (hi : s.index = i)
      (hfree : ∀ j, s.in_loop j = true → s.pc j = .done) :
      Step s { s with
        index := s.index + 1
        bound := Function.update s.bound i true
        in_loop := Function.update s.in_loop i (s.outcome i).isSome }
  | next {s : System β E} (i : Fin n) (v : β i) (hb : s.bound i = true)
      (hpc : s.pc i = .waiting) (ho : s.outcome i = some (.resolved v)) :
      Step s { s with
        state := s.state.next i v
        pc := Function.update s.pc i .finalizing }
  | handler {s : System β E} (i : Fin n) (e : ExceptionPtr E) (hb : s.bound i = true)
      (hpc : s.pc i = .waiting) (ho : s.outcome i = some (.rejected e)) :
      Step s { s with
        state := s.state.handler.1
        pc := Function.update s.pc i (if s.state.handler.2 then .rejecting e else .finalizing)
        handlers := s.handlers ++ [i] }
  | reject {s : System β E} (i : Fin n) (e : ExceptionPtr E) (hpc : s.pc i = .rejecting e) :
      Step s { s with
        state := s.state.reject e
        pc := Function.update s.pc i .finalizing }
  | finalizer {s : System β E} (i : Fin n) (hpc : s.pc i = .finalizing) :
      Step s { s with
        state := s.state.finalizer.1
        pc := Function.update s.pc i (if s.state.finalizer.2 then .resolving else .done) }
  | resolve {s : System β E} (i : Fin n) (hpc : s.pc i = .resolving) :
      Step s { s with
        state := s.state.resolve
        pc := Function.update s.pc i .done }

/-! ## The decision -/

/-- What the inputs have decided: nobody yet, the input whose finalizer was the
last, or the input whose handler was the first. -/
inductive Decision (n : ℕ) (E : Type*) where
  | undecided
  | resolving (i : Fin n)
  | resolved
  | rejecting (i : Fin n) (error : ExceptionPtr E)
  | rejected (i : Fin n) (error : ExceptionPtr E)

namespace Decision

/-- All inputs have resolved. -/
def complete : Decision n E → Bool
  | .resolving _ | .resolved => true
  | _ => false

/-- The input that has failed, and its error. -/
def rejection : Decision n E → Option (Fin n × ExceptionPtr E)
  | .rejecting i e | .rejected i e => some (i, e)
  | _ => none

/-- What the combined promise has been settled with. -/
def settlement (results : ∀ i, β i) : Decision n E → List (Outcome (∀ i, β i) E)
  | .resolved => [.resolved results]
  | .rejected _ e => [.rejected e]
  | _ => []

end Decision

/-- The decision is the one that the state carries out. -/
structure Agrees (d : Decision n E) (s : System β E) : Prop where
  resolving : ∀ i, s.pc i = .resolving ↔ d = .resolving i
  rejecting : ∀ i e, s.pc i = .rejecting e ↔ d = .rejecting i e
  failed : s.state.failed = d.rejection.isSome
  settled : s.state.nextPromise = d.settlement s.state.results
  remaining : d.complete = true → s.state.remaining = 0
  left : d = .undecided → 0 < n → 0 < s.state.remaining
  first : s.handlers.head? = d.rejection.map Prod.fst
  error : ∀ i e, d.rejection = some (i, e) → s.outcome i = some (.rejected e)

/-- The invariant. -/
structure Sound (s : System β E) : Prop where
  remaining : s.state.remaining = census Pc.unfinalized s.pc
  slots : s.state.failed = false → ∀ i, s.pc i ≠ .waiting →
    s.outcome i = some (.resolved (s.state.results i))
  decision : ∃ d, Agrees d s

variable {s s' : System β E} {d : Decision n E}

/-- An input that has not been finalized leaves the combined promise open. -/
theorem Sound.open_of_unfinalized (hs : Sound s) {i : Fin n} (hpc : (s.pc i).unfinalized = true)
    (hd : Agrees d s) : d.complete = false ∧ 0 < s.state.remaining := by
  have hpos : 0 < s.state.remaining := by
    rw [hs.remaining]
    exact census_pos hpc
  refine ⟨?_, hpos⟩
  by_contra hne
  have := hd.remaining (by simpa using hne)
  omega

theorem Step.remaining (hs : Sound s) (hstep : Step s s') :
    s'.state.remaining = census Pc.unfinalized s'.pc := by
  have hrem := hs.remaining
  cases hstep with
  | settle i o ho => exact hrem
  | bind i hi hfree => exact hrem
  | next i v hb hpc ho =>
    rw [census_update_same (by rw [hpc]; rfl), ← hrem]
    exact s.state.next_remaining i v
  | handler i e hb hpc ho =>
    have hsame : (if s.state.handler.2 then Pc.rejecting e else .finalizing).unfinalized
        = (s.pc i).unfinalized := by
      rw [hpc]
      split <;> rfl
    rw [census_update_same hsame, ← hrem]
    exact s.state.handler_remaining
  | reject i e hpc =>
    rw [census_update_same (by rw [hpc]; rfl), ← hrem]
    rfl
  | finalizer i hpc =>
    have hleaves :
        (if s.state.finalizer.2 then Pc.resolving else (.done : Pc E)).unfinalized = false := by
      split <;> rfl
    have hcount := census_update Pc.unfinalized s.pc i
      (if s.state.finalizer.2 then Pc.resolving else .done)
    rw [hleaves, hpc, ← hrem] at hcount
    simp only [Pc.unfinalized, Bool.toNat_true, Bool.toNat_false] at hcount
    simp only [CombineState.finalizer]
    simp only [CombineState.finalizer] at hcount
    omega
  | resolve i hpc =>
    rw [census_update_same (by rw [hpc]; rfl), ← hrem]
    rfl

/-- An input that has entered its callbacks does not leave them to wait again. -/
theorem ne_waiting_of_update {pc : Fin n → Pc E} {i j : Fin n} {next : Pc E}
    (hi : pc i ≠ .waiting) (hj : Function.update pc i next j ≠ .waiting) : pc j ≠ .waiting := by
  by_cases hji : j = i
  · rwa [hji]
  · rwa [Function.update_of_ne hji] at hj

theorem Step.slots (hs : Sound s) (hstep : Step s s') :
    s'.state.failed = false → ∀ i, s'.pc i ≠ .waiting →
      s'.outcome i = some (.resolved (s'.state.results i)) := by
  have hslots := hs.slots
  cases hstep with
  | settle i o ho =>
    intro hf j hj
    have hsome := hslots hf j hj
    by_cases hji : j = i
    · subst hji
      rw [ho] at hsome
      cases hsome
    · simpa [Function.update_of_ne hji] using hsome
  | bind i hi hfree => exact hslots
  | next i v hb hpc ho =>
    intro hf j hj
    have hfailed : s.state.failed = false := by simpa using hf
    by_cases hji : j = i
    · subst hji
      simpa [CombineState.next, hfailed] using ho
    · have := hslots hfailed j (by simpa [Function.update_of_ne hji] using hj)
      simpa [CombineState.next, hfailed, Function.update_of_ne hji] using this
  | handler i e hb hpc ho =>
    intro hf
    unfold CombineState.handler at hf
    split at hf <;> simp_all
  | reject i e hpc | finalizer i hpc | resolve i hpc =>
    intro hf j hj
    exact hslots hf j (ne_waiting_of_update (by simp [hpc]) hj)

/-- A phase that the input neither leaves nor enters. -/
theorem update_eq_iff {pc : Fin n → Pc E} {i j : Fin n} {next phase : Pc E} (hi : pc i ≠ phase)
    (hnext : next ≠ phase) : Function.update pc i next j = phase ↔ pc j = phase := by
  by_cases hji : j = i
  · subst hji
    simp [hi, hnext]
  · rw [Function.update_of_ne hji]

/-- The results matter only once all inputs have resolved. -/
theorem Decision.settlement_eq (h : d.complete = false) (results results' : ∀ i, β i) :
    d.settlement results = d.settlement results' := by
  cases d <;> first | rfl | cases h

/-- A step of an input that changes no decision. -/
theorem Agrees.keep (hd : Agrees d s) {i : Fin n} {phase : Pc E} (state : CombineState β E)
    (hleaves : s.pc i ≠ .resolving ∧ ∀ e, s.pc i ≠ .rejecting e)
    (henters : phase ≠ .resolving ∧ ∀ e, phase ≠ .rejecting e)
    (hfailed : state.failed = s.state.failed)
    (hsettled : state.nextPromise = d.settlement state.results)
    (hremaining : d.complete = true → state.remaining = 0)
    (hleft : d = .undecided → 0 < n → 0 < state.remaining) (handlers : List (Fin n))
    (hfirst : handlers.head? = s.handlers.head?) :
    Agrees d { s with
      state := state, pc := Function.update s.pc i phase, handlers := handlers } where
  resolving j := (update_eq_iff hleaves.1 henters.1).trans (hd.resolving j)
  rejecting j e := (update_eq_iff (hleaves.2 e) (henters.2 e)).trans (hd.rejecting j e)
  failed := hfailed.trans hd.failed
  settled := hsettled
  remaining := hremaining
  left := hleft
  first := hfirst.trans hd.first
  error := hd.error

/-- The first handler decides. -/
theorem Agrees.handler (hd : Agrees .undecided s) {i : Fin n} {e : ExceptionPtr E}
    (ho : s.outcome i = some (.rejected e)) (state : CombineState β E)
    (hfailed : state.failed = true) (hsettled : state.nextPromise = s.state.nextPromise) :
    Agrees (.rejecting i e) { s with
      state := state, pc := Function.update s.pc i (.rejecting e), handlers := s.handlers ++ [i] } where
  resolving j := by
    have hnone : ∀ j, s.pc j ≠ .resolving := fun j h => by cases (hd.resolving j).mp h
    simp [update_eq_iff (hnone i) (by simp : (.rejecting e : Pc E) ≠ .resolving), hnone]
  rejecting j e' := by
    have hnone : s.pc j ≠ .rejecting e' := fun h => by cases (hd.rejecting j e').mp h
    by_cases hji : j = i
    · subst hji
      simp
    · simp [Function.update_of_ne hji, hnone, Ne.symm hji]
  failed := hfailed
  settled := hsettled.trans hd.settled
  remaining h := by cases h
  left h := by cases h
  first := by
    have hnil : s.handlers = [] := by simpa [Decision.rejection] using hd.first
    simp [hnil, Decision.rejection]
  error j e' h := by
    obtain ⟨rfl, rfl⟩ : i = j ∧ e = e' := by simpa [Decision.rejection] using h
    exact ho

/-- The last finalizer decides. -/
theorem Agrees.finalizer (hd : Agrees .undecided s) (i : Fin n)
    (hpc : s.pc i = .finalizing) (state : CombineState β E)
    (hfailed : state.failed = s.state.failed) (hremaining : state.remaining = 0)
    (hsettled : state.nextPromise = s.state.nextPromise) :
    Agrees (.resolving i) { s with
      state := state, pc := Function.update s.pc i .resolving } where
  resolving j := by
    have hnone : s.pc j ≠ .resolving := fun h => by cases (hd.resolving j).mp h
    by_cases hji : j = i
    · subst hji
      simp
    · simp [Function.update_of_ne hji, hnone, Ne.symm hji]
  rejecting j e := by
    have hnone : ∀ j, s.pc j ≠ .rejecting e := fun j h => by cases (hd.rejecting j e).mp h
    simp [update_eq_iff (hnone i) (by simp : (.resolving : Pc E) ≠ .rejecting e), hnone]
  failed := hfailed.trans hd.failed
  settled := hsettled.trans hd.settled
  remaining _ := hremaining
  left h := by cases h
  first := hd.first
  error j e h := by cases h

theorem Agrees.reject {i : Fin n} {e : ExceptionPtr E} (hd : Agrees (.rejecting i e) s) :
    Agrees (.rejected i e) { s with
      state := s.state.reject e, pc := Function.update s.pc i .finalizing } where
  resolving j := by
    have hnone : ∀ j, s.pc j ≠ .resolving := fun j h => by cases (hd.resolving j).mp h
    simp [update_eq_iff (hnone i) (by simp : (.finalizing : Pc E) ≠ .resolving), hnone]
  rejecting j e' := by
    by_cases hji : j = i
    · subst hji
      simp
    · have hnone : s.pc j ≠ .rejecting e' := fun h => by
        cases (hd.rejecting j e').mp h
        exact hji rfl
      simp [Function.update_of_ne hji, hnone]
  failed := hd.failed
  settled := by
    have := hd.settled
    simp_all [CombineState.reject, Decision.settlement]
  remaining h := by cases h
  left h := by cases h
  first := hd.first
  error j e' h := hd.error j e' h

theorem Agrees.resolve {i : Fin n} (hd : Agrees (.resolving i) s) :
    Agrees .resolved { s with
      state := s.state.resolve, pc := Function.update s.pc i .done } where
  resolving j := by
    by_cases hji : j = i
    · subst hji
      simp
    · have hnone : s.pc j ≠ .resolving := fun h => by
        cases (hd.resolving j).mp h
        exact hji rfl
      simp [Function.update_of_ne hji, hnone]
  rejecting j e := by
    have hnone : ∀ j, s.pc j ≠ .rejecting e := fun j h => by cases (hd.rejecting j e).mp h
    simp [update_eq_iff (hnone i) (by simp : (.done : Pc E) ≠ .rejecting e), hnone]
  failed := hd.failed
  settled := by
    have := hd.settled
    simp_all [CombineState.resolve, Decision.settlement]
  remaining _ := hd.remaining rfl
  left h := by cases h
  first := hd.first
  error j e h := by cases h

/-- Nobody has decided while no handler has been entered and some input is left. -/
theorem Agrees.undecided (hd : Agrees d s) (hf : s.state.failed = false)
    (hopen : d.complete = false) : d = .undecided := by
  rw [hd.failed] at hf
  cases d <;> simp_all [Decision.rejection, Decision.complete]

/-- **Every step keeps to the decision, or makes it.** -/
theorem Step.decision (hs : Sound s) (hstep : Step s s') : ∃ d, Agrees d s' := by
  obtain ⟨d, hd⟩ := hs.decision
  cases hstep with
  | settle i o ho =>
    refine ⟨d, hd.resolving, hd.rejecting, hd.failed, hd.settled, hd.remaining, hd.left, hd.first,
      fun j e h => ?_⟩
    have hsome := hd.error j e h
    by_cases hji : j = i
    · subst hji
      rw [ho] at hsome
      cases hsome
    · simpa [Function.update_of_ne hji] using hsome
  | bind i hi hfree =>
    exact ⟨d, hd.resolving, hd.rejecting, hd.failed, hd.settled, hd.remaining, hd.left, hd.first,
      hd.error⟩
  | next i v hb hpc ho =>
    obtain ⟨hopen, -⟩ := hs.open_of_unfinalized (by rw [hpc]; rfl) hd
    refine ⟨d, hd.keep _ (by simp [hpc]) (by simp) (by simp) ?_ (by simp [hopen])
      (by simpa using hd.left) _ rfl⟩
    rw [CombineState.next_nextPromise, hd.settled]
    exact Decision.settlement_eq hopen _ _
  | handler i e hb hpc ho =>
    obtain ⟨hopen, -⟩ := hs.open_of_unfinalized (by rw [hpc]; rfl) hd
    cases hf : s.state.failed with
    | true =>
      -- another handler was the first
      obtain ⟨j, hj⟩ : ∃ j, s.handlers.head? = some j := by
        have := hd.failed
        rw [hf] at this
        rw [hd.first]
        exact Option.isSome_iff_exists.mp (by simpa using this.symm)
      simp only [CombineState.handler, hf, if_true, Bool.false_eq_true, if_false]
      exact ⟨d, hd.keep _ (by simp [hpc]) (by simp) rfl hd.settled hd.remaining
        hd.left _ (by simp [List.head?_append, hj])⟩
    | false =>
      obtain rfl := hd.undecided hf hopen
      simp only [CombineState.handler, hf, Bool.false_eq_true, if_false, if_true]
      exact ⟨_, hd.handler ho _ rfl rfl⟩
  | reject i e hpc =>
    obtain rfl := (hd.rejecting i e).mp hpc
    exact ⟨_, hd.reject⟩
  | finalizer i hpc =>
    obtain ⟨hopen, -⟩ := hs.open_of_unfinalized (by rw [hpc]; rfl) hd
    by_cases hresolved : s.state.finalizer.2 = true
    · have hlast : s.state.remaining - 1 = 0 ∧ s.state.failed = false := by
        simpa [CombineState.finalizer] using hresolved
      obtain rfl := hd.undecided hlast.2 hopen
      rw [hresolved, if_pos rfl]
      exact ⟨_, hd.finalizer i hpc _ rfl hlast.1 rfl⟩
    · rw [if_neg hresolved]
      refine ⟨d, hd.keep s.state.finalizer.1 (by simp [hpc]) (by simp) rfl hd.settled
        (by simp [hopen]) (fun hun _ => ?_) _ rfl⟩
      subst hun
      have hf : s.state.failed = false := hd.failed
      simp only [CombineState.finalizer, hf, Bool.not_false, Bool.and_true, beq_iff_eq] at hresolved
      exact Nat.pos_of_ne_zero hresolved
  | resolve i hpc =>
    obtain rfl := (hd.resolving i).mp hpc
    exact ⟨_, hd.resolve⟩

/-- **Every step keeps the invariant.** -/
theorem Step.sound (hs : Sound s) (hstep : Step s s') : Sound s' :=
  ⟨hstep.remaining hs, hstep.slots hs, hstep.decision hs⟩

/-- Every input has been finalized by the time the combined promise is resolved. -/
theorem Sound.resolved (hs : Sound s) (hd : Agrees .resolved s) (i : Fin n) :
    s.outcome i = some (.resolved (s.state.results i)) := by
  have hzero := hs.remaining.symm.trans (hd.remaining rfl)
  refine hs.slots hd.failed i fun hwait => ?_
  have := census_eq_zero_iff.mp hzero i
  rw [hwait] at this
  cases this

/-! ## The loop -/

/-- What the loop has done with the inputs, which had the outcomes `outcome₀` when
`combine` was called. -/
structure Looped (outcome₀ : ∀ i, Option (Outcome (β i) E)) (s : System β E) : Prop where
  index : ∀ i, s.bound i = true ↔ i.val < s.index
  busy : ∀ i j, i < j → s.bound j = true → s.in_loop i = true → s.pc i = .done
  kept : ∀ i o, outcome₀ i = some o → s.outcome i = some o
  in_loop : ∀ i, s.bound i = true → (outcome₀ i).isSome → s.in_loop i = true
  lowest : (∀ i, (outcome₀ i).isSome) → ∀ i, s.handlers.head? = some i →
    ∀ j < i, ∃ v, outcome₀ j = some (.resolved v)

variable {outcome₀ : ∀ i, Option (Outcome (β i) E)}

/-- When all inputs were settled before, the loop has finished with those before
the one that it runs. -/
theorem Looped.resolved_before (hs : Sound s) (hl : Looped outcome₀ s)
    (hall : ∀ i, (outcome₀ i).isSome) (hf : s.state.failed = false) {i j : Fin n}
    (hb : s.bound i = true) (hji : j < i) : ∃ v, outcome₀ j = some (.resolved v) := by
  have hbound : s.bound j = true := (hl.index j).mpr (lt_trans hji ((hl.index i).mp hb))
  have hdone : s.pc j = .done := hl.busy j i hji hb (hl.in_loop j hbound (hall j))
  obtain ⟨o, ho⟩ := Option.isSome_iff_exists.mp (hall j)
  have hslot := hs.slots hf j (by simp [hdone])
  rw [hl.kept j o ho] at hslot
  exact ⟨_, ho.trans hslot⟩

/-- A step of an input keeps what the loop has done. -/
theorem Looped.keep (hl : Looped outcome₀ s) {i : Fin n} (phase : Pc E) (state : CombineState β E)
    (hpc : s.pc i ≠ .done) (handlers : List (Fin n))
    (hlowest : (∀ i, (outcome₀ i).isSome) → ∀ i, handlers.head? = some i →
      ∀ j < i, ∃ v, outcome₀ j = some (.resolved v)) :
    Looped outcome₀ { s with
      state := state, pc := Function.update s.pc i phase, handlers := handlers } where
  index := hl.index
  busy j k hjk hk hj := by
    have hdone := hl.busy j k hjk hk hj
    have hne : j ≠ i := fun h => hpc (h ▸ hdone)
    simpa [Function.update_of_ne hne] using hdone
  kept := hl.kept
  in_loop := hl.in_loop
  lowest := hlowest

theorem Step.looped (hs : Sound s) (hl : Looped outcome₀ s) (hstep : Step s s') :
    Looped outcome₀ s' := by
  cases hstep with
  | settle i o ho =>
    refine ⟨hl.index, hl.busy, fun j o' hj => ?_, hl.in_loop, hl.lowest⟩
    have hsome := hl.kept j o' hj
    by_cases hji : j = i
    · subst hji
      rw [ho] at hsome
      cases hsome
    · simpa [Function.update_of_ne hji] using hsome
  | bind i hi hfree =>
    refine ⟨fun j => ?_, fun j k hjk hk hj => ?_, hl.kept, fun j hj hsome => ?_, hl.lowest⟩
    · by_cases hji : j = i
      · subst hji
        simp [hi]
      · have hne : j.val ≠ i.val := fun h => hji (Fin.ext h)
        have := hl.index j
        simp only [Function.update_of_ne hji, this]
        omega
    · -- the loop is free when it binds the next input
      by_cases hji : j = i
      · subst hji
        have hki : k ≠ j := ne_of_gt hjk
        have := (hl.index k).mp (by simpa [Function.update_of_ne hki] using hk)
        omega
      · exact hfree j (by simpa [Function.update_of_ne hji] using hj)
    · by_cases hji : j = i
      · subst hji
        obtain ⟨o, ho⟩ := Option.isSome_iff_exists.mp hsome
        simp [hl.kept j o ho]
      · simpa [Function.update_of_ne hji] using
          hl.in_loop j (by simpa [Function.update_of_ne hji] using hj) hsome
  | next i v hb hpc ho => exact hl.keep _ _ (by simp [hpc]) _ hl.lowest
  | handler i e hb hpc ho =>
    refine hl.keep _ _ (by simp [hpc]) _ fun hall j hj k hkj => ?_
    obtain ⟨d, hd⟩ := hs.decision
    cases hhead : s.handlers.head? with
    | some first =>
      have : first = j := by simpa [List.head?_append, hhead] using hj
      exact hl.lowest hall j (this ▸ hhead) k hkj
    | none =>
      -- this handler is the first
      have hij : i = j := by simpa [List.head?_append, hhead] using hj
      have hf : s.state.failed = false := by
        have hfirst := hd.first
        rw [hhead] at hfirst
        rw [hd.failed]
        simpa using hfirst.symm
      exact hl.resolved_before hs hall hf (hij ▸ hb) hkj
  | reject i e hpc => exact hl.keep _ _ (by simp [hpc]) _ hl.lowest
  | finalizer i hpc => exact hl.keep _ _ (by simp [hpc]) _ hl.lowest
  | resolve i hpc => exact hl.keep _ _ (by simp [hpc]) _ hl.lowest

/-! ## The answer -/

/-- All inputs have been settled, the loop has bound them, and the callbacks that
it has bound have run. -/
structure Finished (s : System β E) : Prop where
  settled : ∀ i, (s.outcome i).isSome
  looped : s.index = n
  ran : ∀ i, s.bound i = true → s.pc i = .done

/-- The combined promise is resolved with all values in the order of the list if
no input has rejected, and rejected with the error of an input otherwise. -/
structure Answers (s : System β E) : Prop where
  resolved : ∀ results, (∀ i, s.outcome i = some (.resolved (results i))) →
    s.state.nextPromise = [.resolved results]
  rejected : ∀ i e, s.outcome i = some (.rejected e) →
    ∃ j e', s.outcome j = some (.rejected e') ∧ s.state.nextPromise = [.rejected e']

/-- The loop has left no input behind. -/
theorem Finished.done (hf : Finished s) (hl : Looped outcome₀ s) (i : Fin n) : s.pc i = .done := by
  apply hf.ran i
  rw [hl.index, hf.looped]
  exact i.isLt

/-- Nobody is left who could still settle the combined promise. -/
theorem Finished.decided (hf : Finished s) (hs : Sound s) (hl : Looped outcome₀ s) (hn : 0 < n)
    (hd : Agrees d s) : d = .resolved ∨ ∃ i e, d = .rejected i e := by
  have hzero : s.state.remaining = 0 := by
    rw [hs.remaining, census_eq_zero_iff]
    intro i
    rw [hf.done hl i]
    rfl
  cases d with
  | undecided =>
    -- the last finalizer would have found no other input left
    have := hd.left rfl hn
    omega
  | resolving i => cases (hf.done hl i).symm.trans ((hd.resolving i).mpr rfl)
  | rejecting i e => cases (hf.done hl i).symm.trans ((hd.rejecting i e).mpr rfl)
  | resolved => exact .inl rfl
  | rejected i e => exact .inr ⟨i, e, rfl⟩

/-- The values that the inputs have resolved with are those in the slots. -/
theorem Sound.results_eq (hs : Sound s) (hd : Agrees .resolved s) {results : ∀ i, β i}
    (ho : ∀ i, s.outcome i = some (.resolved (results i))) : s.state.results = results := by
  funext i
  have hslot := hs.resolved hd i
  rw [ho i] at hslot
  injection hslot with hslot
  injection hslot with hslot
  exact hslot.symm

/-- The decision of one or more inputs is the answer. -/
theorem Finished.answers (hf : Finished s) (hs : Sound s) (hl : Looped outcome₀ s) (hn : 0 < n) :
    Answers s := by
  obtain ⟨d, hd⟩ := hs.decision
  obtain rfl | ⟨i, e, rfl⟩ := hf.decided hs hl hn hd
  · refine ⟨fun results ho => ?_, fun j e' ho => ?_⟩
    · rw [hd.settled, Decision.settlement, hs.results_eq hd ho]
    · -- the slots hold values only where no handler has been entered
      have hslot := hs.resolved hd j
      rw [ho] at hslot
      cases hslot
  · have herror := hd.error i e rfl
    refine ⟨fun results ho => ?_, fun _ _ _ => ⟨i, e, herror, hd.settled⟩⟩
    rw [ho i] at herror
    cases herror

/-- Every step is made by an input, or made by the loop for one. -/
theorem Step.input_exists (hstep : Step s s') : 0 < n := by
  cases hstep with
  | settle i | bind i | next i | handler i | reject i | finalizer i | resolve i =>
    exact Fin.pos i

/-! ## Runs -/

section Run

variable [∀ i, Inhabited (β i)]

theorem combine_sound (outcome₀ : ∀ i, Option (Outcome (β i) E)) :
    Sound (combine outcome₀) where
  remaining := by
    rw [combine, census_const_true rfl, Fintype.card_fin]
  slots _ i h := absurd rfl h
  decision := ⟨.undecided, by
    constructor <;> simp [combine, Decision.rejection, Decision.settlement, Decision.complete]⟩

theorem combine_looped (outcome₀ : ∀ i, Option (Outcome (β i) E)) :
    Looped outcome₀ (combine outcome₀) := by
  constructor <;> simp [combine]

theorem run_sound {outcome₀ : ∀ i, Option (Outcome (β i) E)}
    (hrun : ReflTransGen Step (combine outcome₀) s) : Sound s ∧ Looped outcome₀ s :=
  History.keeps (I := fun s => Sound s ∧ Looped outcome₀ s)
    (fun _ _ ⟨hs, hl⟩ h => ⟨h.sound hs, h.looped hs hl⟩)
    ⟨combine_sound outcome₀, combine_looped outcome₀⟩ hrun

/-- **Combinator safety.** In every run of `combine` over any number of inputs,
which had the outcomes `outcome₀` when it was called: the combined promise is
settled at most once; when it is resolved, then with the values that all inputs
have resolved with; when it is rejected, then with the error of the input whose
handler was entered first, which is the lowest rejected input if all inputs were
settled before; and once a handler has been entered, the next step of that
input's thread rejects the combined promise if it is not rejected yet. -/
theorem combine_safe (outcome₀ : ∀ i, Option (Outcome (β i) E))
    (hrun : ReflTransGen Step (combine outcome₀) s) :
    s.state.nextPromise.length ≤ 1 ∧
    (∀ results, .resolved results ∈ s.state.nextPromise →
      ∀ i, s.outcome i = some (.resolved (results i))) ∧
    (∀ e, .rejected e ∈ s.state.nextPromise → ∃ i, s.handlers.head? = some i ∧
      s.outcome i = some (.rejected e) ∧
      ((∀ j, (outcome₀ j).isSome) → ∀ j < i, ∃ v, outcome₀ j = some (.resolved v))) ∧
    ∀ i, s.handlers.head? = some i → s.state.nextPromise = [] →
      ∃ e, s.outcome i = some (.rejected e) ∧ Step s { s with
        state := { s.state with nextPromise := [.rejected e] }
        pc := Function.update s.pc i .finalizing } := by
  obtain ⟨hs, hl⟩ := run_sound hrun
  obtain ⟨d, hd⟩ := hs.decision
  have hfirst := hd.first
  cases d with
  | undecided | resolving i =>
    have hsettled : s.state.nextPromise = [] := hd.settled
    refine ⟨by simp [hsettled], by simp [hsettled], by simp [hsettled], fun i hi => ?_⟩
    rw [hfirst] at hi
    cases hi
  | resolved =>
    have hsettled : s.state.nextPromise = [.resolved s.state.results] := hd.settled
    refine ⟨by simp [hsettled], fun results hmem i => ?_, by simp [hsettled], fun i hi => ?_⟩
    · obtain rfl : results = s.state.results := by simpa [hsettled] using hmem
      exact hs.resolved hd i
    · rw [hfirst] at hi
      cases hi
  | rejecting i e =>
    have hsettled : s.state.nextPromise = [] := hd.settled
    refine ⟨by simp [hsettled], by simp [hsettled], by simp [hsettled], fun j hj _ => ?_⟩
    obtain rfl : i = j := by simpa [hfirst, Decision.rejection] using hj
    refine ⟨e, hd.error i e rfl, ?_⟩
    have hstep : Step s { s with
        state := s.state.reject e, pc := Function.update s.pc i .finalizing } :=
      .reject i e ((hd.rejecting i e).mpr rfl)
    simpa [CombineState.reject, hsettled] using hstep
  | rejected i e =>
    have hsettled : s.state.nextPromise = [.rejected e] := hd.settled
    refine ⟨by simp [hsettled], by simp [hsettled], fun e' hmem => ?_, by simp [hsettled]⟩
    obtain rfl : e' = e := by simpa [hsettled] using hmem
    exact ⟨i, hfirst, hd.error i e' rfl, fun hall => hl.lowest hall i hfirst⟩

/-- A vector of two inputs, of which the second was rejected before the call; the
first one is rejected in the meantime, but its handler is entered after that of the
second. -/
theorem combine_safe_second_first :
    ∃ s : System (fun _ : Fin 2 => ℕ) String,
      s.handlers = [1, 0] ∧ s.state.nextPromise = [.rejected (.user "second")] ∧
      s.state.nextPromise.length ≤ 1 ∧ s.outcome 1 = some (.rejected (.user "second")) := by
  have hbind₀ := ReflTransGen.single (Step.bind (E := String) (β := fun _ : Fin 2 => ℕ)
    (s := combine fun i => if i = 1 then some (.rejected (.user "second")) else none) 0 rfl nofun)
  have hsettle := hbind₀.tail (Step.settle 0 (.rejected (.user "first")) rfl)
  have hbind₁ := hsettle.tail (Step.bind 1 rfl (by decide))
  have hhandler₁ := hbind₁.tail (Step.handler 1 _ rfl rfl rfl)
  have hhandler₀ := hhandler₁.tail (Step.handler 0 _ rfl rfl rfl)
  have hreject := hhandler₀.tail (Step.reject 1 _ rfl)
  obtain ⟨honce, -, hrejected, -⟩ := combine_safe _ hreject
  obtain ⟨i, hi, ho, -⟩ := hrejected (.user "second") (List.mem_singleton_self _)
  obtain rfl : 1 = i := by injection hi
  exact ⟨_, rfl, rfl, honce, ho⟩

/-- Without inputs nothing happens after the call. -/
theorem run_empty (hn : ¬ 0 < n) (hrun : ReflTransGen Step (combine outcome₀) s) :
    s = combine outcome₀ := by
  obtain rfl | ⟨_, -, hstep⟩ := hrun.cases_tail
  · rfl
  · exact absurd hstep.input_exists hn

/-- **When combine answers.** In every run of `combine`, once all inputs have been
settled and all callbacks that it has bound have run, the combined promise is
settled, as it should be, if and only if there is an input at all: `remaining` is
compared with zero only in a finalizer, and no inputs have no finalizer. The inputs are
distinct promises, and nothing but `combine` has bound callbacks to them. -/
theorem combine_answers_iff (outcome₀ : ∀ i, Option (Outcome (β i) E))
    (hrun : ReflTransGen Step (combine outcome₀) s) (hf : Finished s) : Answers s ↔ 0 < n := by
  obtain ⟨hs, hl⟩ := run_sound hrun
  refine ⟨fun ha => ?_, hf.answers hs hl⟩
  by_contra hn
  obtain rfl := run_empty hn hrun
  have hnone : ∀ i : Fin n, False := fun i => hn (Fin.pos i)
  have hsettled := ha.resolved (fun _ => default) fun i => (hnone i).elim
  cases hsettled

/-- A vector of one input, which is settled after it has been bound. -/
theorem combine_answers_iff_one :
    ∃ s : System (fun _ : Fin 1 => ℕ) String, s.outcome 0 = some (.resolved 7) ∧ Answers s := by
  have hbind := ReflTransGen.single (Step.bind (E := String) (β := fun _ : Fin 1 => ℕ)
    (s := combine fun _ => none) 0 rfl nofun)
  have hsettle := hbind.tail (Step.settle 0 (.resolved 7) rfl)
  have hnext := hsettle.tail (Step.next 0 7 rfl rfl rfl)
  have hfinalizer := hnext.tail (Step.finalizer 0 rfl)
  have hresolve := hfinalizer.tail (Step.resolve 0 rfl)
  exact ⟨_, rfl, (combine_answers_iff _ hresolve ⟨by decide, rfl, by decide⟩).mpr Nat.one_pos⟩

/-- The empty list: nothing is left to run when `combine` returns, and the combined
promise stays pending. -/
theorem not_answers_empty :
    ¬ ∀ (n : ℕ) (outcome₀ : Fin n → Option (Outcome ℕ String))
      (s : System (fun _ : Fin n => ℕ) String),
      ReflTransGen Step (combine outcome₀) s → Finished s → Answers s := by
  intro h
  have ha := h 0 (fun _ => none) _ .refl ⟨nofun, rfl, nofun⟩
  have hsettled := ha.resolved (fun _ => 0) nofun
  cases hsettled

end Run

end Combine
end Kaiu
