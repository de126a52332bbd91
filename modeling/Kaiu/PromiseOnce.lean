/-
A promise is settled once: runs of `resolve`, `reject` and binding calls on one
promise, in any order, with the caller catching whatever is thrown.

`resolve` and `reject` write the value or the error first and validate the
transition afterwards, and the validation lets a settlement through when the
promise is still in the state it leads to (`if (state == next_state) break;`).
That is the one way a second settlement is not refused: the promise has been
settled with the same kind before and either nothing is bound yet, so the new
value silently replaces the old one, or the bound callback threw, so it is
called again. `settled_once_iff` says that there is no other way.
-/
import Kaiu.PromiseState
import Mathlib.Data.List.Induction

set_option autoImplicit false

namespace Kaiu

open Exit

namespace PromiseState

variable {V E K W X : Type*} [Throws E X]

/-! ## Runs on one promise -/

/-- The calls a promise can receive. `bind` stands for `then`, `forward_to` and
`finish`, which differ in the pair of callbacks only. -/
inductive Op (V E K : Type*) where
  | resolve (result : V)
  | reject (error : ExceptionPtr E)
  | bind (callbacks : K)

/-- What the call settles the promise with. -/
def Op.settlement : Op V E K → Option (Outcome V E)
  | .resolve result => some (.resolved result)
  | .reject error => some (.rejected error)
  | .bind _ => none

/-- The call binds callbacks. -/
def Op.binds : Op V E K → Bool
  | .bind _ => true
  | .resolve _ | .reject _ => false

/-- One call, with the lock taken. -/
def Op.apply (b : Build) (call : K → Outcome V E → W → Ended W X) :
    Op V E K → PromiseState V E K × W → Ended (PromiseState V E K × W) X
  | .resolve result, s => PromiseState.resolve b call result s.1 s.2
  | .reject error, s => PromiseState.reject b call error s.1 s.2
  | .bind callbacks, s => PromiseState.set_callbacks b call callbacks s.1 s.2

/-- The calls of a list one after the other, each exception caught. -/
def run (b : Build) (call : K → Outcome V E → W → Ended W X)
    (s : PromiseState V E K × W) (ops : List (Op V E K)) : PromiseState V E K × W :=
  ops.foldl (fun s op => (op.apply b call s).1) s

/-- The settlement a run begins with. -/
def first_settlement (ops : List (Op V E K)) : Option (Outcome V E) :=
  ops.findSome? Op.settlement

/-- **A promise is settled once**, as a property of one run: the first
settlement fixes the outcome, every later one throws a `logic_error` and leaves
the outcome as it was, and the callbacks have received the first settlement, once,
as soon as there has been a settlement and a binding, in whatever order. -/
structure SettledOnce (b : Build) (call : K → Outcome V E → W → Ended W X)
    (s : PromiseState V E K × W) (ops : List (Op V E K)) : Prop where
  first_fixes : ∀ l r, ops = l ++ r → outcome (run b call s l).1 = first_settlement l
  later_refused : ∀ l op r, ops = l ++ op :: r → op.settlement.isSome →
    (first_settlement l).isSome →
      (∃ what, (op.apply b call (run b call s l)).2 = some (Throws.throw (.logic_error what))) ∧
        outcome (op.apply b call (run b call s l)).1.1 = outcome (run b call s l).1
  callbacks_receive : ∀ l r, ops = l ++ r →
    (run b call s l).1.called = if l.any Op.binds then (first_settlement l).toList else []

/-- No settlement of the run finds the promise in the state it leads to. -/
def NeverRepeated (b : Build) (call : K → Outcome V E → W → Ended W X)
    (s : PromiseState V E K × W) (ops : List (Op V E K)) : Prop :=
  ∀ l op r, ops = l ++ op :: r →
    ∀ o ∈ op.settlement, (run b call s l).1.state ≠ settled_state o

/-! ## The invariant

`first` is the first settlement of the run so far. -/

structure Once (first : Option (Outcome V E)) (p : PromiseState V E K) : Prop where
  outcome_eq : outcome p = first
  called_eq : p.called = if p.callbacks_assigned then first.toList else []
  callbacks_some : p.callbacks_assigned → p.state ≠ .completed → p.callbacks.isSome
  completed_called : p.state = .completed → p.callbacks_assigned ∧ first.isSome

theorem once_new [Inhabited V] : Once none (new : PromiseState V E K) := by
  constructor <;> simp [new, outcome]

theorem apply_settlement (b : Build) (call : K → Outcome V E → W → Ended W X)
    {op : Op V E K} {o : Outcome V E} (ho : op.settlement = some o)
    (s : PromiseState V E K × W) : op.apply b call s = settle b call o s.1 s.2 := by
  cases op with
  | resolve result => cases ho; rfl
  | reject error => cases ho; rfl
  | bind callbacks => cases ho

/-- A settlement that is refused does not change what the promise stands for:
it overwrites the member of the other kind, or a member nobody reads again. -/
theorem outcome_with_outcome {o : Outcome V E} {p : PromiseState V E K}
    (hp : p.state ≠ .pending) (hne : p.state ≠ settled_state o) :
    outcome (with_outcome o p) = outcome p := by
  cases o <;> cases hs : p.state <;> simp_all [outcome, with_outcome, settled_state]

theorem Once.settled_of_isSome {first : Option (Outcome V E)} {p : PromiseState V E K}
    (h : Once first p) (hf : first.isSome) : p.state ≠ .pending := by
  intro hp
  have hnone : first = none := by rw [← h.outcome_eq]; simp [outcome, hp]
  simp [hnone] at hf

/-- A settled promise that is not completed is in the state of its outcome. -/
theorem Once.state_eq {o : Outcome V E} {p : PromiseState V E K} (h : Once (some o) p)
    (hc : p.state ≠ .completed) : p.state = settled_state o := by
  have ho := h.outcome_eq
  cases hs : p.state <;> simp_all [outcome] <;> cases ho <;> rfl

/-- What a callback leaves, whether it returns or throws. -/
theorem run_callback_once (b : Build) (call : K → Outcome V E → W → Ended W X)
    {o : Outcome V E} {p : PromiseState V E K} {k : K} (w : W) (hk : p.callbacks = some k)
    (ha : p.callbacks_assigned = true) (hs : p.state = settled_state o)
    (ho : outcome p = some o) (hcalled : p.called = []) :
    Once (some o) (run_callback b call o p w).1.1 := by
  rw [run_callback_eq b call w hk hs]
  rcases call k o w with ⟨w', _ | x⟩
  · constructor <;> simp [complete, outcome, hcalled, ha]
  · constructor
    · cases o <;> simp_all [throws, outcome, settled_state]
    · simp [throws, hcalled, ha]
    · simp [throws, hk]
    · cases o <;> simp [throws, hs, settled_state]

/-- The first settlement of a promise. -/
theorem settle_once (b : Build) (call : K → Outcome V E → W → Ended W X) (o : Outcome V E)
    {p : PromiseState V E K} (w : W) (h : Once none p) :
    Once (some o) (settle b call o p w).1.1 := by
  have hp : p.state = .pending := by
    have ho := h.outcome_eq
    have hc := h.completed_called
    cases hs : p.state <;> simp_all [outcome]
  have hcalled : p.called = [] := by rw [h.called_eq]; simp
  rw [settle_pending b call o w hp]
  by_cases ha : p.callbacks_assigned
  · obtain ⟨k, hk⟩ := Option.isSome_iff_exists.mp (h.callbacks_some ha (by simp [hp]))
    rw [if_pos ha]
    exact run_callback_once b call w (by simpa using hk) (by simpa using ha) rfl
      (outcome_settled b o p) (by simpa using hcalled)
  · rw [if_neg ha]
    constructor
    · simp
    · simp [ha, hcalled]
    · simp [ha]
    · cases o <;> simp [settled_state]

/-- A binding call, refused or not. -/
theorem bind_once {b : Build} (hb : b.SAFE_PROMISES = true)
    (call : K → Outcome V E → W → Ended W X) (k : K) {first : Option (Outcome V E)}
    {p : PromiseState V E K} (w : W) (h : Once first p) :
    Once first (set_callbacks b call k p w).1.1 := by
  cases ha : p.callbacks_assigned with
  | true => rw [set_callbacks_refused hb call k w ha]; exact h
  | false =>
    have hcalled : p.called = [] := by rw [h.called_eq]; simp [ha]
    have hc : p.state ≠ .completed := fun hc => by simp [(h.completed_called hc).1] at ha
    cases first with
    | none =>
      have hp : p.state = .pending := by
        have ho := h.outcome_eq
        cases hs : p.state <;> simp_all [outcome]
      rw [set_callbacks_pending b call k w ha hp]
      constructor <;> simp [bound, outcome, hp, hcalled]
    | some o =>
      have hs := h.state_eq hc
      rw [set_callbacks_settled b call k w ha hs h.outcome_eq]
      exact run_callback_once b call w rfl rfl hs h.outcome_eq hcalled

/-- **The step.** A call that does not find the promise in the state it leads to
keeps the first settlement. -/
theorem apply_once {b : Build} (hb : b.SAFE_PROMISES = true)
    (call : K → Outcome V E → W → Ended W X) (op : Op V E K) {first : Option (Outcome V E)}
    {s : PromiseState V E K × W} (h : Once first s.1)
    (hop : ∀ o ∈ op.settlement, s.1.state ≠ settled_state o) :
    Once (first.or op.settlement) (op.apply b call s).1.1 := by
  cases ho : op.settlement with
  | none =>
    cases op with
    | bind k =>
      rw [Option.or_none]
      exact bind_once hb call k s.2 h
    | resolve result => cases ho
    | reject error => cases ho
  | some o =>
    rw [apply_settlement b call ho]
    cases first with
    | none => exact settle_once b call o s.2 h
    | some o' =>
      have hp := h.settled_of_isSome rfl
      have hne := hop o (by simp [ho])
      rw [settle_refused hb call s.2 hp hne]
      have hout := outcome_with_outcome hp hne
      constructor
      · simpa using hout.trans h.outcome_eq
      · simpa using h.called_eq
      · simpa using h.callbacks_some
      · simpa using h.completed_called

/-! ## Runs -/

theorem run_append (b : Build) (call : K → Outcome V E → W → Ended W X)
    (s : PromiseState V E K × W) (l r : List (Op V E K)) :
    run b call s (l ++ r) = run b call (run b call s l) r := by
  simp [run]

/-- A call that binds leaves callbacks assigned, and no call takes them away. -/
theorem apply_callbacks_assigned (b : Build) (call : K → Outcome V E → W → Ended W X)
    (op : Op V E K) (s : PromiseState V E K × W) :
    (op.apply b call s).1.1.callbacks_assigned = (s.1.callbacks_assigned || op.binds) := by
  cases op with
  | resolve result =>
    rw [Op.binds, Bool.or_false]
    exact settle_callbacks_assigned b call (.resolved result) s.1 s.2
  | reject error =>
    rw [Op.binds, Bool.or_false]
    exact settle_callbacks_assigned b call (.rejected error) s.1 s.2
  | bind k =>
    rw [Op.binds, Bool.or_true]
    exact set_callbacks_callbacks_assigned b call k s.1 s.2

theorem run_callbacks_assigned (b : Build) (call : K → Outcome V E → W → Ended W X)
    (s : PromiseState V E K × W) (ops : List (Op V E K)) :
    (run b call s ops).1.callbacks_assigned = (s.1.callbacks_assigned || ops.any Op.binds) := by
  induction ops generalizing s with
  | nil => simp [run]
  | cons op ops ih =>
    have hrun : run b call s (op :: ops) = run b call (op.apply b call s).1 ops := rfl
    rw [hrun, ih, apply_callbacks_assigned, List.any_cons, Bool.or_assoc]

theorem first_settlement_append (l r : List (Op V E K)) :
    first_settlement (l ++ r) = (first_settlement l).or (first_settlement r) := by
  simp [first_settlement, List.findSome?_append]

theorem NeverRepeated.init {b : Build} {call : K → Outcome V E → W → Ended W X}
    {s : PromiseState V E K × W} {l r : List (Op V E K)}
    (h : NeverRepeated b call s (l ++ r)) : NeverRepeated b call s l := by
  intro l' op r' hl
  exact h l' op (r' ++ r) (by simp [hl])

theorem neverRepeated_nil (b : Build) (call : K → Outcome V E → W → Ended W X)
    (s : PromiseState V E K × W) : NeverRepeated b call s [] := by
  intro l op r hl
  simp at hl

theorem neverRepeated_cons (b : Build) (call : K → Outcome V E → W → Ended W X)
    (s : PromiseState V E K × W) (op : Op V E K) (ops : List (Op V E K)) :
    NeverRepeated b call s (op :: ops) ↔
      (∀ o ∈ op.settlement, s.1.state ≠ settled_state o) ∧
        NeverRepeated b call (op.apply b call s).1 ops := by
  constructor
  · intro h
    refine ⟨h [] op ops rfl, fun l op' r hl => ?_⟩
    have h' := h (op :: l) op' r (by simp [hl])
    simpa [run] using h'
  · rintro ⟨hhead, htail⟩ l op' r hl
    cases l with
    | nil =>
      obtain ⟨rfl, -⟩ : op = op' ∧ ops = r := by simpa using hl
      exact hhead
    | cons op'' l =>
      obtain ⟨rfl, hl'⟩ : op = op'' ∧ ops = l ++ op' :: r := by simpa using hl
      simpa [run] using htail l op' r hl'

theorem run_once {b : Build} (hb : b.SAFE_PROMISES = true)
    (call : K → Outcome V E → W → Ended W X) {s : PromiseState V E K × W} (hs : Once none s.1)
    (ops : List (Op V E K)) (h : NeverRepeated b call s ops) :
    Once (first_settlement ops) (run b call s ops).1 := by
  induction ops using List.reverseRecOn with
  | nil => exact hs
  | append_singleton ops op ih =>
      rw [run_append, first_settlement_append]
      have hstep := apply_once hb call op (ih h.init) (h ops op [] rfl)
      simpa [run, first_settlement] using hstep

/-- What holds of every beginning of `ops ++ [op]` holds of every beginning of
`ops`. -/
theorem SettledOnce.init {b : Build} {call : K → Outcome V E → W → Ended W X}
    {s : PromiseState V E K × W} {l r : List (Op V E K)}
    (h : SettledOnce b call s (l ++ r)) : SettledOnce b call s l where
  first_fixes l' r' hl := h.first_fixes l' (r' ++ r) (by simp [hl])
  later_refused l' op r' hl := h.later_refused l' op (r' ++ r) (by simp [hl])
  callbacks_receive l' r' hl := h.callbacks_receive l' (r' ++ r) (by simp [hl])

/-- A settlement that repeats the state of the promise breaks the property: it
returns, or it calls the callback a second time. -/
theorem not_settledOnce_of_repeated {b : Build} {call : K → Outcome V E → W → Ended W X}
    {s : PromiseState V E K × W} {ops : List (Op V E K)} {op : Op V E K} {o : Outcome V E}
    (hinv : Once (first_settlement ops) (run b call s ops).1)
    (ho : op.settlement = some o) (hrep : (run b call s ops).1.state = settled_state o) :
    ¬ SettledOnce b call s (ops ++ [op]) := by
  intro h
  have hsome : (first_settlement ops).isSome := by
    rw [← hinv.outcome_eq]
    cases o <;> simp [outcome, hrep, settled_state]
  obtain ⟨first, hfirst⟩ := Option.isSome_iff_exists.mp hsome
  have happly := apply_settlement b call ho (run b call s ops)
  rw [settle_repeated b call (run b call s ops).2 hrep] at happly
  cases ha : (run b call s ops).1.callbacks_assigned with
  | false =>
    obtain ⟨⟨what, hthrown⟩, -⟩ := h.later_refused ops op [] rfl (by simp [ho]) hsome
    simp [happly, ha] at hthrown
  | true =>
    have hc : (run b call s ops).1.state ≠ .completed := by
      rw [hrep]; cases o <;> simp [settled_state]
    obtain ⟨k, hk⟩ := Option.isSome_iff_exists.mp (hinv.callbacks_some ha hc)
    have hcalled : (run b call s ops).1.called = [first] := by
      rw [hinv.called_eq, ha, hfirst]; rfl
    have htwice : (run b call s (ops ++ [op])).1.called = [first, o] := by
      have hrun : run b call s (ops ++ [op]) = (op.apply b call (run b call s ops)).1 := by
        simp [run]
      rw [hrun, happly, if_pos ha,
        run_callback_eq b call _ (by simpa using hk) (by simpa using hrep)]
      rcases call k o (run b call s ops).2 with ⟨w', _ | x⟩ <;>
        simp [complete, throws, hcalled]
    have honce := h.callbacks_receive (ops ++ [op]) [] (by simp)
    rw [htwice] at honce
    split at honce
    · cases hf : first_settlement (ops ++ [op]) <;> simp [hf] at honce
    · cases honce

theorem never_repeated_of_settledOnce {b : Build} (hb : b.SAFE_PROMISES = true)
    {call : K → Outcome V E → W → Ended W X} {s : PromiseState V E K × W} (hs : Once none s.1)
    (ops : List (Op V E K)) (h : SettledOnce b call s ops) : NeverRepeated b call s ops := by
  induction ops using List.reverseRecOn with
  | nil => intro l op r hl; simp at hl
  | append_singleton ops op ih =>
      have hnever := ih h.init
      have hinv := run_once hb call hs ops hnever
      intro l op' r hl o ho hrep
      rcases List.eq_nil_or_concat r with rfl | ⟨r', last, rfl⟩
      · obtain ⟨rfl, hop⟩ := List.append_inj' hl rfl
        cases hop
        exact not_settledOnce_of_repeated hinv ho hrep h
      · have hl' : ops ++ [op] = (l ++ op' :: r') ++ [last] := by simpa using hl
        exact hnever l op' r' (List.append_inj' hl' rfl).1 o ho hrep

/-- **A promise is settled once, exactly when no settlement of the run repeats
the state the promise is in.** -/
theorem settled_once_iff [Inhabited V] {b : Build} (hb : b.SAFE_PROMISES = true)
    (call : K → Outcome V E → W → Ended W X) (w : W) (ops : List (Op V E K)) :
    SettledOnce b call (new, w) ops ↔ NeverRepeated b call (new, w) ops := by
  have hnew : Once none ((new, w) : PromiseState V E K × W).1 := once_new
  refine ⟨never_repeated_of_settledOnce hb hnew ops, fun h => ⟨?_, ?_, ?_⟩⟩
  · rintro l r rfl
    exact (run_once hb call hnew l h.init).outcome_eq
  · rintro l op r rfl hsettles hfirst
    obtain ⟨o, ho⟩ := Option.isSome_iff_exists.mp hsettles
    have hinv := run_once hb call hnew l h.init
    have hp := hinv.settled_of_isSome hfirst
    have hne := h l op r rfl o ho
    rw [apply_settlement b call ho, settle_refused hb call _ hp hne]
    exact ⟨⟨_, rfl⟩, outcome_with_outcome hp hne⟩
  · rintro l r rfl
    have hassigned := run_callbacks_assigned b call (new, w) l
    have hnone : ((new, w) : PromiseState V E K × W).1.callbacks_assigned = false := rfl
    rw [hnone, Bool.false_or] at hassigned
    rw [(run_once hb call hnew l h.init).called_eq, hassigned]

/-- A promise that is resolved, then rejected, then bound and resolved again:
both late settlements are refused and the callback receives `1`. -/
theorem settled_once_resolve_reject_bind :
    SettledOnce Build.debug
      (fun (_ : Unit) (_ : Outcome Nat Unit) w => (returns w : Ended Unit (ExceptionPtr Unit)))
      (new, ()) [.resolve 1, .reject .null, .bind (), .resolve 2] := by
  refine (settled_once_iff rfl _ _ _).mpr ?_
  simp only [neverRepeated_cons, neverRepeated_nil, and_true]
  refine ⟨?_, ?_, ?_, ?_⟩ <;> intro o ho <;> cases ho <;> decide

/-- Resolved with `1` and then with `2` before anything is bound: the second
call returns, and the promise now stands for `2`. -/
theorem not_settledOnce_resolve_resolve :
    ¬ SettledOnce Build.debug
      (fun (_ : Unit) (_ : Outcome Nat Unit) w => (returns w : Ended Unit (ExceptionPtr Unit)))
      (new, ()) [.resolve 1, .resolve 2] := by
  intro h
  obtain ⟨⟨what, hthrown⟩, -⟩ := h.later_refused [.resolve 1] (.resolve 2) [] rfl rfl rfl
  cases hthrown

end PromiseState
end Kaiu
