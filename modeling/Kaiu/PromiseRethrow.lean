/-
What becomes of a rejection at the end of a chain.

A chain is ended by `finish()`, by `finish(finalizer)`, or by a `then` or `except`
whose callbacks return nothing; the last two are a stage like any other, made of
wrapped callbacks, and then `finish()`. What `finish()` rethrows comes out of the
operation after which the promise at the end is both bound and settled, in whatever
order that happens (`Rethrows`).

The wrapper of a null handler, `except_forward`, returns where a null handler of
any other stage rethrows. So a rejection that comes to a `then` without a handler
that ends the chain is lost. A null pointer cannot be rethrown either way: `finish()`
drops it, and a stage without a handler ends the program.
-/
import Kaiu.PromiseTerminator
import Kaiu.PromiseSchedule

set_option autoImplicit false

namespace Kaiu

open Exit Store Heap

variable {V E : Type*}

/-! ## Terminators -/

/-- How a chain is ended: by `finish()`, by `finish(finalizer)`, or by `then` with
callbacks that return nothing, of which each may be null. A callback that returns
nothing returns (`none`) or throws. -/
inductive Terminator (V E : Type*) where
  | finish
  | finish_finally (finalizer : Option (Option (ExceptionPtr E)))
  | then_void (next : Option (V → Option (ExceptionPtr E)))
      (handler : Option (ExceptionPtr E → Option (ExceptionPtr E)))
      (finalizer : Option (Option (ExceptionPtr E)))

/-- `except`, with a handler that returns nothing. -/
def except_void (handler : ExceptionPtr E → Option (ExceptionPtr E)) : Terminator V E :=
  .then_void none (some handler) none

/-- `then_forward`. The `nullptr` that it returns is the default value. -/
def then_forward [Inhabited V] (next_func : Option (V → Option (ExceptionPtr E))) (result : V) :
    Except (ExceptionPtr E) V :=
  match next_func.bind fun func => func result with
  | none => .ok default
  | some error => .error error

/-- `except_forward`. -/
def except_forward [Inhabited V]
    (except_func : Option (ExceptionPtr E → Option (ExceptionPtr E))) (error : ExceptionPtr E) :
    Except (ExceptionPtr E) V :=
  match except_func.bind fun func => func error with
  | none => .ok default
  | some error => .error error

namespace Terminator

/-- The stage before `finish()`. -/
def pack [Inhabited V] : Terminator V E → Option (callback_pack V E)
  | .finish => none
  | .finish_finally finalizer => some { finalizer := finalizer }
  | .then_void next handler finalizer => some
      { next := .value (then_forward next)
        handler := .value (except_forward handler)
        finalizer := finalizer }

/-- The error that is left when `o` has come to the terminator: that of the
finalizer, or else what `next` or `handler` has thrown, or else the rejection itself,
if there is no handler. -/
def unhandled (T : Terminator V E) (o : Outcome V E) : Option (ExceptionPtr E) :=
  match T, o with
  | .finish, .resolved _ => none
  | .finish, .rejected error => some error
  | .finish_finally finalizer, .resolved _ => finalizer.join
  | .finish_finally finalizer, .rejected error => some (finalizer.join.getD error)
  | .then_void next _ finalizer, .resolved value =>
      finalizer.join.or (next.bind fun func => func value)
  | .then_void _ none finalizer, .rejected error => some (finalizer.join.getD error)
  | .then_void _ (some func) finalizer, .rejected error => finalizer.join.or (func error)

/-- A rejection comes to a `then` that has no handler, and ends the chain. -/
def Swallows (T : Terminator V E) (o : Outcome V E) : Prop :=
  match T, o with
  | .then_void _ none finalizer, .rejected _ => finalizer.join = none
  | _, _ => False

variable [Inhabited V] (inner : PromiseId → Outcome V E)

/-- What `finish()` is called on. -/
def outcome (T : Terminator V E) (o : Outcome V E) : Outcome V E :=
  match T.pack with
  | none => o
  | some pack => (pack.result o).outcome inner

/-- The callbacks of a terminator return no promises. -/
theorem not_returns {T : Terminator V E} {pack : callback_pack V E} (hpack : T.pack = some pack)
    (i : PromiseId) : ¬ pack.Returns i := by
  rintro ⟨o, ho⟩
  cases T with
  | finish => cases hpack
  | finish_finally finalizer =>
    cases hpack
    rcases finalizer with _ | _ | error <;> cases o <;> cases ho
  | then_void next handler finalizer =>
    cases hpack
    rcases finalizer with _ | _ | error
    · cases o <;> simp only [callback_pack.result, callback_pack.callback_result, Callback.result,
        Option.join_none] at ho <;> split at ho <;> cases ho
    · cases o <;> simp only [callback_pack.result, callback_pack.callback_result, Callback.result,
        Option.join_some] at ho <;> split at ho <;> cases ho
    · cases ho

/-- What the callback that `o` selects throws. -/
def thrown (next : Option (V → Option (ExceptionPtr E)))
    (handler : Option (ExceptionPtr E → Option (ExceptionPtr E))) : Outcome V E →
      Option (ExceptionPtr E)
  | .resolved value => next.bind fun func => func value
  | .rejected error => handler.bind fun func => func error

theorem outcome_then_void (next : Option (V → Option (ExceptionPtr E)))
    (handler : Option (ExceptionPtr E → Option (ExceptionPtr E)))
    {finalizer : Option (Option (ExceptionPtr E))} (hfin : finalizer.join = none)
    (o : Outcome V E) :
    (then_void next handler finalizer).outcome inner o
      = match thrown next handler o with
        | none => .resolved default
        | some error => .rejected error := by
  cases o with
  | resolved value =>
    simp only [outcome, pack, callback_pack.result, hfin, callback_pack.callback_result,
      Callback.result, then_forward, thrown]
    cases next.bind fun func => func value <;> rfl
  | rejected error =>
    simp only [outcome, pack, callback_pack.result, hfin, callback_pack.callback_result,
      Callback.result, except_forward, thrown]
    cases handler.bind fun func => func error <;> rfl

/-- What a terminator makes of an outcome: a rejection with the error that is left,
or a resolution, if there is none or it is lost. -/
theorem outcome_cases (T : Terminator V E) (o : Outcome V E) :
    (∃ e, T.outcome inner o = .rejected e ∧ T.unhandled o = some e ∧ ¬ T.Swallows o) ∨
      ∃ v, T.outcome inner o = .resolved v ∧ (T.unhandled o = none ∨ T.Swallows o) := by
  cases T with
  | finish =>
    cases o with
    | resolved value => exact .inr ⟨value, rfl, .inl rfl⟩
    | rejected error => exact .inl ⟨error, rfl, rfl, id⟩
  | finish_finally finalizer =>
    rcases finalizer with _ | _ | error
    · cases o with
      | resolved value => exact .inr ⟨value, rfl, .inl rfl⟩
      | rejected error => exact .inl ⟨error, rfl, rfl, id⟩
    · cases o with
      | resolved value => exact .inr ⟨value, rfl, .inl rfl⟩
      | rejected error => exact .inl ⟨error, rfl, rfl, id⟩
    · cases o <;> exact .inl ⟨error, rfl, rfl, id⟩
  | then_void next handler finalizer =>
    cases hfin : finalizer.join with
    | some error =>
      -- the exception of the finalizer replaces any other
      refine .inl ⟨error, ?_, ?_, ?_⟩
      · simp [outcome, pack, callback_pack.result, hfin, StageResult.outcome]
      · cases o <;> cases handler <;> simp [unhandled, hfin]
      · cases o <;> cases handler <;> simp [Swallows, hfin]
    | none =>
      rw [outcome_then_void inner next handler hfin]
      cases hx : thrown next handler o with
      | some error =>
        refine .inl ⟨error, rfl, ?_, ?_⟩
        · cases o <;> cases handler <;> simp_all [unhandled, thrown]
        · cases o <;> cases handler <;> simp_all [Swallows, thrown]
      | none =>
        refine .inr ⟨default, rfl, ?_⟩
        cases o with
        | resolved value => exact .inl (by simpa [unhandled, hfin, thrown] using hx)
        | rejected error =>
          cases handler with
          | none => exact .inr hfin
          | some func => exact .inl (by simpa [unhandled, hfin, thrown] using hx)

/-- **What `finish()` rethrows** is the error that is left, unless it is lost. -/
theorem rethrown_iff (T : Terminator V E) (o : Outcome V E) (e : ExceptionPtr E) :
    rethrown (T.outcome inner o) = some e ↔
      T.unhandled o = some e ∧ e ≠ .null ∧ ¬ T.Swallows o := by
  rcases T.outcome_cases inner o with ⟨error, ho, hleft, hkept⟩ | ⟨v, ho, hnone⟩
  · rw [ho, hleft]
    have hrethrown : rethrown (.rejected error : Outcome V E) = some e ↔ error = e ∧ e ≠ .null := by
      cases error <;> simp [rethrown] <;> rintro rfl <;> simp
    rw [hrethrown, Option.some_inj]
    exact ⟨fun ⟨heq, hne⟩ => ⟨heq, hne, hkept⟩, fun ⟨heq, hne, _⟩ => ⟨heq, hne⟩⟩
  · rw [ho]
    refine ⟨nofun, fun ⟨hleft, _, hkept⟩ => ?_⟩
    rcases hnone with hnone | hlost
    · rw [hnone] at hleft
      cases hleft
    · exact absurd hlost hkept

end Terminator

/-! ## Runs -/

/-- An operation on a chain that is ended. -/
inductive ChainOperation where
  | move (mv : Move)
  | terminate

section Run

variable [Inhabited V] (b : Build) (inner : PromiseId → Outcome V E) (source : Outcome V E)
  (T : Terminator V E)

/-- `finish()` on the last promise of the chain. -/
def finish_last (r : ChainRun V E) : Ended (ChainRun V E) (Halt E) :=
  let (h, x) := finish b (last 0 r.stages) r.heap
  ({ r with heap := h }, x)

/-- The call that ends the chain: `finish()`, or `then` and `->finish()`. -/
def terminate (r : ChainRun V E) : Ended (ChainRun V E) (Halt E) :=
  match T.pack with
  | none => finish_last b r
  | some pack =>
      let (promise, h, x) := then_pack b (last 0 r.stages) pack r.heap
      andThen ({ r with heap := h, stages := r.stages ++ [(promise, pack)] }, x) (finish_last b)

def operate (operation : ChainOperation) (r : ChainRun V E) : Ended (ChainRun V E) (Halt E) :=
  match operation with
  | .move mv => move b inner source mv r
  | .terminate => terminate b T r

/-- The operations one after another, until one throws. -/
def operates : List ChainOperation → ChainRun V E → Ended (ChainRun V E) (Halt E)
  | [], r => returns r
  | operation :: operations, r =>
      andThen (operate b inner source T operation r) (operates operations)

/-- The moves before and after the call that ends the chain: all stages are bound
before, and the source and the inner promises are settled before or after. -/
structure EndedSchedule (n m : ℕ) (before after : List Move) : Prop where
  schedule : IsSchedule n m (before ++ after)
  bound : .bind ∉ after

/-- All operations on a chain. -/
def operations (before after : List Move) : List ChainOperation :=
  before.map .move ++ .terminate :: after.map .move

/-- `e` comes out of the operation after which the promise at the end of the chain
is both settled and bound. -/
def Rethrows (e : ExceptionPtr E) (ops : List ChainOperation) (start : ChainRun V E) : Prop :=
  ∃ done operation rest r r', ops = done ++ operation :: rest ∧
    operates b inner source T done start = returns r ∧
    operate b inner source T operation r = throws r' (.threw e) ∧
    ¬ BoundAndSettled (last 0 r.stages) r.heap ∧ BoundAndSettled (last 0 r'.stages) r'.heap

end Run

variable [Inhabited V] {b : Build} {inner : PromiseId → Outcome V E} {source : Outcome V E}
  {T : Terminator V E} {m : ℕ} {packs : List (callback_pack V E)} {played before after : List Move}
  {r r' : ChainRun V E} {awaited : Option PromiseId} {ss : List (Stage V E)} {p : PromiseId}
  {o : Outcome V E} {e : ExceptionPtr E}

/-! ## The last promise -/

theorem chain_outcome_terminator (o : Outcome V E) :
    chain_outcome inner o T.pack.toList = T.outcome inner o := by
  unfold Terminator.outcome
  cases T.pack <;> rfl

omit [Inhabited V] in
theorem Waiting.last_unbound {cells : Cells V E} (hw : Waiting inner cells p ss) :
    Unbound (cells (last p ss)) := by
  induction ss generalizing p with
  | nil => exact hw
  | cons s ss ih => exact ih hw.2.2

omit [Inhabited V] in
theorem Reached.last_unbound {cells : Cells V E} {events : List (Event V E)} {i : PromiseId}
    (hr : Reached inner cells o p ss events (some i)) : Unbound (cells (last p ss)) := by
  generalize ha : some i = awaited at hr
  induction hr with
  | arrived hp => cases ha
  | passed hpack hss ih => exact ih ha
  | awaits hpack hres hi hq => exact hq.last_unbound

omit [Inhabited V] in
/-- The last promise of a chain is unbound; once it is settled, nothing is awaited. -/
theorem Progress.end_cases (hp : Progress inner source m packs played r awaited) :
    Unbound (r.heap.cells (last 0 r.stages)) ∨
      (awaited = none ∧ .settle_source ∈ played ∧
        SettledWith (r.heap.cells (last 0 r.stages))
          (chain_outcome inner source (r.stages.map Prod.snd)) ∧
        chain_crashes inner source (r.stages.map Prod.snd) = false) := by
  by_cases hs : .settle_source ∈ played
  · have hr := hp.reached hs
    cases awaited with
    | none =>
      rw [← chain_fst]
      exact .inr ⟨rfl, hs, hr.chain_eq.2⟩
    | some i => exact .inl hr.last_unbound
  · exact .inl (hp.waiting hs).1.last_unbound

omit [Inhabited V] in
theorem last_mem (p : PromiseId) (ss : List (Stage V E)) : last p ss ∈ ids p ss := by
  rcases List.eq_nil_or_concat ss with rfl | ⟨init, s, rfl⟩
  · exact List.mem_cons_self ..
  · rw [List.concat_eq_append, last_append]
    simp [ids]

omit [Inhabited V] in
theorem Progress.end_lt (hp : Progress inner source m packs played r awaited) :
    last 0 r.stages < r.heap.size := by
  have hsize := hp.size
  rcases List.mem_cons.mp (last_mem 0 r.stages) with h | h
  · rw [h]
    exact Nat.lt_of_le_of_lt (Nat.zero_le m) hsize
  · exact (hp.promises _ h).2

/-! ## The call that ends the chain -/

theorem operates_append (xs ys : List ChainOperation) (r : ChainRun V E) :
    operates b inner source T (xs ++ ys) r
      = andThen (operates b inner source T xs r) (operates b inner source T ys) := by
  induction xs generalizing r with
  | nil => rfl
  | cons x xs ih =>
    simp only [List.cons_append, operates]
    rcases operate b inner source T x r with ⟨r', _ | y⟩
    · exact ih r'
    · rfl

theorem operates_moves (moves : List Move) (r : ChainRun V E) :
    operates b inner source T (moves.map .move) r = play b inner source moves r := by
  induction moves generalizing r with
  | nil => rfl
  | cons mv moves ih =>
    simp only [List.map_cons, operates, play, operate]
    rcases move b inner source mv r with ⟨r', _ | y⟩
    · exact ih r'
    · rfl

theorem FreshInner.more (hf : FreshInner m packs) :
    FreshInner m (packs ++ T.pack.toList) := by
  have hmore : ∀ pack ∈ T.pack.toList, ∀ i, ¬ pack.Returns i := fun pack hpack =>
    Terminator.not_returns (Option.mem_toList.mp hpack)
  refine ⟨fun pack hpack i hi => ?_, ?_⟩
  · rcases List.mem_append.mp hpack with hpack | hpack
    · exact hf.range pack hpack i hi
    · exact absurd hi (hmore pack hpack i)
  · refine List.pairwise_append.mpr ⟨hf.pairwise, ?_, fun _ _ t ht i _ hti => hmore t ht i hti⟩
    cases T.pack <;> simp

/-- The last stage is known from the start. -/
theorem Progress.more (hp : Progress inner source m packs played r awaited) :
    Progress inner source m (packs ++ T.pack.toList) played
      { r with rest := r.rest ++ T.pack.toList } awaited where
  held := hp.held
  size := hp.size
  packs_eq := by rw [← List.append_assoc, hp.packs_eq]
  bound := by
    have := hp.bound
    simp only [List.length_append]
    omega
  nodup := hp.nodup
  promises := hp.promises
  pending := hp.pending
  unbound := hp.unbound
  ready pack hpack i hi := by
    rcases List.mem_append.mp hpack with hpack | hpack
    · exact hp.ready pack hpack i hi
    · exact absurd hi (Terminator.not_returns (Option.mem_toList.mp hpack) i)
  waiting := hp.waiting
  reached := hp.reached

/-- `finish()` follows the chain. -/
theorem finish_follows (hp : Progress inner source m packs played r awaited) :
    Follows (last 0 r.stages) r.heap (finish b (last 0 r.stages) r.heap) := by
  have hfree : last 0 r.stages ∉ r.heap.held := by simp [hp.held]
  rcases hp.end_cases with hu | ⟨-, -, hs, -⟩
  · exact .inl ⟨hu, finish_unbound hfree hu⟩
  · exact .inr ⟨_, finish_settled hfree hs⟩

/-- A null pointer comes to a stage without a handler, and the operation ends the
program. -/
def Breaks (inner : PromiseId → Outcome V E) (source : Outcome V E)
    (packs : List (callback_pack V E)) (x : Ended (ChainRun V E) (Halt E)) : Prop :=
  chain_crashes inner source packs = true ∧ x.2 = some .crashed

/-- **The call that ends the chain** binds the last stage, if there is one, and
`finish()` follows. -/
theorem terminate_follows (hp : Progress inner source m packs played r awaited)
    (hf : FreshInner m packs) (hrest : r.rest = []) :
    Breaks inner source (packs ++ T.pack.toList) (terminate b T r) ∨
    ∃ r₂ awaited₂ x, terminate b T r = ({ r₂ with heap := x.1 }, x.2) ∧
      Progress inner source m (packs ++ T.pack.toList)
        (played ++ T.pack.toList.map fun _ => .bind) r₂ awaited₂ ∧ r₂.rest = [] ∧
      Follows (last 0 r₂.stages) r₂.heap x := by
  have hmore : Progress inner source m (packs ++ T.pack.toList) played _ awaited := hp.more
  have hfresh : FreshInner m (packs ++ T.pack.toList) := hf.more
  unfold terminate
  cases hpack : T.pack with
  | none =>
    rw [hpack] at hmore
    refine .inr ⟨r, awaited, _, rfl, ?_, hrest, finish_follows hp⟩
    simpa using hp
  | some pack =>
    rw [hpack, hrest] at hmore
    rw [hpack] at hfresh
    have hlast : [] ++ (some pack).toList = pack :: [] := rfl
    rcases bind_progress (b := b) hmore hfresh hlast with
      ⟨r₂, hmove, awaited₂, hp₂⟩ | ⟨hcrash, hmove⟩
    rotate_left
    · -- binding the last stage ends the program
      have hbroken : (then_pack b (last 0 r.stages) pack r.heap).2.2 = some .crashed := hmove
      refine .inl ⟨hcrash, ?_⟩
      simp only [hbroken, andThen]
    have hreturned : (then_pack b (last 0 r.stages) pack r.heap).2.2 = none :=
      congrArg Prod.snd hmove
    obtain rfl : _ = r₂ := congrArg Prod.fst hmove
    refine .inr ⟨_, awaited₂, _, ?_, hp₂, rfl, finish_follows (b := b) hp₂⟩
    show andThen ({ r with
        heap := (then_pack b (last 0 r.stages) pack r.heap).2.1
        stages := r.stages ++ [((then_pack b (last 0 r.stages) pack r.heap).1, pack)] },
      (then_pack b (last 0 r.stages) pack r.heap).2.2) (finish_last b) = _
    rw [hreturned]
    simp only [andThen, finish_last, hrest]
    rfl

/-! ## After the call -/

/-- What the terminator has become: it waits for the last promise, or has returned. -/
def Trailing (r : ChainRun V E) (h : Heap V E) : Prop :=
  (Unbound (r.heap.cells (last 0 r.stages)) ∧ h = terminated (last 0 r.stages) r.heap) ∨
    ∃ o, SettledWith (r.heap.cells (last 0 r.stages)) o ∧ rethrown o = none ∧
      h = finished (last 0 r.stages) o r.heap

/-- The terminator has rethrown an error, which is that of the last promise. -/
def Threw (r : ChainRun V E) (x : Ended (Heap V E) (Halt E)) : Prop :=
  ∃ o e, SettledWith (r.heap.cells (last 0 r.stages)) o ∧ rethrown o = some e ∧
    x.2 = some (.threw e) ∧ BoundAndSettled (last 0 r.stages) x.1

omit [Inhabited V] in
theorem follows_ends {x : Ended (Heap V E) (Halt E)}
    (hx : Follows (last 0 r.stages) r.heap x) :
    (∃ h, x = returns h ∧ Trailing r h) ∨ Threw r x := by
  rcases hx with ⟨hu, rfl⟩ | ⟨o, hs, hrethrows, hreturned, hbound⟩
  · exact .inl ⟨_, rfl, .inl ⟨hu, rfl⟩⟩
  · cases hr : rethrown o with
    | none =>
      rw [hr, Option.map_none] at hrethrows
      exact .inl ⟨x.1, Prod.ext rfl hrethrows, .inr ⟨o, hs, hr, hreturned hr⟩⟩
    | some e =>
      rw [hr, Option.map_some] at hrethrows
      exact .inr ⟨o, e, hs, hr, hrethrows, hbound⟩

/-- **A move that binds nothing settles a promise**, with a depth to spare. When the
chain has come to its end, this is an inner promise that nobody waits for. -/
theorem move_settles {mv : Move} {later : List Move} (b : Build)
    (hp : Progress inner source m packs played r awaited) (hf : FreshInner m packs)
    (hs : IsSchedule packs.length m (played ++ mv :: later)) (hbind : mv ≠ .bind) :
    ∃ o p, (∀ r : ChainRun V E, move b inner source mv r
        = ({ r with heap := (settle b (invoke b r.heap.depth) o p r.heap).1 },
            (settle b (invoke b r.heap.depth) o p r.heap).2)) ∧
      Ends (chain_crashes inner source packs) (fun _ => True)
        (settle b (invoke b (2 * r.heap.size)) o p r.heap) ∧
      (awaited = none → .settle_source ∈ played →
        Unbound (r.heap.cells p) ∧ p ≠ last 0 r.stages) := by
  have hmade := hp.made hf
  have hlen := hmade.length_lt (hp.fresh hf)
  obtain ⟨-, hsource, hinner⟩ := schedule_count hs
  cases mv with
  | bind => exact absurd rfl hbind
  | settle_source =>
    -- the source is settled once, and until then every stage waits
    have hnot : .settle_source ∉ played := by
      simp only [List.count_append, List.count_cons_self] at hsource
      exact List.count_eq_zero.mp (by omega)
    have hclear : Clear inner r.heap 0 r.stages :=
      ⟨hp.fresh hf, fun x hx => ⟨hmade x hx, by simp [hp.held]⟩, by simp [hp.held],
        (hp.waiting hnot).1⟩
    have hsettles := settles inner b 0 r.stages (2 * r.heap.size) source r.heap (by omega) hclear
    exact ⟨source, 0, fun r => by simp only [move],
      (hsettles.mono hp.crashes).lift (fun h₂ hh₂ _ => ⟨h₂, hh₂, trivial⟩) rfl,
      fun _ h => absurd h hnot⟩
  | settle_inner i =>
    have hcount := hinner i
    simp only [List.count_append, List.count_cons_self] at hcount
    split at hcount
    · rename_i hi
      have hnot : .settle_inner i ∉ played := List.count_eq_zero.mp (by omega)
      have hpend := (hp.pending i hi.1 hi.2).mpr hnot
      have hfree : i ∉ r.heap.held := by simp [hp.held]
      refine ⟨inner i, i, fun r => by simp only [move], ?_, fun hnone _ => ⟨?_, ?_⟩⟩
      · by_cases ha : awaited = some i
        -- the chain waits for this promise: the stages behind it run
        · subst ha
          have hplayed : .settle_source ∈ played := by
            by_contra hwait
            simpa using (hp.waiting hwait).2.2
          have hresume := (hp.reached hplayed).resume (b := b)
            (n := 2 * r.heap.size) (hp.fresh hf) hp.held hmade (by omega)
          exact (hresume.mono hp.crashes).lift (fun h₂ hh₂ _ => ⟨h₂, hh₂, trivial⟩) rfl
        -- nothing has been bound to it yet
        · exact .inl ⟨_, settle_unbound hfree hpend (hp.unbound i hi.1 hi.2 hpend ha), trivial⟩
      · exact ⟨hpend, hp.unbound i hi.1 hi.2 hpend (by simp [hnone])⟩
      · rintro rfl
        exact hp.not_mem_ids hi.1 hi.2 (last_mem 0 r.stages)
    · omega

omit [Inhabited V] in
/-- A change of another promise. -/
theorem finished_update {t : PromiseId} (hne : p ≠ t) (h : Heap V E)
    (cell : PromiseState V E (Callbacks V E)) :
    { finished t o h with cells := Function.update (finished t o h).cells p cell }
      = finished t o { h with cells := Function.update h.cells p cell } := by
  simp only [finished, Function.update_of_ne hne.symm, Function.update_comm hne]

omit [Inhabited V] in
/-- Settling a promise that nothing is bound to does not concern a terminator that has
returned. -/
theorem settle_finished {t : PromiseId} {o' : Outcome V E} {h : Heap V E} (hfree : p ∉ h.held)
    (hu : Unbound (h.cells p)) (hne : p ≠ t)
    (call : Callbacks V E → Outcome V E → Heap V E → Ended (Heap V E) (Halt E)) :
    settle b call o p (finished t o' h)
      = returns (finished t o' { h with
          cells := Function.update h.cells p (PromiseState.settled b o (h.cells p)) }) := by
  have hcell : (finished t o' h).cells p = h.cells p := Function.update_of_ne hne ..
  have hfree' : p ∉ (finished t o' h).held := hfree
  rw [← hcell] at hu
  rw [settle_unbound hfree' hu.state hu.unbound, hcell, finished_update hne]

omit [Inhabited V] in
/-- Nothing is bound to the last promise. -/
theorem Progress.end_unbound (hp : Progress inner source m packs played r awaited) :
    (r.heap.cells (last 0 r.stages)).callbacks_assigned = false := by
  rcases hp.end_cases with hu | ⟨-, -, hs, -⟩
  · exact hu.unbound
  · exact hs.unbound

omit [Inhabited V] in
/-- The last promise is settled when nothing is waited for any more. -/
theorem Progress.at_end (hp : Progress inner source m packs played r awaited)
    (hs : SettledWith (r.heap.cells (last 0 r.stages)) o) :
    awaited = none ∧ .settle_source ∈ played ∧
      chain_crashes inner source (r.stages.map Prod.snd) = false ∧
      o = chain_outcome inner source (r.stages.map Prod.snd) := by
  rcases hp.end_cases with hu | ⟨hnone, hplayed, hs', hcrashes⟩
  · exact absurd hu.state hs.not_pending
  · exact ⟨hnone, hplayed, hcrashes, Option.some_inj.mp (hs.outcome.symm.trans hs'.outcome)⟩

/-- **A move after the call that ends the chain.** -/
theorem trailing_move {mv : Move} (later : List Move) {h : Heap V E}
    (hp : Progress inner source m packs played r awaited) (hf : FreshInner m packs)
    (hs : IsSchedule packs.length m (played ++ mv :: later)) (hbind : mv ≠ .bind)
    (ht : Trailing r h) :
    Breaks inner source packs (move b inner source mv { r with heap := h }) ∨
    ∃ r₂ awaited₂ x, move b inner source mv { r with heap := h } = ({ r₂ with heap := x.1 }, x.2) ∧
      Progress inner source m packs (played ++ [mv]) r₂ awaited₂ ∧ r₂.stages = r.stages ∧
      ((∃ h₂, x = returns h₂ ∧ Trailing r₂ h₂) ∨
        (Threw r₂ x ∧ ¬ BoundAndSettled (last 0 r.stages) h)) := by
  obtain ⟨o, p, hmv, ⟨h₂, hshallow, -⟩ | ⟨hcrash, hshallow⟩, hended⟩ :=
    move_settles b hp hf hs hbind
  rotate_left
  · -- the program ends, and the terminator has not been called before
    rcases ht with ⟨hu, rfl⟩ | ⟨o', hsettled, -, rfl⟩
    · refine .inl ⟨hcrash, ?_⟩
      rw [hmv]
      exact (invoke_crashes b (last 0 r.stages) (2 * r.heap.size)).settle hshallow hp.end_lt hu
    · obtain ⟨hnone', hplayed, -, -⟩ := hp.at_end hsettled
      obtain ⟨hunbound, -⟩ := hended hnone' hplayed
      rw [settle_unbound (by simp [hp.held]) hunbound.state hunbound.unbound] at hshallow
      cases hshallow
  right
  have hdeep : settle b (invoke b r.heap.depth) o p r.heap = returns h₂ :=
    (invoke_refines b _).with_lock (f := fun call p => PromiseState.settle b call o p)
      (PromiseState.settle_calls b o) hshallow
  rcases move_progress (b := b) later hp hf hs with ⟨r₂, hmove, awaited₂, hp₂⟩ | ⟨-, hmove⟩
  rotate_left
  · rw [hmv, hdeep] at hmove
    cases hmove
  obtain rfl : { r with heap := h₂ } = r₂ := by
    rw [hmv, hdeep] at hmove
    exact congrArg Prod.fst hmove
  rcases ht with ⟨hu, rfl⟩ | ⟨o', hsettled, hnone, rfl⟩
  · -- the terminator waits
    have hunbound : (h₂.cells (last 0 r.stages)).callbacks_assigned = false := hp₂.end_unbound
    have hfollows := (invoke_follows b (last 0 r.stages) (2 * r.heap.size)).settle hshallow
      hp.end_lt hu hunbound
    refine ⟨{ r with heap := h₂ }, awaited₂, _, hmv _, hp₂, rfl, ?_⟩
    refine (follows_ends (r := { r with heap := h₂ }) hfollows).imp_right fun hthrew => ⟨hthrew, ?_⟩
    intro hbound
    refine hbound.1 ?_
    simp only [terminated, Function.update_self]
    exact hu.state
  · -- the terminator has returned
    obtain ⟨hnone', hplayed, -, -⟩ := hp.at_end hsettled
    obtain ⟨hu, hne⟩ := hended hnone' hplayed
    have hfree : p ∉ r.heap.held := by simp [hp.held]
    rw [settle_unbound hfree hu.state hu.unbound] at hdeep
    obtain rfl : _ = h₂ := congrArg Prod.fst hdeep
    have hreturned : settle b _ o p (finished _ o' r.heap) = _ :=
      settle_finished hfree hu hne (invoke b r.heap.depth)
    refine ⟨_, awaited₂, _, ?_, hp₂, rfl, .inl ⟨_, hreturned, .inr ⟨o', ?_, hnone, rfl⟩⟩⟩
    · exact hmv _
    · simp only [returns_fst, Function.update_of_ne hne.symm]
      exact hsettled

/-! ## Whole runs -/

theorem Rethrows.behind {done ops : List ChainOperation} {start : ChainRun V E}
    (hdone : operates b inner source T done start = returns r)
    (hops : Rethrows b inner source T e ops r) :
    Rethrows b inner source T e (done ++ ops) start := by
  obtain ⟨done', operation, rest, r₁, r₂, rfl, hdone', hthrows, hbefore, hafter⟩ := hops
  refine ⟨done ++ done', operation, rest, r₁, r₂, (List.append_assoc ..).symm, ?_, hthrows, hbefore,
    hafter⟩
  rw [operates_append, hdone, returns_andThen, hdone']

/-- What is rethrown is the only thing that the run throws. -/
theorem Rethrows.throws {ops : List ChainOperation} {start : ChainRun V E}
    (h : Rethrows b inner source T e ops start) :
    (operates b inner source T ops start).2 = some (.threw e) := by
  obtain ⟨done, operation, rest, r₁, r₂, rfl, hdone, hthrows, -, -⟩ := h
  rw [operates_append, hdone, returns_andThen, operates, hthrows, throws_andThen]
  rfl

omit [Inhabited V] in
/-- The error that the terminator has rethrown is what the chain comes to. -/
theorem Threw.rethrown {x : Ended (Heap V E) (Halt E)} (hx : Threw r x)
    (hp : Progress inner source m packs played r awaited) :
    chain_crashes inner source (r.stages.map Prod.snd) = false ∧
      ∃ e, Heap.rethrown (chain_outcome inner source (r.stages.map Prod.snd)) = some e ∧
        x.2 = some (.threw e) ∧ BoundAndSettled (last 0 r.stages) x.1 := by
  obtain ⟨o, e, hs, hr, hthrew, hbound⟩ := hx
  obtain ⟨-, -, hcrashes, rfl⟩ := hp.at_end hs
  exact ⟨hcrashes, e, hr, hthrew, hbound⟩

/-- **The moves after the call that ends the chain.** The induction is on the moves;
the first that throws is the one that settles the last promise. -/
theorem trailing_run (moves later : List Move) {h : Heap V E}
    (hp : Progress inner source m packs played r awaited) (hf : FreshInner m packs)
    (hs : IsSchedule packs.length m (played ++ moves ++ later)) (hbind : .bind ∉ moves)
    (ht : Trailing r h) :
    Breaks inner source packs
      (operates b inner source T (moves.map .move) { r with heap := h }) ∨
    (∃ r₂ awaited₂ h₂, operates b inner source T (moves.map .move) { r with heap := h }
        = returns { r₂ with heap := h₂ } ∧
      Progress inner source m packs (played ++ moves) r₂ awaited₂ ∧ r₂.stages = r.stages ∧
      Trailing r₂ h₂) ∨
    (chain_crashes inner source (r.stages.map Prod.snd) = false ∧
      ∃ e, Heap.rethrown (chain_outcome inner source (r.stages.map Prod.snd)) = some e ∧
        Rethrows b inner source T e (moves.map .move) { r with heap := h }) := by
  induction moves generalizing played r awaited h with
  | nil => exact .inr (.inl ⟨r, awaited, h, rfl, by rwa [List.append_nil], rfl, ht⟩)
  | cons mv moves ih =>
    have hne : mv ≠ .bind := fun heq => hbind (heq ▸ List.mem_cons_self ..)
    rcases trailing_move (b := b) (moves ++ later) hp hf (by simpa using hs) hne ht with
      ⟨hcrash, hbroken⟩ | ⟨r₁, awaited₁, x, hmove, hp₁, hstages, hend⟩
    · refine .inl ⟨hcrash, ?_⟩
      rw [List.map_cons, operates, operate, andThen_of_threw hbroken, hbroken]
    rcases hend with ⟨h₁, rfl, ht₁⟩ | ⟨hthrew, hbefore⟩
    · have hdone : operates b inner source T [.move mv] { r with heap := h }
          = returns { r₁ with heap := h₁ } := by
        simp only [operates, operate, hmove]
        rfl
      have hsplit : ∀ l : List ChainOperation, operates b inner source T (.move mv :: l)
          { r with heap := h } = operates b inner source T l { r₁ with heap := h₁ } := by
        intro l
        rw [← List.singleton_append, operates_append, hdone, returns_andThen]
      rw [List.map_cons, hsplit]
      rcases ih hp₁ (by simpa using hs) (fun hmem => hbind (List.mem_cons_of_mem _ hmem)) ht₁ with
        hbreaks | ⟨r₂, awaited₂, h₂, hrun, hp₂, hstages₂, ht₂⟩ | ⟨hcrashes, e, he, hrethrows⟩
      · exact .inl hbreaks
      · exact .inr (.inl ⟨r₂, awaited₂, h₂, hrun, by simpa using hp₂, hstages₂.trans hstages, ht₂⟩)
      · rw [hstages] at hcrashes he
        exact .inr (.inr ⟨hcrashes, e, he, Rethrows.behind hdone hrethrows⟩)
    · -- this move has settled the last promise; those behind it are not made
      obtain ⟨hcrashes, e, he, hx, hbound⟩ := hthrew.rethrown hp₁
      rw [hstages] at hcrashes he
      refine .inr (.inr ⟨hcrashes, e, he, [], .move mv, moves.map .move, { r with heap := h },
        { r₁ with heap := x.1 }, rfl, rfl, ?_, hbefore, hbound⟩)
      simp only [operate, hmove, hx]
      rfl

theorem EndedSchedule.more (hs : EndedSchedule packs.length m before after) :
    IsSchedule (packs ++ T.pack.toList).length m
      (before ++ T.pack.toList.map (fun _ => .bind) ++ after) := by
  have hschedule := hs.schedule
  unfold IsSchedule at hschedule ⊢
  have hfirst : (before ++ T.pack.toList.map (fun _ => Move.bind) ++ after).Perm
      (T.pack.toList.map (fun _ => .bind) ++ (before ++ after)) := by
    rw [List.append_assoc]
    exact List.perm_append_comm_assoc ..
  refine hfirst.trans ((hschedule.append_left _).trans ?_)
  rw [List.length_append, Nat.add_comm, List.replicate_add, List.append_assoc, List.map_const']

/-- How operations on a chain of `packs` end: a null pointer that comes to a stage
without a handler ends the program, or what the last promise comes to is rethrown by the
operation that brings it there, or nothing is thrown. -/
def EndsRethrowing (b : Build) (inner : PromiseId → Outcome V E) (source : Outcome V E)
    (T : Terminator V E) (packs : List (callback_pack V E)) (ops : List ChainOperation)
    (r : ChainRun V E) : Prop :=
  Breaks inner source packs (operates b inner source T ops r) ∨
    (chain_crashes inner source packs = false ∧
      ((Heap.rethrown (chain_outcome inner source packs) = none ∧
        ∃ r', operates b inner source T ops r = returns r') ∨
      ∃ e, Heap.rethrown (chain_outcome inner source packs) = some e ∧
        Rethrows b inner source T e ops r))

theorem EndsRethrowing.behind {done ops : List ChainOperation} {start : ChainRun V E}
    (hdone : operates b inner source T done start = returns r)
    (hops : EndsRethrowing b inner source T packs ops r) :
    EndsRethrowing b inner source T packs (done ++ ops) start := by
  have hrun : operates b inner source T (done ++ ops) start = operates b inner source T ops r := by
    rw [operates_append, hdone, returns_andThen]
  unfold EndsRethrowing at hops ⊢
  rw [hrun]
  rcases hops with hbreaks | ⟨hcrashes, hreturns | ⟨e, he, hrethrows⟩⟩
  · exact .inl hbreaks
  · exact .inr ⟨hcrashes, .inl hreturns⟩
  · exact .inr ⟨hcrashes, .inr ⟨e, he, hrethrows.behind hdone⟩⟩

/-- **The end of a run, when the terminator has been called and has not thrown.** -/
theorem trailing_ends {moves : List Move} {h : Heap V E}
    (hp : Progress inner source m packs played r awaited) (hf : FreshInner m packs)
    (hs : IsSchedule packs.length m (played ++ moves)) (hbind : .bind ∉ moves)
    (hrest : r.rest = []) (ht : Trailing r h) :
    EndsRethrowing b inner source T packs (moves.map .move) { r with heap := h } := by
  have hpacks : r.stages.map Prod.snd = packs := by simpa [hrest] using hp.packs_eq
  rcases trailing_run (b := b) (T := T) moves [] hp hf (by simpa using hs) hbind ht with
    hbreaks | ⟨r₂, awaited₂, h₂, hrun, hp₂, hstages, ht₂⟩ | ⟨hcrashes, e, he, hrethrows⟩
  · exact .inl hbreaks
  · -- the last promise is settled in the end, and its terminator has returned
    obtain ⟨-, hplayed, hnone⟩ := hp₂.complete hf hs
    have hr₂ := hp₂.reached hplayed
    rw [hnone] at hr₂
    obtain ⟨-, hlast, hcrashes⟩ := hr₂.chain_eq
    rw [hstages, hpacks] at hcrashes
    refine .inr ⟨hcrashes, .inl ⟨?_, _, hrun⟩⟩
    have hout : (chain inner source r₂.stages).1 = chain_outcome inner source packs := by
      rw [chain_fst, hstages, hpacks]
    rw [hout] at hlast
    rcases ht₂ with ⟨hu, -⟩ | ⟨o, hs₂, hr, -⟩
    · exact absurd hu.state hlast.not_pending
    · rwa [Option.some_inj.mp (hlast.outcome.symm.trans hs₂.outcome)]
  · rw [hpacks] at hcrashes he
    exact .inr ⟨hcrashes, .inr ⟨e, he, hrethrows⟩⟩

/-- **How a run ends.** The call of the terminator breaks it, or throws, or returns, and
then the moves behind it decide. -/
theorem operates_ends (b : Build) (T : Terminator V E) (inner : PromiseId → Outcome V E)
    (source : Outcome V E) (hf : FreshInner m packs)
    (hs : EndedSchedule packs.length m before after) :
    EndsRethrowing b inner source T (packs ++ T.pack.toList) (operations before after)
      (start m packs) := by
  have hstart : Progress inner source m packs [] (start m packs) none := start_progress m packs
  have hops : operations before after
      = before.map .move ++ ([.terminate] ++ after.map .move) := rfl
  rw [hops]
  rcases play_progress (b := b) before after hstart hf (by simpa using hs.schedule) with
    ⟨r₁, hplay, awaited₁, hp₁⟩ | ⟨hcrash, hplay⟩
  rotate_left
  · -- the program ends before the terminator is called
    refine .inl ⟨by rw [chain_crashes_append, hcrash, Bool.true_or], ?_⟩
    rw [← operates_moves (T := T)] at hplay
    rw [operates_append, andThen_of_threw hplay, hplay]
  rw [List.nil_append] at hp₁
  have hrest : r₁.rest = [] := by
    have hbind := (schedule_count hs.schedule).1
    rw [List.count_append, List.count_eq_zero.mpr hs.bound] at hbind
    exact List.length_eq_zero_iff.mp (by have := hp₁.bound; omega)
  have hbefore : operates b inner source T (before.map .move) (start m packs) = returns r₁ := by
    rw [operates_moves, hplay]
  refine EndsRethrowing.behind hbefore ?_
  rcases terminate_follows (b := b) (T := T) hp₁ hf hrest with
    ⟨hcrash, hbroken⟩ | ⟨r₂, awaited₂, x, hterminate, hp₂, hrest₂, hfollows⟩
  · -- the program ends in the last stage, which the terminator has bound
    refine .inl ⟨hcrash, ?_⟩
    rw [List.singleton_append, operates, operate, andThen_of_threw hbroken, hbroken]
  rcases follows_ends hfollows with ⟨h, rfl, ht⟩ | hthrew
  · have hterminated : operates b inner source T [.terminate] r₁
        = returns { r₂ with heap := h } := by
      simp only [operates, operate, hterminate]
      rfl
    exact EndsRethrowing.behind hterminated (trailing_ends hp₂ hf.more hs.more hs.bound hrest₂ ht)
  · -- the last promise was settled already, and the terminator has rethrown its error
    obtain ⟨hcrashes, e, he, hx, hbound⟩ := hthrew.rethrown hp₂
    have hpacks : r₂.stages.map Prod.snd = packs ++ T.pack.toList := by
      simpa [hrest₂] using hp₂.packs_eq
    rw [hpacks] at hcrashes he
    refine .inr ⟨hcrashes, .inr ⟨e, he, [], .terminate, after.map .move, r₁,
      { r₂ with heap := x.1 }, rfl, rfl, ?_, ?_, hbound⟩⟩
    · simp only [operate, hterminate, hx]
      rfl
    · rintro ⟨-, hbound⟩
      rw [hp₁.end_unbound] at hbound
      cases hbound

/-- An error comes out of the run exactly when `finish()` rethrows it, and the run gets
that far. -/
theorem rethrows_iff_rethrown (b : Build) (T : Terminator V E) (hf : FreshInner m packs)
    (hs : EndedSchedule packs.length m before after) (e : ExceptionPtr E) :
    Rethrows b inner source T e (operations before after) (start m packs) ↔
      chain_crashes inner source (packs ++ T.pack.toList) = false ∧
        Heap.rethrown (T.outcome inner (chain_outcome inner source packs)) = some e := by
  have hchain : chain_outcome inner source (packs ++ T.pack.toList)
      = T.outcome inner (chain_outcome inner source packs) := by
    rw [chain_outcome_append, chain_outcome_terminator]
  rw [← hchain]
  rcases operates_ends b T inner source hf hs with
    ⟨hcrash, hbroken⟩ | ⟨hcrashes, ⟨hnone, r, hrun⟩ | ⟨e', he', hrethrows⟩⟩
  · rw [hcrash]
    refine ⟨fun h => ?_, fun ⟨hfalse, _⟩ => Bool.noConfusion hfalse⟩
    have hthrew := h.throws
    rw [hbroken] at hthrew
    cases hthrew
  · rw [hnone]
    refine ⟨fun h => ?_, fun ⟨_, hsome⟩ => by cases hsome⟩
    have hthrew := h.throws
    rw [hrun] at hthrew
    cases hthrew
  · rw [he']
    refine ⟨fun h => ?_, fun ⟨_, heq⟩ => ?_⟩
    · have hthrew := hrethrows.throws.symm.trans h.throws
      injection hthrew with hthrew
      injection hthrew with hthrew
      rw [hthrew]
      exact ⟨hcrashes, rfl⟩
    · rwa [← Option.some_inj.mp heq]

/-- **When a rejection is not lost.** For every chain, every terminator, and every
order in which the stages are bound, the chain is ended, and the promises are
settled: the error that the terminator is left with is rethrown by the operation
after which the last promise is bound and settled, if and only if the terminator is
not a `then` without a handler that a rejection comes to, and no null pointer would have
to be rethrown, neither this error nor one that comes to a stage without a handler. -/
theorem rethrows_iff (b : Build) (T : Terminator V E) (inner : PromiseId → Outcome V E)
    (source : Outcome V E) (hf : FreshInner m packs)
    (hs : EndedSchedule packs.length m before after) :
    (∀ e, T.unhandled (chain_outcome inner source packs) = some e →
        Rethrows b inner source T e (operations before after) (start m packs)) ↔
      ∀ e, T.unhandled (chain_outcome inner source packs) = some e →
        ¬ T.Swallows (chain_outcome inner source packs) ∧ e ≠ .null ∧
          chain_crashes inner source (packs ++ T.pack.toList) = false := by
  have hrethrows : ∀ e, Rethrows b inner source T e (operations before after) (start m packs) ↔
      chain_crashes inner source (packs ++ T.pack.toList) = false ∧
        T.unhandled (chain_outcome inner source packs) = some e ∧ e ≠ .null ∧
          ¬ T.Swallows (chain_outcome inner source packs) := fun e =>
    (rethrows_iff_rethrown b T hf hs e).trans (and_congr_right fun _ => T.rethrown_iff inner _ e)
  refine forall₂_congr fun e he => (hrethrows e).trans ⟨?_, ?_⟩
  · rintro ⟨hcrashes, -, hnull, hkept⟩
    exact ⟨hkept, hnull, hcrashes⟩
  · rintro ⟨hkept, hnull, hcrashes⟩
    exact ⟨hcrashes, he, hnull, hkept⟩

/-- A stage without a handler, and `finish()` before the source is rejected. -/
theorem rethrows_iff_finish :
    let packs : List (callback_pack ℕ String) := [{ next := .value fun v => .ok (v + 1) }]
    Rethrows .release (fun _ => .rejected .null) (.rejected (.user "lost")) .finish (.user "lost")
      (operations [.bind] [.settle_source]) (start 0 packs) := by
  intro packs
  have hvalue : ∀ i, ¬ callback_pack.Returns packs[0] i := by
    rintro i ⟨_ | _, ho⟩ <;> cases ho
  refine (rethrows_iff .release .finish _ _ ⟨fun pack hpack i hi => ?_, by simp [packs]⟩
    ⟨by unfold IsSchedule; decide, by decide⟩).mpr (fun e he => ?_) _ rfl
  rotate_left
  · cases he
    exact ⟨id, by decide, rfl⟩
  obtain rfl : pack = packs[0] := by simpa [packs] using hpack
  exact absurd hi (hvalue i)

/-- A rejected promise, and a `then` with nothing but a `next` that returns nothing. -/
theorem not_rethrows_void_then :
    ¬ ∀ (T : Terminator ℕ String) (source : Outcome ℕ String)
      (packs : List (callback_pack ℕ String)) (before after : List Move),
      FreshInner 0 packs → EndedSchedule packs.length 0 before after →
      ∀ e, T.unhandled (chain_outcome (fun _ => source) source packs) = some e →
        Rethrows .debug (fun _ => source) source T e (operations before after) (start 0 packs) := by
  intro h
  have hrethrows := h (.then_void (some fun _ => none) none none) (.rejected (.user "lost")) []
    [.settle_source] [] ⟨nofun, .nil⟩ ⟨by unfold IsSchedule; decide, by decide⟩ (.user "lost") rfl
  have hthrew := hrethrows.throws
  cases hthrew

end Kaiu
