/-
Finalizers compose.

The operator `/` packs several finalizers into one closure, which the only stage of the
chain calls; with `finally`, each finalizer is a stage of its own, which comes after the
inner promise has been settled. In both forms the exception of a finalizer replaces what
there was before, in the closure by the way `throw;` and an exception of the second
finalizer compete, in the chain because the outcome of a stage is passed on by the
defaults of the next one. What a closure runs is part of it, so the callbacks that have
run are read off the log of the chain by what the closure of each stage runs.
-/
import Kaiu.PromiseSchedule
import Mathlib.Data.List.Range

set_option autoImplicit false

namespace Kaiu

open Exit Store Heap

variable {V E : Type*}

/-! ## Packing -/

/-- A `function<void()>` that is not null. The user's finalizers are numbered; a call
adds those that it runs to the ones that have run, and returns or throws. -/
abbrev Finalizer (E : Type*) := List ℕ → Ended (List ℕ) (ExceptionPtr E)

/-- The user's finalizer with the number `i`. -/
def user_finalizer (i : ℕ) (thrown : Option (ExceptionPtr E)) : Finalizer E :=
  fun ran => (ran ++ [i], thrown)

/-- `combine_finalizers`. -/
def combine_finalizers (f1 f2 : Option (Finalizer E)) : Option (Finalizer E) :=
  match f1, f2 with
  | none, f2 => f2
  | some f1, none => some f1
  | some f1, some f2 => some fun ran => andThen (rethrowing (f1 ran) f2) f2

/-- `callback_pack`, with the closure that is its finalizer. -/
structure Packed (V E : Type*) where
  next : Callback V V E := .null
  handler : Callback (ExceptionPtr E) V E := .null
  finalizer : Option (Finalizer E) := none
  same_type : Bool := true

namespace Packed

/-- The operator `/` between a pack and a finalizer. -/
def div (l : Packed V E) (r : Option (Finalizer E)) : Packed V E :=
  { l with finalizer := combine_finalizers l.finalizer r }

/-- What `then` sees of a pack: of the finalizer, whether it is null and what a call of
it throws. -/
def pack (p : Packed V E) : callback_pack V E :=
  { next := p.next, handler := p.handler, finalizer := p.finalizer.map fun f => (f []).2
    same_type := p.same_type }

/-- The user's finalizers that a call of the finalizer runs. -/
def runs (p : Packed V E) : List ℕ :=
  p.finalizer.elim [] fun f => (f []).1

end Packed

variable (same_type : Bool) (next : Callback V V E) (handler : Callback (ExceptionPtr E) V E)
  (fs : List (Option (ExceptionPtr E)))

/-- `next/handler/f1/.../fk`. -/
def merged : Packed V E :=
  fs.zipIdx.foldl (fun l f => l.div (some (user_finalizer f.2 f.1)))
    { next := next, handler := handler, same_type := same_type }

/-- `then(next, handler)->finally(f1)->...->finally(fk)`. -/
def chained : List (Packed V E) :=
  { next := next, handler := handler, same_type := same_type } ::
    fs.zipIdx.map fun f => { finalizer := some (user_finalizer f.2 f.1) }

/-- The user's finalizers that an event stands for, when the stages have been given
`packs`. -/
def finalizers_of (packs : List (PromiseId × Packed V E)) : Event V E → List ℕ
  | .finalizer promise => (packs.lookup promise).elim [] Packed.runs
  | _ => []

/-- The user's finalizers that have run, in order. -/
def finalizers_run (packs : List (Packed V E)) (r : ChainRun V E) : List ℕ :=
  r.heap.log.flatMap (finalizers_of ((r.stages.map Prod.fst).zip packs))

/-- The exception of the last finalizer that threw. -/
def last_thrown : Option (ExceptionPtr E) :=
  (fs.filterMap id).getLast?

/-- What a chain ends with if `next` or `handler` has come to `o`. -/
def finalized (o : Outcome V E) : Outcome V E :=
  (last_thrown fs).elim o .rejected

/-! ## The closure -/

variable {same_type next handler fs} {f : Option (Finalizer E)}

theorem last_thrown_append (thrown : Option (ExceptionPtr E)) :
    last_thrown (fs ++ [thrown]) = thrown.or (last_thrown fs) := by
  unfold last_thrown
  cases thrown <;> simp

/-- What the closure for `fs` does: it runs them in order, and throws what the last of
them that throws does. -/
def Combines (f : Option (Finalizer E)) (fs : List (Option (ExceptionPtr E))) : Prop :=
  match f with
  | none => fs = []
  | some f => fs ≠ [] ∧ ∀ ran, f ran = (ran ++ List.range fs.length, last_thrown fs)

/-- **One more finalizer.** It runs in both branches of the closure, and its exception
replaces one that is on its way. -/
theorem Combines.combine (h : Combines f fs) (thrown : Option (ExceptionPtr E)) :
    Combines (combine_finalizers f (some (user_finalizer fs.length thrown))) (fs ++ [thrown]) := by
  cases f with
  | none =>
    have hnil : fs = [] := h
    subst hnil
    refine ⟨List.cons_ne_nil _ _, fun ran => ?_⟩
    cases thrown <;> rfl
  | some f =>
    obtain ⟨-, hf⟩ := h
    refine ⟨by simp, fun ran => ?_⟩
    have hrange : List.range (fs ++ [thrown]).length = List.range fs.length ++ [fs.length] := by
      rw [List.length_append, List.length_singleton, List.range_succ]
    show andThen (rethrowing (f ran) _) _ = _
    rw [hf ran, hrange, last_thrown_append, ← List.append_assoc]
    cases last_thrown fs with
    | none => cases thrown <;> rfl
    | some error => cases thrown <;> rfl

theorem merged_append (thrown : Option (ExceptionPtr E)) :
    merged same_type next handler (fs ++ [thrown])
      = (merged same_type next handler fs).div (some (user_finalizer fs.length thrown)) := by
  simp [merged, List.zipIdx_append]

/-- **The packed finalizers are one closure that runs all of them.** -/
theorem merged_spec (same_type : Bool) (next : Callback V V E)
    (handler : Callback (ExceptionPtr E) V E) (fs : List (Option (ExceptionPtr E))) :
    (merged same_type next handler fs).next = next ∧
      (merged same_type next handler fs).handler = handler ∧
      (merged same_type next handler fs).same_type = same_type ∧
      Combines (merged same_type next handler fs).finalizer fs := by
  -- induction on the number of finalizers that have been packed
  induction fs using List.reverseRecOn with
  | nil => exact ⟨rfl, rfl, rfl, rfl⟩
  | append_singleton fs thrown ih =>
    obtain ⟨hnext, hhandler, hsame, hcombines⟩ := ih
    rw [merged_append]
    exact ⟨hnext, hhandler, hsame, hcombines.combine thrown⟩

theorem merged_runs : (merged same_type next handler fs).runs = List.range fs.length := by
  obtain ⟨-, -, -, hcombines⟩ := merged_spec same_type next handler fs
  unfold Packed.runs
  cases hf : (merged same_type next handler fs).finalizer with
  | none =>
    rw [hf] at hcombines
    have hnil : fs = [] := hcombines
    rw [hnil]
    rfl
  | some f =>
    rw [hf] at hcombines
    rw [Option.elim_some, hcombines.2 []]
    exact List.nil_append _

theorem merged_thrown :
    (merged same_type next handler fs).pack.finalizer.join = last_thrown fs := by
  obtain ⟨-, -, -, hcombines⟩ := merged_spec same_type next handler fs
  unfold Packed.pack
  cases hf : (merged same_type next handler fs).finalizer with
  | none =>
    rw [hf] at hcombines
    have hnil : fs = [] := hcombines
    rw [hnil]
    rfl
  | some f =>
    rw [hf] at hcombines
    show (f []).2 = _
    rw [hcombines.2 []]

/-! ## The outcomes -/

variable {inner : PromiseId → Outcome V E} {o : Outcome V E}

/-- What `next` or `handler` comes to. -/
def called (inner : PromiseId → Outcome V E) (same_type : Bool) (next : Callback V V E)
    (handler : Callback (ExceptionPtr E) V E) (o : Outcome V E) : Outcome V E :=
  (callback_pack.callback_result
    { next := next, handler := handler, same_type := same_type } o).outcome inner

theorem merged_outcome (promise : PromiseId) :
    (chain inner o [(promise, (merged same_type next handler fs).pack)]).1
      = finalized fs (called inner same_type next handler o) := by
  obtain ⟨hnext, hhandler, hsame, -⟩ := merged_spec same_type next handler fs
  have hcallback : (merged same_type next handler fs).pack.callback_result o
      = callback_pack.callback_result
        { next := next, handler := handler, same_type := same_type } o := by
    unfold callback_pack.callback_result callback_pack.passed_on Packed.pack
    rw [hnext, hhandler, hsame]
  show (callback_pack.result _ o).outcome inner = _
  unfold callback_pack.result finalized called
  rw [merged_thrown, hcallback]
  cases last_thrown fs <;> rfl

theorem finalized_cons (thrown : Option (ExceptionPtr E)) (o : Outcome V E) :
    finalized (thrown :: fs) o = finalized fs (thrown.elim o .rejected) := by
  unfold finalized last_thrown
  cases thrown with
  | none => rfl
  | some error =>
    rw [List.filterMap_cons_some (f := id) rfl, List.getLast?_cons]
    cases (fs.filterMap id).getLast? <;> rfl

/-- A chain of finalizers: each passes on what it is given, or its own exception. -/
theorem finally_outcome {ss : List (Stage V E)}
    (hss : ss.map Prod.snd = fs.map fun thrown => { finalizer := some thrown })
    (o : Outcome V E) : (chain inner o ss).1 = finalized fs o := by
  -- induction on the stages
  induction ss generalizing fs o with
  | nil =>
    obtain rfl := List.map_eq_nil_iff.mp hss.symm
    rfl
  | cons s ss ih =>
    obtain ⟨promise, pack⟩ := s
    cases fs with
    | nil => cases hss
    | cons thrown fs =>
      rw [List.map_cons, List.map_cons, List.cons.injEq] at hss
      obtain ⟨rfl, hss⟩ := hss
      rw [finalized_cons, ← ih hss]
      cases thrown <;> cases o <;> rfl

theorem chained_outcome {ss : List (Stage V E)}
    (hss : ss.map Prod.snd = (chained same_type next handler fs).map Packed.pack) :
    (chain inner o ss).1 = finalized fs (called inner same_type next handler o) := by
  cases ss with
  | nil => cases hss
  | cons s ss =>
    obtain ⟨promise, pack⟩ := s
    rw [chained, List.map_cons, List.map_cons, List.cons.injEq] at hss
    obtain ⟨rfl, hss⟩ := hss
    have hfs : fs.zipIdx.map Prod.fst = fs := List.zipIdx_map_fst 0 fs
    refine finally_outcome (hss.trans ?_) _
    calc (fs.zipIdx.map fun f => { finalizer := some (user_finalizer f.2 f.1) : Packed V E }).map
          Packed.pack
        = (fs.zipIdx.map Prod.fst).map fun thrown => { finalizer := some thrown } := by
          rw [List.map_map, List.map_map]
          rfl
      _ = fs.map fun thrown => { finalizer := some thrown } := by rw [hfs]

/-! ## The finalizers that run -/

/-- **Each stage calls its finalizer once**, whatever its outcome. -/
theorem chain_finalizers {g : Event V E → List ℕ} (hnext : ∀ p v, g (.next p v) = [])
    (hhandler : ∀ p e, g (.handler p e) = []) (ss : List (Stage V E)) (o : Outcome V E) :
    (chain inner o ss).2.flatMap g
      = ss.flatMap fun s => if s.2.finalizer.isSome then g (.finalizer s.1) else [] := by
  induction ss generalizing o with
  | nil => rfl
  | cons s ss ih =>
    obtain ⟨promise, pack⟩ := s
    have hcallback : (pack.callback_events promise o).flatMap g = [] := by
      unfold callback_pack.callback_events
      cases o with
      | resolved value => cases pack.next <;> simp [Callback.events, hnext]
      | rejected error => cases pack.handler <;> simp [Callback.events, hhandler]
    show (pack.events promise o ++ (chain inner _ ss).2).flatMap g = _
    rw [List.flatMap_append, ih, List.flatMap_cons, callback_pack.events, List.flatMap_append,
      hcallback, List.nil_append]
    congr 1
    split <;> simp

/-- A stage is found by its promise. -/
theorem lookup_of_mem {A B : Type*} [BEq A] [LawfulBEq A] {l : List (A × B)}
    (hnodup : (l.map Prod.fst).Nodup) {x : A × B} (hx : x ∈ l) : l.lookup x.1 = some x.2 := by
  obtain ⟨l₁, l₂, rfl⟩ := List.append_of_mem hx
  rw [List.lookup_eq_some_iff]
  refine ⟨l₁, l₂, rfl, fun y hy => ?_⟩
  rw [List.map_append, List.nodup_append] at hnodup
  have hne := hnodup.2.2 y.1 (List.mem_map_of_mem hy) x.1 (by simp)
  simpa using hne.symm

/-- **What has run is what the closures of the stages run**, in the order of the
stages. -/
theorem finalizers_run_eq {packs : List (Packed V E)} {r : ChainRun V E}
    (hpacks : r.stages.map Prod.snd = packs.map Packed.pack)
    (hnodup : (r.stages.map Prod.fst).Nodup)
    (hlog : r.heap.log = (chain inner o r.stages).2) :
    finalizers_run packs r = packs.flatMap Packed.runs := by
  have hlen : (r.stages.map Prod.fst).length = packs.length := by
    have h := congrArg List.length hpacks
    simpa using h
  -- the stages, with the closures that their finalizers are
  generalize hz : (r.stages.map Prod.fst).zip packs = z
  have hkeys : z.map Prod.fst = r.stages.map Prod.fst := by
    rw [← hz, List.map_fst_zip hlen.le]
  have hvalues : z.map Prod.snd = packs := by
    rw [← hz, List.map_snd_zip hlen.ge]
  have hstages : r.stages = z.map fun x => (x.1, x.2.pack) := by
    have hfst : r.stages.map Prod.fst = (z.map fun x => (x.1, x.2.pack)).map Prod.fst := by
      rw [List.map_map, ← hkeys]
      rfl
    have hsnd : r.stages.map Prod.snd = (z.map fun x => (x.1, x.2.pack)).map Prod.snd := by
      rw [hpacks, ← hvalues, List.map_map, List.map_map]
      rfl
    rw [← List.zip_unzip r.stages, List.unzip_eq_map, hfst, hsnd, ← List.unzip_eq_map,
      List.zip_unzip]
  unfold finalizers_run
  rw [hlog, hz, chain_finalizers (fun _ _ => rfl) (fun _ _ => rfl), hstages, ← hvalues,
    List.flatMap_map, List.flatMap_map]
  refine List.flatMap_congr fun x hx => ?_
  have hlookup := lookup_of_mem (hkeys ▸ hnodup) hx
  show (if x.2.pack.finalizer.isSome then (z.lookup x.1).elim [] Packed.runs else []) = x.2.runs
  rw [hlookup]
  cases hf : x.2.finalizer <;> simp [Packed.pack, Packed.runs, hf]

theorem chained_runs :
    (chained same_type next handler fs).flatMap Packed.runs = List.range fs.length := by
  have hruns : ∀ f : Option (ExceptionPtr E) × ℕ,
      Packed.runs ({ finalizer := some (user_finalizer f.2 f.1) } : Packed V E) = [f.2] :=
    fun _ => rfl
  have hnil : Packed.runs
      ({ next := next, handler := handler, same_type := same_type } : Packed V E) = [] := rfl
  rw [chained, List.flatMap_cons, hnil, List.nil_append, List.flatMap_map]
  simp only [hruns]
  rw [← List.map_eq_flatMap, List.zipIdx_map_snd, List.range_eq_range']

/-! ## Both forms -/

variable {m : ℕ}

/-- The packed form returns no other inner promises than `next` and `handler` do. -/
theorem merged_returns {i : PromiseId} (h : (merged same_type next handler fs).pack.Returns i) :
    callback_pack.Returns { next := next, handler := handler, same_type := same_type } i := by
  obtain ⟨o, ho⟩ := h
  obtain ⟨hnext, hhandler, hsame, -⟩ := merged_spec same_type next handler fs
  refine ⟨o, ?_⟩
  unfold callback_pack.result at ho
  split at ho
  · cases ho
  · rw [← ho]
    unfold callback_pack.result callback_pack.callback_result callback_pack.passed_on Packed.pack
    rw [hnext, hhandler, hsame]
    rfl

theorem not_returns_finally {thrown : Option (ExceptionPtr E)} {i : PromiseId} :
    ¬ callback_pack.Returns ({ finalizer := some thrown } : callback_pack V E) i := by
  rintro ⟨o, ho⟩
  cases thrown <;> cases o <;> cases ho

theorem freshInner_merged
    (hf : FreshInner m [{ next := next, handler := handler, same_type := same_type }])
    (fs : List (Option (ExceptionPtr E))) :
    FreshInner m [(merged same_type next handler fs).pack] where
  range pack hpack i hi := by
    obtain rfl := List.mem_singleton.mp hpack
    exact hf.range _ (List.mem_singleton_self _) i (merged_returns hi)
  pairwise := List.pairwise_singleton _ _

theorem freshInner_chained
    (hf : FreshInner m [{ next := next, handler := handler, same_type := same_type }])
    (fs : List (Option (ExceptionPtr E))) :
    FreshInner m ((chained same_type next handler fs).map Packed.pack) := by
  have hrest : ∀ pack ∈ (fs.zipIdx.map fun f =>
      ({ finalizer := some (user_finalizer f.2 f.1) } : Packed V E)).map Packed.pack,
      ∀ i, ¬ pack.Returns i := by
    intro pack hpack i
    simp only [List.map_map, List.mem_map] at hpack
    obtain ⟨f, -, rfl⟩ := hpack
    exact not_returns_finally
  rw [chained, List.map_cons]
  refine ⟨fun pack hpack i hi => ?_, List.pairwise_cons.mpr ⟨fun t ht i _ => hrest t ht i, ?_⟩⟩
  · rcases List.mem_cons.mp hpack with rfl | hpack
    · exact hf.range _ (List.mem_singleton_self _) i hi
    · exact absurd hi (hrest pack hpack i)
  · exact List.pairwise_of_forall_mem_list fun s hs t _ i hi => absurd hi (hrest s hs i)

/-- The packed form is given no null pointer to rethrow if the chain is not. -/
theorem merged_crashes
    (hc : chain_crashes inner o ((chained same_type next handler fs).map Packed.pack) = false) :
    chain_crashes inner o [(merged same_type next handler fs).pack] = false := by
  obtain ⟨-, hhandler, -⟩ := merged_spec same_type next handler fs
  rw [chained, List.map_cons, chain_crashes, Bool.or_eq_false_iff] at hc
  have hfirst : (merged same_type next handler fs).pack.crashes o = false := by
    rw [← hc.1]
    unfold callback_pack.crashes Packed.pack
    rw [hhandler]
  rw [chain_crashes, hfirst, Bool.false_or, chain_crashes]

/-- **Finalizers compose.** For any schedule of either form, the promise at the end has
the exception of the last finalizer that threw, or what `next` or `handler` came to if
none did, and every finalizer has run once, in order. No null pointer may come to a stage
of the chain that has no handler. -/
theorem finalizers_compose [Inhabited V] {b : Build} {source : Outcome V E}
    {merged_moves chained_moves : List Move}
    (hf : FreshInner m [{ next := next, handler := handler, same_type := same_type }])
    (hmerged : IsSchedule 1 m merged_moves) (hchained : IsSchedule (fs.length + 1) m chained_moves)
    (hc : chain_crashes inner source
      ((chained same_type next handler fs).map Packed.pack) = false) :
    (∃ r, play b inner source merged_moves
        (start m [(merged same_type next handler fs).pack]) = returns r ∧
      (r.heap.cells (last 0 r.stages)).outcome
        = some (finalized fs (called inner same_type next handler source)) ∧
      finalizers_run [merged same_type next handler fs] r = List.range fs.length) ∧
    ∃ r, play b inner source chained_moves
        (start m ((chained same_type next handler fs).map Packed.pack)) = returns r ∧
      (r.heap.cells (last 0 r.stages)).outcome
        = some (finalized fs (called inner same_type next handler source)) ∧
      finalizers_run (chained same_type next handler fs) r = List.range fs.length := by
  constructor
  -- one stage, whose finalizer calls all of them
  · have hplays : Ends (chain_crashes inner source _) _ (play b inner source merged_moves _) :=
      play_ends (freshInner_merged hf fs) hmerged
    rw [merged_crashes hc] at hplays
    obtain ⟨r, hplay, -, hpacks, hnodup, hlog, hlast⟩ := hplays.returns
    refine ⟨r, hplay, ?_, ?_⟩
    · obtain ⟨s, hs⟩ : ∃ s, r.stages = [s] := by
        have hlen := congrArg List.length hpacks
        exact List.length_eq_one_iff.mp (by simpa using hlen)
      obtain ⟨promise, pack⟩ := s
      rw [hs] at hpacks
      obtain rfl : pack = (merged same_type next handler fs).pack := List.head_eq_of_cons_eq hpacks
      rw [hlast.outcome, hs, merged_outcome]
    · rw [finalizers_run_eq hpacks hnodup hlog]
      simp [merged_runs]
  -- a stage for each finalizer, with the default `next` and `handler`
  · have hplays : Ends (chain_crashes inner source _) _ (play b inner source chained_moves _) :=
      play_ends (freshInner_chained hf fs) (by simpa [chained] using hchained)
    rw [hc] at hplays
    obtain ⟨r, hplay, -, hpacks, hnodup, hlog, hlast⟩ := hplays.returns
    refine ⟨r, hplay, ?_, ?_⟩
    · rw [hlast.outcome, chained_outcome hpacks]
    · rw [finalizers_run_eq hpacks hnodup hlog, chained_runs]

/-- Of three finalizers the first and the third throw; `next` returns a promise, which is
settled at the end of the one schedule and in the middle of the other. -/
theorem finalizers_compose_three :
    let next : Callback ℕ ℕ String := .promise fun _ => .ok 1
    let fs := [some (.user "first"), none, some (.user "third")]
    let inner : PromiseId → Outcome ℕ String := fun _ => .resolved 7
    (∃ r, play .release inner (.resolved 3) [.bind, .settle_source, .settle_inner 1]
        (start 1 [(merged true next .null fs).pack]) = returns r ∧
      (r.heap.cells (last 0 r.stages)).outcome
        = some (finalized fs (called inner true next .null (.resolved 3))) ∧
      finalizers_run [merged true next .null fs] r = List.range fs.length) ∧
    ∃ r, play .release inner (.resolved 3)
        [.bind, .settle_source, .bind, .settle_inner 1, .bind, .bind]
        (start 1 ((chained true next .null fs).map Packed.pack)) = returns r ∧
      (r.heap.cells (last 0 r.stages)).outcome
        = some (finalized fs (called inner true next .null (.resolved 3))) ∧
      finalizers_run (chained true next .null fs) r = List.range fs.length := by
  refine finalizers_compose ⟨fun pack hpack i hi => ?_, List.pairwise_singleton _ _⟩
    (by unfold IsSchedule; decide) (by unfold IsSchedule; decide) rfl
  obtain rfl := List.mem_singleton.mp hpack
  obtain ⟨_ | _, ho⟩ := hi <;> cases ho
  decide

end Kaiu
