/-
`bind` is the composition of packs.

Between two operations from outside a run is at rest: no lock is held, the promise
that the packs have led to has a standing, and every inner promise that has not been
returned is as it was made or was settled (`Resting`). Calling `then` extends the
standing (`Resting.then_pack`), settling an inner promise moves it on if that is the
one that is waited for (`Resting.settle`). So all that is seen of a run is
`reference`, a function of the leaves; the packs `(a.bind(b)).bind(c)`,
`a.bind(b.bind(c))` and the three packs in a row have the same leaves. All of this is
for runs in which no null pointer comes to a leaf that has no handler (`Safe`).
-/
import Kaiu.PromisePackNest

set_option autoImplicit false

namespace Kaiu

open Exit Store

/-! ## Runs in terms of leaves -/

namespace Standing

variable {V E : Type*} {known : PromiseId → Option (Outcome V E)} {o : Outcome V E}
  {ss ts : List (Stage V E)} {i : PromiseId}

/-- What is waited for at the end of a run is an inner promise of a leaf that has been
run. -/
theorem awaited_advance (hp : ss.Pairwise fun s t => ∀ i, s.2.Returns i → ¬ t.2.Returns i)
    (ha : (advance known o ss).1.awaited = some i) :
    known i = none ∧ Inners ss i ∧ ¬ Inners (advance known o ss).1.rest i := by
  induction ss generalizing o with
  | nil => cases ha
  | cons s ss ih =>
    obtain ⟨hs, hss⟩ := List.pairwise_cons.mp hp
    rw [advance_cons] at ha ⊢
    cases hres : s.2.result o with
    | settled o' =>
      rw [hres] at ha
      obtain ⟨hnone, hi, hrest⟩ := ih hss ha
      exact ⟨hnone, inners_cons.mpr (Or.inr hi), hrest⟩
    | inner j =>
      rw [hres] at ha
      cases hj : known j with
      | some o' =>
        simp only [of_result, hj, extend_settled] at ha ⊢
        obtain ⟨hnone, hi, hrest⟩ := ih hss ha
        exact ⟨hnone, inners_cons.mpr (Or.inr hi), hrest⟩
      | none =>
        simp only [of_result, hj, extend] at ha ⊢
        obtain rfl : j = i := Option.some.inj ha
        have hret : s.2.Returns j := ⟨o, hres⟩
        refine ⟨hj, inners_cons.mpr (Or.inl hret), ?_⟩
        rintro ⟨t, ht, htj⟩
        exact hs t ht j hret htj

/-- The inner promise `i` is settled with `o`; `known` says so already. -/
def hear (known : PromiseId → Option (Outcome V E)) (i : PromiseId) (o : Outcome V E)
    (r : Standing V E) : Standing V E × List (Event V E) :=
  match r with
  | .settled _ => (r, [])
  | .waits j rest => if j = i then advance known o rest else (r, [])

/-- What is known when the promises of the list have been settled. -/
def learned (inner : PromiseId → Outcome V E) :
    List PromiseId → (PromiseId → Option (Outcome V E)) → PromiseId → Option (Outcome V E)
  | [], known => known
  | i :: is, known => learned inner is (Function.update known i (some (inner i)))

/-- The promises of the list are settled, one by one. -/
def hear_all (inner : PromiseId → Outcome V E) :
    List PromiseId → (PromiseId → Option (Outcome V E)) → Standing V E →
      Standing V E × List (Event V E)
  | [], _, r => (r, [])
  | i :: is, known, r =>
    let known := Function.update known i (some (inner i))
    let next := r.hear known i (inner i)
    ((hear_all inner is known next.1).1, next.2 ++ (hear_all inner is known next.1).2)

/-! ### Null pointers -/

/-- What is known of the inner promises is what they are settled with. -/
def Agrees (inner : PromiseId → Outcome V E) (known : PromiseId → Option (Outcome V E)) : Prop :=
  ∀ i o, known i = some o → o = inner i

/-- No null pointer comes to one of the leaves `ss` that has no handler, nor to one of
those that have to wait before them. -/
def Safe (inner : PromiseId → Outcome V E) (r : Standing V E) (ss : List (Stage V E)) : Prop :=
  match r with
  | .settled o => chain_crashes inner o (ss.map Prod.snd) = false
  | .waits i rest => chain_crashes inner (inner i) ((rest ++ ss).map Prod.snd) = false

variable {inner : PromiseId → Outcome V E}

theorem Agrees.update (ha : Agrees inner known) (i : PromiseId) :
    Agrees inner (Function.update known i (some (inner i))) := by
  intro j o hj
  by_cases heq : j = i
  · subst heq
    rw [Function.update_self] at hj
    exact (Option.some.inj hj).symm
  · rw [Function.update_of_ne heq] at hj
    exact ha j o hj

theorem Agrees.learned (ha : Agrees inner known) (is : List PromiseId) :
    Agrees inner (learned inner is known) := by
  induction is generalizing known with
  | nil => exact ha
  | cons i is ih => exact ih (ha.update i)

theorem safe_of_result (ha : Agrees inner known) (res : StageResult V E) :
    Safe inner (of_result known res) ss
      ↔ chain_crashes inner (res.outcome inner) (ss.map Prod.snd) = false := by
  cases res with
  | settled o => rfl
  | inner i =>
    simp only [of_result, StageResult.outcome]
    cases hi : known i with
    | none => rfl
    | some o =>
      obtain rfl := ha i o hi
      rfl

/-- Leaves that are safe run, and those behind them are still safe. The induction is on
the leaves. -/
theorem Safe.advance (ha : Agrees inner known)
    (hs : chain_crashes inner o ((ss ++ ts).map Prod.snd) = false) :
    crashes known o ss = false ∧ Safe inner (advance known o ss).1 ts := by
  induction ss generalizing o with
  | nil => exact ⟨rfl, hs⟩
  | cons s ss ih =>
    simp only [List.cons_append, List.map_cons, chain_crashes, Bool.or_eq_false_iff] at hs
    obtain ⟨hpack, hbehind⟩ := hs
    rw [crashes_cons, advance_cons, hpack, Bool.false_or]
    -- an inner promise that is known goes on at once, any other is waited for
    rw [← safe_of_result ha] at hbehind
    have hrest : (of_result known (s.2.result o)).rest = [] := rest_of_result (s.2.result o)
    cases hres : of_result known (s.2.result o) with
    | settled o' =>
      rw [hres] at hbehind
      exact ih hbehind
    | waits i rest =>
      obtain rfl : rest = [] := by simpa [hres, Standing.rest] using hrest
      rw [hres] at hbehind
      exact ⟨rfl, hbehind⟩

theorem Safe.extend {r : Standing V E} (ha : Agrees inner known) (hs : Safe inner r (ss ++ ts)) :
    crashes_from known r ss = false ∧ Safe inner (r.extend known ss).1 ts := by
  cases r with
  | settled o => exact Safe.advance ha hs
  | waits i rest =>
    refine ⟨rfl, ?_⟩
    simp only [Safe, Standing.extend, List.append_assoc] at hs ⊢
    exact hs

/-- Settling an inner promise keeps a standing safe. -/
theorem Safe.hear {r : Standing V E} (ha : Agrees inner known) (hs : Safe inner r ss)
    (i : PromiseId) : Safe inner (r.hear known i (inner i)).1 ss := by
  cases r with
  | settled o => exact hs
  | waits j rest =>
    simp only [Standing.hear]
    by_cases hj : j = i
    · subst hj
      rw [if_pos rfl]
      exact (Safe.advance ha hs).2
    · rw [if_neg hj]
      exact hs

/-! ### Packs that pass every outcome on -/

/-- Whatever comes in goes out. -/
def Transparent (pack : callback_pack V E) : Prop := ∀ o, pack.result o = .settled o

open Classical in
/-- The leaves that can make a difference to the outcome. -/
noncomputable def solid (ss : List (Stage V E)) : List (Stage V E) :=
  ss.filter fun s => ¬ Transparent s.2

theorem solid_append : solid (ss ++ ts) = solid ss ++ solid ts := List.filter_append ..

theorem solid_cons_transparent {s : Stage V E} (hs : Transparent s.2) :
    solid (s :: ss) = solid ss :=
  List.filter_cons_of_neg (by simpa using hs)

theorem solid_cons {s : Stage V E} (hs : ¬ Transparent s.2) : solid (s :: ss) = s :: solid ss :=
  List.filter_cons_of_pos (by simpa using hs)

/-- The same standing, with the solid leaves only. -/
noncomputable def thin : Standing V E → Standing V E
  | .settled o => .settled o
  | .waits i rest => .waits i (solid rest)

theorem outcome_thin (r : Standing V E) : r.thin.outcome = r.outcome := by
  cases r <;> rfl

/-- Transparent leaves make no difference to where a run leads. The induction is on the
leaves. -/
theorem advance_solid : (advance known o (solid ss)).1 = (advance known o ss).1.thin := by
  induction ss generalizing o with
  | nil => rfl
  | cons s ss ih =>
    by_cases hs : Transparent s.2
    · rw [solid_cons_transparent hs, ih, advance_cons, hs o]
      rfl
    · rw [solid_cons hs, advance_cons, advance_cons]
      have hrest : (of_result known (s.2.result o)).rest = [] := rest_of_result (s.2.result o)
      cases hres : of_result known (s.2.result o) with
      | settled o' => exact ih
      | waits i rest =>
        obtain rfl : rest = [] := by simpa [hres, Standing.rest] using hrest
        rfl

theorem extend_solid (r : Standing V E) :
    (r.thin.extend known (solid ss)).1 = (r.extend known ss).1.thin := by
  cases r with
  | settled o => exact advance_solid
  | waits i rest => simp only [thin, extend, solid_append]

theorem hear_solid (r : Standing V E) :
    (r.thin.hear known i o).1 = (r.hear known i o).1.thin := by
  cases r with
  | settled o' => rfl
  | waits j rest =>
    simp only [thin, hear]
    by_cases hj : j = i
    · rw [if_pos hj, if_pos hj]
      exact advance_solid
    · rw [if_neg hj, if_neg hj]

theorem hear_all_solid (inner : PromiseId → Outcome V E) (is : List PromiseId)
    (r : Standing V E) :
    (r.thin.hear_all inner is known).1 = (r.hear_all inner is known).1.thin := by
  induction is generalizing known r with
  | nil => rfl
  | cons i is ih =>
    simp only [hear_all, hear_solid]
    exact ih _

end Standing

/-- The promise with the input, before any pack. -/
def Pack.Input.standing {V E : Type*} (known : PromiseId → Option (Outcome V E)) :
    Pack.Input V E → Standing V E
  | .value d => .settled (.resolved d)
  | .error e => .settled (.rejected e)
  | .promise => Standing.of_result known (.inner 0)

/-- What the promise with the input is settled with. -/
def Pack.Input.outcome {V E : Type*} (inner : PromiseId → Outcome V E) :
    Pack.Input V E → Outcome V E
  | .value d => .resolved d
  | .error e => .rejected e
  | .promise => inner 0

/-- A null pointer comes to one of the leaves that has no handler. -/
def Pack.Input.crashes {V E : Type*} (inner : PromiseId → Outcome V E) (input : Pack.Input V E)
    (ss : List (Stage V E)) : Bool :=
  chain_crashes inner (input.outcome inner) (ss.map Prod.snd)

namespace Pack.Input

variable {V E : Type*} {inner : PromiseId → Outcome V E} {input : Pack.Input V E}
  {ss : List (Stage V E)}

theorem safe {known : PromiseId → Option (Outcome V E)} (ha : Standing.Agrees inner known)
    (hc : input.crashes inner ss = false) : Standing.Safe inner (input.standing known) ss := by
  cases input with
  | value d => exact hc
  | error e => exact hc
  | promise => exact (Standing.safe_of_result ha (.inner 0)).mpr hc

end Pack.Input

/-- **The reference.** What is seen of leaves that run on an input, when the promises
of `before` are settled before they are bound, and those of `after` then. -/
def reference {V E : Type*} (inner : PromiseId → Outcome V E) (before after : List PromiseId)
    (input : Pack.Input V E) (ss : List (Stage V E)) : Option (Outcome V E) × List (Event V E) :=
  let known := Standing.learned inner before fun _ => none
  let bound := (input.standing known).extend known ss
  let last := bound.1.hear_all inner after known
  (last.1.outcome, bound.2 ++ last.2)

theorem reference_solid {V E : Type*} (inner : PromiseId → Outcome V E)
    (before after : List PromiseId) (input : Pack.Input V E) (ss : List (Stage V E)) :
    (reference inner before after input (Standing.solid ss)).1
      = (reference inner before after input ss).1 := by
  have hthin : ∀ known, (input.standing known).thin = input.standing known := by
    intro known
    cases input with
    | value d => rfl
    | error e => rfl
    | promise =>
      simp only [Pack.Input.standing, Standing.of_result]
      cases known 0 <;> rfl
  simp only [reference]
  rw [← hthin, Standing.extend_solid, Standing.hear_all_solid, Standing.outcome_thin]
  rw [hthin]

/-! ## At rest -/

section Rest

variable {V E : Type*} {b : Build} {m w n : ℕ} {known : PromiseId → Option (Outcome V E)}
  {st st' : Store V E (Binding V E)} {y i : ℕ} {s : Standing V E} {o : Outcome V E}
  {ss ts : List (Stage V E)} {inner : PromiseId → Outcome V E}

/-- No operation is running; `y` has the standing `s`, and the leaves `ss` are still to
be bound behind it. -/
structure Resting (m : ℕ) (known : PromiseId → Option (Outcome V E))
    (st : Store V E (Binding V E)) (y : ℕ) (s : Standing V E) (w : ℕ) (ss : List (Stage V E)) :
    Prop where
  held : st.held = []
  fit : Fit m known st (s.rest ++ ss)
  stands : Stands m st y s w
  outer : y = 0 ∨ m < y
  unsettled : ∀ i ≤ m, known i = none →
    s.awaited = some i ∨ (Unbound (st.cells i) ∧ i ≠ y)
  awaited : ∀ i, s.awaited = some i → i ≤ m ∧ known i = none ∧ ¬ Inners (s.rest ++ ss) i

/-- The promise that the packs have led to is none that a leaf returns. -/
theorem Resting.not_inner (hr : Resting m known st y s w ss) : ¬ Inners (s.rest ++ ss) y := by
  intro hi
  have hrange := hr.fit.range y hi
  rcases hr.outer with rfl | hlt
  · omega
  · omega

/-- Settling a promise that no leaf returns changes nothing for the leaves. -/
theorem Fit.learn (hs : Fit m known st ss) (hi : ¬ Inners ss i) (o : Outcome V E) :
    Fit m (Function.update known i (some o)) st ss where
  size := hs.size
  held := hs.held
  range := hs.range
  untouched j hj := by
    have hne : j ≠ i := fun heq => hi (heq ▸ hj)
    rw [Untouched, Function.update_of_ne hne]
    exact hs.untouched j hj
  pairwise := hs.pairwise

/-- Settling an inner promise that has not been returned. -/
theorem Untouched.settle {cells : PackCells V E} {j : ℕ} (hj : Untouched known cells j)
    (hu : Unbound (cells i)) (b : Build) (o : Outcome V E) :
    Untouched (Function.update known i (some o))
      (Function.update cells i (PromiseState.settled b o (cells i))) j := by
  by_cases heq : j = i
  · subst heq
    simpa [Untouched] using hu.settledWith b o
  · simp only [Untouched, Function.update_of_ne heq] at hj ⊢
    exact hj

theorem Fit.settle (hs : Fit m known st ss) (hu : Unbound (st.cells i)) (b : Build)
    (o : Outcome V E) :
    Fit m (Function.update known i (some o))
      { st with cells := Function.update st.cells i (PromiseState.settled b o (st.cells i)) }
      ss where
  size := hs.size
  held := hs.held
  range := hs.range
  untouched j hj := ⟨(hs.untouched j hj).1, (hs.untouched j hj).2.settle hu b o⟩
  pairwise := hs.pairwise

/-- **The step that runs leaves.** When the leaves `ts` have run, and have led to the
standing `r.1`, the run is at rest again. -/
theorem Resting.leads {own : List ℕ} {r : Standing V E × List (Event V E)} {z v : ℕ}
    (hl : Leads m known own ts st z r v st') (hheld : st.held = [])
    (hfit : Fit m known st (r.1.rest ++ ss)) (hapart : ∀ i, Inners ts i → ¬ Inners ss i)
    (hown : ∀ x ∈ own, ¬ Inners (r.1.rest ++ ss) x) (houter : z = 0 ∨ m < z)
    (hunsettled : ∀ i ≤ m, known i = none →
      r.1.awaited = some i ∨ (Unbound (st.cells i) ∧ i ≠ z ∧ i ∉ own))
    (hawaited : ∀ i, r.1.awaited = some i →
      i ≤ m ∧ known i = none ∧ ¬ Inners (r.1.rest ++ ss) i) :
    Resting m known st' z r.1 v ss where
  held := hl.frame.held_eq.trans hheld
  fit := by
    refine hfit.frame hl.frame fun i hi hx => ?_
    rcases hx with hx | ⟨hts, hnot, -⟩
    · exact hown i hx hi
    · exact (inners_append.mp hi).elim hnot (hapart i hts)
  stands := hl.stands
  outer := houter
  unsettled i hi hnone := by
    rcases hunsettled i hi hnone with ha | ⟨hu, hne, hnot⟩
    · exact Or.inl ha
    · by_cases ha : r.1.awaited = some i
      · exact Or.inl ha
      · have hlt : i < st.size := Nat.lt_of_le_of_lt hi hfit.size
        refine Or.inr ⟨?_, hne⟩
        rw [hl.frame.cells_eq i hlt]
        · exact hu
        · rintro (hx | ⟨-, -, hx⟩)
          · exact hnot hx
          · exact ha (hx hnone)
  awaited := hawaited

theorem hear_other {r : Standing V E} (ha : r.awaited ≠ some i) : r.hear known i o = (r, []) := by
  cases r with
  | settled o' => rfl
  | waits j rest =>
    have hne : j ≠ i := fun heq => ha (congrArg some heq)
    simp only [Standing.hear, if_neg hne]

variable [Inhabited V]

/-- **`then`, from outside.** -/
theorem Resting.then_pack {t : Pack V E} (hr : Resting m known st y s w (t.leaves ++ ss))
    (hn : t.cost + 1 ≤ n) (hc : Standing.crashes_from known s t.leaves = false) :
    ∃ st', Pack.then_pack b (Pack.invoke b n) y t st = (st.size, returns st') ∧
      st'.log = st.log ++ (s.extend known t.leaves).2 ∧
      Resting m known st' st.size (s.extend known t.leaves).1 (w + t.cost + 1) ss := by
  have hsub : ((s.extend known t.leaves).1.rest ++ ss).Sublist (s.rest ++ (t.leaves ++ ss)) := by
    rw [← List.append_assoc]
    exact (Standing.rest_extend s).append_right ss
  have hyi : ¬ Inners t.leaves y := fun hi =>
    hr.not_inner (inners_append.mpr (Or.inr (inners_append.mpr (Or.inl hi))))
  obtain ⟨st', hst', hl⟩ := then_pack_runs (n := n)
    (fun q => callback_runs t (settleRuns_nil m known b q)) hn hr.stands hr.fit.right.left hyi
    hc
  refine ⟨st', hst', hl.log_eq, Resting.leads hl hr.held (hr.fit.sublist hsub)
    (fun _ => hr.fit.right.apart) (fun x hx hi => ?_) (Or.inr hr.fit.size) (fun i hi hnone => ?_)
    fun i hi => ?_⟩
  · obtain rfl : x = y := by simpa using hx
    exact hr.not_inner (inners_sublist hsub hi)
  · rcases hr.unsettled i hi hnone with ha | ⟨hu, hne⟩
    · exact Or.inl (Standing.extend_awaited ha)
    · have hsize := hr.fit.size
      refine Or.inr ⟨hu, by omega, ?_⟩
      simpa using hne
  · cases s with
    | settled o =>
      obtain ⟨hnone, hinner, hrest⟩ := Standing.awaited_advance hr.fit.right.left.pairwise hi
      refine ⟨(hr.fit.right.left.range i hinner).2, hnone, fun hmem => ?_⟩
      exact (inners_append.mp hmem).elim hrest (hr.fit.right.apart hinner)
    | waits j rest =>
      obtain ⟨hle, hnone, hnot⟩ := hr.awaited i hi
      exact ⟨hle, hnone, fun hmem => hnot (inners_sublist hsub hmem)⟩

omit [Inhabited V] in
/-- What is not known after a settlement. -/
theorem unknown_update {j : ℕ} (hj : Function.update known i (some o) j = none) :
    j ≠ i ∧ known j = none := by
  by_cases heq : j = i
  · subst heq
    simp at hj
  · rw [Function.update_of_ne heq] at hj
    exact ⟨heq, hj⟩

/-- The promise that is waited for is settled: the path from it runs. -/
theorem Resting.settle_awaited {rest : List (Stage V E)}
    (hr : Resting m known st y (.waits i rest) w ss) (hn : w ≤ n) (o : Outcome V E)
    (hc : Standing.crashes (Function.update known i (some o)) o rest = false) :
    ∃ st', Store.settle b (Pack.invoke b n) o i st = returns st' ∧
      st'.log = st.log ++ (Standing.advance (Function.update known i (some o)) o rest).2 ∧
      Resting m (Function.update known i (some o)) st' y
        (Standing.advance (Function.update known i (some o)) o rest).1 w ss := by
  obtain ⟨-, -, hnot⟩ := hr.awaited i rfl
  obtain ⟨ks, hp, rfl, rfl, hcost⟩ := hr.stands
  have hfit := hr.fit.learn hnot o
  have hpi : ¬ Inners (path_stages ks) i := fun hmem => hnot (inners_append.mpr (Or.inl hmem))
  obtain ⟨st', hst', hl⟩ := settle_runs m _ b i ks n st o (by omega) hp hfit.left hpi hc
  have hrest : (Standing.advance (Function.update known i (some o)) o
      (path_stages ks)).1.rest.Sublist (path_stages ks) := Standing.rest_advance
  have hsub := hrest.append_right ss
  refine ⟨st', hst', hl.log_eq, Resting.leads (hl.mono (fun _ _ hx => hx) hcost) hr.held
    (hfit.sublist hsub) (fun _ => hfit.apart) (fun x hx hmem => ?_) hr.outer
    (fun j hj hnone => ?_) fun j hj => ?_⟩
  · -- neither `i` nor a later promise of the path is one that a leaf still returns
    rcases List.mem_cons.mp hx with rfl | hx
    · exact hnot (inners_sublist hsub hmem)
    · have hlater := hp.later x hx
      have hrange := hfit.range x (inners_sublist hsub hmem)
      omega
  · obtain ⟨hne, hnone⟩ := unknown_update hnone
    rcases hr.unsettled j hj hnone with ha | ⟨hu, hney⟩
    · exact absurd (Option.some.inj ha).symm hne
    · refine Or.inr ⟨hu, hney, fun hmem => ?_⟩
      rcases List.mem_cons.mp hmem with rfl | hmem
      · exact hne rfl
      · have hlater := hp.later j hmem
        omega
  · obtain ⟨hnone, hinner, hrest⟩ := Standing.awaited_advance hfit.left.pairwise hj
    refine ⟨(hfit.left.range j hinner).2, hnone, fun hmem => ?_⟩
    exact (inners_append.mp hmem).elim hrest (hfit.apart hinner)

/-- A promise is settled that no callback has returned: the outcome is kept in it. -/
theorem Resting.settle_other (hr : Resting m known st y s w ss) (hi : i ≤ m)
    (hnone : known i = none) (ha : s.awaited ≠ some i) (o : Outcome V E) :
    ∃ st', Store.settle b (Pack.invoke b n) o i st = returns st' ∧ st'.log = st.log ∧
      Resting m (Function.update known i (some o)) st' y s w ss := by
  obtain ⟨hu, hne⟩ := (hr.unsettled i hi hnone).resolve_left ha
  refine ⟨_, settle_unbound (by simp [hr.held]) hu.state hu.unbound, rfl, hr.held,
    hr.fit.settle hu b o, ?_, hr.outer, fun j hj hnone' => ?_, fun j hj => ?_⟩
  · cases s with
    | settled o' =>
      refine ⟨?_, hr.stands.2⟩
      simp only [Function.update_of_ne hne.symm]
      exact hr.stands.1
    | waits j rest =>
      obtain ⟨ks, hp, hend, hstages, hcost⟩ := hr.stands
      refine ⟨ks, ⟨hp.linked.congr fun x hx => Function.update_of_ne ?_ .., hp.free, hp.later⟩,
        hend, hstages, hcost⟩
      rintro rfl
      rcases List.mem_cons.mp hx with rfl | hx
      · exact ha rfl
      · have hlater := hp.later x hx
        omega
  · obtain ⟨hji, hnone'⟩ := unknown_update hnone'
    simp only [Function.update_of_ne hji]
    exact hr.unsettled j hj hnone'
  · obtain ⟨hle, hnone', hnot⟩ := hr.awaited j hj
    have hji : j ≠ i := by
      rintro rfl
      exact ha hj
    refine ⟨hle, ?_, hnot⟩
    rw [Function.update_of_ne hji]
    exact hnone'

/-- **A settlement, from outside.** It moves the standing on if it is the one that is
waited for, and is kept for later otherwise. -/
theorem Resting.settle (hr : Resting m known st y s w ss) (hi : i ≤ m) (hnone : known i = none)
    (hn : w ≤ n) (o : Outcome V E)
    (hc : ∀ rest, s = .waits i rest →
      Standing.crashes (Function.update known i (some o)) o rest = false) :
    ∃ st', Store.settle b (Pack.invoke b n) o i st = returns st' ∧
      st'.log = st.log ++ (s.hear (Function.update known i (some o)) i o).2 ∧
      Resting m (Function.update known i (some o)) st' y
        (s.hear (Function.update known i (some o)) i o).1 w ss := by
  by_cases ha : s.awaited = some i
  · cases s with
    | settled o' => cases ha
    | waits j rest =>
      obtain rfl : j = i := Option.some.inj ha
      simp only [Standing.hear, if_true]
      exact hr.settle_awaited hn o (hc rest rfl)
  · rw [hear_other ha, List.append_nil]
    exact hr.settle_other hi hnone ha o

/-! ## Whole runs -/

/-- The leaves of packs that are bound one after the other. -/
def leaves_of (packs : List (Pack V E)) : List (Stage V E) := packs.flatMap Pack.leaves

/-- A depth that their nests do not exceed. -/
def cost_of (packs : List (Pack V E)) : ℕ := (packs.map fun t => t.cost + 1).sum

/-- **Packs that are bound one after the other.** The induction is on the packs. -/
theorem Resting.then_all {packs : List (Pack V E)}
    (hr : Resting m known st y s w (leaves_of packs ++ ss)) (hn : cost_of packs ≤ n)
    (hc : Standing.crashes_from known s (leaves_of packs) = false) :
    ∃ z st', Pack.then_all b n packs y st = (z, returns st') ∧
      st'.log = st.log ++ (s.extend known (leaves_of packs)).2 ∧
      Resting m known st' z (s.extend known (leaves_of packs)).1 (w + cost_of packs) ss := by
  induction packs generalizing st y s w with
  | nil => exact ⟨y, st, rfl, by simp [leaves_of], by simpa [leaves_of, cost_of] using hr⟩
  | cons t packs ih =>
    simp only [leaves_of, List.flatMap_cons, List.append_assoc] at hr
    simp only [cost_of, List.map_cons, List.sum_cons] at hn
    -- neither the first pack nor one behind it is given a null pointer to rethrow
    have hcrashes : Standing.crashes_from known s (t.leaves ++ leaves_of packs) = _ :=
      Standing.crashes_from_append s
    change Standing.crashes_from known s (leaves_of (t :: packs)) = _ at hcrashes
    rw [hcrashes, Bool.or_eq_false_iff] at hc
    obtain ⟨st₁, hst₁, hlog₁, hr₁⟩ := hr.then_pack (b := b) (n := n) (by omega) hc.1
    obtain ⟨z, st', hst', hlog', hr'⟩ := ih hr₁ (by simp only [cost_of]; omega) hc.2
    have hextend : s.extend known (t.leaves ++ leaves_of packs) = _ := Standing.extend_append s
    change s.extend known (leaves_of (t :: packs)) = _ at hextend
    refine ⟨z, st', ?_, ?_, ?_⟩
    · rw [Pack.then_all, hst₁]
      exact hst'
    · rw [hextend, hlog', hlog₁, List.append_assoc]
    · have hcost : w + cost_of (t :: packs) = w + t.cost + 1 + cost_of packs := by
        simp only [cost_of, List.map_cons, List.sum_cons]
        omega
      rw [hextend, hcost]
      exact hr'

/-- **Settlements one after the other.** The induction is on the promises. -/
theorem Resting.settle_all (inner : PromiseId → Outcome V E) {is : List ℕ}
    (hr : Resting m known st y s w ss) (hn : w ≤ n) (hnodup : is.Nodup)
    (his : ∀ i ∈ is, i ≤ m ∧ known i = none) (ha : Standing.Agrees inner known)
    (hs : Standing.Safe inner s ss) :
    ∃ st', Pack.settle_all b n inner is st = returns st' ∧
      st'.log = st.log ++ (s.hear_all inner is known).2 ∧
      Resting m (Standing.learned inner is known) st' y (s.hear_all inner is known).1 w ss := by
  induction is generalizing st s known with
  | nil => exact ⟨st, rfl, (List.append_nil _).symm, hr⟩
  | cons i is ih =>
    obtain ⟨hi, his'⟩ := List.nodup_cons.mp hnodup
    obtain ⟨hle, hnone⟩ := his i (List.mem_cons_self ..)
    have ha' := ha.update i
    obtain ⟨st₁, hst₁, hlog₁, hr₁⟩ := hr.settle (b := b) hle hnone hn (inner i) (by
      rintro rest rfl
      exact (Standing.Safe.advance ha' hs).1)
    obtain ⟨st', hst', hlog', hr'⟩ := ih hr₁ his' (fun j hj => by
      have hne : j ≠ i := fun heq => hi (heq ▸ hj)
      rw [Function.update_of_ne hne]
      exact his j (List.mem_cons_of_mem i hj)) ha' (hs.hear ha' i)
    refine ⟨st', ?_, ?_, hr'⟩
    · rw [Pack.settle_all, hst₁, returns_andThen, hst']
    · rw [hlog', hlog₁, List.append_assoc]
      rfl

/-- Nothing has been bound yet. -/
structure Before (m : ℕ) (known : PromiseId → Option (Outcome V E))
    (st : Store V E (Binding V E)) : Prop where
  held : st.held = []
  size : st.size = m + 1
  log : st.log = []
  untouched : ∀ i ≤ m, Untouched known st.cells i

theorem before_start (m : ℕ) : Before m (fun _ => none) (Pack.start m : Store V E (Binding V E)) :=
  ⟨rfl, rfl, rfl, fun _ _ => unbound_new⟩

/-- Settlements before anything is bound. The induction is on the promises. -/
theorem Before.settle_all (inner : PromiseId → Outcome V E) {is : List ℕ}
    (hb : Before m known st) (hnodup : is.Nodup) (his : ∀ i ∈ is, i ≤ m ∧ known i = none) :
    ∃ st', Pack.settle_all b n inner is st = returns st' ∧
      Before m (Standing.learned inner is known) st' := by
  induction is generalizing st known with
  | nil => exact ⟨st, rfl, hb⟩
  | cons i is ih =>
    obtain ⟨hi, his'⟩ := List.nodup_cons.mp hnodup
    obtain ⟨hle, hnone⟩ := his i (List.mem_cons_self ..)
    have hu : Unbound (st.cells i) := by
      have huntouched := hb.untouched i hle
      rwa [Untouched, hnone] at huntouched
    have hb₁ : Before m (Function.update known i (some (inner i))) { st with
        cells := Function.update st.cells i (PromiseState.settled b (inner i) (st.cells i)) } :=
      ⟨hb.held, hb.size, hb.log, fun j hj => (hb.untouched j hj).settle hu b (inner i)⟩
    obtain ⟨st', hst', hb'⟩ := ih hb₁ his' fun j hj => by
      have hne : j ≠ i := fun heq => hi (heq ▸ hj)
      rw [Function.update_of_ne hne]
      exact his j (List.mem_cons_of_mem i hj)
    refine ⟨st', ?_, hb'⟩
    rw [Pack.settle_all, settle_unbound (by simp [hb.held]) hu.state hu.unbound,
      returns_andThen, hst']

omit [Inhabited V] in
theorem Before.fit (hb : Before m known st) (hf : FreshInner m (ss.map Prod.snd)) :
    Fit m known st ss where
  size := by
    rw [hb.size]
    exact Nat.lt_succ_self m
  held x hx := by
    rw [hb.held] at hx
    cases hx
  range i hi := by
    obtain ⟨s, hs, hsi⟩ := hi
    exact hf.range s.2 (List.mem_map_of_mem hs) i hsi
  untouched i hi := by
    obtain ⟨s, hs, hsi⟩ := hi
    rw [hb.held]
    exact ⟨List.not_mem_nil, hb.untouched i (hf.range s.2 (List.mem_map_of_mem hs) i hsi).2⟩
  pairwise := List.pairwise_map.mp hf.pairwise

/-- The promise with the input. -/
def source (b : Build) (input : Pack.Input V E) (st : Store V E (Binding V E)) :
    ℕ × Store V E (Binding V E) :=
  match input with
  | .value d => immediate b (.resolved d) st
  | .error e => immediate b (.rejected e) st
  | .promise => (0, st)

theorem chained_eq (b : Build) (n : ℕ) (packs : List (Pack V E)) (input : Pack.Input V E)
    (st : Store V E (Binding V E)) :
    Pack.chained b n packs input st
      = Pack.then_all b n packs (source b input st).1 (source b input st).2 := by
  cases input <;> rfl

/-- Applying a pack is calling `then` with it. -/
theorem applied_eq (b : Build) (n : ℕ) (t : Pack V E) (input : Pack.Input V E)
    (st : Store V E (Binding V E)) :
    Pack.applied b n t input st = Pack.chained b n [t] input st := by
  have hthen : ∀ p st, Pack.then_pack b (Pack.invoke b n) p t st = Pack.then_all b n [t] p st := by
    intro p st
    rw [Pack.then_all]
    rcases Pack.then_pack b (Pack.invoke b n) p t st with ⟨q, st', _ | x⟩ <;> rfl
  rw [chained_eq, ← hthen]
  cases input <;> rfl

/-- A new promise that is settled, when nothing has been bound. -/
theorem Before.immediate (hb : Before m known st) (hf : FreshInner m (ss.map Prod.snd))
    (o : Outcome V E) :
    Resting m known (immediate b o st).2 st.size (.settled o) 0 ss := by
  have hfit := hb.fit hf
  have hl : Leads m known [] [] st st.size (.settled o, []) 0 _ :=
    immediate_leads hfit.held b o []
  rw [logged_nil] at hl
  refine Resting.leads hl hb.held hfit (fun i hi => absurd hi not_inners_nil)
    (fun x hx => by cases hx) (Or.inr hfit.size) (fun i hi hnone => ?_) fun i hi => by cases hi
  have huntouched := hb.untouched i hi
  rw [Untouched, hnone] at huntouched
  have hsize := hfit.size
  refine Or.inr ⟨huntouched, by omega, List.not_mem_nil⟩

theorem Before.resting (hb : Before m known st) (hf : FreshInner m (ss.map Prod.snd))
    (input : Pack.Input V E) :
    Resting m known (source b input st).2 (source b input st).1 (input.standing known) 0 ss ∧
      (source b input st).2.log = [] := by
  cases input with
  | value d => exact ⟨hb.immediate hf (.resolved d), hb.log⟩
  | error e => exact ⟨hb.immediate hf (.rejected e), hb.log⟩
  | promise =>
    have hfit := hb.fit hf
    have hrest : (Standing.of_result known (.inner 0)).rest = [] := Standing.rest_of_result _
    have hsize := hfit.size
    have hfree : st.Free 0 := ⟨by omega, by simp [hb.held]⟩
    refine ⟨⟨hb.held, ?_, stands_inner hfree (hb.untouched 0 (Nat.zero_le m)), Or.inl rfl,
      fun i hi hnone => ?_, fun i hi => ?_⟩, hb.log⟩
    · show Fit m known st ((Standing.of_result known (.inner 0)).rest ++ ss)
      rw [hrest]
      exact hfit
    · by_cases hi0 : i = 0
      · subst hi0
        simp [Pack.Input.standing, Standing.of_result, hnone, Standing.awaited]
      · have huntouched := hb.untouched i hi
        rw [Untouched, hnone] at huntouched
        exact Or.inr ⟨huntouched, hi0⟩
    · simp only [Pack.Input.standing] at hi ⊢
      rw [hrest, List.nil_append]
      cases h0 : known 0 with
      | some o => simp [Standing.of_result, h0, Standing.awaited] at hi
      | none =>
        obtain rfl : 0 = i := by simpa [Standing.of_result, h0, Standing.awaited] using hi
        refine ⟨Nat.zero_le m, h0, fun hmem => ?_⟩
        have hrange := hfit.range 0 hmem
        omega

omit [Inhabited V] in
/-- What is seen of a promise is its standing. -/
theorem Stands.outcome (hs : Stands m st y s w) : (st.cells y).outcome = s.outcome := by
  cases s with
  | settled o => exact hs.1.outcome
  | waits i rest =>
    obtain ⟨ks, hp, rfl, -⟩ := hs
    simp [PromiseState.outcome, hp.linked.end_unbound.state, Standing.outcome]

omit [Inhabited V] in
theorem learned_other {is : List ℕ} (hi : i ∉ is) :
    Standing.learned inner is known i = known i := by
  induction is generalizing known with
  | nil => rfl
  | cons j is ih =>
    have hne : i ≠ j := List.ne_of_not_mem_cons hi
    rw [Standing.learned, ih (List.not_mem_of_not_mem_cons hi), Function.update_of_ne hne]

/-- **What is seen of packs that are bound in a row** is what the reference says of their
leaves. -/
theorem play_chained {packs : List (Pack V E)} {before after : List ℕ}
    (hf : FreshInner m ((leaves_of packs).map Prod.snd)) (hnodup : (before ++ after).Nodup)
    (hle : ∀ i ∈ before ++ after, i ≤ m) (hn : cost_of packs ≤ n) (input : Pack.Input V E)
    (hc : input.crashes inner (leaves_of packs) = false) :
    Pack.play b n m inner before after (Pack.chained b n packs input)
      = returns (reference inner before after input (leaves_of packs)) := by
  obtain ⟨hbefore, hafter, hdisjoint⟩ := List.nodup_append.mp hnodup
  have ha : Standing.Agrees inner (Standing.learned inner before fun _ => none) :=
    Standing.Agrees.learned (fun _ _ hnone => by cases hnone) before
  -- what is safe at the binding is still safe at the settlements behind it
  have hsafe := Pack.Input.safe ha hc
  rw [← List.append_nil (leaves_of packs)] at hsafe
  obtain ⟨hcrashes, hwaits⟩ := hsafe.extend ha
  -- the three parts of the run, each from the state the one before it has left
  obtain ⟨st₁, hst₁, hb₁⟩ := (before_start m).settle_all (b := b) (n := n) inner hbefore
    fun i hi => ⟨hle i (List.mem_append_left _ hi), rfl⟩
  obtain ⟨hr₁, hlog₁⟩ := hb₁.resting (b := b) hf input
  rw [← List.append_nil (leaves_of packs)] at hr₁
  obtain ⟨z, st₂, hst₂, hlog₂, hr₂⟩ := hr₁.then_all (b := b) hn hcrashes
  obtain ⟨st₃, hst₃, hlog₃, hr₃⟩ := hr₂.settle_all (b := b) (n := n) inner (by omega)
    hafter (fun i hi => by
      have hnot : i ∉ before := fun hmem => hdisjoint i hmem i hi rfl
      exact ⟨hle i (List.mem_append_right _ hi), learned_other hnot⟩) ha hwaits
  rw [← chained_eq] at hst₂
  have hplay : Pack.play b n m inner before after (Pack.chained b n packs input)
      = returns ((st₃.cells z).outcome, st₃.log) := by
    simp only [Pack.play, hst₁, returns_fst, hst₂, returns_andThen, hst₃, returns_snd]
    rfl
  rw [hplay, hr₃.stands.outcome, hlog₃, hlog₂, hlog₁, List.nil_append]
  rfl

/-- **What is seen of a pack that is applied**, however it was made. -/
theorem play_applied {t : Pack V E} {before after : List ℕ}
    (hf : FreshInner m (t.leaves.map Prod.snd)) (hnodup : (before ++ after).Nodup)
    (hle : ∀ i ∈ before ++ after, i ≤ m) (hn : t.cost + 1 ≤ n) (input : Pack.Input V E)
    (hc : input.crashes inner t.leaves = false) :
    Pack.play b n m inner before after (Pack.applied b n t input)
      = returns (reference inner before after input t.leaves) := by
  have happlied : Pack.applied b n t input = Pack.chained b n [t] input :=
    funext fun st => applied_eq b n t input st
  have hleaves : leaves_of [t] = t.leaves := by simp [leaves_of]
  rw [happlied, ← hleaves]
  refine play_chained ?_ hnodup hle ?_ input ?_
  · rwa [hleaves]
  · simpa [cost_of] using hn
  · rwa [hleaves]

end Rest

/-- The callbacks of nested packs, around an inner promise that is rejected. -/
example :
    Pack.play .debug 10 1 (fun i => if i = 0 then .resolved 3 else .rejected .null) [] [0, 1]
      (Pack.applied .debug 10
        (Pack.bind (.user 1 { next := .value fun v => .ok (v + 1), finalizer := some none })
          (.bind (.user 2 { next := .promise fun _ => .ok 1 })
            (.user 3 { handler := .value fun _ => .ok 5 }))) .promise)
      = returns (some (Outcome.resolved 5), [Event.next 1 3, .finalizer 1, .next 2 4,
          (.handler 3 .null : Event ℕ String)]) := by
  decide

/-! ## The monad -/

section Monad

variable {V E : Type*} [Inhabited V] {build : Build} {m n : ℕ} {before after : List ℕ}
  {a b c : Pack V E}

omit [Inhabited V] in
theorem leaves_monad (packs : List (Pack V E)) :
    (a.monad packs).leaves = leaves_of (a :: packs) := by
  induction packs generalizing a with
  | nil => simp [Pack.monad, leaves_of]
  | cons b packs ih =>
    rw [Pack.monad, Pack.leaves, ih]
    rfl

omit [Inhabited V] in
theorem cost_of_le (packs : List (Pack V E)) : cost_of (a :: packs) ≤ (a.monad packs).cost + 1 := by
  induction packs generalizing a with
  | nil => simp [Pack.monad, cost_of]
  | cons b packs ih =>
    have hb : cost_of (b :: packs) ≤ (b.monad packs).cost + 1 := ih
    have hcons : cost_of (a :: b :: packs) = a.cost + 1 + cost_of (b :: packs) := rfl
    rw [Pack.monad, Pack.cost, hcons]
    omega

/-- **`>>=` is `then` after `then`.** The operator groups to the right, and `then` to the
left: nothing that is seen of a run tells them apart. -/
theorem play_monad {packs : List (Pack V E)}
    (hf : FreshInner m ((leaves_of (a :: packs)).map Prod.snd)) (hnodup : (before ++ after).Nodup)
    (hle : ∀ i ∈ before ++ after, i ≤ m) (hn : (a.monad packs).cost + 1 ≤ n)
    (inner : PromiseId → Outcome V E) (input : Pack.Input V E)
    (hc : input.crashes inner (leaves_of (a :: packs)) = false) :
    Pack.play build n m inner before after (Pack.applied build n (a.monad packs) input)
      = Pack.play build n m inner before after (Pack.chained build n (a :: packs) input) := by
  have hcost := cost_of_le (a := a) packs
  rw [← leaves_monad] at hf hc
  rw [play_applied hf hnodup hle hn input hc]
  rw [leaves_monad] at hf hc ⊢
  exact (play_chained hf hnodup hle (by omega) input hc).symm

omit [Inhabited V] in
theorem transparent_unit : Standing.Transparent ({ next := .value .ok } : callback_pack V E) := by
  intro o
  cases o <;> rfl

omit [Inhabited V] in
theorem FreshInner.sublist {packs packs' : List (callback_pack V E)} (hf : FreshInner m packs)
    (hsub : packs'.Sublist packs) : FreshInner m packs' where
  range pack hpack := hf.range pack (hsub.subset hpack)
  pairwise := hf.pairwise.sublist hsub

omit [Inhabited V] in
/-- A pack that returns no promise from outside can stand anywhere. -/
theorem FreshInner.insert {packs packs' : List (callback_pack V E)} {pack : callback_pack V E}
    (hf : FreshInner m (packs ++ packs')) (hpack : ∀ i, ¬ pack.Returns i) :
    FreshInner m (packs ++ pack :: packs') where
  range p hp i hi := by
    rcases List.mem_append.mp hp with hp | hp
    · exact hf.range p (List.mem_append_left _ hp) i hi
    · rcases List.mem_cons.mp hp with rfl | hp
      · exact absurd hi (hpack i)
      · exact hf.range p (List.mem_append_right _ hp) i hi
  pairwise := by
    obtain ⟨h₁, h₂, h₁₂⟩ := List.pairwise_append.mp hf.pairwise
    refine List.pairwise_append.mpr ⟨h₁, .cons (fun _ _ i hi => absurd hi (hpack i)) h₂, ?_⟩
    intro s hs t ht i hsi hti
    rcases List.mem_cons.mp ht with rfl | ht
    · exact hpack i hti
    · exact h₁₂ s hs t ht i hsi hti

omit [Inhabited V] in
/-- The pack of `promise::resolved` returns no promise from outside. -/
theorem unit_not_returns (i : PromiseId) :
    ¬ callback_pack.Returns ({ next := .value .ok } : callback_pack V E) i := by
  rintro ⟨o, ho⟩
  rw [transparent_unit o] at ho
  cases ho

omit [Inhabited V] in
theorem FreshInner.unit_bind (ha : FreshInner m (a.leaves.map Prod.snd)) (name : ℕ) :
    FreshInner m (((Pack.unit name).bind a).leaves.map Prod.snd) := by
  have hinsert : FreshInner m ([] ++ { next := .value .ok } :: a.leaves.map Prod.snd) :=
    FreshInner.insert ha unit_not_returns
  exact hinsert

omit [Inhabited V] in
theorem FreshInner.bind_unit (ha : FreshInner m (a.leaves.map Prod.snd)) (name : ℕ) :
    FreshInner m ((a.bind (Pack.unit name)).leaves.map Prod.snd) := by
  rw [Pack.leaves, List.map_append]
  refine FreshInner.insert ?_ unit_not_returns
  rwa [List.map_nil, List.append_nil]

omit [Inhabited V] in
/-- The pack of `promise::resolved` makes no difference to the outcome, on the left. -/
theorem reference_unit_bind (inner : PromiseId → Outcome V E) (input : Pack.Input V E) (name : ℕ) :
    (reference inner before after input ((Pack.unit name).bind a).leaves).1
      = (reference inner before after input a.leaves).1 := by
  have hsolid : Standing.solid ((Pack.unit name).bind a).leaves = Standing.solid a.leaves :=
    Standing.solid_cons_transparent transparent_unit
  rw [← reference_solid, hsolid, reference_solid]

omit [Inhabited V] in
/-- And on the right. -/
theorem reference_bind_unit (inner : PromiseId → Outcome V E) (input : Pack.Input V E) (name : ℕ) :
    (reference inner before after input (a.bind (Pack.unit name)).leaves).1
      = (reference inner before after input a.leaves).1 := by
  have hunit : Standing.solid (Pack.unit name : Pack V E).leaves = [] :=
    Standing.solid_cons_transparent transparent_unit
  have hsolid : Standing.solid (a.bind (Pack.unit name)).leaves = Standing.solid a.leaves := by
    rw [Pack.leaves, Standing.solid_append, hunit, List.append_nil]
  rw [← reference_solid, hsolid, reference_solid]

/-- **`bind` is the monadic composition of packs.** However three packs are bound to one
another, and whether they are bound at all or given to `then` one by one, every input
leads to the outcome of the reference, with the same callbacks run in the same order, also
while inner promises are waited for; and the pack of `promise::resolved` makes no
difference to the outcome on either side. Of each of these the premise is that no null
pointer comes to a pack without a handler, as the pack of `promise::resolved` is. -/
theorem bind_is_composition (name : ℕ)
    (hf : FreshInner m ((a.leaves ++ (b.leaves ++ c.leaves)).map Prod.snd))
    (hnodup : (before ++ after).Nodup) (hle : ∀ i ∈ before ++ after, i ≤ m)
    (hn : a.cost + b.cost + c.cost + 7 ≤ n) (inner : PromiseId → Outcome V E)
    (input : Pack.Input V E) :
    (input.crashes inner (a.leaves ++ (b.leaves ++ c.leaves)) = false →
      Pack.play build n m inner before after (Pack.applied build n ((a.bind b).bind c) input)
        = returns (reference inner before after input (a.leaves ++ (b.leaves ++ c.leaves))) ∧
      Pack.play build n m inner before after (Pack.applied build n (a.bind (b.bind c)) input)
        = returns (reference inner before after input (a.leaves ++ (b.leaves ++ c.leaves))) ∧
      Pack.play build n m inner before after (Pack.chained build n [a, b, c] input)
        = returns (reference inner before after input (a.leaves ++ (b.leaves ++ c.leaves)))) ∧
    (input.crashes inner a.leaves = false →
      Pack.play build n m inner before after (Pack.applied build n a input)
        = returns (reference inner before after input a.leaves)) ∧
    (input.crashes inner ((Pack.unit name).bind a).leaves = false → ∃ seen,
      Pack.play build n m inner before after (Pack.applied build n ((Pack.unit name).bind a) input)
        = returns seen ∧ seen.1 = (reference inner before after input a.leaves).1) ∧
    (input.crashes inner (a.bind (Pack.unit name)).leaves = false → ∃ seen,
      Pack.play build n m inner before after (Pack.applied build n (a.bind (Pack.unit name)) input)
        = returns seen ∧ seen.1 = (reference inner before after input a.leaves).1) := by
  have hleft : ((a.bind b).bind c).leaves = a.leaves ++ (b.leaves ++ c.leaves) :=
    List.append_assoc ..
  have hchain : leaves_of [a, b, c] = a.leaves ++ (b.leaves ++ c.leaves) := by simp [leaves_of]
  have ha : FreshInner m (a.leaves.map Prod.snd) :=
    hf.sublist ((List.sublist_append_left ..).map Prod.snd)
  have hcost : (Pack.unit name : Pack V E).cost = 1 := rfl
  refine ⟨fun hc => ⟨?_, ?_, ?_⟩, fun hc => ?_, fun hc => ?_, fun hc => ?_⟩
  · rw [← hleft] at hf hc ⊢
    exact play_applied hf hnodup hle (by simp only [Pack.cost]; omega) input hc
  · exact play_applied hf hnodup hle (by simp only [Pack.cost]; omega) input hc
  · rw [← hchain] at hf hc ⊢
    refine play_chained hf hnodup hle ?_ input hc
    simp only [cost_of, List.map_cons, List.map_nil, List.sum_cons, List.sum_nil]
    omega
  · exact play_applied ha hnodup hle (by omega) input hc
  · refine ⟨_, play_applied (ha.unit_bind name) hnodup hle ?_ input hc,
      reference_unit_bind inner input name⟩
    rw [Pack.cost, hcost]
    omega
  · refine ⟨_, play_applied (ha.bind_unit name) hnodup hle ?_ input hc,
      reference_bind_unit inner input name⟩
    rw [Pack.cost, hcost]
    omega

/-- The first pack is waited for with its input, the second returns an inner promise that
is rejected later, and the third handles that. -/
theorem bind_is_composition_three_packs :
    let a : Pack ℕ String :=
      .user 1 { next := .value fun v => .ok (v + 1), finalizer := some none }
    let b : Pack ℕ String := .user 2 { next := .promise fun _ => .ok 1 }
    let c : Pack ℕ String := .user 3 { handler := .value fun _ => .ok 5 }
    let inner : PromiseId → Outcome ℕ String := fun i =>
      if i = 0 then .resolved 3 else .rejected (.user "no")
    let play := Pack.play .debug 10 1 inner [] [0, 1]
    let all := reference inner [] [0, 1] .promise (a.leaves ++ (b.leaves ++ c.leaves))
    let plain := reference inner [] [0, 1] .promise a.leaves
    (play (Pack.applied .debug 10 ((a.bind b).bind c) .promise) = returns all ∧
      play (Pack.applied .debug 10 (a.bind (b.bind c)) .promise) = returns all ∧
      play (Pack.chained .debug 10 [a, b, c] .promise) = returns all) ∧
    play (Pack.applied .debug 10 a .promise) = returns plain ∧
    (∃ seen, play (Pack.applied .debug 10 ((Pack.unit 4).bind a) .promise) = returns seen ∧
      seen.1 = plain.1) ∧
    ∃ seen, play (Pack.applied .debug 10 (a.bind (Pack.unit 4)) .promise) = returns seen ∧
      seen.1 = plain.1 := by
  intro a b c inner play all plain
  have hf : FreshInner 1 ((a.leaves ++ (b.leaves ++ c.leaves)).map Prod.snd) := by
    have ha : ∀ i, ¬ callback_pack.Returns
        ({ next := .value fun v => .ok (v + 1), finalizer := some none } :
          callback_pack ℕ String) i := by
      rintro i ⟨_ | _, ho⟩ <;> cases ho
    have hc : ∀ i, ¬ callback_pack.Returns
        ({ handler := .value fun _ => .ok 5 } : callback_pack ℕ String) i := by
      rintro i ⟨_ | _, ho⟩ <;> cases ho
    have hb : FreshInner 1 [({ next := .promise fun _ => .ok 1 } : callback_pack ℕ String)] := by
      refine ⟨fun pack hpack i hi => ?_, .cons (fun _ ht => by cases ht) .nil⟩
      obtain rfl := List.mem_singleton.mp hpack
      obtain ⟨_ | _, ho⟩ := hi <;> cases ho
      exact ⟨Nat.le_refl 1, Nat.le_refl 1⟩
    have hbc : FreshInner 1 ([_] ++ _ :: []) := hb.insert hc
    have habc : FreshInner 1 ([] ++ _ :: [_, _]) := FreshInner.insert hbc ha
    exact habc
  obtain ⟨hall, hplain, hunit_bind, hbind_unit⟩ :=
    @bind_is_composition ℕ String _ .debug 1 10 [] [0, 1] a b c 4 hf (by decide) (by decide)
      (by decide) inner .promise
  exact ⟨hall rfl, hplain rfl, hunit_bind rfl, hbind_unit rfl⟩

end Monad

end Kaiu
