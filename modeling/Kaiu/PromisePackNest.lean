/-
The nest of calls over packs.

Three things can be called with a path of promises behind them: the settlement of
its first promise (`SettleRuns`), a binding that leads to it (`BindingRuns`) and the
callback of `then` (`CallbackRuns`). Each runs the leaves that are left, and comes
to the standing that `advance` gives. A callback of the user's is read in
`call_function_carries`; a callback that `bind` makes is three calls, each of which
extends the standing that the one before it has left (`bind_runs`). The induction is
on the pack (`callback_runs`) and then on the path (`settle_runs`).
-/
import Kaiu.PromiseLinks

set_option autoImplicit false

namespace Kaiu

open Exit Store

/-! ## The nest -/

section Nest

variable {V E : Type*} [Inhabited V] {b : Build} {m w n : ℕ}
  {known : PromiseId → Option (Outcome V E)} {st st' : Store V E (Binding V E)} {y : ℕ}
  {k : Binding V E} {ks : List (Binding V E)}

/-- Settling the head of a path runs the leaves on it, at every depth that is left
for it. -/
def SettleRuns (m : ℕ) (known : PromiseId → Option (Outcome V E)) (b : Build) (p : ℕ)
    (ks : List (Binding V E)) : Prop :=
  ∀ n st o, path_cost ks ≤ n → Path m st p ks → Fit m known st (path_stages ks) →
    ¬ Inners (path_stages ks) p → Standing.crashes known o (path_stages ks) = false →
    ∃ st', settle b (Pack.invoke b n) o p st = returns st' ∧
      Leads m known (path_ids p ks) (path_stages ks) st (path_end p ks)
        (Standing.advance known o (path_stages ks)) (path_cost ks) st'

/-- So does calling the binding `k` that leads to a path. -/
def BindingRuns (m : ℕ) (known : PromiseId → Option (Outcome V E)) (b : Build) (k : Binding V E)
    (ks : List (Binding V E)) : Prop :=
  ∀ n st o, path_cost (k :: ks) ≤ n → Path m st k.target ks → m < k.target →
    Fit m known st (path_stages (k :: ks)) →
    Standing.crashes known o (path_stages (k :: ks)) = false →
    ∃ st', Pack.invoke b n k o st = returns st' ∧
      Leads m known (path_ids k.target ks) (path_stages (k :: ks)) st (path_end k.target ks)
        (Standing.advance known o (path_stages (k :: ks))) (path_cost (k :: ks)) st'

/-- So does the callback of `then`, for the pack `t` and the promise `q`. -/
def CallbackRuns (m : ℕ) (known : PromiseId → Option (Outcome V E)) (b : Build) (t : Pack V E)
    (q : ℕ) (ks : List (Binding V E)) : Prop :=
  ∀ n st o, t.cost + path_cost ks ≤ n → Path m st q ks → m < q →
    Fit m known st (t.leaves ++ path_stages ks) →
    Standing.crashes known o (t.leaves ++ path_stages ks) = false →
    ∃ st', Pack.then_callback b (Pack.invoke b n) q t o st = returns st' ∧
      Leads m known (path_ids q ks) (t.leaves ++ path_stages ks) st (path_end q ks)
        (Standing.advance known o (t.leaves ++ path_stages ks)) (t.cost + path_cost ks) st'

/-- Nothing is on the path. -/
theorem settleRuns_nil (m : ℕ) (known : PromiseId → Option (Outcome V E)) (b : Build) (p : ℕ) :
    SettleRuns m known b p [] := by
  intro n st o _ hp _ _ _
  have hu : Unbound (st.cells p) := hp.linked
  obtain ⟨hlt, hheld⟩ := hp.free p (List.mem_cons_self ..)
  refine ⟨_, settle_unbound hheld hu.state hu.unbound, (List.append_nil _).symm, ?_, ?_, hlt, hheld⟩
  · refine (Frame.update st p _).mono ?_
    rintro x _ rfl
    exact Or.inl (List.mem_cons_self ..)
  · simpa [path_end] using hu.settledWith b o

theorem bindingRuns_forward {q : ℕ} (hs : SettleRuns m known b q ks) :
    BindingRuns m known b (.forward_to q) ks := by
  intro n st o hn hp hlater hfit hc
  simp only [path_cost_cons, Binding.cost] at hn
  obtain ⟨n, rfl⟩ : ∃ j, n = j + 1 := ⟨n - 1, by omega⟩
  have hq : ¬ Inners (path_stages ks) q :=
    hp.not_inner hlater hfit (List.mem_cons_self ..)
  obtain ⟨st', hst', hleads⟩ := hs n st o (by omega) hp hfit hq hc
  refine ⟨st', hst', hleads.mono (fun _ _ hx => hx) ?_⟩
  rw [path_cost_cons]
  exact Nat.le_add_left ..

theorem bindingRuns_then {q : ℕ} {t : Pack V E} (hc : CallbackRuns m known b t q ks) :
    BindingRuns m known b (.then_to q t) ks := by
  intro n st o hn hp hlater hfit hcrashes
  simp only [path_cost_cons, Binding.cost] at hn
  obtain ⟨n, rfl⟩ : ∃ j, n = j + 1 := ⟨n - 1, by omega⟩
  obtain ⟨st', hst', hleads⟩ := hc n st o (by omega) hp hlater hfit hcrashes
  refine ⟨st', hst', hleads.mono (fun _ _ hx => hx) ?_⟩
  simp only [path_cost_cons, Binding.cost]
  omega

/-- **Binding the end of a path.** If the promise is settled, the binding is called
at once; if it is waited for, the path gets longer. -/
theorem set_callbacks_runs {s : Standing V E} (hk : BindingRuns m known b k ks)
    (hn : path_cost (k :: ks) ≤ n) (hy : Stands m st y s w) (hp : Path m st k.target ks)
    (hlater : m < k.target) (hfit : Fit m known st (path_stages (k :: ks)))
    (hne : y ∉ path_ids k.target ks) (hyi : ¬ Inners (path_stages (k :: ks)) y)
    (hc : Standing.crashes_from known s (path_stages (k :: ks)) = false) :
    ∃ st', set_callbacks b (Pack.invoke b n) y k st = returns st' ∧
      Leads m known (y :: path_ids k.target ks) (path_stages (k :: ks)) st
        (path_end k.target ks) (s.extend known (path_stages (k :: ks)))
        (w + path_cost (k :: ks)) st' := by
  have hfree := hy.free
  cases s with
  | settled o =>
    -- the lock of `y` is held while the binding runs
    obtain ⟨st', hst', hleads⟩ :=
      hk n { st with held := y :: st.held } o hn (hp.lock hne) hlater (hfit.lock hfree.1 hyi) hc
    refine ⟨_, bind_settled hfree.2 hy.1.unbound hy.1.state hy.1.outcome hst', ?_⟩
    exact (hleads.unlock _).mono (fun _ _ hx => hx) (Nat.le_add_left ..)
  | waits i rest =>
    -- two paths are joined at `y`
    obtain ⟨ls, hl, rfl, rfl, hcost⟩ := hy
    have hend : Unbound (st.cells (path_end i ls)) := hl.linked.end_unbound
    refine ⟨_, bind_pending hfree.2 hend.state hend.unbound, (List.append_nil _).symm,
      ?_, ls ++ k :: ks, ⟨hl.linked.bind hp.linked hne, fun x hx => ?_, fun x hx => ?_⟩,
      path_end_append i ls k ks, path_stages_append, ?_⟩
    · refine (Frame.update st _ _).mono ?_
      rintro x _ rfl
      exact Or.inl (List.mem_cons_self ..)
    · rw [path_ids, List.map_append, ← List.cons_append] at hx
      rcases List.mem_append.mp hx with hx | hx
      · exact hl.free x hx
      · exact hp.free x hx
    · rw [List.map_append] at hx
      rcases List.mem_append.mp hx with hx | hx
      · exact hl.later x hx
      · rcases List.mem_cons.mp hx with rfl | hx
        · exact hlater
        · exact hp.later x hx
    · rw [path_cost_append]
      omega

/-- A new promise, to which nothing is bound. -/
theorem path_new (m : ℕ) (hheld : ∀ x ∈ st.held, x < st.size) :
    Path m (alloc st).2 st.size [] where
  linked := by
    simp only [Linked, alloc, Function.update_self]
    exact unbound_new
  free x hx := by
    obtain rfl : x = st.size := by simpa [path_ids] using hx
    exact ⟨Nat.lt_succ_self _, fun hmem => Nat.lt_irrefl _ (hheld _ hmem)⟩
  later x hx := by cases hx

/-- A new promise that is settled, after callbacks that have run. -/
theorem immediate_leads (hheld : ∀ x ∈ st.held, x < st.size) (b : Build) (o : Outcome V E)
    (events : List (Event V E)) :
    Leads m known [] [] st st.size (.settled o, events) 0
      (immediate b o (st.logged events)).2 where
  log_eq := rfl
  frame := (Frame.logged (fun _ => False) st events).trans
    (Frame.push (fun _ => False) (st.logged events) _) (fun _ _ hfalse => hfalse.elim)
    fun _ _ hfalse => hfalse.elim
  stands := by
    refine ⟨?_, Nat.lt_succ_self _, fun hmem => Nat.lt_irrefl _ (hheld _ hmem)⟩
    simp only [immediate, logged, Function.update_self]
    exact unbound_new.settledWith b o

/-- **`then` on a promise with a standing**: the promise that `then` returns has the
standing that the leaves of the pack extend it to. -/
theorem then_pack_runs {t : Pack V E} {s : Standing V E}
    (ht : ∀ q, CallbackRuns m known b t q []) (hn : t.cost + 1 ≤ n) (hy : Stands m st y s w)
    (hfit : Fit m known st t.leaves) (hyi : ¬ Inners t.leaves y)
    (hc : Standing.crashes_from known s t.leaves = false) :
    ∃ st', Pack.then_pack b (Pack.invoke b n) y t st = (st.size, returns st') ∧
      Leads m known [y] t.leaves st st.size (s.extend known t.leaves) (w + t.cost + 1) st' := by
  have hpush : Frame (fun _ => False) st (alloc st).2 := Frame.push _ st _
  have hfit' : Fit m known (alloc st).2 (path_stages [Binding.then_to st.size t]) := by
    simp only [path_stages_cons, Binding.stages, path_stages_nil, List.append_nil]
    exact hfit.frame hpush fun _ _ hfalse => hfalse
  have hyne : y ∉ path_ids st.size ([] : List (Binding V E)) := by
    simp only [path_ids, List.map_nil, List.mem_singleton]
    exact Nat.ne_of_lt hy.free.1
  obtain ⟨st', hst', hleads⟩ := set_callbacks_runs (bindingRuns_then (ht st.size))
    (by simp only [path_cost_cons, path_cost_nil, Binding.cost]; omega)
    (hy.frame hpush fun _ hfalse => hfalse) (path_new m hfit.held) hfit.size hfit' hyne
    (by simpa [Binding.stages] using hyi) (by simpa [Binding.stages] using hc)
  refine ⟨st', ?_, ?_⟩
  · rw [Pack.then_pack]
    exact congrArg (Prod.mk st.size) hst'
  · simp only [path_stages_cons, Binding.stages, path_stages_nil, List.append_nil, path_cost_cons,
      path_cost_nil, Binding.cost] at hleads
    refine ⟨hleads.log_eq, ?_, hleads.stands.mono (by omega)⟩
    refine hpush.trans hleads.frame (fun _ _ hfalse => hfalse.elim) fun x hlt hx => ?_
    rcases hx with hx | hinner
    · rcases List.mem_cons.mp hx with rfl | hx
      · exact Or.inl (List.mem_cons_self ..)
      · -- the new promise was not there before
        simp only [path_ids, Binding.target, List.map_nil, List.mem_singleton] at hx
        exact absurd hx (Nat.ne_of_lt hlt)
    · exact Or.inr hinner

/-! ## The callbacks of a pack of the user's -/

/-- Calling a callback changes no promise that was there before. -/
theorem carries_frame {events : List (Event V E)} {called : Called V E (Binding V E)}
    {res : StageResult V E} (hc : Carries b (st.logged events) called res) :
    Frame (fun _ => False) st called.2 ∧ called.2.log = st.log ++ events := by
  have hlogged : Frame (fun _ => False) st (st.logged events) := Frame.logged _ st events
  cases res with
  | settled o =>
    rcases hc with rfl | ⟨error, -, rfl⟩
    · exact ⟨hlogged.trans (Frame.push (fun _ => False) (st.logged events) _)
        (fun _ _ hfalse => hfalse) fun _ _ hfalse => hfalse, rfl⟩
    · exact ⟨hlogged, rfl⟩
  | inner i =>
    obtain rfl : called = _ := hc
    exact ⟨hlogged, rfl⟩

/-- Settling the head of a path when leaves have run and have changed nothing. -/
theorem settle_prepared {q : ℕ} {st₁ : Store V E (Binding V E)} {ss : List (Stage V E)}
    {events : List (Event V E)} (hs : SettleRuns m known b q ks) (hn : path_cost ks ≤ n)
    (hp : Path m st q ks) (hlater : m < q) (hfit : Fit m known st (ss ++ path_stages ks))
    (hframe : Frame (fun _ => False) st st₁) (hlog : st₁.log = st.log ++ events)
    {o : Outcome V E} (hc : Standing.crashes known o (path_stages ks) = false) :
    ∃ st', settle b (Pack.invoke b n) o q st₁ = returns st' ∧
      Leads m known (path_ids q ks) (ss ++ path_stages ks) st (path_end q ks)
        ((Standing.advance known o (path_stages ks)).1,
          events ++ (Standing.advance known o (path_stages ks)).2) (path_cost ks) st' := by
  have hp₁ : Path m st₁ q ks := hp.frame hframe fun _ _ hfalse => hfalse
  have hfit₁ : Fit m known st₁ (path_stages ks) := hfit.right.frame hframe fun _ _ hfalse => hfalse
  have hq : ¬ Inners (path_stages ks) q := hp.not_inner hlater hfit.right (List.mem_cons_self ..)
  obtain ⟨st', hst', hleads⟩ := hs n st₁ o hn hp₁ hfit₁ hq hc
  refine ⟨st', hst', ?_, ?_, hleads.stands⟩
  · rw [hleads.log_eq, hlog, List.append_assoc]
  · refine hframe.trans hleads.frame (fun _ _ hfalse => hfalse.elim) fun x _ hx => ?_
    exact hx.imp id fun ⟨hi, hrest⟩ => ⟨inners_append.mpr (Or.inr hi), hrest⟩

/-- **Forwarding what a callback returned**, when the leaves `ss` have run in it. The
promise is a new one, or the inner one that a leaf returned. -/
theorem forward_runs {q : ℕ} {st₁ : Store V E (Binding V E)} {ss : List (Stage V E)}
    {r : Standing V E × List (Event V E)} (hs : SettleRuns m known b q ks)
    (hn : 1 + path_cost ks ≤ n) (hl : Leads m known [] ss st y r w st₁) (hp : Path m st q ks)
    (hlater : m < q) (hfit : Fit m known st (ss ++ path_stages ks))
    (hy : st.size ≤ y ∨
      (Inners ss y ∧ r.1.rest = [] ∧ (known y = none → r.1.awaited = some y)))
    (hc : Standing.crashes_from known r.1 (path_stages ks) = false) :
    ∃ st', set_callbacks b (Pack.invoke b n) y (.forward_to q) st₁ = returns st' ∧
      Leads m known (path_ids q ks) (ss ++ path_stages ks) st (path_end q ks)
        ((r.1.extend known (path_stages ks)).1, r.2 ++ (r.1.extend known (path_stages ks)).2)
        (w + (1 + path_cost ks)) st' := by
  -- `y` is new, or a leaf has returned it: the path neither has it nor returns it
  have hne : y ∉ path_ids q ks := by
    intro hmem
    rcases hy with hy | ⟨hi, -⟩
    · exact absurd (hp.free y hmem).1 (Nat.not_lt.mpr hy)
    · exact hp.not_inner hlater hfit.left hmem hi
  have hyi : ¬ Inners (path_stages ks) y := by
    intro hi
    rcases hy with hy | ⟨hi', -⟩
    · have hle := (hfit.right.range y hi).2
      have hsize := hfit.size
      omega
    · exact hfit.apart hi' hi
  obtain ⟨st', hst', hleads⟩ := set_callbacks_runs (k := .forward_to q) (bindingRuns_forward hs)
    (by simpa [Binding.cost] using hn) hl.stands
    (hl.path hfit.left hp hlater fun _ _ hmem => by cases hmem) hlater
    (hl.fit hfit fun _ _ hmem => by cases hmem) hne hyi hc
  refine ⟨st', hst', ?_⟩
  simp only [path_stages_cons, path_cost_cons, Binding.stages, Binding.cost, Binding.target,
    List.nil_append] at hleads
  refine (hl.trans hleads hfit (fun _ _ hmem => by cases hmem) fun x hlt hx => ?_)
  rcases List.mem_cons.mp hx with rfl | hx
  · rcases hy with hy | ⟨hi, hrest, hawaited⟩
    · omega
    · refine Or.inr ⟨inners_append.mpr (Or.inl hi), fun hmem => hyi ?_, fun hnone => ?_⟩
      · have hmem' := inners_sublist (Standing.rest_extend r.1) hmem
        rwa [hrest, List.nil_append] at hmem'
      · exact Standing.extend_awaited (hawaited hnone)
  · exact Or.inl hx

omit [Inhabited V] in
/-- An inner promise that was returned stands where it is known to. -/
theorem stands_inner {i : ℕ} (hfree : st.Free i) (hi : Untouched known st.cells i) :
    Stands m st i (Standing.of_result known (.inner i)) 0 := by
  unfold Untouched at hi
  unfold Standing.of_result
  split at hi
  · rename_i o ho
    simp only [ho]
    exact ⟨hi, hfree⟩
  · rename_i hn
    simp only [hn]
    refine ⟨[], ⟨hi, fun x hx => ?_, fun x hx => by cases hx⟩, rfl, rfl, Nat.le_refl _⟩
    obtain rfl : x = i := by simpa [path_ids] using hx
    exact hfree

/-- A leaf that decides on an outcome: the promise of `then` is settled with it. -/
theorem leaf_settles {q name : ℕ} {callbacks : callback_pack V E} {o o' : Outcome V E}
    {st₁ : Store V E (Binding V E)} (hs : SettleRuns m known b q ks) (hn : 1 + path_cost ks ≤ n)
    (hp : Path m st q ks) (hlater : m < q)
    (hfit : Fit m known st ([(name, callbacks)] ++ path_stages ks))
    (hframe : Frame (fun _ => False) st st₁)
    (hlog : st₁.log = st.log ++ callbacks.events name o)
    (hresult : callbacks.result o = .settled o')
    (hc : Standing.crashes_from known (Standing.of_result known (callbacks.result o))
      (path_stages ks) = false) :
    ∃ st', settle b (Pack.invoke b n) o' q st₁ = returns st' ∧
      Leads m known (path_ids q ks) ((name, callbacks) :: path_stages ks) st (path_end q ks)
        (Standing.advance known o ((name, callbacks) :: path_stages ks)) (1 + path_cost ks)
        st' := by
  have hadvance : Standing.advance known o ((name, callbacks) :: path_stages ks) = _ :=
    Standing.advance_cons (name, callbacks)
  rw [hresult] at hc
  obtain ⟨st', hst', hleads⟩ :=
    settle_prepared (n := n) hs (by omega) hp hlater hfit hframe hlog hc
  refine ⟨st', hst', ?_⟩
  rw [hadvance, hresult]
  exact hleads.mono (fun _ _ hx => hx) (Nat.le_add_left ..)

/-- A leaf whose callback comes back with the promise `y`, which is forwarded to the
promise of `then`. -/
theorem leaf_forwards {q y name : ℕ} {callbacks : callback_pack V E} {o : Outcome V E}
    {st₁ : Store V E (Binding V E)} (hs : SettleRuns m known b q ks) (hn : 1 + path_cost ks ≤ n)
    (hp : Path m st q ks) (hlater : m < q)
    (hfit : Fit m known st ([(name, callbacks)] ++ path_stages ks))
    (hframe : Frame (fun _ => False) st st₁)
    (hlog : st₁.log = st.log ++ callbacks.events name o)
    (hstands : Stands m st₁ y (Standing.of_result known (callbacks.result o)) 0)
    (hy : st.size ≤ y ∨ callbacks.result o = .inner y)
    (hc : Standing.crashes_from known (Standing.of_result known (callbacks.result o))
      (path_stages ks) = false) :
    ∃ st', set_callbacks b (Pack.invoke b n) y (.forward_to q) st₁ = returns st' ∧
      Leads m known (path_ids q ks) ((name, callbacks) :: path_stages ks) st (path_end q ks)
        (Standing.advance known o ((name, callbacks) :: path_stages ks)) (1 + path_cost ks)
        st' := by
  have hadvance : Standing.advance known o ((name, callbacks) :: path_stages ks) = _ :=
    Standing.advance_cons (name, callbacks)
  -- all that the leaf has left is `y`
  have hl : Leads m known [] [(name, callbacks)] st y
      (Standing.of_result known (callbacks.result o), callbacks.events name o) 0 st₁ :=
    ⟨hlog, hframe.mono fun _ _ hfalse => hfalse.elim, hstands⟩
  obtain ⟨st', hst', hleads⟩ := forward_runs hs hn hl hp hlater hfit (hy.imp id fun hres => by
    refine ⟨inners_cons.mpr (Or.inl ⟨o, hres⟩), Standing.rest_of_result _, fun hnone => ?_⟩
    rw [hres]
    simp [Standing.of_result, hnone, Standing.awaited]) hc
  refine ⟨st', hst', ?_⟩
  rw [hadvance]
  simpa using hleads

/-- **A pack of the user's.** Its callback, and its finalizer, come to what the table
of a stage says, whatever is behind the promise of `then`. -/
theorem user_runs {q : ℕ} (name : ℕ) (callbacks : callback_pack V E)
    (hs : SettleRuns m known b q ks) : CallbackRuns m known b (.user name callbacks) q ks := by
  intro n st o hn hp hlater hfit hc
  rw [Pack.cost] at hn
  have hcons : Standing.crashes known o ((Pack.user name callbacks).leaves ++ path_stages ks) = _ :=
    Standing.crashes_cons (name, callbacks)
  rw [hcons, Bool.or_eq_false_iff] at hc
  obtain ⟨hpack, hbehind⟩ := hc
  have hcarries : Carries b _
      (Pack.call_callback b (Pack.invoke b n) (.user name callbacks) o st) _ :=
    call_callback_carries b name st hpack
  obtain ⟨hframe, hlog⟩ := carries_frame hcarries
  have hcaught := hcarries.caught
  rw [Pack.then_callback]
  generalize Pack.call_callback b (Pack.invoke b n) (.user name callbacks) o st = called at *
  -- the finalizer runs right after the callback, and nothing else does
  have hfinally : Pack.call_finally (.user name callbacks) called.2
      = (callbacks.finalizer.join, _) := rfl
  generalize hst₁ : called.2.logged
    (if callbacks.finalizer.isSome then [.finalizer name] else []) = st₁ at hfinally
  have hframe₁ : Frame (fun _ => False) st st₁ := hst₁ ▸
    hframe.trans (Frame.logged (fun _ => False) called.2 _) (fun _ _ hfalse => hfalse)
      fun _ _ hfalse => hfalse
  have hlog₁ : st₁.log = st.log ++ callbacks.events name o := by
    rw [callback_pack.events, ← List.append_assoc, ← hlog, ← hst₁]
    rfl
  cases hfin : callbacks.finalizer.join with
  | some error =>
    have hresult : callbacks.result o = .settled (.rejected error) := by
      simp [callback_pack.result, hfin]
    rw [hfin] at hfinally
    rw [after_callback_finalizer hcaught hfinally]
    exact leaf_settles hs hn hp hlater hfit hframe₁ hlog₁ hresult hbehind
  | none =>
    have hresult : callbacks.result o = callbacks.callback_result o := by
      simp [callback_pack.result, hfin]
    rw [hfin] at hfinally
    cases hres : callbacks.callback_result o with
    | settled o' =>
      rw [hres] at hcarries
      rcases hcarries with rfl | ⟨error, rfl, rfl⟩
      · -- the promise is the one that `promise::factory` or a default callback has made
        simp only [after_callback, hfinally]
        have hnew : Leads m known [] [] st st.size (.settled o', _) 0 _ :=
          immediate_leads hfit.held b o' (callbacks.callback_events name o)
        refine leaf_forwards hs hn hp hlater hfit hframe₁ hlog₁ ?_ (Or.inl (Nat.le_refl _)) hbehind
        rw [hresult, hres, ← hst₁]
        exact hnew.stands.frame (Frame.logged (fun _ => False) _ _) fun _ hfalse => hfalse
      · simp only [after_callback, hfinally]
        exact leaf_settles hs hn hp hlater hfit hframe₁ hlog₁ (hresult.trans hres) hbehind
    | inner i =>
      rw [hres] at hcarries
      obtain rfl : called = _ := hcarries
      simp only [after_callback, hfinally]
      have hinner : Inners ((Pack.user name callbacks).leaves ++ path_stages ks) i :=
        inners_cons.mpr (Or.inl ⟨o, hresult.trans hres⟩)
      obtain ⟨hheld, huntouched⟩ := hfit.untouched i hinner
      have hlt : i < st.size := Nat.lt_of_le_of_lt (hfit.range i hinner).2 hfit.size
      refine leaf_forwards hs hn hp hlater hfit hframe₁ hlog₁ ?_ (Or.inr (hresult.trans hres))
        hbehind
      rw [hresult, hres]
      exact (stands_inner ⟨hlt, hheld⟩ huntouched).frame hframe₁ fun _ hfalse => hfalse

/-! ## The callbacks that `bind` makes -/

/-- Both callbacks of a pack that `bind` makes are this. -/
theorem call_callback_bind (b : Build) (invoke : Pack.Invoke V E) (self after : Pack V E)
    (o : Outcome V E) (st : Store V E (Binding V E)) :
    Pack.call_callback b invoke (.bind self after) o st
      = Pack.then_after b invoke after
          (Pack.call b invoke self (immediate b o st).1 (immediate b o st).2) := by
  cases o <;> rfl

/-- **A callback that `bind` makes.** A new promise is settled with the input, `then`
is called on it and once more on the result: the promise that is returned stands
where the leaves of both packs lead. -/
theorem bind_runs {self after : Pack V E} (hself : ∀ q, CallbackRuns m known b self q [])
    (hafter : ∀ q, CallbackRuns m known b after q []) (hn : self.cost + after.cost + 3 ≤ n)
    (hfit : Fit m known st (self.leaves ++ after.leaves)) {o : Outcome V E}
    (hc : Standing.crashes known o (self.leaves ++ after.leaves) = false) :
    ∃ y st', st.size ≤ y ∧
      Pack.call_callback b (Pack.invoke b n) (.bind self after) o st = (.ok y, st') ∧
      Leads m known [] (self.leaves ++ after.leaves) st y
        (Standing.advance known o (self.leaves ++ after.leaves)) (self.cost + after.cost + 2)
        st' := by
  rw [Standing.crashes_append, Bool.or_eq_false_iff] at hc
  -- the promise in which the input is wrapped
  have hd : Leads m known [] [] st st.size (.settled o, []) 0 (immediate b o st).2 := by
    have hd' : Leads m known [] [] st st.size (.settled o, []) 0 _ :=
      immediate_leads hfit.held b o []
    rwa [logged_nil] at hd'
  have hnew : ∀ {x : ℕ} {ss : List (Stage V E)}, st.size ≤ x →
      Fit m known st ss → ¬ Inners ss x := by
    intro x ss hx hs hi
    have hle := (hs.range x hi).2
    have hsize := hs.size
    omega
  have hfit₁ : Fit m known (immediate b o st).2 self.leaves := by
    refine hd.fit ?_ fun _ _ hmem => by cases hmem
    exact hfit.left
  -- `self(d)`, or `self.reject(error)`
  obtain ⟨st₁, hst₁, hl₁⟩ := then_pack_runs (n := n) hself (by omega) hd.stands hfit₁
    (hnew (Nat.le_refl _) hfit.left) hc.1
  have hl₁' : Leads m known [] self.leaves st (immediate b o st).2.size
      (Standing.advance known o self.leaves) (self.cost + 1) st₁ := by
    refine (hd.trans hl₁ hfit.left (fun _ _ hmem => by cases hmem) fun x hlt hx => ?_).mono
      (fun _ _ hx => hx) (by omega)
    obtain rfl : x = st.size := by simpa using hx
    omega
  have hsize : st.size ≤ (immediate b o st).2.size := Nat.le_succ _
  -- `->then(after)`
  obtain ⟨st₂, hst₂, hl₂⟩ := then_pack_runs (n := n) hafter (by omega) hl₁'.stands
    (hl₁'.fit hfit fun _ _ hmem => by cases hmem) (hnew hsize hfit.right) hc.2
  refine ⟨st₁.size, st₂, hl₁'.frame.size_le, ?_, ?_⟩
  · rw [call_callback_bind]
    change Pack.then_after b _ after (Pack.then_pack b _ st.size self (immediate b o st).2) = _
    rw [hst₁]
    simp only [Pack.then_after, returns, hst₂]
  · rw [Standing.advance_append]
    refine (hl₁'.trans hl₂ hfit (fun _ _ hmem => by cases hmem) fun x hlt hx => ?_).mono
      (fun _ _ hx => hx) (by omega)
    obtain rfl : x = (immediate b o st).2.size := by simpa using hx
    omega

/-- **The callback of `then`**, for every pack. The induction is on how the pack was
made by `bind`. -/
theorem callback_runs {q : ℕ} (t : Pack V E) (hs : SettleRuns m known b q ks) :
    CallbackRuns m known b t q ks := by
  induction t generalizing q ks with
  | user name callbacks => exact user_runs name callbacks hs
  | bind self after ih_self ih_after =>
    intro n st o hn hp hlater hfit hc
    rw [Pack.cost] at hn
    rw [Pack.leaves, Standing.crashes_append, Bool.or_eq_false_iff] at hc
    obtain ⟨y, st₁, hy, hcall, hl⟩ := bind_runs (n := n)
      (fun q => ih_self (settleRuns_nil m known b q))
      (fun q => ih_after (settleRuns_nil m known b q)) (by omega) hfit.left hc.1
    obtain ⟨st', hst', hleads⟩ := forward_runs (n := n) hs (by omega) hl hp hlater hfit (Or.inl hy)
      hc.2
    refine ⟨st', ?_, ?_⟩
    · rw [Pack.then_callback, hcall]
      exact hst'
    · rw [Standing.advance_append]
      refine hleads.mono (fun _ _ hx => hx) ?_
      rw [Pack.cost]
      omega

/-- **Settling the head of a path.** The induction is on its bindings. -/
theorem settle_runs (m : ℕ) (known : PromiseId → Option (Outcome V E)) (b : Build) (p : ℕ)
    (ks : List (Binding V E)) : SettleRuns m known b p ks := by
  induction ks generalizing p with
  | nil => exact settleRuns_nil m known b p
  | cons k ks ih =>
    have hk : BindingRuns m known b k ks := by
      cases k with
      | forward_to q => exact bindingRuns_forward (ih q)
      | then_to q t => exact bindingRuns_then (callback_runs t (ih q))
    intro n st o hn hp hfit hpi hc
    obtain ⟨hlt, hheld⟩ := hp.free p (List.mem_cons_self ..)
    obtain ⟨st', hst', hl⟩ := hk n { st with held := p :: st.held } o hn hp.lock_tail
      (hp.later k.target (List.mem_cons_self ..)) (hfit.lock hlt hpi) hc
    have hbound := hp.linked.1
    exact ⟨_, settle_bound hheld hbound.state hbound.assigned hbound.callbacks hst', hl.unlock _⟩

end Nest

end Kaiu
