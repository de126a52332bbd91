/-
Chain semantics is independent of the schedule.

The source of a chain, its inner promises and the binding of its stages are
separate moves. `Progress` says how far a schedule has brought the chain: before
the source is settled every promise of the chain waits; afterwards the chain has
reached the end, or the inner promise it waits for. Each of the three moves keeps
it (`bind_progress`, `source_progress`, `inner_progress`), unless a null pointer comes
to a stage without a handler, which ends the program. When there is no move left nothing
can be waited for, so the chain has reached its end and `Reached.chain_eq` compares it
with the reference.
-/
import Kaiu.PromiseChain
import Mathlib.Data.List.Nodup

set_option autoImplicit false

namespace Kaiu

open Exit Store Heap

section Moves

variable {V E : Type*} [Inhabited V] {b : Build} {inner : PromiseId → Outcome V E}
  {h : Heap V E} {p q i : ℕ} {ss : List (Stage V E)} {o : Outcome V E}
  {pack : callback_pack V E} {events : List (Event V E)} {awaited : Option PromiseId}

/-! ## One move -/

omit [Inhabited V] in
/-- Binding the end of a waiting chain. -/
theorem Waiting.extend (hw : Waiting inner h.cells p ss) (hf : Fresh p (ss ++ [(q, pack)]))
    (hq : Unbound (h.cells q)) (hready : ∀ i, pack.Returns i → Ready inner h.cells i) :
    Unbound (h.cells (last p ss)) ∧
      Waiting inner (Function.update h.cells (last p ss)
        (PromiseState.bound (.then_to q pack) (h.cells (last p ss)))) p (ss ++ [(q, pack)]) := by
  induction ss generalizing p with
  | nil =>
    have hpi : ¬ Inners [(q, pack)] p := fun hi => hf.inner_ne p hi (List.mem_cons_self ..)
    have hqp : q ≠ p := fun heq => hf.not_mem (heq ▸ List.mem_cons_self ..)
    refine ⟨hw, by simpa [last] using Unbound.boundTo hw _, fun i hi => ?_, ?_⟩
    · exact (hready i hi).update hpi (inners_cons.mpr (Or.inl hi)) _
    · simpa [last, Waiting, Function.update_of_ne hqp] using hq
  | cons s ss ih =>
    obtain ⟨hp, hs, hss⟩ := hw
    obtain ⟨hlast, hwaiting⟩ := ih hss hf.tail
    have hmem : last s.1 ss ∈ ids s.1 (ss ++ [(q, pack)]) := last_mem_append s.1 ss (q, pack)
    have hne : p ≠ last s.1 ss := fun heq => hf.not_mem (heq ▸ hmem)
    have hinner : ¬ Inners (s :: (ss ++ [(q, pack)])) (last s.1 ss) := fun hi =>
      hf.inner_ne _ hi (List.mem_cons_of_mem p hmem)
    refine ⟨hlast, ?_, fun i hi => ?_, hwaiting⟩
    · simpa [last, Function.update_of_ne hne] using hp
    · exact (hs i hi).update hinner (inners_cons.mpr (Or.inl hi)) _

/-- The promises of the chain are there. -/
def Made (h : Heap V E) (p : PromiseId) (ss : List (Stage V E)) : Prop :=
  ∀ x : ℕ, x ∈ ids p ss ∨ Inners ss x → x < h.size

omit [Inhabited V] in
theorem Made.tail {s : Stage V E} (hm : Made h p (s :: ss)) : Made h s.1 ss := fun x hx =>
  hm x (hx.imp (List.mem_cons_of_mem p) fun hi => inners_cons.mpr (Or.inr hi))

/-- **Binding the end of a chain that has been settled.** The induction is on how
far the chain has got: at its end the new stage runs, while the chain waits the
stage is only bound. -/
theorem Reached.extend {n : ℕ} (hr : Reached inner h.cells o p ss events awaited)
    (hf : Fresh p (ss ++ [(q, pack)])) (hheld : h.held = []) (hm : Made h p (ss ++ [(q, pack)]))
    (hq : Unbound (h.cells q)) (hready : ∀ i, pack.Returns i → Ready inner h.cells i) :
    Ends (chain_crashes inner o (ss.map Prod.snd ++ [pack]))
      (fun h₂ : Heap V E => ∃ events' awaited',
        Reached inner h₂.cells o p (ss ++ [(q, pack)]) (events ++ events') awaited' ∧
        h₂.log = h.log ++ events' ∧
        Footprint h h₂ (ids p (ss ++ [(q, pack)])) (ss ++ [(q, pack)]) awaited' ∧
        (awaited = none ∨ awaited' = awaited))
      (set_callbacks b (invoke b (n + 2)) (last p ss) (.then_to q pack) h) := by
  induction hr with
  | @arrived o p hp =>
    -- the chain is settled to its end: the new stage runs now
    have hfree : ∀ x, x ∉ h.held := by simp [hheld]
    have hpi : ¬ Inners [(q, pack)] p := fun hi => hf.inner_ne p hi (List.mem_cons_self ..)
    have hpm : p < h.size := hm p (Or.inl (List.mem_cons_self ..))
    have hclear : Clear inner { h with held := p :: h.held } q [] := by
      refine ⟨hf.tail, fun x hx => ?_, fun x hx => ?_, hq⟩
      · obtain rfl : x = q := by simpa [ids, not_inners_nil] using hx
        refine ⟨hm x (Or.inl (by simp [ids])), fun hmem => ?_⟩
        rw [hheld, List.mem_singleton] at hmem
        exact hf.not_mem (hmem ▸ List.mem_cons_self ..)
      · rw [hheld, List.mem_singleton] at hx
        exact hx ▸ hpm
    have hstage := stage_runs (n := n) (h := { h with held := p :: h.held }) (o := o)
      (settles inner b q []) (Nat.zero_le _) hf hclear hready fun i hi => by
        have hi' : Inners [(q, pack)] i := inners_cons.mpr (Or.inl hi)
        refine ⟨hm i (Or.inr hi'), fun hmem => hpi ?_⟩
        rw [hheld, List.mem_singleton] at hmem
        exact hmem ▸ hi'
    refine hstage.lift (fun h₂ hh₂ hran => ?_)
      (bind_settled_exit (hfree p) hp.unbound hp.state hp.outcome)
    obtain ⟨events, awaited, hreached, hlog, hfoot⟩ := hran.update p hf.not_mem hpi
      (PromiseState.complete o (PromiseState.bound (.then_to q pack) (h.cells p))) h.held
    exact ⟨_, bind_settled (hfree p) hp.unbound hp.state hp.outcome hh₂, events, awaited,
      hreached, hlog, hfoot.from (Nat.le_refl _) fun _ _ => rfl, Or.inl rfl⟩
  | @passed o p q' pack' ss events awaited hpack hss ih =>
    rw [List.map_cons, List.cons_append, chain_crashes, hpack, Bool.false_or]
    refine (ih hf.tail hm.tail).lift (fun h₂ hbind hran => ?_) rfl
    obtain ⟨events', awaited', hreached, hlog, hfoot, hawaited⟩ := hran
    refine ⟨h₂, hbind, events', awaited', ?_, hlog, ?_, hawaited⟩
    · rw [List.append_assoc]
      exact .passed hpack hreached
    · exact hfoot.mono (fun x hx => List.mem_cons_of_mem p hx)
        fun x hx => inners_cons.mpr (Or.inr hx)
  | @awaits o p q' i pack' ss hpack hres hi hq' =>
    -- the last promise is pending: the new stage is bound to it, and waits
    obtain ⟨hlast, hwaiting⟩ := hq'.extend hf.tail hq hready
    have hmem : last q' ss ∈ ids q' (ss ++ [(q, pack)]) := last_mem_append q' ss (q, pack)
    have hii : Inners ((q', pack') :: (ss ++ [(q, pack)])) i :=
      inners_cons.mpr (Or.inl ⟨o, hres⟩)
    have hil : i ≠ last p ((q', pack') :: ss) := by
      rintro rfl
      exact hf.inner_ne _ hii (List.mem_cons_of_mem p hmem)
    have hsame : Footprint h h (ids q' (ss ++ [(q, pack)])) ((q', pack') :: (ss ++ [(q, pack)]))
        (some i) := Footprint.same rfl rfl _ _ _
    refine .inl ⟨_, bind_pending (by simp [hheld]) hlast.state hlast.unbound, [], some i, ?_,
      (List.append_nil _).symm, (hsame.update (last q' ss) _ _).mono (fun x hx => ?_)
        (fun _ hx => hx), Or.inr rfl⟩
    · rw [List.append_nil]
      refine .awaits hpack hres ?_ hwaiting
      simpa only [Function.update_of_ne hil] using hi
    · rcases List.mem_cons.mp hx with rfl | hx
      · exact List.mem_cons_of_mem p hmem
      · exact List.mem_cons_of_mem p hx

/-- **Settling the inner promise that the chain waits for.** The stages behind it
run. -/
theorem Reached.resume {n : ℕ} (hr : Reached inner h.cells o p ss events (some i))
    (hf : Fresh p ss) (hheld : h.held = []) (hm : Made h p ss) (hfuel : 2 * ss.length ≤ n + 1) :
    Ends (chain_crashes inner o (ss.map Prod.snd))
      (fun h₂ : Heap V E => ∃ events' awaited',
        Reached inner h₂.cells o p ss (events ++ events') awaited' ∧
        h₂.log = h.log ++ events' ∧ Footprint h h₂ (i :: ids p ss) ss awaited' ∧
        (h₂.cells i).state ≠ .pending)
      (settle b (invoke b n) (inner i) i h) := by
  generalize ha : some i = awaited at hr
  induction hr with
  | arrived hp => cases ha
  | @passed o p q pack ss events awaited hpack hss ih =>
    simp only [List.length_cons] at hfuel
    rw [List.map_cons, chain_crashes, hpack, Bool.false_or]
    refine (ih hf.tail hm.tail (by omega) ha).lift (fun h₂ hsettle hran => ?_) rfl
    obtain ⟨events', awaited', hreached, hlog, hfoot, hsettled⟩ := hran
    refine ⟨h₂, hsettle, events', awaited', ?_, hlog,
      hfoot.mono (fun x hx => ?_) fun x hx => ?_, hsettled⟩
    · rw [List.append_assoc]
      exact .passed hpack hreached
    · rcases List.mem_cons.mp hx with rfl | hx
      · exact List.mem_cons_self ..
      · exact List.mem_cons_of_mem _ (List.mem_cons_of_mem p hx)
    · exact inners_cons.mpr (Or.inr hx)
  | @awaits o p q j pack ss hpack hres hi hq =>
    cases ha
    rw [List.map_cons, chain_crashes, hpack, Bool.false_or, hres]
    simp only [List.length_cons] at hfuel
    obtain ⟨n, rfl⟩ : ∃ m, n = m + 1 := ⟨n - 1, by omega⟩
    -- the inner promise is forwarded to `q`, and the stages from `q` on run
    have hret : pack.Returns i := ⟨o, hres⟩
    have hii : Inners ((q, pack) :: ss) i := inners_cons.mpr (Or.inl hret)
    have hiq : i ∉ ids q ss := fun hmem => hf.inner_ne i hii (List.mem_cons_of_mem p hmem)
    have hiss : ¬ Inners ss i := hf.not_inners hret
    have hclear : Clear inner { h with held := i :: h.held } q ss := by
      refine ⟨hf.tail, fun x hx => ⟨hm.tail x hx, fun hmem => ?_⟩, fun x hx => ?_, hq⟩
      · rw [hheld, List.mem_singleton] at hmem
        subst hmem
        exact hx.elim hiq hiss
      · rw [hheld, List.mem_singleton] at hx
        exact hx ▸ hm i (Or.inr hii)
    have hfree : i ∉ h.held := by simp [hheld]
    refine (settles inner b q ss n (inner i) _ (by omega) hclear).lift (fun h₂ hh₂ hran => ?_)
      (settle_bound_exit hfree hi.state hi.assigned hi.callbacks)
    obtain ⟨events, awaited, hreached, hlog, hfoot⟩ := hran
    have hfoot' : Footprint h h₂ (ids q ss) ss awaited :=
      hfoot.from (Nat.le_refl _) fun _ _ => rfl
    refine ⟨_, settle_bound hfree hi.state hi.assigned hi.callbacks hh₂, events, awaited,
      .passed hpack ?_, hlog,
      ((hfoot'.cons (q, pack)).update i _ _).mono (fun x hx => ?_) fun _ hx => hx,
      by simp [PromiseState.complete]⟩
    · rw [hres]
      exact hreached.update hiq hiss _
    · rcases List.mem_cons.mp hx with rfl | hx
      · exact List.mem_cons_self ..
      · exact List.mem_cons_of_mem _ (List.mem_cons_of_mem p hx)

end Moves

/-! ## Schedules -/

/-- What can happen next to a chain: its next stage is bound, its source is
settled, or the inner promise `i` is. -/
inductive Move where
  | bind
  | settle_source
  | settle_inner (i : PromiseId)
  deriving DecidableEq

/-- A chain in the making: its stages so far, and the packs still to be bound. -/
structure ChainRun (V E : Type*) where
  heap : Heap V E
  stages : List (Stage V E) := []
  rest : List (callback_pack V E)

/-- Every promise that a stage returns is one of the inner promises, and no two
stages return the same one. -/
structure FreshInner {V E : Type*} (m : ℕ) (packs : List (callback_pack V E)) : Prop where
  range : ∀ pack ∈ packs, ∀ i : ℕ, pack.Returns i → 1 ≤ i ∧ i ≤ m
  pairwise : packs.Pairwise fun s t => ∀ i, s.Returns i → ¬ t.Returns i

/-- How far a schedule has brought the chain, when the moves `played` have been
made. The source is promise `0`, the inner promises are `1` to `m`. -/
structure Progress {V E : Type*} (inner : PromiseId → Outcome V E) (source : Outcome V E) (m : ℕ)
    (packs : List (callback_pack V E)) (played : List Move) (r : ChainRun V E)
    (awaited : Option PromiseId) : Prop where
  held : r.heap.held = []
  size : m < r.heap.size
  packs_eq : r.stages.map Prod.snd ++ r.rest = packs
  bound : r.rest.length + played.count .bind = packs.length
  nodup : (r.stages.map Prod.fst).Nodup
  promises : ∀ x : ℕ, x ∈ r.stages.map Prod.fst → m < x ∧ x < r.heap.size
  pending : ∀ i : ℕ, 1 ≤ i → i ≤ m →
    ((r.heap.cells i).state = .pending ↔ .settle_inner i ∉ played)
  unbound : ∀ i : ℕ, 1 ≤ i → i ≤ m → (r.heap.cells i).state = .pending →
    awaited ≠ some i → (r.heap.cells i).callbacks_assigned = false
  ready : ∀ pack ∈ r.rest, ∀ i, pack.Returns i → Ready inner r.heap.cells i
  waiting : .settle_source ∉ played →
    Waiting inner r.heap.cells 0 r.stages ∧ r.heap.log = [] ∧ awaited = none
  reached : .settle_source ∈ played →
    Reached inner r.heap.cells source 0 r.stages r.heap.log awaited

section Progress

variable {V E : Type*} {inner : PromiseId → Outcome V E} {source : Outcome V E} {m : ℕ}
  {packs : List (callback_pack V E)} {played played' : List Move} {r r' : ChainRun V E}
  {awaited awaited' : Option PromiseId} {ss : List (Stage V E)} {i : ℕ}

/-- Stages with different new promises and different inner promises are fresh. -/
theorem FreshInner.fresh (hf : FreshInner m packs) {rest : List (callback_pack V E)}
    (hpacks : ss.map Prod.snd ++ rest = packs) (hnodup : (ss.map Prod.fst).Nodup)
    (hgt : ∀ x : ℕ, x ∈ ss.map Prod.fst → m < x) : Fresh 0 ss where
  nodup := List.nodup_cons.mpr ⟨fun hmem => Nat.not_lt_zero _ (hgt 0 hmem), hnodup⟩
  inner_ne i hi hmem := by
    obtain ⟨s, hs, hret⟩ := hi
    have hpack : s.2 ∈ packs := hpacks ▸ List.mem_append_left _ (List.mem_map_of_mem hs)
    have hrange := hf.range s.2 hpack i hret
    rcases List.mem_cons.mp hmem with rfl | hmem
    · omega
    · have := hgt i hmem
      omega
  pairwise := by
    have hpairwise := hf.pairwise
    rw [← hpacks] at hpairwise
    exact List.pairwise_map.mp (List.pairwise_append.mp hpairwise).1

theorem Progress.fresh (hp : Progress inner source m packs played r awaited)
    (hf : FreshInner m packs) : Fresh 0 r.stages :=
  hf.fresh hp.packs_eq hp.nodup fun x hx => (hp.promises x hx).1

/-- An inner promise of a stage is one of the first promises. -/
theorem Progress.inners (hp : Progress inner source m packs played r awaited)
    (hf : FreshInner m packs) (hi : Inners r.stages i) : 1 ≤ i ∧ i ≤ m := by
  obtain ⟨s, hs, hret⟩ := hi
  refine hf.range s.2 ?_ i hret
  rw [← hp.packs_eq]
  exact List.mem_append_left _ (List.mem_map_of_mem hs)

theorem Progress.made (hp : Progress inner source m packs played r awaited)
    (hf : FreshInner m packs) : Made r.heap 0 r.stages := by
  intro x hx
  have hsize := hp.size
  rcases hx with hx | hx
  · rcases List.mem_cons.mp hx with rfl | hx
    · omega
    · exact (hp.promises x hx).2
  · have := hp.inners hf hx
    omega

/-- A chain is not longer than the promises there are. -/
theorem Made.length_lt {h : Heap V E} {p : PromiseId} (hm : Made h p ss) (hf : Fresh p ss) :
    ss.length < h.size := by
  have hsub : ids p ss ⊆ List.range h.size := fun x hx => List.mem_range.mpr (hm x (Or.inl hx))
  have hlen := hf.nodup.length_le_of_subset hsub
  simp only [ids, List.length_cons, List.length_map, List.length_range] at hlen
  omega

/-- A null pointer that comes to a stage that is bound comes to a stage. -/
theorem Progress.crashes (hp : Progress inner source m packs played r awaited)
    (hc : chain_crashes inner source (r.stages.map Prod.snd) = true) :
    chain_crashes inner source packs = true := by
  rw [← hp.packs_eq, chain_crashes_append, hc, Bool.true_or]

/-- An inner promise is not a promise of the chain. -/
theorem Progress.not_mem_ids (hp : Progress inner source m packs played r awaited)
    (hi : 1 ≤ i) (him : i ≤ m) : i ∉ ids 0 r.stages := by
  intro hmem
  rcases List.mem_cons.mp hmem with rfl | hmem
  · omega
  · have := hp.promises i hmem
    omega

/-- **A move that runs stages.** Its footprint keeps what `Progress` says of the
inner promises, but for one that the move may have settled. -/
theorem Progress.ran {own : List PromiseId} (hp : Progress inner source m packs played r awaited)
    (hf : FreshInner m packs) (hfoot : Footprint r.heap r'.heap own r'.stages awaited')
    (hheld : r'.heap.held = []) (hpacks : r'.stages.map Prod.snd ++ r'.rest = packs)
    (hbound : r'.rest.length + played'.count .bind = packs.length)
    (hnodup : (r'.stages.map Prod.fst).Nodup)
    (hpromises : ∀ x : ℕ, x ∈ r'.stages.map Prod.fst → m < x ∧ x < r'.heap.size)
    (hrest : ∀ pack ∈ r'.rest, pack ∈ r.rest)
    (hown : ∀ i : ℕ, i ∈ own → 1 ≤ i → i ≤ m → Inners r'.stages i ∧
      (r'.heap.cells i).state ≠ .pending ∧ .settle_inner i ∈ played')
    (hplayed : ∀ i : ℕ, i ∉ own → (.settle_inner i ∈ played' ↔ .settle_inner i ∈ played))
    (hawaited : ∀ i : ℕ, awaited = some i → i ∉ own → awaited' = some i)
    (hwaiting : .settle_source ∉ played' →
      Waiting inner r'.heap.cells 0 r'.stages ∧ r'.heap.log = [] ∧ awaited' = none)
    (hreached : .settle_source ∈ played' →
      Reached inner r'.heap.cells source 0 r'.stages r'.heap.log awaited') :
    Progress inner source m packs played' r' awaited' where
  held := hheld
  size := Nat.lt_of_lt_of_le hp.size hfoot.size_le
  packs_eq := hpacks
  bound := hbound
  nodup := hnodup
  promises := hpromises
  pending i hi him := by
    have hsize := hp.size
    by_cases hmem : i ∈ own
    · obtain ⟨-, hstate, hset⟩ := hown i hmem hi him
      simp [hstate, hset]
    · rw [hfoot.pending_iff i (by omega) hmem, hp.pending i hi him, hplayed i hmem]
  unbound i hi him hpend hne := by
    have hsize := hp.size
    have hmem : i ∉ own := fun hmem => (hown i hmem hi him).2.1 hpend
    rw [hfoot.unchanged i (by omega) hmem hpend hne]
    rw [hfoot.pending_iff i (by omega) hmem] at hpend
    exact hp.unbound i hi him hpend fun heq => hne (hawaited i heq hmem)
  ready pack hpack i hret := by
    have hsize := hp.size
    have hmem : pack ∈ packs := hpacks ▸ List.mem_append_right _ hpack
    have hrange := hf.range pack hmem i hret
    -- an inner promise is returned by one pack only, and this one has not been bound yet
    have hinner : ¬ Inners r'.stages i := by
      rintro ⟨s, hs, hs'⟩
      have hpairwise := hf.pairwise
      rw [← hpacks] at hpairwise
      exact (List.pairwise_append.mp hpairwise).2.2 s.2 (List.mem_map_of_mem hs) pack hpack i hs'
        hret
    have hnot : i ∉ own := fun hown' => hinner (hown i hown' hrange.1 hrange.2).1
    rw [Ready, hfoot.cells_eq i (by omega) hnot hinner]
    exact hp.ready pack (hrest pack hpack) i hret
  waiting := hwaiting
  reached := hreached

end Progress

section Schedule

variable {V E : Type*} [Inhabited V]

/-- `n` promises have been made. -/
def allocated : ℕ → Heap V E
  | 0 => Heap.empty
  | n + 1 => (alloc (allocated n)).2

/-- The source and the inner promises have been made. -/
def start (m : ℕ) (packs : List (callback_pack V E)) : ChainRun V E :=
  { heap := allocated (m + 1), rest := packs }

variable (b : Build) (inner : PromiseId → Outcome V E) (source : Outcome V E)

/-- One move. There is nothing to bind when all stages are. -/
def move (mv : Move) (r : ChainRun V E) : Ended (ChainRun V E) (Halt E) :=
  match mv, r.rest with
  | .bind, [] => returns r
  | .bind, pack :: rest =>
      let (promise, h, x) := then_pack b (last 0 r.stages) pack r.heap
      ({ heap := h, stages := r.stages ++ [(promise, pack)], rest := rest }, x)
  | .settle_source, _ =>
      let (h, x) := settle b (invoke b r.heap.depth) source 0 r.heap
      ({ r with heap := h }, x)
  | .settle_inner i, _ =>
      let (h, x) := settle b (invoke b r.heap.depth) (inner i) i r.heap
      ({ r with heap := h }, x)

/-- A schedule, which an exception would end. -/
def play : List Move → ChainRun V E → Ended (ChainRun V E) (Halt E)
  | [], r => returns r
  | mv :: moves, r => andThen (move b inner source mv r) (play moves)

/-- The moves of a chain of `n` stages with `m` inner promises, in any order. -/
def IsSchedule (n m : ℕ) (moves : List Move) : Prop :=
  moves.Perm (List.replicate n .bind ++ .settle_source :: (List.range' 1 m).map .settle_inner)

theorem allocated_eq (n : ℕ) :
    (allocated n : Heap V E) = { (Heap.empty : Heap V E) with size := n } := by
  induction n with
  | zero => rfl
  | succ n ih =>
    rw [allocated, ih]
    simp [alloc, Heap.empty]

variable {b inner source} {m : ℕ} {packs : List (callback_pack V E)} {played : List Move}
  {r : ChainRun V E} {awaited : Option PromiseId}

/-- The run has come to have made the moves `played`, or the program has ended. -/
def Progresses (inner : PromiseId → Outcome V E) (source : Outcome V E) (m : ℕ)
    (packs : List (callback_pack V E)) (played : List Move) :
    Ended (ChainRun V E) (Halt E) → Prop :=
  Ends (chain_crashes inner source packs) fun r =>
    ∃ awaited, Progress inner source m packs played r awaited

theorem start_progress (m : ℕ) (packs : List (callback_pack V E)) :
    Progress inner source m packs [] (start m packs) none := by
  have hcells : ∀ x, Unbound ((start m packs).heap.cells x) := fun x => by
    rw [start, allocated_eq]
    exact ⟨rfl, rfl⟩
  refine ⟨?_, ?_, rfl, rfl, List.nodup_nil, fun x hx => absurd hx List.not_mem_nil,
    fun i _ _ => ?_, fun i _ _ _ _ => (hcells i).unbound, fun _ _ i _ => Or.inl (hcells i),
    fun _ => ⟨hcells 0, ?_, rfl⟩, fun hmem => absurd hmem List.not_mem_nil⟩
  · rw [start, allocated_eq]
    rfl
  · rw [start, allocated_eq]
    exact Nat.lt_succ_self m
  · simp [(hcells i).state]
  · rw [start, allocated_eq]
    rfl

/-- **Settling the source.** -/
theorem source_progress (hp : Progress inner source m packs played r awaited)
    (hf : FreshInner m packs) (hs : .settle_source ∉ played) :
    Progresses inner source m packs (played ++ [.settle_source])
      (move b inner source .settle_source r) := by
  obtain ⟨hwaiting, hlog, rfl⟩ := hp.waiting hs
  have hmade := hp.made hf
  have hlen := hmade.length_lt (hp.fresh hf)
  have hclear : Clear inner r.heap 0 r.stages :=
    ⟨hp.fresh hf, fun x hx => ⟨hmade x hx, by simp [hp.held]⟩, by simp [hp.held], hwaiting⟩
  have hsettles := settles inner b 0 r.stages r.heap.depth source r.heap
    (by rw [depth]; omega) hclear
  refine (hsettles.mono hp.crashes).lift (fun h₂ hh₂ hran => ?_) (by simp only [move])
  obtain ⟨events, awaited', hreached, hlog₂, hfoot⟩ := hran
  refine ⟨{ r with heap := h₂ }, ?_, awaited', hp.ran hf hfoot ?_ hp.packs_eq ?_ hp.nodup
    (fun x hx => (hp.promises x hx).imp_right fun hlt => Nat.lt_of_lt_of_le hlt hfoot.size_le)
    (fun _ hx => hx) (fun i hi hi1 him => absurd hi (hp.not_mem_ids hi1 him)) ?_ ?_ ?_ ?_⟩
  · simp only [move, hh₂]
    rfl
  · rw [settle_held hh₂, hp.held]
  · simpa using hp.bound
  · simp
  · simp
  · simp
  · rw [hlog₂, hlog]
    exact fun _ => hreached

/-- The inner promise is settled that the chain waits for. -/
theorem inner_progress_awaited {i : ℕ}
    (hp : Progress inner source m packs played r (some i)) (hf : FreshInner m packs) :
    Progresses inner source m packs (played ++ [.settle_inner i])
      (move b inner source (.settle_inner i) r) := by
  have hmade := hp.made hf
  have hlen := hmade.length_lt (hp.fresh hf)
  have hsource : .settle_source ∈ played := by
    by_contra hnot
    simpa using (hp.waiting hnot).2.2
  have hr := hp.reached hsource
  have hresume :=
    hr.resume (b := b) (n := r.heap.depth) (hp.fresh hf) hp.held hmade (by rw [depth]; omega)
  refine (hresume.mono hp.crashes).lift (fun h₂ hsettle hran => ?_) (by simp only [move])
  obtain ⟨events', awaited', hreached, hlog, hfoot, hsettled⟩ := hran
  refine ⟨{ r with heap := h₂ }, ?_, awaited', hp.ran hf hfoot ?_ hp.packs_eq ?_ hp.nodup
    (fun x hx => (hp.promises x hx).imp_right fun hlt => Nat.lt_of_lt_of_le hlt hfoot.size_le)
    (fun _ hx => hx) (fun j hj hj1 hjm => ?_) (fun j hj => ?_) (fun j hj hown => ?_) ?_ ?_⟩
  · simp only [move, hsettle]
    rfl
  · rw [settle_held hsettle, hp.held]
  · simpa using hp.bound
  · rcases List.mem_cons.mp hj with rfl | hj
    · exact ⟨hr.inners_of_awaited, hsettled, by simp⟩
    · exact absurd hj (hp.not_mem_ids hj1 hjm)
  · have hji : j ≠ i := fun heq => hj (heq ▸ List.mem_cons_self ..)
    simp [hji]
  · cases hj
    exact absurd (List.mem_cons_self ..) hown
  · exact fun hnot => absurd (List.mem_append_left _ hsource) hnot
  · rw [hlog]
    exact fun _ => hreached

/-- An inner promise is settled that the chain does not wait for: nothing is bound to
it. -/
theorem inner_progress_other {i : ℕ} (hp : Progress inner source m packs played r awaited)
    (hi : 1 ≤ i) (him : i ≤ m) (hs : .settle_inner i ∉ played) (ha : awaited ≠ some i) :
    Progresses inner source m packs (played ++ [.settle_inner i])
      (move b inner source (.settle_inner i) r) := by
  have hpend := (hp.pending i hi him).mpr hs
  have hu : Unbound (r.heap.cells i) := ⟨hpend, hp.unbound i hi him hpend ha⟩
  let cells := Function.update r.heap.cells i (PromiseState.settled b (inner i) (r.heap.cells i))
  have hready : ∀ {j}, Ready inner r.heap.cells j → Ready inner cells j := fun hr => hr.settle hu
  have hids : ∀ x ∈ ids 0 r.stages, cells x = r.heap.cells x := fun x hx =>
    update_off (hp.not_mem_ids hi him) hx _
  have hsettled : (cells i).state ≠ .pending := by
    simpa [cells] using (hu.settledWith b (inner i)).not_pending
  have hother : ∀ j, j ≠ i → cells j = r.heap.cells j := fun j hj => Function.update_of_ne hj ..
  have hsettle : settle b (invoke b r.heap.depth) (inner i) i r.heap = _ :=
    settle_unbound (by simp [hp.held]) hpend hu.unbound
  refine .inl ⟨{ r with heap := { r.heap with cells := cells } },
    by simp only [move, hsettle]; rfl, awaited, hp.held, hp.size, hp.packs_eq,
    by simpa using hp.bound, hp.nodup, hp.promises, fun j hj hjm => ?_, fun j hj hjm => ?_,
    fun pack hpack j hret => hready (hp.ready pack hpack j hret), fun hnot => ?_, fun hset => ?_⟩
  · by_cases hji : j = i
    · subst hji
      simp [hsettled]
    · simp [hother j hji, hp.pending j hj hjm, hji]
  · by_cases hji : j = i
    · subst hji
      exact fun hpend' => absurd hpend' hsettled
    · simpa [hother j hji] using hp.unbound j hj hjm
  · obtain ⟨hw, hlog, hnone⟩ := hp.waiting fun hmem => hnot (List.mem_append_left _ hmem)
    exact ⟨hw.congr hids fun _ _ => hready, hlog, hnone⟩
  · have hr := hp.reached (by simpa using hset)
    refine hr.congr hids (fun _ _ => hready) fun j hj => hother j ?_
    rintro rfl
    exact ha hj

/-- **Settling an inner promise.** Either the chain waits for it, or it is only
settled. -/
theorem inner_progress {i : ℕ} (hp : Progress inner source m packs played r awaited)
    (hf : FreshInner m packs) (hi : 1 ≤ i) (him : i ≤ m) (hs : .settle_inner i ∉ played) :
    Progresses inner source m packs (played ++ [.settle_inner i])
      (move b inner source (.settle_inner i) r) := by
  by_cases ha : awaited = some i
  · subst ha
    exact inner_progress_awaited hp hf
  · exact inner_progress_other hp hi him hs ha

/-- `then` has made the promise of the next stage, and has bound nothing yet. -/
structure Lengthened (inner : PromiseId → Outcome V E) (m : ℕ) (packs : List (callback_pack V E))
    (played : List Move) (heap : Heap V E) (stages : List (Stage V E)) (pack : callback_pack V E)
    (rest : List (callback_pack V E)) : Prop where
  cells_eq : ∀ x : ℕ, x < heap.size → (alloc heap).2.cells x = heap.cells x
  unbound : Unbound ((alloc heap).2.cells heap.size)
  packs_eq : (stages ++ [(heap.size, pack)]).map Prod.snd ++ rest = packs
  bound : rest.length + (played ++ [Move.bind]).count .bind = packs.length
  promises : ∀ x : ℕ, x ∈ (stages ++ [(heap.size, pack)]).map Prod.fst →
    m < x ∧ x < (alloc heap).2.size
  nodup : ((stages ++ [(heap.size, pack)]).map Prod.fst).Nodup
  fresh : Fresh 0 (stages ++ [(heap.size, pack)])
  made : Made (alloc heap).2 0 (stages ++ [(heap.size, pack)])
  ready : ∀ i, pack.Returns i → Ready inner (alloc heap).2.cells i
  new : heap.size ∉ ids 0 stages ∧ ¬ Inners stages heap.size

theorem Progress.lengthened {heap : Heap V E} {stages : List (Stage V E)}
    {pack : callback_pack V E} {rest : List (callback_pack V E)}
    (hp : Progress inner source m packs played ⟨heap, stages, pack :: rest⟩ awaited)
    (hf : FreshInner m packs) : Lengthened inner m packs played heap stages pack rest := by
  have hsize : m < heap.size := hp.size
  have hnew : ∀ x : ℕ, x < heap.size → (alloc heap).2.cells x = heap.cells x := fun x hx =>
    Function.update_of_ne (Nat.ne_of_lt hx) ..
  have hpacks : (stages ++ [(heap.size, pack)]).map Prod.snd ++ rest = packs := by
    simpa using hp.packs_eq
  have hpack : pack ∈ packs := hpacks ▸ by simp
  have hpromises : ∀ x : ℕ, x ∈ (stages ++ [(heap.size, pack)]).map Prod.fst →
      m < x ∧ x < (alloc heap).2.size := by
    intro x hx
    simp only [List.map_append, List.mem_append, List.map_cons, List.map_nil,
      List.mem_singleton] at hx
    rcases hx with hx | rfl
    · exact (hp.promises x hx).imp_right Nat.lt_succ_of_lt
    · exact ⟨hsize, Nat.lt_succ_self _⟩
  have hnodup : ((stages ++ [(heap.size, pack)]).map Prod.fst).Nodup := by
    rw [List.map_append, List.nodup_append]
    refine ⟨hp.nodup, by simp, fun x hx y hy => ?_⟩
    obtain rfl : y = heap.size := by simpa using hy
    exact Nat.ne_of_lt (hp.promises x hx).2
  have hold : Made heap 0 stages := hp.made hf
  exact {
    cells_eq := hnew
    unbound := by
      simp only [alloc, Function.update_self]
      exact ⟨rfl, rfl⟩
    packs_eq := hpacks
    bound := by
      have hbound := hp.bound
      simp only [List.length_cons] at hbound
      simp only [List.count_append, List.count_singleton_self]
      omega
    promises := hpromises
    nodup := hnodup
    fresh := hf.fresh hpacks hnodup fun x hx => (hpromises x hx).1
    made := by
      intro x hx
      have hsize' : (alloc heap).2.size = heap.size + 1 := rfl
      rcases hx with hx | hx
      · rcases List.mem_cons.mp hx with rfl | hx
        · omega
        · exact (hpromises x hx).2
      · rcases inners_append.mp hx with hx | hx
        · have hrange := hp.inners hf hx
          omega
        · have hrange := hf.range pack hpack x (by simpa [Inners] using hx)
          omega
    ready := by
      intro i hi
      have hrange := hf.range pack hpack i hi
      rw [Ready, hnew i (by omega)]
      exact hp.ready pack (List.mem_cons_self ..) i hi
    new := ⟨fun hmem => Nat.lt_irrefl _ (hold _ (Or.inl hmem)),
      fun hmem => Nat.lt_irrefl _ (hold _ (Or.inr hmem))⟩ }

/-- No promise of the chain is an inner one. -/
theorem Lengthened.outer {heap : Heap V E} {stages : List (Stage V E)}
    {pack : callback_pack V E} {rest : List (callback_pack V E)} {i : ℕ}
    (hl : Lengthened inner m packs played heap stages pack rest)
    (hi : i ∈ ids 0 (stages ++ [(heap.size, pack)])) (hi1 : 1 ≤ i) : ¬ i ≤ m := by
  rcases List.mem_cons.mp hi with rfl | hi
  · omega
  · have hrange := hl.promises i hi
    omega

/-- `then` on the last promise, when the source has been settled. -/
theorem bind_progress_settled {heap : Heap V E} {stages : List (Stage V E)}
    {pack : callback_pack V E} {rest : List (callback_pack V E)}
    (hp : Progress inner source m packs played ⟨heap, stages, pack :: rest⟩ awaited)
    (hf : FreshInner m packs) (hsource : .settle_source ∈ played) :
    Progresses inner source m packs (played ++ [.bind])
      (move b inner source .bind ⟨heap, stages, pack :: rest⟩) := by
  have hl := hp.lengthened hf
  have hr : Reached inner (alloc heap).2.cells source 0 stages heap.log awaited :=
    (hp.reached hsource).update hl.new.1 hl.new.2 _
  have hextend :=
    hr.extend (b := b) (n := 2 * heap.size + 1) hl.fresh hp.held hl.made hl.unbound hl.ready
  refine (hextend.mono fun hc => ?_).lift (fun h₂ hbind hran => ?_) ?_
  · rw [← hl.packs_eq, List.map_append, chain_crashes_append]
    exact Bool.or_eq_true_iff.mpr (.inl hc)
  rotate_left
  · simp only [move, then_pack]
    rfl
  obtain ⟨events', awaited', hreached, hlog, hfoot, hawaited⟩ := hran
  have hfoot' := hfoot.from (Nat.le_succ heap.size) hl.cells_eq
  refine ⟨⟨h₂, stages ++ [(heap.size, pack)], rest⟩, ?_, awaited', hp.ran hf hfoot' ?_ hl.packs_eq
    hl.bound hl.nodup (fun x hx => (hl.promises x hx).imp_right fun hlt =>
      Nat.lt_of_lt_of_le hlt hfoot.size_le) (fun p hp' => List.mem_cons_of_mem pack hp')
    (fun i hi hi1 him => absurd him (hl.outer hi hi1)) (by simp) (fun i hi _ => ?_) ?_ ?_⟩
  · simp only [move, then_pack]
    exact congrArg (fun e : Ended (Heap V E) (Halt E) =>
      ((⟨e.1, stages ++ [(heap.size, pack)], rest⟩ : ChainRun V E), e.2)) hbind
  · rw [bind_held hbind]
    exact hp.held
  · rcases hawaited with hnone | heq
    · simp [hnone] at hi
    · rw [heq, hi]
  · exact fun hnot => absurd (List.mem_append_left _ hsource) hnot
  · rw [hlog]
    exact fun _ => hreached

/-- `then` on the last promise, when the source has not been settled: nothing runs. -/
theorem bind_progress_waiting {heap : Heap V E} {stages : List (Stage V E)}
    {pack : callback_pack V E} {rest : List (callback_pack V E)}
    (hp : Progress inner source m packs played ⟨heap, stages, pack :: rest⟩ awaited)
    (hf : FreshInner m packs) (hsource : .settle_source ∉ played) :
    Progresses inner source m packs (played ++ [.bind])
      (move b inner source .bind ⟨heap, stages, pack :: rest⟩) := by
  have hl := hp.lengthened hf
  obtain ⟨hw, hlog, rfl⟩ := hp.waiting hsource
  have hw' : Waiting inner (alloc heap).2.cells 0 stages := hw.update hl.new.1 hl.new.2 _
  obtain ⟨hlast, hwaiting⟩ := hw'.extend hl.fresh hl.unbound hl.ready
  have hheld : heap.held = [] := hp.held
  have hbind : set_callbacks b (invoke b (alloc heap).2.depth) (last 0 stages)
      (.then_to heap.size pack) (alloc heap).2 = _ :=
    bind_pending (by simp [alloc, hheld]) hlast.state hlast.unbound
  have hsame : Footprint (alloc heap).2 (alloc heap).2 (ids 0 (stages ++ [(heap.size, pack)]))
      (stages ++ [(heap.size, pack)]) none := Footprint.same rfl rfl _ _ _
  let h₂ : Heap V E := { (alloc heap).2 with
    cells := Function.update (alloc heap).2.cells (last 0 stages)
      (PromiseState.bound (.then_to heap.size pack) ((alloc heap).2.cells (last 0 stages))) }
  have hfoot : Footprint heap h₂ (ids 0 (stages ++ [(heap.size, pack)]))
      (stages ++ [(heap.size, pack)]) none := by
    refine ((hsame.update (last 0 stages) _ _).mono (fun x hx => ?_) fun _ hx => hx).from
      (Nat.le_succ heap.size) hl.cells_eq
    rcases List.mem_cons.mp hx with rfl | hx
    · exact last_mem_append ..
    · exact hx
  refine .inl ⟨⟨h₂, stages ++ [(heap.size, pack)], rest⟩, ?_, none,
    hp.ran hf hfoot hheld hl.packs_eq hl.bound hl.nodup hl.promises
      (fun p hp' => List.mem_cons_of_mem pack hp')
    (fun i hi hi1 him => absurd him (hl.outer hi hi1)) (by simp) (fun i hi _ => by cases hi)
    (fun _ => ⟨hwaiting, hlog, rfl⟩) fun hset => ?_⟩
  · simp only [move, then_pack]
    exact congrArg (fun e : Ended (Heap V E) (Halt E) =>
      ((⟨e.1, stages ++ [(heap.size, pack)], rest⟩ : ChainRun V E), e.2)) hbind
  · exact absurd (by simpa using hset) hsource

/-- **Binding the next stage.** -/
theorem bind_progress {pack : callback_pack V E} {rest : List (callback_pack V E)}
    (hp : Progress inner source m packs played r awaited) (hf : FreshInner m packs)
    (hrest : r.rest = pack :: rest) :
    Progresses inner source m packs (played ++ [.bind]) (move b inner source .bind r) := by
  obtain ⟨heap, stages, _⟩ := r
  subst hrest
  by_cases hsource : .settle_source ∈ played
  · exact bind_progress_settled hp hf hsource
  · exact bind_progress_waiting hp hf hsource

/-! ## Whole schedules -/

theorem schedule_count {n : ℕ} {moves : List Move} (hs : IsSchedule n m moves) :
    moves.count .bind = n ∧ moves.count .settle_source = 1 ∧
      ∀ i : ℕ, moves.count (.settle_inner i) = if 1 ≤ i ∧ i ≤ m then 1 else 0 := by
  have hcount : ∀ mv, moves.count mv = _ := fun mv => hs.count_eq mv
  have hnodup : ((List.range' 1 m).map Move.settle_inner).Nodup :=
    List.Nodup.map (fun _ _ heq => Move.settle_inner.inj heq) List.nodup_range'
  have hmem : ∀ mv, mv ∉ (List.range' 1 m).map Move.settle_inner →
      ((List.range' 1 m).map Move.settle_inner).count mv = 0 := fun mv => List.count_eq_zero.mpr
  refine ⟨?_, ?_, fun i => ?_⟩
  · rw [hcount, List.count_append, List.count_replicate_self, List.count_cons_of_ne (by simp),
      hmem _ (by simp), Nat.add_zero]
  · rw [hcount, List.count_append, List.count_cons_self, hmem _ (by simp)]
    simp [List.count_replicate]
  · rw [hcount, List.count_append, List.count_cons_of_ne (by simp), hnodup.count]
    have hrange : (∃ j, (1 ≤ j ∧ j < 1 + m) ∧ j = i) ↔ 1 ≤ i ∧ i ≤ m := by
      rw [exists_eq_right]
      omega
    simp [List.count_replicate, List.mem_range'_1, hrange]

/-- **One move of a schedule.** -/
theorem move_progress {mv : Move} (later : List Move)
    (hp : Progress inner source m packs played r awaited) (hf : FreshInner m packs)
    (hs : IsSchedule packs.length m (played ++ mv :: later)) :
    Progresses inner source m packs (played ++ [mv]) (move b inner source mv r) := by
  obtain ⟨hbind, hsource, hinner⟩ := schedule_count hs
  cases mv with
  | bind =>
    have hleft := hp.bound
    simp only [List.count_append, List.count_cons_self] at hbind
    cases hrest : r.rest with
    | nil =>
      simp only [hrest, List.length_nil] at hleft
      omega
    | cons pack rest => exact bind_progress hp hf hrest
  | settle_source =>
    simp only [List.count_append, List.count_cons_self] at hsource
    exact source_progress hp hf (List.count_eq_zero.mp (by omega))
  | settle_inner i =>
    have hcount := hinner i
    simp only [List.count_append, List.count_cons_self] at hcount
    split at hcount
    · rename_i hi
      exact inner_progress hp hf hi.1 hi.2 (List.count_eq_zero.mp (by omega))
    · omega

/-- **A schedule makes progress.** The induction is on the moves to be made. -/
theorem play_progress (moves later : List Move)
    (hp : Progress inner source m packs played r awaited) (hf : FreshInner m packs)
    (hs : IsSchedule packs.length m (played ++ moves ++ later)) :
    Progresses inner source m packs (played ++ moves) (play b inner source moves r) := by
  induction moves generalizing played r awaited with
  | nil => exact .inl ⟨r, rfl, awaited, by rwa [List.append_nil]⟩
  | cons mv moves ih =>
    have hsplit : played ++ mv :: moves ++ later = played ++ [mv] ++ moves ++ later := by simp
    have hplayed : played ++ mv :: moves = played ++ [mv] ++ moves := by simp
    rcases move_progress (b := b) (moves ++ later) hp hf (by simpa using hs) with
      ⟨r', hmove, awaited', hp'⟩ | ⟨hcrash, hmove⟩
    · rw [play, hmove, returns_andThen, hplayed]
      exact ih hp' (hsplit ▸ hs)
    · refine .inr ⟨hcrash, ?_⟩
      rw [play, andThen_of_threw hmove, hmove]

omit [Inhabited V] in
/-- When there is no move left, all stages are bound and nothing is waited for. -/
theorem Progress.complete (hp : Progress inner source m packs played r awaited)
    (hf : FreshInner m packs) (hs : IsSchedule packs.length m played) :
    r.rest = [] ∧ .settle_source ∈ played ∧ awaited = none := by
  obtain ⟨hbind, hsource, hinner⟩ := schedule_count hs
  have hplayed : .settle_source ∈ played := List.count_pos_iff.mp (by omega)
  refine ⟨List.length_eq_zero_iff.mp (by have := hp.bound; omega), hplayed, ?_⟩
  -- an inner promise that the chain waited for would not be settled
  cases ha : awaited with
  | none => rfl
  | some i =>
    have hr := hp.reached hplayed
    rw [ha] at hr
    obtain ⟨q, hq⟩ := hr.boundTo_of_awaited
    have hrange := hp.inners hf hr.inners_of_awaited
    refine absurd ?_ ((hp.pending i hrange.1 hrange.2).mp hq.state)
    exact List.count_pos_iff.mp (by rw [hinner i, if_pos hrange]; exact Nat.one_pos)

/-- **A schedule brings the chain to its end**, or to the null pointer that ends the
program. -/
theorem play_ends {moves : List Move} (hf : FreshInner m packs)
    (hs : IsSchedule packs.length m moves) :
    Ends (chain_crashes inner source packs)
      (fun r => chain_crashes inner source packs = false ∧
        r.stages.map Prod.snd = packs ∧ (r.stages.map Prod.fst).Nodup ∧
        r.heap.log = (chain inner source r.stages).2 ∧
        SettledWith (r.heap.cells (last 0 r.stages)) (chain inner source r.stages).1)
      (play b inner source moves (start m packs)) := by
  have hstart : Progress inner source m packs [] (start m packs) none := start_progress m packs
  refine (play_progress (b := b) moves [] hstart hf (by simpa using hs)).lift
    (fun r hplay hprogress => ?_) rfl
  obtain ⟨awaited, hp⟩ := hprogress
  rw [List.nil_append] at hp
  obtain ⟨hrest, hplayed, hnone⟩ := hp.complete hf hs
  have hr := hp.reached hplayed
  rw [hnone] at hr
  have hpacks : r.stages.map Prod.snd = packs := by simpa [hrest] using hp.packs_eq
  obtain ⟨hlog, hlast, hcrashes⟩ := hr.chain_eq
  rw [hpacks] at hcrashes
  exact ⟨r, hplay, hcrashes, hpacks, hp.nodup, hlog, hlast⟩

/-- **Chain semantics is independent of the schedule.** However the binding of
the stages is interleaved with the settlements, no exception comes out of any
move, the promise at the end has the outcome of the reference, and the callbacks
that have run are those of the reference, in its order. The one exception is the same for
all schedules: if a null pointer comes to a stage without a handler, the program ends. -/
theorem play_chain {moves : List Move} (hf : FreshInner m packs)
    (hs : IsSchedule packs.length m moves) :
    (chain_crashes inner source packs = false →
      ∃ r, play b inner source moves (start m packs) = returns r ∧
        r.stages.map Prod.snd = packs ∧
        (r.heap.cells (last 0 r.stages)).outcome = some (chain inner source r.stages).1 ∧
        r.heap.log = (chain inner source r.stages).2) ∧
    (chain_crashes inner source packs = true →
      (play b inner source moves (start m packs)).2 = some .crashed) := by
  rcases play_ends (b := b) hf hs with ⟨r, hplay, hc, hpacks, -, hlog, hlast⟩ | ⟨hc, hplay⟩
  · refine ⟨fun _ => ⟨r, hplay, hpacks, hlast.outcome, hlog⟩, fun hcrash => ?_⟩
    rw [hc] at hcrash
    cases hcrash
  · refine ⟨fun hcrash => ?_, fun _ => hplay⟩
    rw [hc] at hcrash
    cases hcrash

/-- The second stage returns an inner promise, which is rejected before the
stage is even bound; the third handles that. -/
theorem play_chain_three_stages :
    let packs : List (callback_pack ℕ String) :=
      [{ next := .value fun v => .ok (v + 1), finalizer := some none },
        { next := .promise fun _ => .ok 1 }, { handler := .value fun _ => .ok 5 }]
    let moves := [Move.bind, .settle_inner 1, .settle_source, .bind, .bind]
    ∃ r, play .release (fun _ => .rejected .null) (.resolved 3) moves (start 1 packs) = returns r ∧
      r.stages.map Prod.snd = packs ∧
      (r.heap.cells (last 0 r.stages)).outcome
        = some (chain (fun _ => .rejected .null) (.resolved 3) r.stages).1 ∧
      r.heap.log = (chain (fun _ => .rejected .null) (.resolved 3) r.stages).2 := by
  intro packs moves
  have hvalue : ∀ i, ¬ callback_pack.Returns packs[0] i := by
    rintro i ⟨_ | _, ho⟩ <;> cases ho
  have hhandler : ∀ i, ¬ callback_pack.Returns packs[2] i := by
    rintro i ⟨_ | _, ho⟩ <;> cases ho
  have hinner : ∀ i, callback_pack.Returns packs[1] i → i = 1 := by
    rintro i ⟨_ | _, ho⟩ <;> cases ho
    rfl
  refine (play_chain (m := 1) ⟨fun pack hpack i hi => ?_, ?_⟩ (by unfold IsSchedule; decide)).1 rfl
  · simp only [packs, List.mem_cons, List.not_mem_nil, or_false] at hpack
    rcases hpack with rfl | rfl | rfl
    · exact absurd hi (hvalue i)
    · simp [hinner i hi]
    · exact absurd hi (hhandler i)
  · refine .cons (fun _ _ i hi => absurd hi (hvalue i))
      (.cons (fun t ht i _ hi => ?_) (.cons ?_ .nil))
    · obtain rfl := List.mem_singleton.mp ht
      exact absurd hi (hhandler i)
    · simp

/-- What the table "what is called when" says of a chain, which knows of no types: a run
of the schedule ends with it. -/
def AsTabled (b : Build) (inner : PromiseId → Outcome V E) (source : Outcome V E) (m : ℕ)
    (packs : List (callback_pack V E)) (moves : List Move) : Prop :=
  ∃ r, play b inner source moves (start m packs) = returns r ∧
    (r.heap.cells (last 0 r.stages)).outcome
      = some (chain inner source (r.stages.map fun s => (s.1, { s.2 with same_type := true }))).1

/-- A value that would have to be passed on as a value of another type becomes a
rejection; and a null pointer, though all types are the same, ends the program. -/
theorem not_asTabled_other_type_or_null :
    (¬ ∀ (source : Outcome ℕ String) (packs : List (callback_pack ℕ String)) (moves : List Move),
      FreshInner 0 packs → IsSchedule packs.length 0 moves →
      chain_crashes (fun _ => source) source packs = false →
      AsTabled .debug (fun _ => source) source 0 packs moves) ∧
    ¬ ∀ (source : Outcome ℕ String) (packs : List (callback_pack ℕ String)) (moves : List Move),
      FreshInner 0 packs → IsSchedule packs.length 0 moves →
      (∀ pack ∈ packs, pack.same_type = true) →
      AsTabled .debug (fun _ => source) source 0 packs moves := by
  have hschedule : IsSchedule 1 0 [.settle_source, .bind] := by
    unfold IsSchedule
    decide
  constructor
  -- `except` with a handler that returns a string, on a promise of a number
  · intro htable
    have hfresh : FreshInner 0
        [({ handler := .value fun _ => .ok 5, same_type := false } : callback_pack ℕ String)] := by
      refine ⟨fun pack hpack i hi => ?_, List.pairwise_singleton _ _⟩
      obtain rfl := List.mem_singleton.mp hpack
      obtain ⟨_ | _, ho⟩ := hi <;> cases ho
    obtain ⟨r, hplay, hlast⟩ := htable (.resolved 1) _ _ hfresh hschedule rfl
    obtain rfl : _ = r := congrArg Prod.fst hplay
    cases hlast
  -- a null pointer, and a stage without callbacks
  · intro htable
    have hfresh : FreshInner 0 [({} : callback_pack ℕ String)] := by
      refine ⟨fun pack hpack i hi => ?_, List.pairwise_singleton _ _⟩
      obtain rfl := List.mem_singleton.mp hpack
      obtain ⟨_ | _, ho⟩ := hi <;> cases ho
    obtain ⟨r, hplay, -⟩ := htable (.rejected .null) _ _ hfresh hschedule fun pack hpack => by
      obtain rfl := List.mem_singleton.mp hpack
      rfl
    have hcrashed := congrArg Prod.snd hplay
    cases hcrashed

end Schedule
end Kaiu
