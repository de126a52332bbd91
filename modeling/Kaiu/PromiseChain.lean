/-
How far a chain of promises has got, as a property of the heap.

A promise of the chain that has not been settled is `Waiting`, with the stages
behind it. Once it is settled the outcome runs through the stages until it comes
to the end of the chain or to an inner promise that is not settled yet: that is
`Reached`, whose events are the callbacks that have run and whose last argument
is the inner promise the chain waits for. `settles` is the one fact about the nest of
calls that everything else uses: settling a waiting promise returns, and leaves the
chain reached, or the program ends, where the reference says so.

The stages of a chain are distinguished by the promises their `then` returned,
and no two of them can return the same inner promise (`Fresh`). So what the nest
does to one stage is out of the sight of the others, which is what the `congr`
lemmas say.
-/
import Kaiu.PromiseNest
import Mathlib.Data.List.Basic

set_option autoImplicit false

namespace Kaiu

open Exit Store

variable {V E : Type*}

/-- A stage of a chain: the promise that `then` returned, and what it was given. -/
abbrev Stage (V E : Type*) := PromiseId × callback_pack V E

/-- The stage can return the inner promise `i`. -/
def callback_pack.Returns (pack : callback_pack V E) (i : PromiseId) : Prop :=
  ∃ o, pack.result o = .inner i

/-- One of the stages can return the inner promise `i`. -/
def Inners (ss : List (Stage V E)) (i : PromiseId) : Prop :=
  ∃ s ∈ ss, s.2.Returns i

theorem inners_cons {s : Stage V E} {ss : List (Stage V E)} {i : PromiseId} :
    Inners (s :: ss) i ↔ s.2.Returns i ∨ Inners ss i := by
  simp [Inners]

theorem inners_append {ss ts : List (Stage V E)} {i : PromiseId} :
    Inners (ss ++ ts) i ↔ Inners ss i ∨ Inners ts i := by
  simp only [Inners, List.mem_append, or_and_right, exists_or]

theorem not_inners_nil {i : PromiseId} : ¬ Inners ([] : List (Stage V E)) i := by
  simp [Inners]

/-- The promises of the chain that begins with `p`, besides the inner ones. -/
def ids (p : PromiseId) (ss : List (Stage V E)) : List PromiseId := p :: ss.map Prod.fst

/-- The promise at the end of the chain. -/
def last : PromiseId → List (Stage V E) → PromiseId
  | p, [] => p
  | _, (q, _) :: ss => last q ss

/-- The promises of the chain are different ones, and an inner promise is none of
them and belongs to one stage only. -/
structure Fresh (p : PromiseId) (ss : List (Stage V E)) : Prop where
  nodup : (ids p ss).Nodup
  inner_ne : ∀ i, Inners ss i → i ∉ ids p ss
  pairwise : ss.Pairwise fun s t => ∀ i, s.2.Returns i → ¬ t.2.Returns i

theorem Fresh.tail {p q : PromiseId} {pack : callback_pack V E} {ss : List (Stage V E)}
    (hf : Fresh p ((q, pack) :: ss)) : Fresh q ss where
  nodup := (List.nodup_cons.mp hf.nodup).2
  inner_ne i hi hmem :=
    hf.inner_ne i (inners_cons.mpr (Or.inr hi)) (List.mem_cons_of_mem p hmem)
  pairwise := (List.pairwise_cons.mp hf.pairwise).2

/-- The inner promise of the first stage is not one of the later stages'. -/
theorem Fresh.not_inners {p q i : PromiseId} {pack : callback_pack V E} {ss : List (Stage V E)}
    (hf : Fresh p ((q, pack) :: ss)) (hi : pack.Returns i) : ¬ Inners ss i := by
  rintro ⟨s, hs, hsi⟩
  exact (List.pairwise_cons.mp hf.pairwise).1 s hs i hi hsi

theorem Fresh.not_mem {p q : PromiseId} {pack : callback_pack V E} {ss : List (Stage V E)}
    (hf : Fresh p ((q, pack) :: ss)) : p ∉ ids q ss := (List.nodup_cons.mp hf.nodup).1

theorem last_append (p : PromiseId) (ss : List (Stage V E)) (s : Stage V E) :
    last p (ss ++ [s]) = s.1 := by
  induction ss generalizing p with
  | nil => rfl
  | cons t ss ih => exact ih t.1

theorem last_mem_append (p : PromiseId) (ss : List (Stage V E)) (s : Stage V E) :
    last p ss ∈ ids p (ss ++ [s]) := by
  induction ss generalizing p with
  | nil => exact List.mem_cons_self ..
  | cons t ss ih => exact List.mem_cons_of_mem p (ih t.1)

/-! ## Promises of the chain -/

section Cells

variable {W : Type*}

abbrev Cells (V E : Type*) := PromiseId → PromiseState V E (Callbacks V E)

variable {K : Type*}

/-- A promise that is settled with `o`, and that nothing is bound to. -/
structure SettledWith (p : PromiseState V E K) (o : Outcome V E) : Prop where
  state : p.state = PromiseState.settled_state o
  outcome : p.outcome = some o
  unbound : p.callbacks_assigned = false

/-- A promise that is not settled, and that nothing is bound to. -/
structure Unbound (p : PromiseState V E K) : Prop where
  state : p.state = .pending
  unbound : p.callbacks_assigned = false

/-- A promise that is not settled, and that `k` is bound to. -/
structure BoundTo (p : PromiseState V E K) (k : K) : Prop where
  state : p.state = .pending
  assigned : p.callbacks_assigned = true
  callbacks : p.callbacks = some k

/-- An inner promise that has not been returned yet. It may have been settled. -/
def Ready (inner : PromiseId → Outcome V E) (cells : Cells V E) (i : PromiseId) : Prop :=
  Unbound (cells i) ∨ SettledWith (cells i) (inner i)

/-- The promise `p` is not settled, and neither are those of the stages behind
it, which have not returned any promise yet. -/
def Waiting (inner : PromiseId → Outcome V E) (cells : Cells V E) :
    PromiseId → List (Stage V E) → Prop
  | p, [] => Unbound (cells p)
  | p, (q, pack) :: ss =>
      BoundTo (cells p) (.then_to q pack) ∧ (∀ i, pack.Returns i → Ready inner cells i) ∧
        Waiting inner cells q ss

/-- The promise `p` has been settled with `o`, which has run through the stages
`ss`, or as many of them as it could. -/
inductive Reached (inner : PromiseId → Outcome V E) (cells : Cells V E) :
    Outcome V E → PromiseId → List (Stage V E) → List (Event V E) → Option PromiseId → Prop where
  | arrived {o : Outcome V E} {p : PromiseId} (hp : SettledWith (cells p) o) :
      Reached inner cells o p [] [] none
  | passed {o : Outcome V E} {p q : PromiseId} {pack : callback_pack V E}
      {ss : List (Stage V E)} {events : List (Event V E)} {awaited : Option PromiseId}
      (hpack : pack.crashes o = false)
      (hss : Reached inner cells ((pack.result o).outcome inner) q ss events awaited) :
      Reached inner cells o p ((q, pack) :: ss) (pack.events q o ++ events) awaited
  | awaits {o : Outcome V E} {p q i : PromiseId} {pack : callback_pack V E}
      {ss : List (Stage V E)} (hpack : pack.crashes o = false) (hres : pack.result o = .inner i)
      (hi : BoundTo (cells i) (.forward_to q)) (hq : Waiting inner cells q ss) :
      Reached inner cells o p ((q, pack) :: ss) (pack.events q o) (some i)

variable {inner : PromiseId → Outcome V E} {cells cells' : Cells V E} {p : PromiseId}
  {ss : List (Stage V E)} {o : Outcome V E} {events : List (Event V E)}
  {awaited : Option PromiseId}

theorem Waiting.congr (hw : Waiting inner cells p ss) (hids : ∀ x ∈ ids p ss, cells' x = cells x)
    (hready : ∀ i, Inners ss i → Ready inner cells i → Ready inner cells' i) :
    Waiting inner cells' p ss := by
  induction ss generalizing p with
  | nil =>
    rw [Waiting, hids p (List.mem_cons_self ..)]
    exact hw
  | cons s ss ih =>
    obtain ⟨hp, hs, hss⟩ := hw
    refine ⟨?_, fun i hi => hready i (inners_cons.mpr (Or.inl hi)) (hs i hi), ?_⟩
    · rw [hids p (List.mem_cons_self ..)]
      exact hp
    · exact ih hss (fun x hx => hids x (List.mem_cons_of_mem p hx))
        fun i hi => hready i (inners_cons.mpr (Or.inr hi))

/-- What a chain has reached depends on its own promises only. -/
theorem Reached.congr (hr : Reached inner cells o p ss events awaited)
    (hids : ∀ x ∈ ids p ss, cells' x = cells x)
    (hready : ∀ i, Inners ss i → Ready inner cells i → Ready inner cells' i)
    (hawaited : ∀ i, awaited = some i → cells' i = cells i) :
    Reached inner cells' o p ss events awaited := by
  induction hr with
  | arrived hp =>
    refine .arrived ?_
    rw [hids _ (List.mem_cons_self ..)]
    exact hp
  | passed hpack hss ih =>
    exact .passed hpack (ih (fun x hx => hids x (List.mem_cons_of_mem _ hx))
      (fun i hi => hready i (inners_cons.mpr (Or.inr hi))) hawaited)
  | awaits hpack hres hi hq =>
    refine .awaits hpack hres ?_ (hq.congr (fun x hx => hids x (List.mem_cons_of_mem _ hx))
      fun i hi => hready i (inners_cons.mpr (Or.inr hi)))
    rw [hawaited _ rfl]
    exact hi

/-- A promise that has passed its outcome on is not looked at any more. -/
theorem Reached.congr_cons {s : Stage V E}
    (hr : Reached inner cells o p (s :: ss) events awaited)
    (hids : ∀ x ∈ ids s.1 ss, cells' x = cells x)
    (hready : ∀ i, Inners ss i → Ready inner cells i → Ready inner cells' i)
    (hawaited : ∀ i, awaited = some i → cells' i = cells i) :
    Reached inner cells' o p (s :: ss) events awaited := by
  cases hr with
  | passed hpack hss => exact .passed hpack (hss.congr hids hready hawaited)
  | awaits hpack hres hi hq =>
    refine .awaits hpack hres ?_ (hq.congr hids hready)
    rw [hawaited _ rfl]
    exact hi

theorem Unbound.boundTo {c : PromiseState V E K} (hc : Unbound c) (k : K) :
    BoundTo (PromiseState.bound k c) k := ⟨hc.state, rfl, rfl⟩

theorem unbound_new [Inhabited V] : Unbound (PromiseState.new : PromiseState V E K) := ⟨rfl, rfl⟩

theorem Unbound.settledWith {c : PromiseState V E K} (hc : Unbound c) (b : Build)
    (o : Outcome V E) : SettledWith (PromiseState.settled b o c) o :=
  ⟨rfl, PromiseState.outcome_settled b o c, by
    rw [PromiseState.settled_callbacks_assigned, hc.unbound]⟩

theorem SettledWith.not_pending {c : PromiseState V E K} (hc : SettledWith c o) :
    c.state ≠ .pending := by
  rw [hc.state]
  cases o <;> simp [PromiseState.settled_state]

/-- A chain waits for a promise that one of its stages returned. -/
theorem Reached.inners_of_awaited {i : PromiseId}
    (hr : Reached inner cells o p ss events (some i)) : Inners ss i := by
  generalize ha : some i = awaited at hr
  induction hr with
  | arrived hp => cases ha
  | passed hpack hss ih => exact inners_cons.mpr (Or.inr (ih ha))
  | awaits hpack hres hi hq =>
    cases ha
    exact inners_cons.mpr (Or.inl ⟨_, hres⟩)

theorem update_off {P : PromiseId → Prop} {x y : PromiseId} (hx : ¬ P x) (hy : P y)
    (cell : PromiseState V E (Callbacks V E)) : Function.update cells x cell y = cells y := by
  refine Function.update_of_ne ?_ ..
  rintro rfl
  exact hx hy

theorem Ready.update {P : PromiseId → Prop} {x i : PromiseId} (hr : Ready inner cells i)
    (hx : ¬ P x) (hi : P i) (cell : PromiseState V E (Callbacks V E)) :
    Ready inner (Function.update cells x cell) i := by
  rwa [Ready, update_off hx hi]

/-- An inner promise stays ready when one is settled. -/
theorem Ready.settle {b : Build} {i j : PromiseId} (hr : Ready inner cells j)
    (hu : Unbound (cells i)) :
    Ready inner (Function.update cells i (PromiseState.settled b (inner i) (cells i))) j := by
  by_cases hji : j = i
  · subst hji
    right
    simpa using hu.settledWith b (inner j)
  · rwa [Ready, Function.update_of_ne hji]

/-- A promise that the chain does not know can be changed. -/
theorem Waiting.update (hw : Waiting inner cells p ss) {x : PromiseId} (hx : x ∉ ids p ss)
    (hxs : ¬ Inners ss x) (cell : PromiseState V E (Callbacks V E)) :
    Waiting inner (Function.update cells x cell) p ss :=
  hw.congr (fun _ hy => update_off hx hy cell)
    fun _ hi hr => hr.update hxs hi cell

theorem Reached.update (hr : Reached inner cells o p ss events awaited) {x : PromiseId}
    (hx : x ∉ ids p ss) (hxs : ¬ Inners ss x) (cell : PromiseState V E (Callbacks V E)) :
    Reached inner (Function.update cells x cell) o p ss events awaited := by
  refine hr.congr (fun y hy => update_off hx hy cell) (fun i hi hready => ?_) ?_
  · exact hready.update hxs hi cell
  · rintro i rfl
    exact update_off hxs hr.inners_of_awaited cell

theorem Reached.update_cons {s : Stage V E} (hr : Reached inner cells o p (s :: ss) events awaited)
    {x : PromiseId} (hx : x ∉ ids s.1 ss) (hxs : ¬ Inners (s :: ss) x)
    (cell : PromiseState V E (Callbacks V E)) :
    Reached inner (Function.update cells x cell) o p (s :: ss) events awaited := by
  refine hr.congr_cons (fun y hy => update_off hx hy cell) (fun i hi hready => ?_) ?_
  · exact hready.update hxs (inners_cons.mpr (Or.inr hi)) cell
  · rintro i rfl
    exact update_off hxs hr.inners_of_awaited cell

theorem Reached.boundTo_of_awaited {i : PromiseId}
    (hr : Reached inner cells o p ss events (some i)) :
    ∃ q, BoundTo (cells i) (.forward_to q) := by
  generalize ha : some i = awaited at hr
  induction hr with
  | arrived hp => cases ha
  | passed hpack hss ih => exact ih ha
  | @awaits o p q j pack ss hpack hres hi hq =>
    cases ha
    exact ⟨q, hi⟩

/-- **The end of the chain.** A chain that waits for nothing has the outcome and
the events of the reference, in which no null pointer had to be rethrown. -/
theorem Reached.chain_eq (hr : Reached inner cells o p ss events none) :
    events = (chain inner o ss).2 ∧ SettledWith (cells (last p ss)) (chain inner o ss).1 ∧
      chain_crashes inner o (ss.map Prod.snd) = false := by
  generalize ha : none = awaited at hr
  induction hr with
  | arrived hp => exact ⟨rfl, hp, rfl⟩
  | passed hpack hss ih =>
    obtain ⟨hevents, hlast, hcrashes⟩ := ih ha
    refine ⟨by rw [hevents]; rfl, hlast, ?_⟩
    rw [List.map_cons, chain_crashes, hpack, hcrashes]
    rfl
  | awaits hpack hres hi hq => cases ha

end Cells

/-! ## Settling the first promise of a chain -/

namespace Heap

variable {inner : PromiseId → Outcome V E} {h h₁ h₂ : Heap V E} {p q : PromiseId}
  {ss : List (Stage V E)} {o o' : Outcome V E} {pack : callback_pack V E} {own : List PromiseId}
  {awaited : Option PromiseId}

/-- A heap in which the chain of `p` waits, and its locks are free. -/
structure Clear (inner : PromiseId → Outcome V E) (h : Heap V E) (p : PromiseId)
    (ss : List (Stage V E)) : Prop where
  fresh : Fresh p ss
  free : ∀ x : ℕ, x ∈ ids p ss ∨ Inners ss x → x < h.size ∧ x ∉ h.held
  held : ∀ x : ℕ, x ∈ h.held → x < h.size
  waiting : Waiting inner h.cells p ss

/-- What running the stages `ss` can have changed: the promises `own`, and the
inner promises of the stages, none of which has become settled. -/
structure Footprint (h h' : Heap V E) (own : List PromiseId) (ss : List (Stage V E))
    (awaited : Option PromiseId) : Prop where
  size_le : h.size ≤ h'.size
  cells_eq : ∀ x : ℕ, x < h.size → x ∉ own → ¬ Inners ss x → h'.cells x = h.cells x
  pending_iff : ∀ x : ℕ, x < h.size → x ∉ own →
    ((h'.cells x).state = .pending ↔ (h.cells x).state = .pending)
  unchanged : ∀ x : ℕ, x < h.size → x ∉ own → (h'.cells x).state = .pending →
    awaited ≠ some x → h'.cells x = h.cells x

/-- The stages `ss` behind `p` have run on `o`. -/
def Ran (inner : PromiseId → Outcome V E) (h : Heap V E) (o : Outcome V E) (p : PromiseId)
    (ss : List (Stage V E)) (own : List PromiseId) (h' : Heap V E) : Prop :=
  ∃ events awaited, Reached inner h'.cells o p ss events awaited ∧
    h'.log = h.log ++ events ∧ Footprint h h' own ss awaited

/-- Changing one promise more. -/
theorem Footprint.update (hf : Footprint h h₁ own ss awaited) (x : ℕ)
    (cell : PromiseState V E (Callbacks V E)) (held : List PromiseId) :
    Footprint h { h₁ with cells := Function.update h₁.cells x cell, held := held } (x :: own) ss
      awaited := by
  have hne : ∀ y, y ∉ x :: own → Function.update h₁.cells x cell y = h₁.cells y := fun y hy =>
    Function.update_of_ne (List.ne_of_not_mem_cons hy) ..
  have hown : ∀ y, y ∉ x :: own → y ∉ own := fun y hy hmem => hy (List.mem_cons_of_mem x hmem)
  refine ⟨hf.size_le, fun y hlt hy => ?_, fun y hlt hy => ?_, fun y hlt hy => ?_⟩ <;>
    simp only [hne y hy]
  · exact hf.cells_eq y hlt (hown y hy)
  · exact hf.pending_iff y hlt (hown y hy)
  · exact hf.unchanged y hlt (hown y hy)

/-- The promises are the same ones. -/
theorem Footprint.same (hsize : h₁.size = h.size) (hcells : h₁.cells = h.cells)
    (own : List PromiseId) (ss : List (Stage V E)) (awaited : Option PromiseId) :
    Footprint h h₁ own ss awaited := by
  refine ⟨Nat.le_of_eq hsize.symm, fun x _ _ _ => ?_, fun x _ _ => ?_, fun x _ _ _ _ => ?_⟩ <;>
    rw [hcells]

/-- The inner promise that the chain begins to wait for is still not settled. -/
theorem Footprint.drop_awaited {x : ℕ} (hf : Footprint h h₁ (x :: own) ss (some x))
    (hx : Inners ss x) (hs : (h.cells x).state = .pending) (hs₁ : (h₁.cells x).state = .pending) :
    Footprint h h₁ own ss (some x) := by
  have hown : ∀ y, y ≠ x → y ∉ own → y ∉ x :: own := fun y hne hy =>
    List.not_mem_cons_of_ne_of_not_mem hne hy
  refine ⟨hf.size_le, fun y hlt hy hys => ?_, fun y hlt hy => ?_, fun y hlt hy hpend hne => ?_⟩
  · exact hf.cells_eq y hlt (hown y (fun heq => hys (heq ▸ hx)) hy) hys
  · by_cases heq : y = x
    · subst heq
      simp [hs, hs₁]
    · exact hf.pending_iff y hlt (hown y heq hy)
  · exact hf.unchanged y hlt (hown y (fun heq => hne (heq ▸ rfl)) hy) hpend hne

/-- A promise that was not there before need not be mentioned. -/
theorem Footprint.drop {x : ℕ} (hf : Footprint h h₁ (x :: own) ss awaited) (hx : h.size ≤ x) :
    Footprint h h₁ own ss awaited := by
  have hown : ∀ y : ℕ, y < h.size → y ∉ own → y ∉ x :: own := by
    intro y hlt hy hmem
    rcases List.mem_cons.mp hmem with rfl | hmem
    · omega
    · exact hy hmem
  exact ⟨hf.size_le, fun y hlt hy => hf.cells_eq y hlt (hown y hlt hy),
    fun y hlt hy => hf.pending_iff y hlt (hown y hlt hy),
    fun y hlt hy => hf.unchanged y hlt (hown y hlt hy)⟩

/-- Nor need an inner promise that is settled before and after. -/
theorem Footprint.drop_settled {x : ℕ} (hf : Footprint h h₁ (x :: own) ss awaited)
    (hx : Inners ss x) (hs : (h.cells x).state ≠ .pending) (hs₁ : (h₁.cells x).state ≠ .pending) :
    Footprint h h₁ own ss awaited := by
  have hown : ∀ y, y ≠ x → y ∉ own → y ∉ x :: own := fun y hne hy =>
    List.not_mem_cons_of_ne_of_not_mem hne hy
  refine ⟨hf.size_le, fun y hlt hy hys => ?_, fun y hlt hy => ?_, fun y hlt hy hpend => ?_⟩
  · exact hf.cells_eq y hlt (hown y (fun heq => hys (heq ▸ hx)) hy) hys
  · by_cases heq : y = x
    · subst heq
      simp [hs, hs₁]
    · exact hf.pending_iff y hlt (hown y heq hy)
  · exact hf.unchanged y hlt (hown y (fun heq => hs₁ (heq ▸ hpend)) hy) hpend

theorem Footprint.mono {own' : List PromiseId} {ss' : List (Stage V E)}
    (hf : Footprint h h₁ own ss awaited) (hown : ∀ x ∈ own, x ∈ own')
    (hss : ∀ x, Inners ss x → Inners ss' x) : Footprint h h₁ own' ss' awaited where
  size_le := hf.size_le
  cells_eq x hlt hx hs := hf.cells_eq x hlt (fun hmem => hx (hown x hmem)) fun hi => hs (hss x hi)
  pending_iff x hlt hx := hf.pending_iff x hlt fun hmem => hx (hown x hmem)
  unchanged x hlt hx := hf.unchanged x hlt fun hmem => hx (hown x hmem)

theorem Footprint.cons (hf : Footprint h h₁ own ss awaited) (s : Stage V E) :
    Footprint h h₁ own (s :: ss) awaited :=
  hf.mono (fun _ hx => hx) fun _ hx => inners_cons.mpr (Or.inr hx)

/-- The footprint is the same from an earlier heap with the same promises. -/
theorem Footprint.from {h₀ : Heap V E} (hf : Footprint h h₁ own ss awaited)
    (hle : h₀.size ≤ h.size) (hcells : ∀ x : ℕ, x < h₀.size → h.cells x = h₀.cells x) :
    Footprint h₀ h₁ own ss awaited := by
  refine ⟨Nat.le_trans hle hf.size_le, fun x hlt => ?_, fun x hlt => ?_, fun x hlt => ?_⟩ <;>
    rw [← hcells x hlt]
  · exact hf.cells_eq x (Nat.lt_of_lt_of_le hlt hle)
  · exact hf.pending_iff x (Nat.lt_of_lt_of_le hlt hle)
  · exact hf.unchanged x (Nat.lt_of_lt_of_le hlt hle)

/-- A promise that the stages do not know can be changed behind them. -/
theorem Ran.update {s : Stage V E} (hr : Ran inner h o p (s :: ss) (ids s.1 ss) h₁) (x : ℕ)
    (hx : x ∉ ids s.1 ss) (hxs : ¬ Inners (s :: ss) x)
    (cell : PromiseState V E (Callbacks V E)) (held : List PromiseId) :
    Ran inner h o p (s :: ss) (x :: ids s.1 ss)
      { h₁ with cells := Function.update h₁.cells x cell, held := held } := by
  obtain ⟨events, awaited, hreached, hlog, hfoot⟩ := hr
  exact ⟨events, awaited, hreached.update_cons hx hxs cell, hlog, hfoot.update x cell held⟩

/-- The chain behind the first promise, in a nest that holds its lock. -/
theorem Clear.lock (hc : Clear inner h p ((q, pack) :: ss)) :
    Clear inner { h with held := p :: h.held } q ss where
  fresh := hc.fresh.tail
  free x hx := by
    have hmem : x ∈ ids p ((q, pack) :: ss) ∨ Inners ((q, pack) :: ss) x :=
      hx.imp (List.mem_cons_of_mem p) fun hi => inners_cons.mpr (Or.inr hi)
    obtain ⟨hlt, hfree⟩ := hc.free x hmem
    refine ⟨hlt, fun hheld => ?_⟩
    rcases List.mem_cons.mp hheld with rfl | hheld
    · rcases hx with hx | hx
      · exact hc.fresh.not_mem hx
      · exact hc.fresh.inner_ne _ (inners_cons.mpr (Or.inr hx)) (List.mem_cons_self ..)
    · exact hfree hheld
  held x hx := by
    rcases List.mem_cons.mp hx with rfl | hx
    · exact (hc.free _ (Or.inl (List.mem_cons_self ..))).1
    · exact hc.held x hx
  waiting := hc.waiting.2.2

/-- A heap that differs in other promises and locks only. -/
theorem Clear.congr (hc : Clear inner h q ss) (hle : h.size ≤ h₁.size)
    (hcells : ∀ x : ℕ, x ∈ ids q ss ∨ Inners ss x → h₁.cells x = h.cells x)
    (hfree : ∀ x : ℕ, x ∈ ids q ss ∨ Inners ss x → x ∉ h₁.held)
    (hheld : ∀ x : ℕ, x ∈ h₁.held → x < h₁.size) : Clear inner h₁ q ss where
  fresh := hc.fresh
  free x hx := ⟨Nat.lt_of_lt_of_le (hc.free x hx).1 hle, hfree x hx⟩
  held := hheld
  waiting := by
    refine hc.waiting.congr (fun x hx => hcells x (Or.inl hx)) fun i hi hready => ?_
    rw [Ready, hcells i (Or.inr hi)]
    exact hready

variable [Inhabited V] {b : Build}

theorem Clear.prepared {events : List (Event V E)} (hc : Clear inner h q ss)
    (hp : Prepared b events h h₁) : Clear inner h₁ q ss := by
  have hlt : ∀ x : ℕ, x ∈ ids q ss ∨ Inners ss x → x < h.size := fun x hx => (hc.free x hx).1
  have hle := hp.size_le
  refine hc.congr hle (fun x hx => hp.cells_eq x (Nat.ne_of_lt (hlt x hx)))
    (fun x hx hmem => ?_) fun x hx => ?_
  · rcases hp.held_eq with he | ⟨-, he⟩
    · exact (hc.free x hx).2 (he ▸ hmem)
    · rw [he] at hmem
      rcases List.mem_cons.mp hmem with rfl | hmem
      · exact Nat.lt_irrefl _ (hlt _ hx)
      · exact (hc.free x hx).2 hmem
  · rcases hp.held_eq with he | ⟨hs, he⟩
    · exact Nat.lt_of_lt_of_le (hc.held x (he ▸ hx)) hle
    · rw [he] at hx
      rcases List.mem_cons.mp hx with rfl | hx
      · omega
      · exact Nat.lt_of_lt_of_le (hc.held x hx) hle

/-- The rule for settling the first promise of the chain, at every depth that is
left for it. -/
def Settles (inner : PromiseId → Outcome V E) (b : Build) (q : PromiseId)
    (ss : List (Stage V E)) : Prop :=
  ∀ n o h, 2 * ss.length ≤ n → Clear inner h q ss →
    Ends (chain_crashes inner o (ss.map Prod.snd)) (Ran inner h o q ss (ids q ss))
      (settle b (invoke b n) o q h)

/-- A stage that settles: what it passes on goes on at once. -/
theorem stage_settles {n : ℕ} (hsettles : Settles inner b q ss) (hfuel : 2 * ss.length ≤ n)
    (hc : Clear inner h q ss) (hfree : ∀ i : ℕ, pack.Returns i → i < h.size ∧ i ∉ h.held)
    (hpack : pack.crashes o = false) (hres : pack.result o = .settled o') :
    Ends (chain_crashes inner o' (ss.map Prod.snd))
      (Ran inner h o p ((q, pack) :: ss) (ids q ss)) (invoke b (n + 2) (.then_to q pack) o h) := by
  have hfresh : h.size ∉ h.held := fun hmem => Nat.lt_irrefl _ (hc.held _ hmem)
  refine then_callback_settled hpack hres hfresh (fun h₂ held hran => ?_) fun m h₁ hm hprep => ?_
  · -- the promise that carries the outcome is a new one, which the chain does not know
    have hlt : ∀ x : ℕ, x ∈ ids q ss ∨ Inners ss x → x < h.size := fun x hx => (hc.free x hx).1
    obtain ⟨events, awaited, hreached, hlog, hfoot⟩ := hran.update h.size
      (fun hmem => Nat.lt_irrefl _ (hlt _ (Or.inl hmem)))
      (fun hmem => (inners_cons.mp hmem).elim (fun hi => Nat.lt_irrefl _ (hfree _ hi).1)
        fun hi => Nat.lt_irrefl _ (hlt _ (Or.inr hi)))
      (forwarded b o' q) held
    exact ⟨events, awaited, hreached, hlog, hfoot.drop (Nat.le_refl _)⟩
  · refine (hsettles m o' h₁ (by omega) (hc.prepared hprep)).lift (fun h₂ hh₂ hran => ?_) rfl
    obtain ⟨events, awaited, hreached, hlog, hfoot⟩ := hran
    refine ⟨h₂, hh₂, pack.events q o ++ events, awaited, .passed hpack ?_, ?_, ?_⟩
    · rw [hres]
      exact hreached
    · rw [hlog, hprep.log_eq, List.append_assoc]
    · refine (hfoot.from hprep.size_le fun x hlt => ?_).cons _
      exact hprep.cells_eq x (Nat.ne_of_lt hlt)

/-- A stage that returns an inner promise: the chain waits for it, or its outcome goes on
at once. -/
theorem stage_forwards {n i : ℕ} (hsettles : Settles inner b q ss) (hfuel : 2 * ss.length ≤ n)
    (hf : Fresh p ((q, pack) :: ss)) (hc : Clear inner h q ss)
    (hready : ∀ i, pack.Returns i → Ready inner h.cells i)
    (hfree : ∀ i : ℕ, pack.Returns i → i < h.size ∧ i ∉ h.held)
    (hpack : pack.crashes o = false) (hres : pack.result o = .inner i) :
    Ends (chain_crashes inner (inner i) (ss.map Prod.snd))
      (Ran inner h o p ((q, pack) :: ss) (ids q ss)) (invoke b (n + 2) (.then_to q pack) o h) := by
  have hi : pack.Returns i := ⟨o, hres⟩
  obtain ⟨hlt, hheld⟩ := hfree i hi
  have hiq : i ∉ ids q ss := fun hmem =>
    hf.inner_ne i (inners_cons.mpr (Or.inl hi)) (List.mem_cons_of_mem p hmem)
  have hiss : ¬ Inners ss i := hf.not_inners hi
  have hcall : invoke b (n + 2) (.then_to q pack) o h
      = forward_to b (invoke b (n + 1)) i q (h.logged (pack.events q o)) :=
    then_callback_inner (invoke b (n + 1)) h hpack hres
  rw [hcall]
  rcases hready i hi with hi' | hi'
  · -- the chain has to wait for the inner promise
    have hbound : BoundTo (PromiseState.bound (.forward_to q)
        ((h.logged (pack.events q o)).cells i)) (.forward_to q) := hi'.boundTo _
    refine .inl ⟨_, bind_pending hheld hi'.state hi'.unbound, pack.events q o, some i,
      .awaits hpack hres ?_ (hc.waiting.update hiq hiss _), rfl, ?_⟩
    · simpa using hbound
    · refine Footprint.drop_awaited ?_ (inners_cons.mpr (Or.inl hi)) hi'.state
        (by simpa using hbound.state)
      have hsame : Footprint h (h.logged (pack.events q o)) (ids q ss) ((q, pack) :: ss)
          (some i) := by
        refine Footprint.same ?_ ?_ _ _ _ <;> rfl
      exact hsame.update i _ _
  · -- the outcome of the inner promise goes on at once
    have hclear : Clear inner { h.logged (pack.events q o) with held := i :: h.held } q ss := by
      refine hc.congr (Nat.le_refl _) (fun _ _ => rfl) (fun x hx hmem => ?_) fun x hx => ?_
      · rcases List.mem_cons.mp hmem with rfl | hmem
        · exact hx.elim hiq hiss
        · exact (hc.free x hx).2 hmem
      · rcases List.mem_cons.mp hx with rfl | hx
        · exact hlt
        · exact hc.held x hx
    refine (hsettles n (inner i) _ hfuel hclear).lift (fun h₂ hh₂ hran => ?_)
      (bind_settled_exit hheld hi'.unbound hi'.state hi'.outcome)
    obtain ⟨events, awaited, hreached, hlog, hfoot⟩ := hran
    refine ⟨_, bind_settled hheld hi'.unbound hi'.state hi'.outcome hh₂,
      pack.events q o ++ events, awaited, .passed hpack ?_, ?_, ?_⟩
    · rw [hres]
      exact hreached.update hiq hiss _
    · simp [hlog, logged]
    · refine Footprint.drop_settled ?_ (inners_cons.mpr (Or.inl hi)) hi'.not_pending
        (by simp [PromiseState.complete])
      have hfoot' : Footprint h h₂ (ids q ss) ss awaited :=
        hfoot.from (Nat.le_refl _) fun _ _ => rfl
      exact (hfoot'.cons (q, pack)).update i _ _

/-- **One stage.** Its callback returns, and what is behind it has run as far as
it could, or a null pointer had to be rethrown. -/
theorem stage_runs {n : ℕ} (hsettles : Settles inner b q ss) (hfuel : 2 * ss.length ≤ n)
    (hf : Fresh p ((q, pack) :: ss)) (hc : Clear inner h q ss)
    (hready : ∀ i, pack.Returns i → Ready inner h.cells i)
    (hfree : ∀ i : ℕ, pack.Returns i → i < h.size ∧ i ∉ h.held) :
    Ends (chain_crashes inner o (pack :: ss.map Prod.snd))
      (Ran inner h o p ((q, pack) :: ss) (ids q ss)) (invoke b (n + 2) (.then_to q pack) o h) := by
  by_cases hpack : pack.crashes o = true
  · -- no callback has run, and nothing behind the stage will
    have hcall : invoke b (n + 2) (.then_to q pack) o h = throws h .crashed :=
      then_callback_crashes (invoke b (n + 1)) h hpack
    rw [chain_crashes, hpack, hcall]
    exact .inr ⟨rfl, rfl⟩
  rw [Bool.not_eq_true] at hpack
  rw [chain_crashes, hpack, Bool.false_or]
  cases hres : pack.result o with
  | settled o' => exact stage_settles hsettles hfuel hc hfree hpack hres
  | inner i => exact stage_forwards hsettles hfuel hf hc hready hfree hpack hres

/-- **Settling a waiting chain.** The induction is on the stages: each is run by
the settlement of the promise before it. -/
theorem settles (inner : PromiseId → Outcome V E) (b : Build) (p : PromiseId)
    (ss : List (Stage V E)) : Settles inner b p ss := by
  induction ss generalizing p with
  | nil =>
    intro n o h hfuel hc
    obtain ⟨-, hfree⟩ := hc.free p (Or.inl (List.mem_cons_self ..))
    refine .inl ⟨_, settle_unbound hfree hc.waiting.state hc.waiting.unbound, [], none,
      .arrived ?_, (List.append_nil _).symm, (Footprint.same rfl rfl [] [] none).update p _ _⟩
    simpa using hc.waiting.settledWith b o
  | cons s ss ih =>
    obtain ⟨q, pack⟩ := s
    intro n o h hfuel hc
    simp only [List.length_cons] at hfuel
    obtain ⟨n, rfl⟩ : ∃ m, n = m + 2 := ⟨n - 2, by omega⟩
    obtain ⟨-, hfree⟩ := hc.free p (Or.inl (List.mem_cons_self ..))
    obtain ⟨hp, hready, -⟩ := hc.waiting
    have hp_not_mem : p ∉ ids q ss := hc.fresh.not_mem
    have hp_not_inner : ¬ Inners ((q, pack) :: ss) p := fun hi =>
      hc.fresh.inner_ne p hi (List.mem_cons_self ..)
    have hstage := stage_runs (n := n) (h := { h with held := p :: h.held }) (o := o)
      (ih q) (by omega) hc.fresh hc.lock hready fun i hi => by
        obtain ⟨hlt, hheld⟩ := hc.free i (Or.inr (inners_cons.mpr (Or.inl hi)))
        refine ⟨hlt, fun hmem => ?_⟩
        rcases List.mem_cons.mp hmem with rfl | hmem
        · exact hp_not_inner (inners_cons.mpr (Or.inl hi))
        · exact hheld hmem
    refine hstage.lift (fun h₂ hh₂ hran => ?_)
      (settle_bound_exit hfree hp.state hp.assigned hp.callbacks)
    refine ⟨_, settle_bound hfree hp.state hp.assigned hp.callbacks hh₂, ?_⟩
    obtain ⟨events, awaited, hreached, hlog, hfoot⟩ :=
      hran.update p hp_not_mem hp_not_inner _ h.held
    exact ⟨events, awaited, hreached, hlog, hfoot.from (Nat.le_refl _) fun _ _ => rfl⟩

end Heap
end Kaiu
