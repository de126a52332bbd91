/-
Bound and settled means completed: runs of promise operations on any set of
promises chained to one another.

`update_state` marks a promise as completed after its callback has returned. A
callback that throws therefore leaves the promise settled, bound and alive, and
its callback is called again if the promise is settled again. A callback throws
when the outcome it passes on ends in one of these ways: a rejection reaches
`finish()`; a promise on the way has been settled by someone else; an inner
promise is already bound; or the nest comes back to a promise it is itself in the
middle of (which blocks for ever). A null pointer that comes to a stage without a handler
ends the program. `Passes` says that none of these happens. It
looks at the promises as they are before the operation and at what the user's
callbacks return, and `run_tidy` shows that a run in which every outcome passes
leaves every bound and settled promise completed.
-/
import Kaiu.PromiseNest

set_option autoImplicit false

namespace Kaiu

open Exit Store

variable {V E : Type*}

/-- The promise a bound promise settles in turn. -/
def Callbacks.target : Callbacks V E → Option PromiseId
  | .forward_to next => some next
  | .then_to promise _ => some promise
  | .terminator => none

namespace PromiseState

/-- `resolve` or `reject` with `o` is let through: the promise is pending, or the
settlement repeats one that nobody is bound to. -/
def Accepts (p : PromiseState V E (Callbacks V E)) (o : Outcome V E) : Prop :=
  p.state = .pending ∨ p.state = settled_state o ∧ p.callbacks_assigned = false

/-- What every promise satisfies between operations; `N` is how many there are. -/
structure Tidy (N : ℕ) (p : PromiseState V E (Callbacks V E)) : Prop where
  completed : p.callbacks_assigned = true → p.state ≠ .pending →
    p.state = .completed ∧ p.callbacks = none ∧ p.self_reference = false
  called_once : p.called.length ≤ 1
  called_completed : p.called ≠ [] → p.state = .completed
  completed_assigned : p.state = .completed → p.callbacks_assigned = true
  callbacks_some : p.callbacks_assigned = true → p.state = .pending →
    ∃ k, p.callbacks = some k ∧ ∀ q ∈ k.target, q < N
  callbacks_none : p.callbacks_assigned = false → p.callbacks = none

end PromiseState

/-! ## The condition -/

/-- Running the callbacks `k` on the outcome `o`, in a nest that holds the locks
of `L`, comes back. -/
inductive Passes (h : Heap V E) : List PromiseId → Callbacks V E → Outcome V E → Prop where
  | terminator {L : List PromiseId} {o : Outcome V E}
      (ho : ∀ error, o = .rejected error → error = .null) : Passes h L .terminator o
  | forward_to {L : List PromiseId} {q : ℕ} {o : Outcome V E}
      (hq : q ∉ L) (hs : (h.cells q).Accepts o)
      (hk : ∀ k, (h.cells q).callbacks = some k → Passes h (q :: L) k o) :
      Passes h L (.forward_to q) o
  | then_settled {L : List PromiseId} {q : ℕ} {pack : callback_pack V E}
      {o o' : Outcome V E} (hpack : pack.crashes o = false) (hres : pack.result o = .settled o')
      (hq : q ∉ L) (hs : (h.cells q).Accepts o')
      (hk : ∀ k, (h.cells q).callbacks = some k → Passes h (q :: L) k o') :
      Passes h L (.then_to q pack) o
  | then_awaits {L : List PromiseId} {q i : PromiseId} {pack : callback_pack V E}
      {o : Outcome V E} (hpack : pack.crashes o = false) (hres : pack.result o = .inner i)
      (hi : i < h.size) (hiL : i ∉ L) (ha : (h.cells i).callbacks_assigned = false)
      (hs : (h.cells i).state = .pending) : Passes h L (.then_to q pack) o
  | then_forwards {L : List PromiseId} {q i : PromiseId} {pack : callback_pack V E}
      {o o' : Outcome V E} (hpack : pack.crashes o = false) (hres : pack.result o = .inner i)
      (hi : i < h.size) (hiL : i ∉ L) (ha : (h.cells i).callbacks_assigned = false)
      (ho : (h.cells i).outcome = some o')
      (hq : q ∉ i :: L) (hs : (h.cells q).Accepts o')
      (hk : ∀ k, (h.cells q).callbacks = some k → Passes h (q :: i :: L) k o') :
      Passes h L (.then_to q pack) o

namespace PromiseState

variable {b : Build} {N M : ℕ} {p : PromiseState V E (Callbacks V E)} {o : Outcome V E}

/-! ## Promises -/

theorem Tidy.mono (hp : Tidy N p) (hle : N ≤ M) : Tidy M p where
  completed := hp.completed
  called_once := hp.called_once
  called_completed := hp.called_completed
  completed_assigned := hp.completed_assigned
  callbacks_some ha hs := by
    obtain ⟨k, hk, htarget⟩ := hp.callbacks_some ha hs
    exact ⟨k, hk, fun q hq => Nat.lt_of_lt_of_le (htarget q hq) hle⟩
  callbacks_none := hp.callbacks_none

/-- Callbacks that have not run have not been called. -/
theorem Tidy.called_nil (hp : Tidy N p) (hs : p.state ≠ .completed) : p.called = [] := by
  by_contra hne
  exact hs (hp.called_completed hne)

theorem tidy_new [Inhabited V] : Tidy N (new : PromiseState V E (Callbacks V E)) := by
  constructor <;> simp [new]

/-- A promise nobody is bound to is tidy in any state but `completed`. -/
theorem tidy_of_unbound (ha : p.callbacks_assigned = false) (hs : p.state ≠ .completed)
    (hc : p.called = []) (hk : p.callbacks = none) : Tidy N p := by
  constructor <;> simp [ha, hs, hc, hk]

theorem tidy_settled_new [Inhabited V] (b : Build) (o : Outcome V E) :
    Tidy N (settled b o (new : PromiseState V E (Callbacks V E))) := by
  refine tidy_of_unbound (by simp [new]) ?_ (by simp [new]) (by simp [new])
  cases o <;> simp [settled_state]

theorem tidy_complete (hc : p.called = []) (ha : p.callbacks_assigned = true) :
    Tidy N (complete o p) := by
  constructor <;> simp [complete, hc, ha]

theorem tidy_bound {k : Callbacks V E} (hs : p.state = .pending) (hc : p.called = [])
    (hk : ∀ q : ℕ, q ∈ k.target → q < N) : Tidy N (bound k p) where
  completed _ hne := absurd hs hne
  called_once := by simp [bound, hc]
  called_completed hne := absurd hc hne
  completed_assigned _ := rfl
  callbacks_some _ _ := ⟨k, rfl, hk⟩
  callbacks_none ha := by simp [bound] at ha

/-- Writing the value or error alone changes nothing of this. -/
theorem Tidy.with_outcome (hp : Tidy N p) (o : Outcome V E) : Tidy N (with_outcome o p) := by
  cases o <;> exact ⟨hp.completed, hp.called_once, hp.called_completed, hp.completed_assigned,
    hp.callbacks_some, hp.callbacks_none⟩

theorem Tidy.pending_of_outcome (hp : Tidy N p) (ha : p.callbacks_assigned = false)
    (ho : p.outcome = none) : p.state = .pending := by
  have hs : p.state ≠ .completed := fun hs => by simp [hp.completed_assigned hs] at ha
  revert ho
  cases hst : p.state <;> simp_all [outcome]

/-- A promise nobody is bound to has not passed its outcome on. -/
theorem Tidy.settled_of_outcome (hp : Tidy N p) (ha : p.callbacks_assigned = false)
    (ho : p.outcome = some o) : p.state = settled_state o := by
  have hs : p.state ≠ .completed := fun hs => by simp [hp.completed_assigned hs] at ha
  revert ho
  cases hst : p.state <;> simp_all [outcome, settled_state]
  all_goals rintro rfl; rfl

end PromiseState

namespace Heap

variable {b : Build} {h h₁ h₂ : Heap V E} {L : List PromiseId} {o : Outcome V E}

/-! ## Nests

`h` is the heap before the outermost operation and `L` the promises of `h` whose
locks the nest holds. -/

/-- A heap a nest can have come to: promises of `h` change only under a lock of
`L`, and all others, the new ones included, are tidy. -/
structure Nest (h : Heap V E) (L : List PromiseId) (h₁ : Heap V E) : Prop where
  nodup : L.Nodup
  locks : ∀ x : ℕ, x ∈ L → x < h.size
  size_le : h.size ≤ h₁.size
  cells_eq : ∀ x : ℕ, x < h.size → x ∉ L → h₁.cells x = h.cells x
  held : ∀ x : ℕ, x ∈ h₁.held → x ∈ L ∨ h.size ≤ x ∧ x < h₁.size
  tidy : ∀ x : ℕ, x < h₁.size → x ∉ L → (h₁.cells x).Tidy h₁.size

/-- What a call in the nest leaves. -/
structure Kept (L : List PromiseId) (h₁ h₂ : Heap V E) : Prop where
  size_le : h₁.size ≤ h₂.size
  tidy : ∀ x : ℕ, x < h₂.size → x ∉ L → (h₂.cells x).Tidy h₂.size

theorem Nest.length_le (hn : Nest h L h₁) : L.length ≤ h.size := by
  have hsub : L ⊆ List.range h.size := fun x hx => List.mem_range.mpr (hn.locks x hx)
  simpa using hn.nodup.length_le_of_subset hsub

/-- Another lock can be taken. -/
theorem Nest.lock {q : ℕ} (hn : Nest h L h₁) (hq : q < h.size) (hqL : q ∉ L) :
    Nest h (q :: L) { h₁ with held := q :: h₁.held } where
  nodup := List.nodup_cons.mpr ⟨hqL, hn.nodup⟩
  locks x hx := by
    rcases List.mem_cons.mp hx with rfl | hx
    · exact hq
    · exact hn.locks x hx
  size_le := hn.size_le
  cells_eq x hx hxL := hn.cells_eq x hx fun hmem => hxL (List.mem_cons_of_mem q hmem)
  held x hx := by
    rcases List.mem_cons.mp hx with rfl | hx
    · exact Or.inl (List.mem_cons_self ..)
    · exact (hn.held x hx).imp_left (List.mem_cons_of_mem q)
  tidy x hx hxL := hn.tidy x hx fun hmem => hxL (List.mem_cons_of_mem q hmem)

theorem Nest.not_held {q : ℕ} (hn : Nest h L h₁) (hq : q < h.size) (hqL : q ∉ L) :
    q ∉ h₁.held := by
  intro hmem
  rcases hn.held q hmem with hmem | ⟨hge, -⟩
  · exact hqL hmem
  · omega

theorem Nest.fresh (hn : Nest h L h₁) : h₁.size ∉ h₁.held := by
  intro hmem
  rcases hn.held _ hmem with hmem | ⟨-, hlt⟩
  · have := hn.locks _ hmem
    have := hn.size_le
    omega
  · omega

theorem Nest.logged (hn : Nest h L h₁) (events : List (Event V E)) :
    Nest h L (h₁.logged events) :=
  ⟨hn.nodup, hn.locks, hn.size_le, hn.cells_eq, hn.held, hn.tidy⟩

/-- What a stage prepares is still a heap of the nest. -/
theorem Nest.prepared [Inhabited V] {events : List (Event V E)} (hn : Nest h L h₁)
    (hp : Prepared b events h₁ h₂) : Nest h L h₂ where
  nodup := hn.nodup
  locks := hn.locks
  size_le := Nat.le_trans hn.size_le hp.size_le
  cells_eq x hx hxL := by
    have hle := hn.size_le
    rw [hp.cells_eq x (by omega), hn.cells_eq x hx hxL]
  held x hx := by
    have hle := hp.size_le
    have hold : ∀ y : ℕ, y ∈ h₁.held → y ∈ L ∨ h.size ≤ y ∧ y < h₂.size := fun y hy =>
      (hn.held y hy).imp_right fun ⟨hge, hlt⟩ => ⟨hge, by omega⟩
    rcases hp.held_eq with he | ⟨hs, he⟩
    · exact hold x (he ▸ hx)
    · rw [he] at hx
      rcases List.mem_cons.mp hx with rfl | hx
      · exact Or.inr ⟨hn.size_le, by omega⟩
      · exact hold x hx
  tidy x hx hxL := by
    rcases Nat.lt_trichotomy x h₁.size with hlt | rfl | hgt
    · rw [hp.cells_eq x (by omega)]
      exact (hn.tidy x hlt hxL).mono hp.size_le
    · rcases hp.size_eq with he | ⟨-, o, he⟩
      · omega
      · rw [he]
        exact PromiseState.tidy_settled_new b o
    · rcases hp.size_eq with he | ⟨he, -⟩ <;> omega

/-- The heap with the promise `p` changed, and with some locks. -/
theorem Kept.update {h₀ : Heap V E} {p : PromiseId} {held : List PromiseId}
    {cell : PromiseState V E (Callbacks V E)} (hle : h₀.size ≤ h₂.size)
    (hk : ∀ x, x < h₂.size → x ∉ p :: L → (h₂.cells x).Tidy h₂.size) (hc : cell.Tidy h₂.size) :
    Kept L h₀ { h₂ with cells := Function.update h₂.cells p cell, held := held } where
  size_le := hle
  tidy x hx hxL := by
    by_cases hxp : x = p
    · subst hxp
      simpa using hc
    · simp only [Function.update_of_ne hxp]
      refine hk x hx ?_
      simp [hxp, hxL]

/-! ## Outcomes that pass

The induction is on `Passes`. Its step is always the same: some promise `q` is
settled, and what it is bound to passes by the induction hypothesis. -/

/-- Callbacks that pass come back from every heap of the nest. Every promise on
the way takes one lock of `h`, and at most two calls are between two of them. -/
def Goes [Inhabited V] (b : Build) (h : Heap V E) (L : List PromiseId) (k : Callbacks V E)
    (o : Outcome V E) : Prop :=
  ∀ n h₁, 2 * (h.size - L.length) < n → Nest h L h₁ → (∀ q : ℕ, q ∈ k.target → q < h.size) →
    ∃ h₂, invoke b n k o h₁ = returns h₂ ∧ Kept L h₁ h₂

/-- Every promise of the heap is tidy. -/
def Tidy (h : Heap V E) : Prop := ∀ x : ℕ, x < h.size → (h.cells x).Tidy h.size

/-- **Settling in a nest.** A promise whose lock is free and that accepts the
outcome is settled, and what it is bound to runs. -/
theorem Nest.settle_goes [Inhabited V] {q n : ℕ} (ht : h.Tidy) (hn : Nest h L h₁)
    (hq : q < h.size) (hqL : q ∉ L) (hs : (h.cells q).Accepts o)
    (hk : ∀ k, (h.cells q).callbacks = some k → Goes b h (q :: L) k o)
    (hfuel : 2 * (h.size - (L.length + 1)) < n) :
    ∃ h₂, settle b (invoke b n) o q h₁ = returns h₂ ∧ Kept L h₁ h₂ := by
  have hcell : h₁.cells q = h.cells q := hn.cells_eq q hq hqL
  have hheld : q ∉ h₁.held := hn.not_held hq hqL
  have hothers : ∀ x : ℕ, x < h₁.size → x ∉ q :: L → (h₁.cells x).Tidy h₁.size :=
    fun x hx hxL => hn.tidy x hx fun hmem => hxL (List.mem_cons_of_mem q hmem)
  rcases hs with hs | ⟨hs, ha⟩
  · have hc : (h.cells q).called = [] := (ht q hq).called_nil (by simp [hs])
    cases ha : (h.cells q).callbacks_assigned with
    | false =>
      refine ⟨_, settle_unbound hheld (hcell ▸ hs) (hcell ▸ ha), ?_⟩
      rw [hcell]
      refine Kept.update (Nat.le_refl _) hothers (PromiseState.tidy_of_unbound ?_ ?_ ?_ ?_)
      · rw [PromiseState.settled_callbacks_assigned, ha]
      · cases o <;> simp [PromiseState.settled_state]
      · rw [PromiseState.settled_called, hc]
      · rw [PromiseState.settled_callbacks, (ht q hq).callbacks_none ha]
    | true =>
      obtain ⟨k, hcallbacks, htarget⟩ := (ht q hq).callbacks_some ha hs
      obtain ⟨h₂, hh₂, hkept⟩ :=
        hk k hcallbacks n _ (by simpa using hfuel) (hn.lock hq hqL) htarget
      refine ⟨_, settle_bound hheld (hcell ▸ hs) (hcell ▸ ha) (hcell ▸ hcallbacks) hh₂, ?_⟩
      refine Kept.update hkept.size_le hkept.tidy (PromiseState.tidy_complete ?_ ?_)
      · rw [PromiseState.settled_called, hcell, hc]
      · rw [PromiseState.settled_callbacks_assigned, hcell, ha]
  · refine ⟨_, settle_again hheld (hcell ▸ hs) (hcell ▸ ha), ?_⟩
    rw [hcell]
    exact Kept.update (Nat.le_refl _) hothers (((ht q hq).mono hn.size_le).with_outcome o)

/-- **What passes goes through.** -/
theorem goes_of_passes [Inhabited V] {k : Callbacks V E} (ht : h.Tidy)
    (hp : Passes h L k o) : Goes b h L k o := by
  induction hp with
  | @terminator L o ho =>
    intro n h₁ hfuel hn htarget
    obtain ⟨n, rfl⟩ : ∃ m, n = m + 1 := ⟨n - 1, by omega⟩
    have hsame : Kept L h₁ h₁ := ⟨Nat.le_refl _, hn.tidy⟩
    cases o with
    | resolved value => exact ⟨h₁, rfl, hsame⟩
    | rejected error =>
      obtain rfl := ho error rfl
      exact ⟨h₁, rfl, hsame⟩
  | @forward_to L q o hqL hs hk ih =>
    intro n h₁ hfuel hn htarget
    obtain ⟨n, rfl⟩ : ∃ m, n = m + 1 := ⟨n - 1, by omega⟩
    have hq : q < h.size := htarget q rfl
    have hlen := (hn.lock hq hqL).length_le
    simp only [List.length_cons] at hlen
    exact hn.settle_goes ht hq hqL hs ih (by omega)
  | @then_settled L q pack o o' hpack hres hqL hs hk ih =>
    intro n h₁ hfuel hn htarget
    have hq : q < h.size := htarget q rfl
    have hlen := (hn.lock hq hqL).length_le
    simp only [List.length_cons] at hlen
    obtain ⟨n, rfl⟩ : ∃ m, n = m + 2 := ⟨n - 2, by omega⟩
    suffices hends : Ends false (Kept L h₁) _ from hends.returns
    refine then_callback_settled hpack hres hn.fresh
      (fun h₂ held hkept => ?_) fun m h₂ hm hprep => .inl ?_
    · refine Kept.update hkept.size_le (fun x hx hxL => hkept.tidy x hx ?_)
        (PromiseState.tidy_complete ?_ rfl)
      · exact fun hmem => hxL (List.mem_cons_of_mem _ hmem)
      · exact PromiseState.settled_called b o' .new
    · obtain ⟨h₃, hh₃, hkept⟩ := (hn.prepared hprep).settle_goes ht hq hqL hs ih (n := m) (by omega)
      exact ⟨h₃, hh₃, Nat.le_trans hprep.size_le hkept.size_le, hkept.tidy⟩
  | @then_awaits L q i pack o hpack hres hi hiL ha hs =>
    intro n h₁ hfuel hn htarget
    obtain ⟨n, rfl⟩ : ∃ m, n = m + 1 := ⟨n - 1, by omega⟩
    -- the inner promise is pending: it is bound, and forwards its outcome later
    have hcell : h₁.cells i = h.cells i := hn.cells_eq i hi hiL
    have hlog := hn.logged (pack.events q o)
    have hsame : Kept L h₁ (h₁.logged (pack.events q o)) := ⟨Nat.le_refl _, hn.tidy⟩
    have hbind : set_callbacks b (invoke b n) i (.forward_to q) (h₁.logged (pack.events q o)) = _ :=
      bind_pending (hlog.not_held hi hiL) (hcell ▸ hs) (hcell ▸ ha)
    refine ⟨_, (then_callback_inner (invoke b n) h₁ hpack hres).trans hbind, ?_⟩
    refine Kept.update (Nat.le_refl _) (fun x hx hxL => hn.tidy x hx ?_) ?_
    · exact fun hmem => hxL (List.mem_cons_of_mem i hmem)
    · have hq : q < h.size := htarget q rfl
      refine PromiseState.tidy_bound (hcell ▸ hs) ?_ fun x hx => ?_
      · exact hcell ▸ (ht i hi).called_nil (by simp [hs])
      · obtain rfl : q = x := by simpa [Callbacks.target] using hx
        exact Nat.lt_of_lt_of_le hq hn.size_le
  | @then_forwards L q i pack o o' hpack hres hi hiL ha ho hqL hs hk ih =>
    intro n h₁ hfuel hn htarget
    have hq : q < h.size := htarget q rfl
    have hcell : h₁.cells i = h.cells i := hn.cells_eq i hi hiL
    have hlog := hn.logged (pack.events q o)
    have hlock := hlog.lock hi hiL
    have hlen := (hlock.lock hq hqL).length_le
    simp only [List.length_cons] at hlen
    obtain ⟨n, rfl⟩ : ∃ m, n = m + 2 := ⟨n - 2, by omega⟩
    -- the inner promise has been settled, and its outcome goes on at once
    obtain ⟨h₂, hh₂, hkept⟩ := hlock.settle_goes ht hq hqL hs ih (n := n) (by simp; omega)
    have hsettled := (ht i hi).settled_of_outcome ha ho
    have hbind : set_callbacks b (invoke b (n + 1)) i (.forward_to q)
        (h₁.logged (pack.events q o)) = _ :=
      bind_settled (hlog.not_held hi hiL) (hcell ▸ ha) (hcell ▸ hsettled) (hcell ▸ ho) hh₂
    refine ⟨_, (then_callback_inner (invoke b (n + 1)) h₁ hpack hres).trans hbind, ?_⟩
    refine Kept.update hkept.size_le hkept.tidy (PromiseState.tidy_complete ?_ rfl)
    refine hcell ▸ (ht i hi).called_nil ?_
    rw [hsettled]
    cases o' <;> simp [PromiseState.settled_state]

/-! ## Operations -/

/-- No operation is running, and every promise is tidy. -/
structure AtRest (h : Heap V E) : Prop where
  held : h.held = []
  tidy : h.Tidy

theorem AtRest.nest (hr : AtRest h) : Nest h [] h where
  nodup := List.nodup_nil
  locks x hx := absurd hx List.not_mem_nil
  size_le := Nat.le_refl _
  cells_eq _ _ _ := rfl
  held x hx := by simp [hr.held] at hx
  tidy x hx _ := hr.tidy x hx

theorem AtRest.others (hr : AtRest h) {p : ℕ} :
    ∀ x : ℕ, x < h.size → x ∉ [p] → (h.cells x).Tidy h.size := fun x hx _ => hr.tidy x hx

theorem Kept.atRest (hk : Kept [] h h₂) (hheld : h₂.held = []) : AtRest h₂ :=
  ⟨hheld, fun x hx => hk.tidy x hx List.not_mem_nil⟩

/-- The public operations on a set of promises. `then` makes the promise it
returns. -/
inductive Op (V E : Type*) where
  | new
  | resolve (p : PromiseId) (result : V)
  | reject (p : PromiseId) (error : ExceptionPtr E)
  | then_pack (p : PromiseId) (pack : callback_pack V E)
  | forward_to (p next : PromiseId)
  | finish (p : PromiseId)

variable [Inhabited V]

/-- One operation, and how it ended. -/
def step (b : Build) (op : Op V E) (h : Heap V E) : Ended (Heap V E) (Halt E) :=
  match op with
  | .new => returns (alloc h).2
  | .resolve p result => resolve b p result h
  | .reject p error => reject b p error h
  | .then_pack p pack => (then_pack b p pack h).2
  | .forward_to p next => forward b p next h
  | .finish p => finish b p h

/-- A run of operations; whoever makes them catches every exception. -/
def run (b : Build) : List (Op V E) → Heap V E → Heap V E
  | [], h => h
  | op :: ops, h => run b ops (step b op h).1

/-- The operation is about promises that have been made. -/
def Op.Exists (h : Heap V E) : Op V E → Prop
  | .new => True
  | .resolve p _ | .reject p _ | .then_pack p _ | .finish p => p < h.size
  | .forward_to p next => p < h.size ∧ next < h.size

instance (h : Heap V E) : (op : Op V E) → Decidable (op.Exists h)
  | .new => inferInstanceAs (Decidable True)
  | .resolve p _ | .reject p _ | .then_pack p _ | .finish p =>
      inferInstanceAs (Decidable (p < h.size))
  | .forward_to p next => inferInstanceAs (Decidable (p < h.size ∧ next < h.size))

/-- A settlement that runs callbacks runs callbacks that pass. -/
def SettlePasses (h : Heap V E) (p : PromiseId) (o : Outcome V E) : Prop :=
  (h.cells p).state = .pending → ∀ k, (h.cells p).callbacks = some k → Passes h [p] k o

/-- A binding that runs callbacks runs callbacks that pass. -/
def BindPasses (h : Heap V E) (p : PromiseId) (k : Callbacks V E) : Prop :=
  (h.cells p).callbacks_assigned = false → ∀ o, (h.cells p).outcome = some o → Passes h [p] k o

/-- The callbacks that the operation runs, if any, pass. -/
def Op.Passes (h : Heap V E) : Op V E → Prop
  | .new => True
  | .resolve p result => SettlePasses h p (.resolved result)
  | .reject p error => SettlePasses h p (.rejected error)
  | .then_pack p pack => BindPasses (alloc h).2 p (.then_to (alloc h).1 pack)
  | .forward_to p next => BindPasses h p (.forward_to next)
  | .finish p => BindPasses h p .terminator

/-- Every operation of the run is about promises there are. -/
def RunExists (b : Build) : List (Op V E) → Heap V E → Prop
  | [], _ => True
  | op :: ops, h => op.Exists h ∧ RunExists b ops (step b op h).1

instance RunExists.decidable (b : Build) : (ops : List (Op V E)) → (h : Heap V E) →
    Decidable (RunExists b ops h)
  | [], _ => inferInstanceAs (Decidable True)
  | op :: ops, h =>
      have := RunExists.decidable b ops (step b op h).1
      inferInstanceAs (Decidable (op.Exists h ∧ RunExists b ops (step b op h).1))

/-- What the operations of the run run passes. -/
def RunPasses (b : Build) : List (Op V E) → Heap V E → Prop
  | [], _ => True
  | op :: ops, h => op.Passes h ∧ RunPasses b ops (step b op h).1

theorem atRest_empty : AtRest (empty : Heap V E) :=
  ⟨rfl, fun x hx => absurd hx (Nat.not_lt_zero x)⟩

theorem AtRest.alloc (hr : AtRest h) : AtRest (alloc h).2 := by
  refine ⟨hr.held, fun x hx => ?_⟩
  by_cases hxs : x = h.size
  · subst hxs
    simpa [Store.alloc] using PromiseState.tidy_new
  · have hlt : x < h.size := by simp only [Store.alloc] at hx; omega
    simpa [Store.alloc, Function.update_of_ne hxs] using (hr.tidy x hlt).mono (Nat.le_succ _)

/-- **One settlement.** -/
theorem AtRest.settle {p : ℕ} (hb : b.SAFE_PROMISES = true) (hr : AtRest h) (hp : p < h.size)
    (hpass : SettlePasses h p o) : AtRest (settle b (invoke b h.depth) o p h).1 := by
  have hheld : (Store.settle b (invoke b h.depth) o p h).1.held = [] := by
    rw [Store.settle, with_lock_held, hr.held]
  have htidy := hr.tidy p hp
  by_cases hacc : (h.cells p).Accepts o
  · -- what is bound to `p` runs only if `p` is pending
    have hk : ∀ k, (h.cells p).callbacks = some k → Goes b h [p] k o := by
      intro k hk
      rcases hacc with hs | ⟨hs, ha⟩
      · exact goes_of_passes hr.tidy (hpass hs k hk)
      · simp [htidy.callbacks_none ha] at hk
    obtain ⟨h₂, hh₂, hkept⟩ := hr.nest.settle_goes hr.tidy hp List.not_mem_nil hacc hk
      (n := h.depth) (by simp only [depth, List.length_nil]; omega)
    rw [hh₂] at hheld ⊢
    exact hkept.atRest hheld
  · -- a completed promise is refused like any other that is settled
    have hne : (h.cells p).state ≠ .pending := fun hs => hacc (Or.inl hs)
    have hother : (h.cells p).state ≠ PromiseState.settled_state o := by
      intro hs
      cases ha : (h.cells p).callbacks_assigned with
      | false => exact hacc (Or.inr ⟨hs, ha⟩)
      | true =>
        rw [(htidy.completed ha hne).1] at hs
        cases o <;> simp [PromiseState.settled_state] at hs
    rw [settle_other hb (by simp [hr.held]) hne hother]
    exact Kept.atRest (Kept.update (Nat.le_refl _) hr.others (htidy.with_outcome o)) hr.held

/-- **One binding.** -/
theorem AtRest.bind {p : ℕ} {k : Callbacks V E} (hb : b.SAFE_PROMISES = true) (hr : AtRest h)
    (hp : p < h.size) (htarget : ∀ q : ℕ, q ∈ k.target → q < h.size)
    (hpass : BindPasses h p k) : AtRest (set_callbacks b (invoke b h.depth) p k h).1 := by
  have hheld : (set_callbacks b (invoke b h.depth) p k h).1.held = [] := by
    rw [set_callbacks, with_lock_held, hr.held]
  have hfree : p ∉ h.held := by simp [hr.held]
  have htidy := hr.tidy p hp
  cases ha : (h.cells p).callbacks_assigned with
  | true =>
    rw [bind_twice hb hfree ha]
    exact hr
  | false =>
    cases ho : (h.cells p).outcome with
    | none =>
      have hs : (h.cells p).state = .pending := htidy.pending_of_outcome ha ho
      rw [bind_pending hfree hs ha] at hheld ⊢
      refine Kept.atRest (Kept.update (Nat.le_refl _) hr.others ?_) hheld
      exact PromiseState.tidy_bound hs (htidy.called_nil (by simp [hs])) htarget
    | some o =>
      have hs := htidy.settled_of_outcome ha ho
      have hc : (h.cells p).called = [] := by
        refine htidy.called_nil ?_
        rw [hs]
        cases o <;> simp [PromiseState.settled_state]
      obtain ⟨h₂, hh₂, hkept⟩ := goes_of_passes (b := b) hr.tidy (hpass ha o ho) h.depth _
        (by simp only [depth, List.length_cons, List.length_nil]; omega)
        (hr.nest.lock hp List.not_mem_nil) htarget
      rw [bind_settled hfree ha hs ho hh₂] at hheld ⊢
      refine Kept.atRest (Kept.update hkept.size_le hkept.tidy ?_) hheld
      exact PromiseState.tidy_complete hc rfl

/-- **One operation.** -/
theorem AtRest.step {op : Op V E} (hb : b.SAFE_PROMISES = true) (hr : AtRest h)
    (hx : op.Exists h) (hp : op.Passes h) : AtRest (step b op h).1 := by
  cases op with
  | new => exact hr.alloc
  | resolve p result => exact hr.settle hb hx hp
  | reject p error => exact hr.settle hb hx hp
  | then_pack p pack =>
    refine hr.alloc.bind hb (Nat.lt_succ_of_lt hx) (fun q hq => ?_) hp
    obtain rfl : h.size = q := by simpa [Callbacks.target, alloc] using hq
    exact Nat.lt_succ_self _
  | forward_to p next =>
    refine hr.bind hb hx.1 (fun q hq => ?_) hp
    obtain rfl : next = q := by simpa [Callbacks.target] using hq
    exact hx.2
  | finish p => exact hr.bind hb hx (fun q hq => by simp [Callbacks.target] at hq) hp

theorem AtRest.run {ops : List (Op V E)} (hb : b.SAFE_PROMISES = true) (hr : AtRest h)
    (hx : RunExists b ops h) (hp : RunPasses b ops h) : AtRest (run b ops h) := by
  induction ops generalizing h with
  | nil => exact hr
  | cons op ops ih => exact ih (hr.step hb hx.1 hp.1) hx.2 hp.2

/-- Bound and settled means completed, and no callback has been invoked twice. -/
def Completed (h : Heap V E) : Prop :=
  ∀ p : ℕ, p < h.size →
    ((h.cells p).callbacks_assigned = true → (h.cells p).state ≠ .pending →
      (h.cells p).state = .completed ∧ (h.cells p).callbacks = none ∧
        (h.cells p).self_reference = false) ∧
    (h.cells p).called.length ≤ 1

/-- **Bound and settled means completed**, after every operation of a run that
passes. -/
theorem run_completed {ops : List (Op V E)} (hb : b.SAFE_PROMISES = true)
    (hx : RunExists b ops empty) (hp : RunPasses b ops empty) : Completed (run b ops empty) := by
  intro p hlt
  have htidy := (atRest_empty.run hb hx hp).tidy p hlt
  exact ⟨htidy.completed, htidy.called_once⟩

theorem run_completed_resolve_through_chain :
    Completed (run .debug
      [.new, .then_pack 0 { next := .value fun v => .ok (v + 1) }, .finish 1, .resolve 0 7]
      (empty : Heap ℕ String)) := by
  refine run_completed rfl (by decide)
    ⟨trivial, ⟨fun _ o ho => ?_, ⟨fun _ o ho => ?_, ⟨fun _ k hk => ?_, trivial⟩⟩⟩⟩
  · cases ho
  · cases ho
  · cases hk
    have hres : callback_pack.result
        ({ next := .value fun v => .ok (v + 1) } : callback_pack ℕ String) (.resolved 7)
          = .settled (.resolved 8) := rfl
    refine Passes.then_settled rfl hres (by decide) (Or.inl rfl) fun k hk => ?_
    cases hk
    exact Passes.terminator fun error he => by cases he

/-- The rejection that nobody handles leaves the promises it came through as they
were, and a second `reject` calls their callbacks again. -/
theorem not_completed_unhandled_rejection :
    ¬ ∀ ops : List (Op ℕ String), RunExists .debug ops empty →
        Completed (run .debug ops empty) := by
  intro hall
  have hcompleted := hall [.new, .then_pack 0 {}, .finish 1, .reject 0 (.user "lost")]
    (by decide) 0 (by decide)
  exact absurd (hcompleted.1 rfl (by decide)).1 (by decide)

end Heap
end Kaiu
