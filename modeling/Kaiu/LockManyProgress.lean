/-
The constructor of `lock_many` can always return.

A pass gives up all that it has locked as soon as a mutex is taken, so that two threads
may go on disturbing one another for as long as the scheduler likes. But there is no state
from which a constructor cannot return any more: the other threads can come to a point
where they own nothing, one after the other, because what they own they can give back
without anybody's help; then all mutexes are free, and a whole pass succeeds. No `try_lock`
that fails although its mutex is free is needed for that.
-/
import Kaiu.LockMany

set_option autoImplicit false

namespace Kaiu
namespace LockMany

open Mutex Relation Function

variable {T M : Type*} {s s' : LockMany T M} {t : T} {range : List M}
  {locks : List (unique_lock M)} {first counter i : ℕ} {m : M}

/-- A `try_lock` has failed although its mutex is free. -/
def Spurious (s s' : LockMany T M) : Prop :=
  ∃ t range locks first counter next m, s.threads t = .within range locks (.locking first counter) ∧
    s'.threads t = .within range locks (.unlocking next 0) ∧
    locks[index locks first counter]? = some ⟨m, false⟩ ∧ s.owner m = none

section Steps

variable [DecidableEq T] [DecidableEq M]

/-- The steps without such a failure. -/
def Sure (s s' : LockMany T M) : Prop :=
  Step s s' ∧ ¬ Spurious s s'

/-- The steps of one thread: the others stay where they are. -/
def StepOf (t : T) (s s' : LockMany T M) : Prop :=
  Sure s s' ∧ ∀ u ≠ t, s'.threads u = s.threads u

/-- A step of a thread that is not in a pass, or not out of one. -/
theorem StepOf.intro (h : Step s s') (hothers : ∀ u ≠ t, s'.threads u = s.threads u)
    (ht : ∀ range locks first counter next m,
      s.threads t = .within range locks (.locking first counter) →
      s'.threads t = .within range locks (.unlocking next 0) →
      locks[index locks first counter]? = some ⟨m, false⟩ → s.owner m ≠ none) : StepOf t s s' := by
  refine ⟨⟨h, ?_⟩, hothers⟩
  rintro ⟨u, range, locks, first, counter, next, m, hu, hu', hlock, hfree⟩
  by_cases hut : u = t
  · subst hut
    exact ht range locks first counter next m hu hu' hlock hfree
  · -- the thread has not moved
    rw [hothers u hut, hu] at hu'
    cases hu'

omit [DecidableEq M] in
theorem go_others (thread : Thread M) : ∀ u ≠ t, (s.go t thread).threads u = s.threads u :=
  fun _ hu => update_of_ne hu ..

theorem own_others (owner : Option T) (thread : Thread M) :
    ∀ u ≠ t, (s.own m owner t thread).threads u = s.threads u :=
  fun _ hu => update_of_ne hu ..

omit [DecidableEq M] in
@[simp] theorem go_self (thread : Thread M) : (s.go t thread).threads t = thread :=
  update_self ..

@[simp] theorem own_self (owner : Option T) (thread : Thread M) :
    (s.own m owner t thread).threads t = thread :=
  update_self ..

/-! ## Giving back -/

/-- A thread that is in no pass, or at the beginning of one: it owns nothing. -/
def Idle : Thread M → Prop
  | .outside => True
  | .within _ _ point => ∃ first, point = .locking first 0

omit [DecidableEq T] [DecidableEq M] in
theorem Idle.owned_eq (hinv : Inv s) (h : Idle (s.threads t)) : owned s.owner t = ∅ := by
  cases ht : s.threads t with
  | outside => simpa [ht, Fits] using hinv t
  | within range locks point =>
    rw [ht] at h
    obtain ⟨first, rfl⟩ := h
    exact (hinv.holds ht).own_empty

/-- What a thread has left to do until it owns nothing. -/
def to_release : Thread M → ℕ
  | .outside => 0
  | .within _ locks point =>
    match point with
    | .locking _ 0 => 0
    | .locking _ (counter + 1) => 3 + locks.length + (locks.length - counter)
    | .unlocking _ i => 1 + (locks.length - i)
    | .constructed => 2 + locks.length
    | .threw => 0

/-- A thread looks at the next of its objects, and unlocks it. -/
theorem unlocks {next : Option ℕ} (ht : s.threads t = .within range locks (.unlocking next i))
    (hi : i < locks.length) :
    ∃ s' locks', StepOf t s s' ∧ s'.threads t = .within range locks' (.unlocking next (i + 1)) ∧
      locks'.length = locks.length := by
  obtain ⟨⟨m, owns⟩, hlock⟩ : ∃ lock, locks[i]? = some lock :=
    ⟨locks[i], List.getElem?_eq_getElem hi⟩
  cases owns with
  | true =>
    refine ⟨_, _, .intro (.unlock s t ht hlock) (own_others _ _) ?_, own_self .., ?_⟩
    · intro _ _ _ _ _ _ h
      rw [ht] at h
      cases h
    · exact List.length_set
  | false =>
    refine ⟨_, _, .intro (.pass s t ht hlock) (go_others _) ?_, go_self .., rfl⟩
    intro _ _ _ _ _ _ h
    rw [ht] at h
    cases h

/-- A pass goes on with the next mutex, if it is free. -/
theorem locks_next (hinv : Inv s)
    (ht : s.threads t = .within range locks (.locking first counter))
    (hcounter : counter < locks.length) (hfree : ∀ m owns,
      locks[index locks first counter]? = some ⟨m, owns⟩ → s.owner m = none) :
    ∃ s' locks', StepOf t s s' ∧
      s'.threads t = .within range locks' (.locking first (counter + 1)) ∧
      locks'.length = locks.length := by
  have hholds := hinv.holds ht
  obtain ⟨⟨m, owns⟩, hlock⟩ : ∃ lock, locks[index locks first counter]? = some lock :=
    ⟨_, List.getElem?_eq_getElem hholds.index_lt⟩
  obtain rfl : owns = false := by
    by_contra h
    rw [Bool.not_eq_false] at h
    exact hholds.not_owns hcounter ⟨m, h ▸ hlock⟩
  have hgoes : ∀ {s' : LockMany T M} {locks' : List (unique_lock M)},
      s'.threads t = .within range locks' (.locking first (counter + 1)) →
      ∀ range locks first counter next m,
        s.threads t = .within range locks (.locking first counter) →
        s'.threads t = .within range locks (.unlocking next 0) →
        locks[index locks first counter]? = some ⟨m, false⟩ → s.owner m ≠ none := by
    intro s' locks' h _ _ _ _ _ _ _ h'
    rw [h] at h'
    cases h'
  rcases Nat.eq_zero_or_pos counter with rfl | hpos
  · exact ⟨_, _, .intro (.lock s t ht hlock (hfree m _ hlock)) (own_others _ _)
      (hgoes (own_self ..)), own_self .., List.length_set⟩
  · exact ⟨_, _, .intro (.try_lock s t ht ⟨hpos, hcounter⟩ hlock (hfree m _ hlock))
      (own_others _ _) (hgoes (own_self ..)), own_self .., List.length_set⟩

/-- A pass that has come to the end. -/
theorem returns_of_pass (ht : s.threads t = .within range locks (.locking first counter))
    (hcounter : ¬ counter < locks.length) :
    ∃ s', StepOf t s s' ∧ s'.threads t = .within range locks .constructed := by
  refine ⟨_, .intro (.returns s t ht hcounter) (go_others _) ?_, go_self ..⟩
  intro _ _ _ _ _ _ _ h
  rw [go_self] at h
  cases h

/-- A pass has failed, and is to give back what it has locked. -/
theorem fails_of_pass (ht : s.threads t = .within range locks (.locking first counter))
    (hcounter : 0 < counter ∧ counter < locks.length)
    (hlock : locks[index locks first counter]? = some ⟨m, false⟩) (howner : s.owner m ≠ none) :
    ∃ s' next, StepOf t s s' ∧ s'.threads t = .within range locks (.unlocking next 0) := by
  refine ⟨_, _, .intro (.try_lock_fails s t ht hcounter hlock) (go_others _) ?_, go_self ..⟩
  intro _ _ _ _ _ _ h _ hlock'
  rw [ht] at h
  cases h
  rw [hlock] at hlock'
  cases hlock'
  exact howner

/-- All has been unlocked. -/
theorem unlocked {next : Option ℕ} (ht : s.threads t = .within range locks (.unlocking next i))
    (hi : ¬ i < locks.length) : ∃ s', StepOf t s s' ∧ Idle (s'.threads t) ∧
      ∀ first ∈ next, s'.threads t = .within range locks (.locking first 0) := by
  have hnone : locks[i]? = none := List.getElem?_eq_none (Nat.le_of_not_lt hi)
  cases next with
  | none =>
    refine ⟨_, .intro (.destroyed s t ht hnone) (go_others _) ?_, by rw [go_self]; trivial, nofun⟩
    intro _ _ _ _ _ _ _ h
    rw [go_self] at h
    cases h
  | some first =>
    refine ⟨_, .intro (.restart s t ht hnone) (go_others _) ?_, by rw [go_self]; exact ⟨first, rfl⟩,
      fun first' h => ?_⟩
    · intro _ _ _ _ _ _ _ h
      rw [go_self] at h
      cases h
    · cases h
      exact go_self ..

/-- The destructor is called. -/
theorem destroys (ht : s.threads t = .within range locks .constructed) :
    ∃ s', StepOf t s s' ∧ s'.threads t = .within range locks (.unlocking none 0) := by
  refine ⟨_, .intro (.destroy s t ht) (go_others _) ?_, go_self ..⟩
  intro _ _ _ _ _ _ h
  rw [ht] at h
  cases h

/-- A step of a thread that brings it nearer to something. -/
theorem StepOf.nearer {left : Thread M → ℕ} (h : StepOf t s s') (hinv : Inv s)
    (hlt : left (s'.threads t) < left (s.threads t)) :
    ∃ s', ReflTransGen (StepOf t) s s' ∧ Inv s' ∧ left (s'.threads t) < left (s.threads t) :=
  ⟨s', .single h, h.1.1.inv hinv, hlt⟩

/-- **A thread can give back what it owns** without anybody's help. -/
theorem releases (hinv : Inv s) (t : T) :
    ∃ s', ReflTransGen (StepOf t) s s' ∧ Inv s' ∧ Idle (s'.threads t) := by
  refine History.reaches_within (fun s => to_release (s.threads t)) (fun s hinv => ?_) hinv
  cases ht : s.threads t with
  | outside => exact .inl trivial
  | within range locks point =>
    rw [← ht]
    cases point with
    | threw => exact (hinv.holds ht).at_point.elim
    | constructed =>
      obtain ⟨s', hstep, ht'⟩ := destroys ht
      refine .inr (hstep.nearer hinv ?_)
      rw [ht, ht', to_release, to_release]
      omega
    | unlocking next i =>
      refine .inr ?_
      by_cases hi : i < locks.length
      · obtain ⟨s', locks', hstep, ht', hlen⟩ := unlocks ht hi
        refine hstep.nearer hinv ?_
        rw [ht, ht', to_release, to_release, hlen]
        omega
      · obtain ⟨s', hstep, hidle, -⟩ := unlocked ht hi
        refine hstep.nearer hinv ?_
        have hzero : to_release (s'.threads t) = 0 := by
          cases h : s'.threads t with
          | outside => rfl
          | within =>
            rw [h] at hidle
            obtain ⟨first, rfl⟩ := hidle
            rfl
        rw [ht, hzero, to_release]
        omega
    | locking first counter =>
      cases counter with
      | zero =>
        rw [ht]
        exact .inl ⟨first, rfl⟩
      | succ counter =>
        refine .inr ?_
        by_cases hcounter : counter + 1 < locks.length
        · by_cases hfree : ∀ m owns,
              locks[index locks first (counter + 1)]? = some ⟨m, owns⟩ → s.owner m = none
          · obtain ⟨s', locks', hstep, ht', hlen⟩ := locks_next hinv ht hcounter hfree
            refine hstep.nearer hinv ?_
            rw [ht, ht', to_release, to_release, hlen]
            omega
          · -- somebody else owns the mutex
            push Not at hfree
            obtain ⟨m, owns, hlock, howner⟩ := hfree
            obtain rfl : owns = false := by
              by_contra h
              rw [Bool.not_eq_false] at h
              exact (hinv.holds ht).not_owns hcounter ⟨m, h ▸ hlock⟩
            obtain ⟨s', next, hstep, ht'⟩ :=
              fails_of_pass ht ⟨Nat.succ_pos _, hcounter⟩ hlock howner
            refine hstep.nearer hinv ?_
            rw [ht, ht', to_release, to_release]
            omega
        · obtain ⟨s', hstep, ht'⟩ := returns_of_pass ht hcounter
          refine hstep.nearer hinv ?_
          rw [ht, ht', to_release, to_release]
          omega

/-! ## Returning -/

/-- The constructor has been called and has not returned. -/
def Point.Constructing : Point → Prop
  | .locking _ _ | .unlocking (some _) _ => True
  | _ => False

/-- What the constructor of a thread has left to do, if nobody disturbs it. -/
def to_return : Thread M → ℕ
  | .outside => 0
  | .within _ locks point =>
    match point with
    | .locking _ counter => 1 + (locks.length - counter)
    | .unlocking _ i => 2 + locks.length + (locks.length - i)
    | .constructed | .threw => 0

omit [DecidableEq T] [DecidableEq M] in
/-- If the other threads own nothing, a pass comes to free mutexes only. -/
theorem free_of_idle (hinv : Inv s) (hothers : ∀ u ≠ t, Idle (s.threads u))
    (ht : s.threads t = .within range locks (.locking first counter))
    (hcounter : counter < locks.length) {owns : Bool}
    (hlock : locks[index locks first counter]? = some ⟨m, owns⟩) : s.owner m = none := by
  have hholds := hinv.holds ht
  cases howner : s.owner m with
  | none => rfl
  | some u =>
    exfalso
    have hmem : m ∈ owned s.owner u := howner
    by_cases hut : u = t
    · subst hut
      obtain ⟨j, hj⟩ := (hholds.owned m).mp hmem
      obtain rfl := index_eq_of_mutex_eq (hholds.mutexes ▸ hholds.nodup) hlock hj
      exact hholds.not_owns hcounter ⟨m, hj⟩
    · rw [Idle.owned_eq hinv (hothers u hut)] at hmem
      exact hmem

/-- The thread is in the constructor, or has come out of it, and nobody else owns a mutex. -/
structure Undisturbed (t : T) (range : List M) (s : LockMany T M) : Prop where
  inv : Inv s
  others : ∀ u ≠ t, Idle (s.threads u)
  within : ∃ locks point, s.threads t = .within range locks point ∧
    (point.Constructing ∨ point = .constructed)

/-- The thread goes on in the constructor. -/
theorem Undisturbed.goes_on (h : Undisturbed t range s) {left : Thread M → ℕ}
    (hstep : StepOf t s s') {locks' : List (unique_lock M)} {point' : Point}
    (ht' : s'.threads t = .within range locks' point')
    (hpoint : point'.Constructing ∨ point' = .constructed)
    (hlt : left (s'.threads t) < left (s.threads t)) :
    ∃ s', ReflTransGen (StepOf t) s s' ∧ Undisturbed t range s' ∧
      left (s'.threads t) < left (s.threads t) := by
  have hothers : ∀ u ≠ t, Idle (s'.threads u) := fun u hu => by
    rw [hstep.2 u hu]
    exact h.others u hu
  exact ⟨s', .single hstep, ⟨hstep.1.1.inv h.inv, hothers, locks', point', ht', hpoint⟩, hlt⟩

/-- **Undisturbed, the constructor returns.** -/
theorem Undisturbed.returns (h : Undisturbed t range s) :
    ∃ s', ReflTransGen (StepOf t) s s' ∧ Undisturbed t range s' ∧
      ∃ locks, s'.threads t = .within range locks .constructed := by
  refine History.reaches_within (fun s => to_return (s.threads t)) (fun s h => ?_) h
  obtain ⟨locks, point, ht, hin⟩ := h.within
  cases point with
  | threw => exact (h.inv.holds ht).at_point.elim
  | constructed => exact .inl ⟨locks, ht⟩
  | unlocking next i =>
    refine .inr ?_
    cases next with
    | none => exact hin.elim False.elim nofun
    | some first =>
      by_cases hi : i < locks.length
      · obtain ⟨s', locks', hstep, ht', hlen⟩ := unlocks ht hi
        refine h.goes_on hstep ht' (.inl trivial) ?_
        rw [ht, ht', to_return, to_return, hlen]
        omega
      · obtain ⟨s', hstep, -, hnext⟩ := unlocked ht hi
        refine h.goes_on hstep (hnext first rfl) (.inl trivial) ?_
        rw [ht, hnext first rfl, to_return, to_return]
        omega
  | locking first counter =>
    refine .inr ?_
    by_cases hcounter : counter < locks.length
    · obtain ⟨s', locks', hstep, ht', hlen⟩ := locks_next h.inv ht hcounter fun m owns hlock =>
        free_of_idle h.inv h.others ht hcounter hlock
      refine h.goes_on hstep ht' (.inl trivial) ?_
      rw [ht, ht', to_return, to_return, hlen]
      omega
    · obtain ⟨s', hstep, ht'⟩ := returns_of_pass ht hcounter
      refine h.goes_on hstep ht' (.inr rfl) ?_
      rw [ht, ht', to_return, to_return]
      omega

/-! ## The threads together -/

omit [DecidableEq T] [DecidableEq M] in
/-- An object that has been constructed owns its mutexes. -/
theorem Inv.owns_all (hinv : Inv s) (ht : s.threads t = .within range locks .constructed) :
    ∀ m ∈ range, s.owner m = some t := by
  intro m hm
  have hholds := hinv.holds ht
  rw [← hholds.mutexes, List.mem_map] at hm
  obtain ⟨lock, hlock, rfl⟩ := hm
  obtain ⟨i, hi, hget⟩ := List.getElem_of_mem hlock
  obtain ⟨m', howns⟩ := hholds.at_point i hi
  have hmutex : lock.mutex = m' := by
    rw [List.getElem?_eq_getElem hi, hget] at howns
    rw [Option.some.inj howns]
  rw [hmutex]
  exact (hholds.owned m').mpr ⟨i, howns⟩

/-- The steps of a thread are steps without a spurious failure. -/
theorem sure_of_steps (h : ReflTransGen (StepOf t) s s') :
    ReflTransGen Sure s s' ∧ ∀ u ≠ t, s'.threads u = s.threads u := by
  induction h with
  | refl => exact ⟨.refl, fun _ _ => rfl⟩
  | tail _ hstep ih => exact ⟨ih.1.tail hstep.1, fun u hu => (hstep.2 u hu).trans (ih.2 u hu)⟩

/-- **The other threads give back what they own**, one after the other. -/
theorem others_release [Finite T] (hinv : Inv s) (t : T) :
    ∃ s', ReflTransGen Sure s s' ∧ (Inv s' ∧ s'.threads t = s.threads t) ∧
      ∀ u, u ≠ t → Idle (s'.threads u) := by
  refine History.reaches_in_turn LockMany.threads (fun u thread => u ≠ t → Idle thread)
    (I := fun s' => Inv s' ∧ s'.threads t = s.threads t) (fun u s' ⟨hinv', ht'⟩ => ?_) ⟨hinv, rfl⟩
  by_cases hu : u = t
  · exact ⟨s', .refl, ⟨hinv', ht'⟩, fun h => absurd hu h, fun _ _ => rfl⟩
  · obtain ⟨s'', hrun, hinv'', hidle⟩ := releases hinv' u
    obtain ⟨hsure, hothers⟩ := sure_of_steps hrun
    exact ⟨s'', hsure, ⟨hinv'', (hothers t (Ne.symm hu)).trans ht'⟩, fun _ => hidle, hothers⟩

/-- **A constructor can always return.** From every state that any number of threads can
reach with their `lock_many` objects, over any lists of mutexes, and for every thread whose
constructor has been called and has not returned: some further steps, in which no
`try_lock` fails although its mutex is free, lead to a state in which the constructor has
returned and the thread owns all of its mutexes. -/
theorem constructor_can_return [Finite T] (h : ReflTransGen Step start s) {point : Point}
    (ht : s.threads t = .within range locks point) (hin : point.Constructing) :
    ∃ s' locks', ReflTransGen Sure s s' ∧ s'.threads t = .within range locks' .constructed ∧
      ∀ m ∈ range, s'.owner m = some t := by
  obtain ⟨s₁, hrun, ⟨hinv, ht₁⟩, hothers⟩ := others_release (inv_of_reachable h) t
  have hundisturbed : Undisturbed t range s₁ :=
    ⟨hinv, hothers, locks, point, ht₁.trans ht, .inl hin⟩
  obtain ⟨s', hrun', h', locks', ht'⟩ := hundisturbed.returns
  exact ⟨s', locks', hrun.trans (sure_of_steps hrun').1, ht', h'.inv.owns_all ht'⟩

/-- The second of two threads that want the same mutexes in opposite orders: the first has
locked them, and gives them back. -/
theorem constructor_can_return_opposite :
    ∃ s' locks', ReflTransGen Sure opposite s' ∧
      s'.threads true = .within [true, false] locks' .constructed ∧
      ∀ m, s'.owner m = some true := by
  have ht : opposite.threads true = .within [true, false] ([true, false].map defer_lock)
    (.locking 0 0) := rfl
  obtain ⟨s', locks', hrun, ht, howner⟩ := constructor_can_return reaches_opposite ht trivial
  exact ⟨s', locks', hrun, ht, fun m => howner m (by cases m <;> decide)⟩

end Steps

end LockMany
end Kaiu
