/-
Mutexes that are locked and unlocked by threads.

Of a mutex it is known which thread owns it. Where a thread owns it exactly while the
thread is at one of the critical points of its code, no two threads are at critical
points at a time (`Guards`). Where there are many mutexes, a thread owns a set of them,
and waits for the owner of the one that it wants: threads that own nothing while they
wait are never in a cycle of waits.
-/
import Mathlib.Data.Set.Insert
import Mathlib.Logic.Function.Basic
import Mathlib.Logic.Relation
import Mathlib.Order.BooleanAlgebra.Set

set_option autoImplicit false

namespace Mutex

open Relation Function

universe u v w

variable {T : Type u} {L : Type v} {M : Type w} {t u : T}

/-! ## One mutex -/

/-- A thread owns the mutex exactly while it is at a critical point. -/
def Guards (critical : L → Prop) (owner : Option T) (threads : T → L) : Prop :=
  ∀ t, critical (threads t) ↔ owner = some t

section Guards

variable {critical : L → Prop} {owner : Option T} {threads : T → L} {l : L}

/-- **One thread at a time** is at a critical point. -/
theorem Guards.eq (h : Guards critical owner threads) (ht : critical (threads t))
    (hu : critical (threads u)) : t = u :=
  Option.some.inj (((h t).mp ht).symm.trans ((h u).mp hu))

/-- Nobody is at a critical point of a free mutex. -/
theorem Guards.not_critical (h : Guards critical none threads) (t : T) :
    ¬ critical (threads t) := by
  rw [h t]
  exact Option.some_ne_none t ∘ Eq.symm

variable [DecidableEq T]

/-- A thread locks the free mutex. -/
theorem Guards.lock (h : Guards critical none threads) (hl : critical l) :
    Guards critical (some t) (update threads t l) := by
  intro u
  by_cases hu : u = t
  · subst hu
    simpa using hl
  · rw [update_of_ne hu, iff_false_left (h.not_critical u), Option.some_inj]
    exact fun heq => hu heq.symm

/-- The owner unlocks the mutex. -/
theorem Guards.unlock (h : Guards critical owner threads) (ht : critical (threads t))
    (hl : ¬ critical l) : Guards critical none (update threads t l) := by
  intro u
  by_cases hu : u = t
  · subst hu
    simpa using hl
  · rw [update_of_ne hu]
    exact iff_of_false (fun hcrit => hu (h.eq hcrit ht)) (Option.some_ne_none u ∘ Eq.symm)

/-- A thread goes on, to a point that is critical if the one before is. -/
theorem Guards.move (h : Guards critical owner threads)
    (hl : critical l ↔ critical (threads t)) : Guards critical owner (update threads t l) := by
  intro u
  by_cases hu : u = t
  · subst hu
    rw [update_self, hl]
    exact h u
  · rw [update_of_ne hu]
    exact h u

end Guards

/-- What the owner of the mutex is doing, and what the other threads are doing. -/
def Held (owning outside : T → L → Prop) (owner : Option T) (threads : T → L) : Prop :=
  ∀ t, (owner = some t → owning t (threads t)) ∧ (owner ≠ some t → outside t (threads t))

section Held

variable {owning outside owning' outside' : T → L → Prop} {owner owner' : Option T}
  {threads : T → L} {l : L} [DecidableEq T]

/-- **One thread at a time** goes on, and may lock or unlock the mutex; of the others, what
is said may change. -/
theorem Held.turn (h : Held owning outside owner threads)
    (howner : ∀ u ≠ t, owner' = some u ↔ owner = some u)
    (howning : owner' = some t → owning' t l) (houtside : owner' ≠ some t → outside' t l)
    (howning' : ∀ u ≠ t, owner = some u → owning u (threads u) → owning' u (threads u))
    (houtside' : ∀ u ≠ t, outside u (threads u) → outside' u (threads u)) :
    Held owning' outside' owner' (update threads t l) := by
  intro u
  by_cases hu : u = t
  · subst hu
    rw [update_self]
    exact ⟨howning, houtside⟩
  · rw [update_of_ne hu, ne_eq, howner u hu]
    exact ⟨fun heq => howning' u hu heq ((h u).1 heq), fun hne => houtside' u hu ((h u).2 hne)⟩

/-- A thread goes on, on its side of the lock. -/
theorem Held.move (h : Held owning outside owner threads) (howning : owner = some t → owning t l)
    (houtside : owner ≠ some t → outside t l) : Held owning outside owner (update threads t l) :=
  h.turn (fun _ _ => Iff.rfl) howning houtside (fun _ _ _ => id) fun _ _ => id

/-- The owner goes on, to what another description says of it. -/
theorem Held.own (h : Held owning outside (some t) threads) (hl : owning' t l) :
    Held owning' outside (some t) (update threads t l) :=
  h.turn (fun _ _ => Iff.rfl) (fun _ => hl) (fun hne => absurd rfl hne)
    (fun _ hu heq => absurd (Option.some.inj heq).symm hu) fun _ _ => id

/-- A thread locks the free mutex. -/
theorem Held.lock (h : Held owning outside none threads) (hl : owning t l) :
    Held owning outside (some t) (update threads t l) :=
  h.turn (fun _ hu => by simpa using hu.symm) (fun _ => hl) (fun hne => absurd rfl hne)
    (fun _ _ _ => id) fun _ _ => id

/-- The owner unlocks the mutex. -/
theorem Held.unlock (h : Held owning outside (some t) threads) (hl : outside t l) :
    Held owning outside none (update threads t l) :=
  h.turn (fun _ hu => by simpa using hu.symm) (fun heq => absurd heq.symm (Option.some_ne_none t))
    (fun _ => hl) (fun _ _ _ => id) fun _ _ => id

end Held

/-! ## Many mutexes -/

/-- The mutexes that a thread owns. -/
def owned (owner : M → Option T) (t : T) : Set M :=
  {m | owner m = some t}

/-- A thread waits for the owner of a mutex that it wants. -/
def WaitsFor (owner : M → Option T) (wants : T → M → Prop) (t u : T) : Prop :=
  ∃ m, wants t m ∧ owner m = some u

variable {owner : M → Option T} {m : M}

theorem mem_owned : m ∈ owned owner t ↔ owner m = some t :=
  Iff.rfl

section Owned

variable [DecidableEq M]

theorem owned_lock :
    owned (update owner m (some t)) t = insert m (owned owner t) := by
  ext m'
  rw [mem_owned, Set.mem_insert_iff, mem_owned]
  by_cases heq : m' = m
  · simp [heq]
  · simp [heq]

theorem owned_lock_of_ne (hm : owner m = none) (hu : u ≠ t) :
    owned (update owner m (some t)) u = owned owner u := by
  ext m'
  rw [mem_owned, mem_owned]
  by_cases heq : m' = m
  · subst heq
    simpa [hm] using hu.symm
  · rw [update_of_ne heq]

theorem owned_unlock : owned (update owner m none) t = owned owner t \ {m} := by
  ext m'
  rw [mem_owned, Set.mem_sdiff, Set.mem_singleton_iff, mem_owned]
  by_cases heq : m' = m
  · simp [heq]
  · simp [heq]

theorem owned_unlock_of_ne (hm : owner m = some t) (hu : u ≠ t) :
    owned (update owner m none) u = owned owner u := by
  have hnot : m ∉ owned owner u := by
    rw [mem_owned, hm, Option.some_inj]
    exact hu.symm
  rw [owned_unlock, Set.sdiff_singleton_eq_self hnot]

end Owned

/-- **No cycle of waits**, where the threads that wait own nothing: every thread of a
cycle waits, and owns what the thread before it waits for. -/
theorem not_waits_for_itself {wants : T → M → Prop}
    (hwants : ∀ t m, wants t m → owned owner t = ∅) (t : T) :
    ¬ TransGen (WaitsFor owner wants) t t := by
  intro hcycle
  obtain ⟨v, ⟨m, hwaits, -⟩, -⟩ := TransGen.head'_iff.mp hcycle
  obtain ⟨v', -, ⟨m', -, howns⟩⟩ := TransGen.tail'_iff.mp hcycle
  have hempty : m' ∉ owned owner t := hwants t m hwaits ▸ Set.notMem_empty m'
  exact hempty howns

end Mutex
