/-
Things that are on their way to places.

A thing is on its way to one place, or to none. Which places are due may depend on those
that have been reached already. `Balanced` says that what is due at a place is on its way
to it or has arrived, so that nothing is lost and nothing comes twice. A thing that
arrives keeps the balance if it is followed by just what has become due
(`Balanced.arrives`), and once nothing is on its way any more, the places that have been
reached are those that are due.
-/
import Mathlib.Data.Multiset.Filter
import Mathlib.Logic.Function.Basic

set_option autoImplicit false

namespace Deliveries

universe u v

variable {T : Type u} {K : Type v} [DecidableEq K] (place : T → Option K)
  (due : (K → Bool) → K → ℕ)

/-- The number of things that are on their way to a place. -/
def heading (k : K) (things : Multiset T) : ℕ :=
  (things.filterMap place).count k

/-- Each place is reached as often as it is due, once what is on its way has arrived. -/
def Balanced (reached : K → Bool) (things : Multiset T) : Prop :=
  ∀ k, heading place k things + (reached k).toNat = due reached k

variable {place due} {reached : K → Bool} {things rest : Multiset T} {t : T} {k q : K}

@[simp] theorem heading_zero : heading place k 0 = 0 :=
  Multiset.count_zero k

@[simp] theorem heading_add : heading place k (things + rest)
    = heading place k things + heading place k rest := by
  rw [heading, Multiset.filterMap_add, Multiset.count_add]
  rfl

theorem heading_cons (ht : place t = some k) :
    heading place q (t ::ₘ rest) = heading place q rest + if q = k then 1 else 0 := by
  rw [heading, Multiset.filterMap_cons_some _ _ _ ht, Multiset.count_cons]
  rfl

theorem heading_cons_none (ht : place t = none) :
    heading place q (t ::ₘ rest) = heading place q rest := by
  rw [heading, Multiset.filterMap_cons_none _ _ ht]
  rfl

theorem heading_pos (hmem : t ∈ things) (ht : place t = some k) : 0 < heading place k things := by
  obtain ⟨rest, rfl⟩ := Multiset.exists_cons_of_mem hmem
  rw [heading_cons ht, if_pos rfl]
  exact Nat.succ_pos _

/-- A place to which something is on its way is due. -/
theorem Balanced.due_of_mem (h : Balanced place due reached things) (hmem : t ∈ things)
    (ht : place t = some k) : 0 < due reached k := by
  have hpos := heading_pos hmem ht
  have hk := h k
  omega

/-- A place that has been reached was due. -/
theorem Balanced.due_of_reached (h : Balanced place due reached things) (hk : reached k = true) :
    0 < due reached k := by
  have hbalance := h k
  rw [hk, Bool.toNat_true] at hbalance
  omega

/-- Once nothing is on its way, the places that are due have been reached. -/
theorem Balanced.reached_of_due (h : Balanced place due reached 0) (hdue : 0 < due reached k) :
    reached k = true := by
  have hbalance := h k
  rw [heading_zero, Nat.zero_add] at hbalance
  by_contra hk
  rw [Bool.eq_false_of_not_eq_true hk, Bool.toNat_false] at hbalance
  omega

/-- A thing that goes to no place is not missed. -/
theorem balanced_cons_none (ht : place t = none) :
    Balanced place due reached (t ::ₘ rest) ↔ Balanced place due reached rest := by
  unfold Balanced
  simp only [heading_cons_none ht]

/-- A thing may be replaced by another one that goes to the same place. -/
theorem Balanced.moves {t' : T} (h : Balanced place due reached (t ::ₘ rest))
    (ht : place t = some k) (ht' : place t' = some k) :
    Balanced place due reached (t' ::ₘ rest) := by
  intro q
  rw [heading_cons ht', ← heading_cons ht]
  exact h q

/-- **A thing arrives.** The place has not been reached before, and the balance is kept
if what follows is on its way to the places that have become due. -/
theorem Balanced.arrives (h : Balanced place due reached (t ::ₘ rest)) (ht : place t = some k)
    (hle : due reached k ≤ 1) :
    reached k = false ∧ ∀ next, (∀ q, due (Function.update reached k true) q
        = due reached q + heading place q next) →
      Balanced place due (Function.update reached k true) (next + rest) := by
  have hk : reached k = false := by
    have hbalance := h k
    rw [heading_cons ht, if_pos rfl] at hbalance
    exact Bool.toNat_eq_zero.mp (by omega)
  refine ⟨hk, fun next hnext q => ?_⟩
  have hbalance := h q
  rw [heading_cons ht] at hbalance
  rw [hnext q, heading_add, ← hbalance]
  by_cases hq : q = k
  · subst hq
    rw [Function.update_self, hk, if_pos rfl, Bool.toNat_true, Bool.toNat_false]
    omega
  · rw [Function.update_of_ne hq, if_neg hq]
    omega

end Deliveries
