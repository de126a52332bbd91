/-
Sums and counts over finitely many parties that move one at a time.

A system of parties that move one at a time changes a sum over all of them by the
party that moves, and by nothing else: `total_update` is all that a step needs to
know about the sum. The number of parties in a phase, their census, is such a sum.
-/
import Mathlib.Algebra.BigOperators.Group.Finset.Piecewise
import Mathlib.Algebra.Order.BigOperators.Group.Finset
import Mathlib.Data.Fintype.Card
import Mathlib.Tactic.Abel

set_option autoImplicit false

namespace Census

universe u v w

variable {ι : Type u} [Fintype ι] {S : Type v} {M : Type w} [AddCommMonoid M]

/-- The sum of a measure of the phases of all parties. -/
def total (measure : S → M) (phase : ι → S) : M :=
  ∑ i, measure (phase i)

/-- The number of parties whose phase satisfies `p`. -/
def census (p : S → Bool) (phase : ι → S) : ℕ :=
  total (fun x => (p x).toNat) phase

variable {measure : S → M} {p : S → Bool} {phase : ι → S}

/-- **One party moves.** -/
theorem total_update [DecidableEq ι] (measure : S → M) (phase : ι → S) (i : ι) (next : S) :
    total measure (Function.update phase i next) + measure (phase i)
      = total measure phase + measure next := by
  have hsplit : ∀ f : ι → S, total measure f
      = measure (f i) + ∑ j ∈ Finset.univ.erase i, measure (f j) := by
    intro f
    exact (Finset.add_sum_erase _ (fun j => measure (f j)) (Finset.mem_univ i)).symm
  have hothers : (∑ j ∈ Finset.univ.erase i, measure (Function.update phase i next j))
      = ∑ j ∈ Finset.univ.erase i, measure (phase j) := by
    refine Finset.sum_congr rfl fun j hj => ?_
    rw [Function.update_of_ne (Finset.ne_of_mem_erase hj)]
  rw [hsplit, hsplit phase, hothers, Function.update_self]
  abel

theorem total_update_same [DecidableEq ι] {i : ι} {next : S}
    (h : measure next = measure (phase i)) :
    total measure (Function.update phase i next) = total measure phase := by
  refine Finset.sum_congr rfl fun j _ => ?_
  by_cases hji : j = i
  · rw [hji, Function.update_self, h]
  · rw [Function.update_of_ne hji]

theorem total_eq_zero (h : ∀ i, measure (phase i) = 0) : total measure phase = 0 :=
  Finset.sum_eq_zero fun i _ => h i

theorem total_eq_zero_iff {measure : S → ℕ} :
    total measure phase = 0 ↔ ∀ i, measure (phase i) = 0 := by
  simp [total]

theorem census_update [DecidableEq ι] (p : S → Bool) (phase : ι → S) (i : ι) (next : S) :
    census p (Function.update phase i next) + (p (phase i)).toNat
      = census p phase + (p next).toNat :=
  total_update _ phase i next

/-- A party that moves within the predicate, or outside of it. -/
theorem census_update_same [DecidableEq ι] {i : ι} {next : S} (h : p next = p (phase i)) :
    census p (Function.update phase i next) = census p phase :=
  total_update_same (by rw [h])

theorem census_eq_zero_iff : census p phase = 0 ↔ ∀ i, p (phase i) = false := by
  simp [census, total_eq_zero_iff]

theorem census_pos {i : ι} (h : p (phase i) = true) : 0 < census p phase := by
  rw [Nat.pos_iff_ne_zero, Ne, census_eq_zero_iff]
  intro hall
  rw [hall i] at h
  cases h

theorem census_const_true {next : S} (h : p next = true) :
    census p (fun _ : ι => next) = Fintype.card ι := by
  simp [census, total, h]

theorem census_const_false {next : S} (h : p next = false) :
    census p (fun _ : ι => next) = 0 :=
  census_eq_zero_iff.mpr fun _ => h

end Census
