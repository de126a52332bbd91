/-
Every `decimal` that can be made is normalised, so that comparison is numeric.

The objects of a program are modified by any sequence of operations, of which some
throw. What one operation does to the objects follows from what it does to the
numbers (`exec_normal`); the run is an induction on the sequence.
-/
import Kaiu.DecimalParallel

set_option autoImplicit false

namespace Kaiu
namespace decimal

open Exit Positional

variable {V : Type*} [DecidableEq V] {a b : decimal}

/-- All objects are normalised. -/
def AllNormal (s : V → decimal) : Prop :=
  ∀ x, (s x).Normal

theorem AllNormal.update {s : V → decimal} (hs : AllNormal s) (ha : a.Normal) (x : V) :
    AllNormal (Function.update s x a) := by
  intro y
  by_cases hy : y = x
  · subst hy
    rw [Function.update_self]
    exact ha
  · rw [Function.update_of_ne hy]
    exact hs y

/-- What is returned is normalised, or an exception is thrown. -/
theorem AllNormal.assign {s : V → decimal} (hs : AllNormal s) {r : Except Error decimal} (x : V)
    (hr : ∀ a, r = .ok a → a.Normal) : AllNormal (decimal.assign x r s).1 := by
  cases r with
  | ok a => exact hs.update (hr a rfl) x
  | error error => exact hs

theorem of_integer_normal {val : ℤ} (h : of_integer val = .ok a) : a.Normal := by
  by_cases hval : 0 ≤ val
  · obtain ⟨a', ha', hnormal, -⟩ := of_integer_spec hval
    rw [h] at ha'
    cases ha'
    exact hnormal
  · unfold of_integer at h
    rw [if_pos (by omega)] at h
    cases h

theorem sub_normal (ha : a.Normal) (hb : b.Normal) {c : decimal} (h : a.sub b = .ok c) :
    c.Normal := by
  have hnormal := sub_assign_normal ha hb
  unfold sub at h
  generalize a.sub_assign b = r at h hnormal
  obtain ⟨r, _ | error⟩ := r
  · cases h
    exact hnormal
  · cases h

/-- **Every operation ends**, with an exception or without one, and leaves normalised
objects. -/
theorem exec_normal (op : Op V) {s : V → decimal} (hs : AllNormal s) :
    ∃ r, exec op s = some r ∧ AllNormal r.1 := by
  -- a result that is a value, and not an exception
  have hvalue : ∀ x {a : decimal}, a.Normal → AllNormal (decimal.assign x (.ok a) s).1 := by
    intro x a ha
    refine hs.assign x fun a' ha' => ?_
    cases ha'
    exact ha
  cases op with
  | construct x => exact ⟨_, rfl, hvalue x normal_zero⟩
  | construct_integer x val => exact ⟨_, rfl, hs.assign x fun a ha => of_integer_normal ha⟩
  | construct_string x val => exact ⟨_, rfl, hs.assign x fun a ha => of_string_normal ha⟩
  | copy x y => exact ⟨_, rfl, hvalue x (hs y)⟩
  | add_assign x y =>
    refine ⟨_, rfl, hvalue x ?_⟩
    by_cases hxy : x = y
    · rw [if_pos hxy, add_assign_self_eq (hs x).digital]
      exact add_assign_normal (hs x) (hs x)
    · rw [if_neg hxy]
      exact add_assign_normal (hs x) (hs y)
  | add x y z => exact ⟨_, rfl, hvalue x (add_assign_normal (hs y) (hs z))⟩
  | inc x => exact ⟨_, rfl, hvalue x (add_assign_normal (hs x) normal_one)⟩
  | sub_assign x y =>
    -- the object is modified, whether the operation throws or not
    refine ⟨_, rfl, hs.update ?_ x⟩
    by_cases hxy : x = y
    · rw [if_pos hxy, sub_assign_self_eq (hs x).digital]
      exact sub_assign_normal (hs x) (hs x)
    · rw [if_neg hxy]
      exact sub_assign_normal (hs x) (hs y)
  | sub x y z => exact ⟨_, rfl, hs.assign x fun a ha => sub_normal (hs y) (hs z) ha⟩
  | dec x => exact ⟨_, rfl, hs.update (sub_assign_normal (hs x) normal_one) x⟩
  | mul x y z => exact ⟨_, rfl, hvalue x (mul_spec (hs y) (hs z)).1⟩
  | mul_assign x y => exact ⟨_, rfl, hvalue x (mul_spec (hs x) (hs y)).1⟩
  | factorial x y =>
    obtain ⟨a, hfactorial, ha, -⟩ := factorial_spec (hs y)
    refine ⟨decimal.assign x (.ok a) s, ?_, hvalue x ha⟩
    rw [exec, hfactorial, Option.map_some]
  | parallel_multiply x y z hardware_concurrency order =>
    exact ⟨_, rfl, hvalue x (parallel_multiply_normal (hs y) (hs z) hardware_concurrency order)⟩

theorem run_normal (ops : List (Op V)) {s : V → decimal} (hs : AllNormal s) :
    ∃ s', run ops s = some s' ∧ AllNormal s' := by
  induction ops generalizing s with
  | nil => exact ⟨s, rfl, hs⟩
  | cons op ops ih =>
    obtain ⟨r, hexec, hr⟩ := exec_normal op hs
    obtain ⟨s', hrun, hs'⟩ := ih hr
    refine ⟨s', ?_, hs'⟩
    rw [run, hexec, Option.bind_some, hrun]

/-- The operators compare the numbers. -/
structure Numeric (a b : decimal) : Prop where
  eq : a.eq b = true ↔ a.toInt = b.toInt
  ne : a.ne b = true ↔ a.toInt ≠ b.toInt
  lt : a.lt b = true ↔ a.toInt < b.toInt
  le : a.le b = true ↔ a.toInt ≤ b.toInt
  gt : a.gt b = true ↔ a.toInt > b.toInt
  ge : a.ge b = true ↔ a.toInt ≥ b.toInt
  to_bool : a.to_bool = true ↔ a.toInt ≠ 0

theorem numeric_of_normal (ha : a.Normal) (hb : b.Normal) : Numeric a b := by
  have hrelation := relation_to_spec ha hb
  refine ⟨eq_iff ha hb, ?_, ?_, ?_, ?_, ?_, ?_⟩
  · unfold ne
    rw [Bool.not_eq_true', ← Bool.not_eq_true, eq_iff ha hb]
  · unfold lt
    rw [decide_eq_true_iff, hrelation, Int.sign_neg_iff]
    omega
  · unfold le
    rw [decide_eq_true_iff, hrelation, Int.sign_nonpos_iff]
    omega
  · unfold gt
    rw [decide_eq_true_iff, hrelation, gt_iff_lt, Int.sign_pos_iff]
    omega
  · unfold ge
    rw [decide_eq_true_iff, hrelation, ge_iff_le, Int.sign_nonneg_iff]
    omega
  · unfold to_bool
    rw [Bool.not_eq_true', ← Bool.not_eq_true, ha.isZero_iff]

/-- **Every decimal stays normalised, so that comparison is numeric.** After any
sequence of operations on objects, of which any may have thrown: each object has a
digit at least, all its digits are digits, and the most significant one is not zero
unless it is the only one; and the operators agree with the numbers that the objects
stand for. -/
theorem decimals_canonical (ops : List (Op V)) :
    ∃ s, run ops (fun _ => {}) = some s ∧
      (∀ x, (s x).Normal) ∧ ∀ x y, Numeric (s x) (s y) := by
  obtain ⟨s, hrun, hs⟩ := run_normal ops (s := fun _ => {}) fun _ => normal_zero
  exact ⟨s, hrun, hs, fun x y => numeric_of_normal (hs x) (hs y)⟩

end decimal
end Kaiu
