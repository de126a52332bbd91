/-
Numbers as lists of digits, the least significant digit first.

`value` is Horner's rule, for any list of integers; that the entries are digits is a
predicate of its own, since the buffers of an algorithm hold digits while the
numbers in them are not normalised. Loops that rewrite one digit after another are
followed by what a single `set` does to the value (`value_set`) and by the value of
the digits that have been read so far (`value_take_succ`). Two normalised lists of
equal value are equal (`Canonical.ext`), which rests on the bounds `value_lt` and
`Canonical.pow_le`.
-/
import Mathlib.Algebra.Order.Ring.Int
import Mathlib.Data.List.Basic
import Mathlib.Data.List.GetD
import Mathlib.Tactic.LinearCombination
import Mathlib.Tactic.Linarith
import Mathlib.Tactic.Ring

set_option autoImplicit false

namespace Positional

variable {β : ℤ} {l m : List ℤ}

/-! ## Loops -/

/-- What each iteration of a loop over `0, ..., n - 1` keeps holds at its end. -/
theorem foldl_range {S : Type*} {step : S → ℕ → S} {I : ℕ → S → Prop} {s : S} (n : ℕ)
    (hinit : I 0 s) (hstep : ∀ i < n, ∀ s, I i s → I (i + 1) (step s i)) :
    I n ((List.range n).foldl step s) := by
  -- induction on the number of iterations
  induction n with
  | zero => exact hinit
  | succ n ih =>
    rw [List.range_succ, List.foldl_append]
    apply hstep n (Nat.lt_succ_self n)
    apply ih
    intro i hi
    exact hstep i (Nat.lt_succ_of_lt hi)

/-- Two loops whose iterations do the same where the invariant holds are equal. -/
theorem foldl_range_congr {S : Type*} {step step' : S → ℕ → S} {I : ℕ → S → Prop} {s : S} (n : ℕ)
    (hinit : I 0 s) (hstep : ∀ i < n, ∀ s, I i s → I (i + 1) (step s i))
    (heq : ∀ i < n, ∀ s, I i s → step' s i = step s i) :
    (List.range n).foldl step' s = (List.range n).foldl step s := by
  induction n with
  | zero => rfl
  | succ n ih =>
    have hstep' : ∀ i < n, ∀ s, I i s → I (i + 1) (step s i) :=
      fun i hi => hstep i (Nat.lt_succ_of_lt hi)
    have hinv := foldl_range n hinit hstep'
    rw [List.range_succ, List.foldl_append, List.foldl_append,
      ih hstep' fun i hi => heq i (Nat.lt_succ_of_lt hi)]
    exact heq n (Nat.lt_succ_self n) _ hinv

/-- What the iterations of a loop over `0, ..., n - 1` emit, in order: iteration `i` emits
in the state that it finds. -/
def trace {S A : Type*} (step : S → ℕ → S) (emits : S → ℕ → List A) (s : S) (n : ℕ) : List A :=
  (List.range n).flatMap fun i => emits ((List.range i).foldl step s) i

/-- What holds of everything that is emitted where the invariant holds. -/
theorem forall_trace {S A : Type*} {step : S → ℕ → S} {emits : S → ℕ → List A} {I : ℕ → S → Prop}
    {P : A → Prop} {s : S} {n : ℕ} (hinit : I 0 s)
    (hstep : ∀ i < n, ∀ s, I i s → I (i + 1) (step s i))
    (hemits : ∀ i < n, ∀ s, I i s → ∀ x ∈ emits s i, P x) :
    ∀ x ∈ trace step emits s n, P x := by
  intro x hx
  obtain ⟨i, hi, hx⟩ := List.mem_flatMap.mp hx
  have hi : i < n := List.mem_range.mp hi
  have hinv : I i ((List.range i).foldl step s) :=
    foldl_range i hinit fun j hj => hstep j (Nat.lt_trans hj hi)
  exact hemits i hi _ hinv x hx

/-! ## The value -/

/-- The value of a list of digits in base `β`. -/
def value (β : ℤ) : List ℤ → ℤ
  | [] => 0
  | d :: l => d + β * value β l

@[simp] theorem value_nil : value β [] = 0 := rfl

@[simp] theorem value_cons (d : ℤ) : value β (d :: l) = d + β * value β l := rfl

theorem value_append : value β (l ++ m) = value β l + β ^ l.length * value β m := by
  induction l with
  | nil => simp
  | cons d l ih =>
    rw [List.cons_append, value_cons, ih, value_cons, List.length_cons]
    ring

@[simp] theorem value_replicate_zero (n : ℕ) : value β (List.replicate n 0) = 0 := by
  induction n with
  | zero => rfl
  | succ n ih => rw [List.replicate_succ, value_cons, ih, mul_zero, add_zero]

/-- Horner's rule, from the most significant digit. -/
theorem foldl_reverse_eq_value (l : List ℤ) :
    l.reverse.foldl (fun r d => r * β + d) 0 = value β l := by
  induction l with
  | nil => rfl
  | cons d l ih =>
    rw [List.reverse_cons, List.foldl_append, ih, List.foldl_cons, List.foldl_nil, value_cons]
    ring

/-- Writing one digit changes the value by the change of the digit. -/
theorem value_set {i : ℕ} (h : i < l.length) (d : ℤ) :
    value β (l.set i d) = value β l + (d - l.getD i 0) * β ^ i := by
  induction l generalizing i with
  | nil => exact absurd h (Nat.not_lt_zero i)
  | cons x l ih =>
    cases i with
    | zero =>
      rw [List.set_cons_zero, value_cons, value_cons, List.getD_cons_zero]
      ring
    | succ i =>
      rw [List.set_cons_succ, value_cons, value_cons, List.getD_cons_succ,
        ih (Nat.lt_of_succ_lt_succ h)]
      ring

/-- **One iteration.** Of the digit at position `i`, what is added to it and the carry
`c`, the digit that is written and the new carry `c'` are worth the sum. -/
theorem value_set_carry {i : ℕ} (h : i < l.length) {d y c c' : ℤ}
    (hsum : d + β * c' = l.getD i 0 + y + c) :
    value β (l.set i d) + c' * β ^ (i + 1) = value β l + c * β ^ i + y * β ^ i := by
  rw [value_set h, pow_succ]
  linear_combination β ^ i * hsum

/-- The value of the digits that have been read. Past the end zeros are read. -/
theorem value_take_succ (l : List ℤ) (i : ℕ) :
    value β (l.take (i + 1)) = value β (l.take i) + l.getD i 0 * β ^ i := by
  induction l generalizing i with
  | nil => simp
  | cons x l ih =>
    cases i with
    | zero => simp
    | succ i =>
      rw [List.take_succ_cons, List.take_succ_cons, value_cons, value_cons, ih,
        List.getD_cons_succ]
      ring

theorem getD_set_ne {i j : ℕ} (h : i ≠ j) (d : ℤ) : (l.set i d).getD j 0 = l.getD j 0 := by
  rw [List.getD_eq_getElem?_getD, List.getElem?_set_ne h, List.getD_eq_getElem?_getD]

/-! ## Digits -/

/-- All entries are digits. -/
def Digits (β : ℤ) (l : List ℤ) : Prop :=
  ∀ d ∈ l, 0 ≤ d ∧ d < β

theorem Digits.cons {d : ℤ} (h : Digits β (d :: l)) : (0 ≤ d ∧ d < β) ∧ Digits β l :=
  ⟨h d (List.mem_cons_self ..), fun x hx => h x (List.mem_cons_of_mem d hx)⟩

theorem Digits.append (hl : Digits β l) (hm : Digits β m) : Digits β (l ++ m) := by
  intro d hd
  rcases List.mem_append.mp hd with h | h
  · exact hl d h
  · exact hm d h

theorem Digits.take (h : Digits β l) (n : ℕ) : Digits β (l.take n) :=
  fun d hd => h d (List.mem_of_mem_take hd)

theorem Digits.zeros (hβ : 1 < β) (n : ℕ) : Digits β (List.replicate n 0) := by
  intro d hd
  rw [List.eq_of_mem_replicate hd]
  omega

theorem Digits.set (h : Digits β l) {d : ℤ} (hd : 0 ≤ d ∧ d < β) (i : ℕ) :
    Digits β (l.set i d) := by
  intro x hx
  rcases List.mem_or_eq_of_mem_set hx with hx | rfl
  · exact h x hx
  · exact hd

/-- Whatever is read is a digit, also past the end. -/
theorem Digits.getD (hβ : 1 < β) (h : Digits β l) (i : ℕ) :
    0 ≤ l.getD i 0 ∧ l.getD i 0 < β := by
  by_cases hi : i < l.length
  · rw [List.getD_eq_getElem l 0 hi]
    exact h _ (List.getElem_mem hi)
  · rw [List.getD_eq_default _ _ (Nat.le_of_not_lt hi)]
    omega

theorem value_nonneg (hβ : 1 < β) (h : Digits β l) : 0 ≤ value β l := by
  induction l with
  | nil => exact le_refl 0
  | cons d l ih =>
    obtain ⟨hd, hl⟩ := h.cons
    have hrest : 0 ≤ β * value β l := mul_nonneg (by omega) (ih hl)
    rw [value_cons]
    omega

theorem value_lt (hβ : 1 < β) (h : Digits β l) : value β l < β ^ l.length := by
  induction l with
  | nil => simp
  | cons d l ih =>
    obtain ⟨hd, hl⟩ := h.cons
    -- the rest is smaller by one at least, which is worth `β` here
    have hrest : β * (value β l + 1) ≤ β * β ^ l.length :=
      mul_le_mul_of_nonneg_left (Int.add_one_le_of_lt (ih hl)) (by omega)
    rw [value_cons, List.length_cons, pow_succ']
    linarith [hd.2]

/-! ## Normalised lists -/

/-- There is a digit, and the most significant one is not zero unless it is the
only one. -/
structure Canonical (β : ℤ) (l : List ℤ) : Prop where
  digits : Digits β l
  nonempty : l ≠ []
  top : l.length ≠ 1 → l.getLast? ≠ some 0

/-- A list whose most significant digit is zero has the value of the shorter one. -/
theorem value_lt_of_top (hβ : 1 < β) (h : Digits β l) (htop : l.getLast? = some 0) :
    value β l < β ^ (l.length - 1) := by
  obtain ⟨m, rfl⟩ := List.getLast?_eq_some_iff.mp htop
  have hm : Digits β m := fun d hd => h d (List.mem_append_left _ hd)
  rw [value_append, List.length_append, List.length_singleton, Nat.add_sub_cancel]
  simpa using value_lt hβ hm

/-- A digit that is not zero makes the list as large as its place. -/
theorem Canonical.pow_le (hβ : 1 < β) (h : Canonical β l) (hlen : l.length ≠ 1) :
    β ^ (l.length - 1) ≤ value β l := by
  obtain ⟨m, d, rfl⟩ : ∃ m d, l = m ++ [d] := List.eq_nil_or_concat' l |>.resolve_left h.nonempty
  have hd : d ≠ 0 := by
    intro hzero
    exact h.top hlen (by simp [hzero])
  have hdigit := h.digits d (by simp)
  have hm : 0 ≤ value β m :=
    value_nonneg hβ fun x hx => h.digits x (List.mem_append_left _ hx)
  have hplace : β ^ m.length * 1 ≤ β ^ m.length * d :=
    mul_le_mul_of_nonneg_left (by omega) (pow_nonneg (by omega) _)
  rw [value_append, List.length_append, List.length_singleton, Nat.add_sub_cancel]
  simp only [value_cons, value_nil, mul_zero, add_zero]
  omega

/-- A list of digits is normalised if its value needs its length. -/
theorem canonical_of_pow_le (hβ : 1 < β) (h : Digits β l) (hne : l ≠ [])
    (hpow : l.length ≠ 1 → β ^ (l.length - 1) ≤ value β l) : Canonical β l := by
  refine ⟨h, hne, fun hlen htop => ?_⟩
  have hlt := value_lt_of_top hβ h htop
  have hle := hpow hlen
  omega

theorem canonical_singleton {d : ℤ} (hd : 0 ≤ d ∧ d < β) : Canonical β [d] := by
  refine ⟨fun x hx => ?_, List.cons_ne_nil _ _, fun h => absurd rfl h⟩
  rw [List.mem_singleton.mp hx]
  exact hd

/-- Of two normalised lists the longer one has the larger value. -/
theorem Canonical.value_lt_of_length_lt (hβ : 1 < β) (hl : Canonical β l) (hm : Canonical β m)
    (h : l.length < m.length) : value β l < value β m := by
  have hpos : 0 < l.length := List.length_pos_iff.mpr hl.nonempty
  have hpow : β ^ l.length ≤ β ^ (m.length - 1) :=
    pow_le_pow_right₀ (by omega) (by omega)
  have hupper := value_lt hβ hl.digits
  have hlower := hm.pow_le hβ (by omega)
  omega

/-- Lists of digits of the same length and value are equal. -/
theorem eq_of_value_eq (hβ : 1 < β) (hl : Digits β l) (hm : Digits β m)
    (hlen : l.length = m.length) (h : value β l = value β m) : l = m := by
  -- the lowest digits are the remainders modulo `β`
  induction l generalizing m with
  | nil => exact (List.eq_nil_of_length_eq_zero hlen.symm).symm
  | cons d l ih =>
    cases m with
    | nil => cases hlen
    | cons d' m =>
      obtain ⟨hd, hl'⟩ := hl.cons
      obtain ⟨hd', hm'⟩ := hm.cons
      rw [value_cons, value_cons] at h
      have hdigit : d = d' := by
        have hmod := congrArg (· % β) h
        simp only [Int.add_mul_emod_self_left] at hmod
        rwa [Int.emod_eq_of_lt hd.1 hd.2, Int.emod_eq_of_lt hd'.1 hd'.2] at hmod
      subst hdigit
      have hrest : value β l = value β m :=
        mul_left_cancel₀ (show β ≠ 0 by omega) (add_left_cancel h)
      rw [ih hl' hm' (Nat.succ.inj hlen) hrest]

/-- **A number has one normalised list of digits.** -/
theorem Canonical.ext (hβ : 1 < β) (hl : Canonical β l) (hm : Canonical β m)
    (h : value β l = value β m) : l = m := by
  have hlen : l.length = m.length := by
    by_contra hne
    rcases Nat.lt_or_gt_of_ne hne with hlt | hgt
    · exact absurd h (ne_of_lt (hl.value_lt_of_length_lt hβ hm hlt))
    · exact absurd h (ne_of_gt (hm.value_lt_of_length_lt hβ hl hgt))
  exact eq_of_value_eq hβ hl.digits hm.digits hlen h

end Positional
