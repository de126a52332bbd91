/-
What each operation does to the objects, exactly.

The specifications of the member functions are about values. Here they are put
together for objects, of which two names may mean the same one: `x += x` reads the
vector that it rewrites, and `x *= x` copies it first. The `int`s that a product
computes on the way and stores in a `char` are listed in the order in which they are
computed (`mul_ints`), with the loops that compute them; that none of them is cut off
is an invariant of these loops, like their worth.
-/
import Kaiu.DecimalObjects

set_option autoImplicit false

namespace Kaiu
namespace decimal

open Exit Positional

/-! ## What is assigned to a `char` -/

/-- Both are computed in `int` by an iteration of `+=`: the sum, and the digit. -/
def add_step_ints (b : List ℤ) (s : List ℤ × Bool) (i : ℕ) : List ℤ :=
  let d := s.1.getD i 0 + b.getD i 0 + if s.2 then 1 else 0
  [d, if 10 ≤ narrow d then narrow d - 10 else narrow d]

/-- What `+=` computes, for another object. -/
def add_assign_ints (a b : decimal) : List ℤ :=
  if a.isZero then []
  else if b.isZero then []
  else
    let w := max a.length b.length
    trace (add_step b.digits) (add_step_ints b.digits) (resize (w + 1) a.digits, false) w

/-- All three are computed in `int` by an iteration of the inner loop of `*`: the
product with the carry, the new carry and the digit. -/
def mul_step_ints (b : List ℤ) (ad : ℤ) (s : List ℤ × ℤ) (j : ℕ) : List ℤ :=
  let d := b.getD j 0 * ad + s.2
  let carry := (narrow d).tdiv 10
  [d, carry, narrow d - narrow carry * 10]

/-- What the inner loop computes. -/
def row_ints (b : decimal) (ad : ℤ) (i : ℕ) (tmp : List ℤ) : List ℤ :=
  trace (mul_step b.digits ad i) (mul_step_ints b.digits ad) (tmp, 0) b.length

/-- What an iteration of the outer loop computes. -/
def mul_row_ints (a b : decimal) (c : decimal) (i : ℕ) : List ℤ :=
  let ad := a.at_index i
  if ad = 0 then []
  else
    let tmp := resize (b.length + i + 1) [0]
    row_ints b ad i tmp ++ c.add_assign_ints (row b ad i tmp)

/-- What `operator *` computes. -/
def mul_ints (l r : decimal) : List ℤ :=
  let a := shorter l r
  let b := longer l r
  if a.isZero then []
  else if a.isUnity then []
  else trace (mul_row a b) (mul_row_ints a b) ⟨resize (a.length + b.length) [0]⟩ a.length

/-- A `char` can hold the value. -/
def FitsChar (x : ℤ) : Prop := -128 ≤ x ∧ x < 128

variable {a b : decimal}

theorem fits_add_step {l b : List ℤ} (carry : Bool) (i : ℕ) (hl : Digits 10 l)
    (hb : Digits 10 b) : ∀ x ∈ add_step_ints b (l, carry) i, FitsChar x := by
  have hx := hl.getD (by norm_num) i
  have hy := hb.getD (by norm_num) i
  have hc : (0 : ℤ) ≤ (if carry then 1 else 0) ∧ (if carry then 1 else 0) ≤ (1 : ℤ) := by
    split <;> omega
  unfold add_step_ints
  generalize hsum : l.getD i 0 + b.getD i 0 + (if carry then 1 else 0) = d
  have hd : narrow d = d := narrow_eq (by omega) (by omega)
  simp only [hd]
  intro x hx
  unfold FitsChar
  rcases List.mem_cons.mp hx with rfl | hx
  · omega
  · rw [List.mem_singleton.mp hx]
    split <;> omega

theorem fits_add_assign (ha : a.Digital) (hb : b.Digital) :
    ∀ x ∈ add_assign_ints a b, FitsChar x := by
  intro x hx
  unfold add_assign_ints at hx
  split at hx
  · cases hx
  · split at hx
    · cases hx
    · have hstart := digits_resize ha (max a.length b.length + 1)
      refine forall_trace (I := Added (resize (max a.length b.length + 1) a.digits) b.digits)
        ⟨rfl, hstart, by simp, fun j _ => rfl⟩ (fun i hi s hs => hs.step hb ?_)
        (fun i hi s hs => fits_add_step s.2 i hs.digits hb) x hx
      rw [length_resize]
      omega

theorem fits_mul_step {l b : List ℤ} {ad carry : ℤ} (j : ℕ) (hb : Digits 10 b)
    (had : 0 ≤ ad ∧ ad < 10) (hcarry : 0 ≤ carry ∧ carry ≤ 8) :
    ∀ x ∈ mul_step_ints b ad (l, carry) j, FitsChar x := by
  have hy := hb.getD (by norm_num) j
  have hlow : 0 ≤ b.getD j 0 * ad := mul_nonneg hy.1 had.1
  have hhigh : b.getD j 0 * ad ≤ 9 * 9 :=
    mul_le_mul (by omega) (by omega) had.1 (by norm_num)
  unfold mul_step_ints
  generalize hsum : b.getD j 0 * ad + carry = d
  have hd : narrow d = d := narrow_eq (by omega) (by omega)
  have hdiv : d.tdiv 10 = d / 10 := Int.tdiv_eq_ediv_of_nonneg (by omega)
  have hc : narrow (d / 10) = d / 10 := narrow_eq (by omega) (by omega)
  simp only [hd, hdiv, hc]
  intro x hx
  unfold FitsChar
  simp only [List.mem_cons, List.not_mem_nil, or_false] at hx
  rcases hx with rfl | rfl | rfl <;> omega

theorem fits_row {ad : ℤ} (i : ℕ) (hb : b.Digital) (had : 0 ≤ ad ∧ ad < 10) :
    ∀ x ∈ row_ints b ad i (List.replicate (b.length + i + 1) 0), FitsChar x :=
  forall_trace (I := Rowed b.digits ad i (b.length + i + 1)) (rowed_init ..)
    (fun _ hj _ hs => hs.step hb had (by omega))
    fun j _ _ hs => fits_mul_step j hb had hs.carry

theorem fits_mul_row {c : decimal} {i : ℕ} (ha : a.Digital) (hb : b.Digital) (hc : c.Digital) :
    ∀ x ∈ mul_row_ints a b c i, FitsChar x := by
  intro x hx
  unfold mul_row_ints at hx
  simp only at hx
  split at hx
  · cases hx
  · rw [resize_zero (Nat.succ_pos _)] at hx
    rcases List.mem_append.mp hx with hx | hx
    · exact fits_row i hb (ha.at_index i) x hx
    · exact fits_add_assign hc (row_spec i hb (ha.at_index i)).1 x hx

/-- **No digit of a product is cut off.** -/
theorem fits_mul {l r : decimal} (hl : l.Normal) (hr : r.Normal) :
    ∀ x ∈ mul_ints l r, FitsChar x := by
  obtain ⟨ha, hb, -⟩ := factors_normal hl hr
  intro x hx
  unfold mul_ints at hx
  simp only at hx
  split at hx
  · cases hx
  · split at hx
    · cases hx
    · have hpos : 0 < (shorter l r).length + (longer l r).length :=
        Nat.add_pos_left ha.length_pos _
      obtain ⟨hdigits, hlen, hzero⟩ := buffer_spec hpos
      exact forall_trace (I := Multiplied (shorter l r) (longer l r))
        ⟨hdigits, hlen, by rw [hzero]; simp⟩
        (fun i hi c hc => hc.step ha.digital hb.digital hb.length_pos hi)
        (fun i _ c hc => fits_mul_row ha.digital hb.digital hc.digital) x hx

/-! ## Objects -/

variable {V : Type*} [DecidableEq V] {s : V → decimal} {x y : V}

/-- `x += y`, also where both are the same object. -/
theorem exec_add_assign (hx : (s x).Digital) :
    exec (.add_assign x y) s = some (returns (Function.update s x ((s x).add_assign (s y)))) := by
  by_cases hxy : x = y
  · subst hxy
    simp only [exec, if_true, add_assign_self_eq hx]
    rfl
  · simp only [exec, if_neg hxy]
    rfl

/-- `x -= y`, also where both are the same object. -/
theorem exec_sub_assign (hx : (s x).Digital) :
    exec (.sub_assign x y) s = some (modify x ((s x).sub_assign (s y)) s) := by
  by_cases hxy : x = y
  · subst hxy
    simp only [exec, if_true, sub_assign_self_eq hx]
  · simp only [exec, if_neg hxy]

/-- **Addition is exact**, also of an object to itself, and with leading zeros on
either side. The sum is as long as the longer number, or longer by one if it has to be,
and no other object is changed. -/
theorem addition_exact (hx : (s x).Digital) (hy : (s y).Digital) (hx' : 0 < (s x).length)
    (hy' : 0 < (s y).length) :
    ∃ s', exec (.add_assign x y) s = some (returns s') ∧
      (s' x).Digital ∧ (s' x).toInt = (s x).toInt + (s y).toInt ∧
      (s' x).length = max (s x).length (s y).length
        + (if 10 ^ max (s x).length (s y).length ≤ (s x).toInt + (s y).toInt then 1 else 0) ∧
      ∀ z, z ≠ x → s' z = s z := by
  obtain ⟨hdigits, hvalue, hlength⟩ := add_assign_spec hx hy hx' hy'
  refine ⟨_, exec_add_assign hx, ?_, ?_, ?_, fun z hz => Function.update_of_ne hz ..⟩
  · rw [Function.update_self]
    exact hdigits
  · rw [Function.update_self]
    exact hvalue
  · rw [Function.update_self]
    exact hlength

/-- An object is added to itself; its most significant digit is zero. -/
theorem addition_exact_self :
    let s : Bool → decimal := fun _ => ⟨[7, 9, 0]⟩
    ∃ s', exec (.add_assign true true) s = some (returns s') ∧
      (s' true).Digital ∧ (s' true).toInt = (s true).toInt + (s true).toInt ∧
      (s' true).length = max (s true).length (s true).length
        + (if 10 ^ max (s true).length (s true).length ≤ (s true).toInt + (s true).toInt
            then 1 else 0) ∧
      ∀ z, z ≠ true → s' z = s z := by
  intro s
  have hdigits : (s true).Digital := by
    intro d hd
    simp only [s, List.mem_cons, List.not_mem_nil, or_false] at hd
    omega
  exact addition_exact hdigits hdigits (by decide) (by decide)

/-- **Subtraction is exact, and it throws exactly where the result would be negative.** -/
theorem subtraction_exact (hx : (s x).Normal) (hy : (s y).Normal) :
    ((∃ s', exec (.sub_assign x y) s = some (throws s' underflow)) ↔
      (s x).toInt < (s y).toInt) ∧
    ((s y).toInt ≤ (s x).toInt → ∃ s', exec (.sub_assign x y) s = some (returns s') ∧
      (s' x).Normal ∧ (s' x).toInt = (s x).toInt - (s y).toInt ∧ ∀ z, z ≠ x → s' z = s z) := by
  obtain ⟨hless, hgreater⟩ := sub_assign_spec hx hy
  have hreturns : (s y).toInt ≤ (s x).toInt → ∃ r, r.Normal ∧
      r.toInt = (s x).toInt - (s y).toInt ∧
      exec (.sub_assign x y) s = some (returns (Function.update s x r)) := by
    intro hle
    obtain ⟨r, heq, hr, hvalue⟩ := hgreater hle
    refine ⟨r, hr, hvalue, ?_⟩
    rw [exec_sub_assign hx.digital, heq]
    rfl
  refine ⟨⟨fun hthrows => ?_, fun hlt => ?_⟩, fun hle => ?_⟩
  · by_contra hle
    obtain ⟨s', hs'⟩ := hthrows
    obtain ⟨r, -, -, hexec⟩ := hreturns (not_lt.mp hle)
    rw [hexec] at hs'
    cases hs'
  · obtain ⟨r, heq, -⟩ := hless hlt
    refine ⟨Function.update s x r, ?_⟩
    rw [exec_sub_assign hx.digital, heq]
    rfl
  · obtain ⟨r, hr, hvalue, hexec⟩ := hreturns hle
    refine ⟨_, hexec, ?_, ?_, fun z hz => Function.update_of_ne hz ..⟩
    · rwa [Function.update_self]
    · rwa [Function.update_self]

theorem normal_three : Normal ⟨[3]⟩ := canonical_singleton (by norm_num)

theorem normal_twelve : Normal ⟨[2, 1]⟩ := by
  refine ⟨fun d hd => ?_, List.cons_ne_nil _ _, fun _ => by decide⟩
  simp only [List.mem_cons, List.not_mem_nil, or_false] at hd
  omega

/-- Twelve and three. -/
theorem subtraction_exact_twelve_three :
    let s : Bool → decimal := fun x => if x then ⟨[2, 1]⟩ else ⟨[3]⟩
    ((∃ s', exec (.sub_assign true false) s = some (throws s' underflow)) ↔
      (s true).toInt < (s false).toInt) ∧
    ((s false).toInt ≤ (s true).toInt → ∃ s', exec (.sub_assign true false) s = some (returns s') ∧
      (s' true).Normal ∧ (s' true).toInt = (s true).toInt - (s false).toInt ∧
      ∀ z, z ≠ true → s' z = s z) :=
  subtraction_exact normal_twelve normal_three

/-- **When a failed subtraction leaves the number as it was.** The exception for a
longer subtrahend comes before anything has been written, the one for the last borrow
after all digits have been; so `-=` keeps the digits if it does not throw or if the
subtrahend is longer, and `--` if it does not throw. -/
theorem failed_subtraction_keeps_iff (hx : (s x).Normal) (hy : (s y).Normal) :
    ((∀ s', exec (.sub_assign x y) s = some (throws s' underflow) → (s' x).digits = (s x).digits) ↔
      (s y).toInt ≤ (s x).toInt ∨ (s x).length < (s y).length) ∧
    ((∀ s', exec (.dec x) s = some (throws s' underflow) → (s' x).digits = (s x).digits) ↔
      (s x).toInt ≠ 0) := by
  have hkeeps : ∀ {o : Op V} {b : decimal}, b.Normal →
      exec o s = some (modify x ((s x).sub_assign b) s) →
      ((∀ s', exec o s = some (throws s' underflow) → (s' x).digits = (s x).digits) ↔
        b.toInt ≤ (s x).toInt ∨ (s x).length < b.length) := by
    intro o b hb hexec
    rw [hexec]
    by_cases hlt : (s x).toInt < b.toInt
    -- the exception leaves the same digits exactly if the subtrahend is longer
    · obtain ⟨r, heq, hsame⟩ := sub_assign_throws hx hb hlt
      have hthrows : modify x ((s x).sub_assign b) s = throws (Function.update s x r) underflow := by
        rw [heq]
        rfl
      rw [hthrows, or_iff_right (not_le.mpr hlt), ← hsame]
      refine ⟨fun h => ?_, fun h s' hs' => ?_⟩
      · have hr := h _ rfl
        rwa [Function.update_self] at hr
      · cases hs'
        rwa [Function.update_self]
    · obtain ⟨r, heq, -⟩ := (sub_assign_spec hx hb).2 (not_lt.mp hlt)
      refine iff_of_true (fun s' hs' => ?_) (Or.inl (not_lt.mp hlt))
      rw [heq] at hs'
      cases hs'
  refine ⟨hkeeps hy (exec_sub_assign hx.digital), ?_⟩
  -- `--` subtracts one, and one is no longer than any number
  rw [hkeeps (o := .dec x) normal_one rfl]
  have hpos := hx.length_pos
  have hnonneg := hx.digital.nonneg
  have hone : one.length = 1 := rfl
  have hvalue : one.toInt = 1 := rfl
  rw [hone, hvalue]
  omega

/-- Twelve and three, in either order. -/
theorem failed_subtraction_keeps_iff_three_twelve :
    let s : Bool → decimal := fun x => if x then ⟨[3]⟩ else ⟨[2, 1]⟩
    ((∀ s', exec (.sub_assign true false) s = some (throws s' underflow) →
        (s' true).digits = (s true).digits) ↔
      (s false).toInt ≤ (s true).toInt ∨ (s true).length < (s false).length) ∧
    ((∀ s', exec (.dec true) s = some (throws s' underflow) →
        (s' true).digits = (s true).digits) ↔
      (s true).toInt ≠ 0) :=
  failed_subtraction_keeps_iff normal_three normal_twelve

/-- `5 -= 7` throws, and leaves eight behind. -/
theorem not_failed_subtraction_keeps :
    ¬ ∀ s : Bool → decimal, (∀ x, (s x).Normal) →
      (∀ s', exec (.sub_assign true false) s = some (throws s' underflow) →
        (s' true).digits = (s true).digits) ∧
      ∀ s', exec (.dec true) s = some (throws s' underflow) →
        (s' true).digits = (s true).digits := by
  intro h
  let s : Bool → decimal := fun x => if x then ⟨[5]⟩ else ⟨[7]⟩
  have hnormal : ∀ x, (s x).Normal := by
    intro x
    cases x <;> exact canonical_singleton (by norm_num)
  have hkeeps := (h s hnormal).1 (Function.update s true ⟨[8]⟩) rfl
  rw [Function.update_self] at hkeeps
  exact absurd hkeeps (by decide)

/-- **Multiplication is exact**, also of an object with itself, and every `int` that is
assigned to a `char` on the way fits into it. -/
theorem multiplication_exact (z : V) (hx : (s x).Normal) (hy : (s y).Normal) :
    (∃ s', exec (.mul z x y) s = some (returns s') ∧
      (s' z).toInt = (s x).toInt * (s y).toInt) ∧
    (∃ s', exec (.mul_assign x y) s = some (returns s') ∧
      (s' x).toInt = (s x).toInt * (s y).toInt) ∧
    ∀ d ∈ mul_ints (s x) (s y), FitsChar d := by
  have hvalue := (mul_spec hx hy).2
  refine ⟨⟨_, rfl, ?_⟩, ⟨_, rfl, ?_⟩, fits_mul hx hy⟩
  · rwa [Function.update_self]
  · rwa [Function.update_self]

/-- Twelve squared. -/
theorem multiplication_exact_twelve :
    let s : Bool → decimal := fun _ => ⟨[2, 1]⟩
    (∃ s', exec (.mul false true true) s = some (returns s') ∧
      (s' false).toInt = (s true).toInt * (s true).toInt) ∧
    (∃ s', exec (.mul_assign true true) s = some (returns s') ∧
      (s' true).toInt = (s true).toInt * (s true).toInt) ∧
    ∀ d ∈ mul_ints (s true) (s true), FitsChar d :=
  multiplication_exact false normal_twelve normal_twelve

/-- **The factorial terminates and is exact.** -/
theorem factorial_exact (hx : (s x).Normal) (y : V) :
    ∃ s', exec (.factorial y x) s = some (returns s') ∧
      (s' y).toInt = (s x).toInt.toNat.factorial := by
  obtain ⟨r, hfactorial, -, hvalue⟩ := factorial_spec hx
  refine ⟨Function.update s y r, ?_, ?_⟩
  · rw [exec, hfactorial]
    rfl
  · rwa [Function.update_self]

/-- The factorial of twelve. -/
theorem factorial_exact_twelve :
    let s : Bool → decimal := fun _ => ⟨[2, 1]⟩
    ∃ s', exec (.factorial false true) s = some (returns s') ∧
      (s' false).toInt = (s true).toInt.toNat.factorial :=
  factorial_exact (s := fun _ => ⟨[2, 1]⟩) (x := true) normal_twelve false

end decimal
end Kaiu
