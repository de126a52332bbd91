/-
Decimals and the integers of the machine.

An integer type is given by its width and by whether it is signed. Arithmetic with a
value of such a type is done in `int` if that can hold all its values, and in the type
itself otherwise; what does not fit wraps around. The conversion to an integer tests
before each multiplication whether the next result will fit, by a division that depends
on the digit that comes next: the test fails exactly if it will not, and then the whole
number does not fit either, since it is at least as large as each of its upper parts.
So nothing wraps around, neither in the loop nor in the test.
-/
import Kaiu.DecimalObjects

set_option autoImplicit false

namespace Kaiu

open Exit Positional

/-- An integer type other than `bool`. -/
structure integer_type where
  is_signed : Bool
  width : ℕ
  /-- No integer type is narrower than `char`. -/
  width_ge : 8 ≤ width

namespace integer_type

/-- `numeric_limits<T>::max()`. -/
def max (T : integer_type) : ℤ :=
  if T.is_signed then 2 ^ (T.width - 1) - 1 else 2 ^ T.width - 1

/-- `numeric_limits<T>::min()`. -/
def min (T : integer_type) : ℤ :=
  if T.is_signed then -2 ^ (T.width - 1) else 0

/-- The values of the type. -/
def Holds (T : integer_type) (x : ℤ) : Prop := T.min ≤ x ∧ x ≤ T.max

/-- The conversion of an integer to the type. -/
def convert (T : integer_type) (x : ℤ) : ℤ :=
  (x - T.min) % 2 ^ T.width + T.min

/-- The type in which arithmetic with a `T` and a `char` is done. -/
def arithmetic (int T : integer_type) : integer_type :=
  if int.min ≤ T.min ∧ T.max ≤ int.max then int else T

variable {T : integer_type} {x : ℤ}

theorem max_sub_min (T : integer_type) : T.max - T.min + 1 = 2 ^ T.width := by
  unfold max min
  have hwide := T.width_ge
  split
  · obtain ⟨k, hk⟩ : ∃ k, T.width = k + 1 := ⟨T.width - 1, by omega⟩
    rw [hk, Nat.add_sub_cancel, pow_succ]
    ring
  · ring

theorem min_nonpos (T : integer_type) : T.min ≤ 0 := by
  unfold min
  have hpow : (0 : ℤ) < 2 ^ (T.width - 1) := by positivity
  split <;> omega

/-- Even the narrowest type holds 127. -/
theorem le_max (T : integer_type) : 127 ≤ T.max := by
  unfold max
  have hwide := T.width_ge
  split
  · have hpow : (2 : ℤ) ^ 7 ≤ 2 ^ (T.width - 1) := pow_le_pow_right₀ (by norm_num) (by omega)
    omega
  · have hpow : (2 : ℤ) ^ 8 ≤ 2 ^ T.width := pow_le_pow_right₀ (by norm_num) hwide
    omega

/-- A value of the type is not changed. -/
theorem convert_eq (h : T.Holds x) : T.convert x = x := by
  have hrange := T.max_sub_min
  obtain ⟨hmin, hmax⟩ := h
  unfold convert
  rw [Int.emod_eq_of_lt (by omega) (by omega)]
  omega

theorem holds_of_nonneg (h : 0 ≤ x) (hmax : x ≤ T.max) : T.Holds x :=
  ⟨T.min_nonpos.trans h, hmax⟩

/-- Arithmetic is done in a type that holds the values. -/
theorem Holds.arithmetic (h : T.Holds x) (int : integer_type) : (arithmetic int T).Holds x := by
  unfold integer_type.arithmetic
  split
  · next hle => exact ⟨hle.1.trans h.1, h.2.trans hle.2⟩
  · exact h

end integer_type

namespace decimal

/-- `std::overflow_error`. -/
structure overflow_error where
  what : String
  deriving DecidableEq, Repr

/-- What the conversion to an integer throws. -/
def overflow : overflow_error :=
  ⟨"Overflow in conversion to fixed-width integer"⟩

/-- The loop of `operator T`, from the most significant digit, with arithmetic in `A`. -/
def to_integer_loop (A T : integer_type) : List ℤ → ℤ → Except overflow_error ℤ
  | [], r => .ok r
  | digit :: digits, r =>
      if (A.convert (T.max - digit)).tdiv 10 < r then .error overflow
      else to_integer_loop A T digits (T.convert (A.convert (A.convert (r * 10) + digit)))

/-- `operator T`. -/
def to_integer (int T : integer_type) (a : decimal) : Except overflow_error ℤ :=
  to_integer_loop (int.arithmetic T) T a.digits.reverse 0

/-- The results that the loop computes on the way, each before it has to fit into the
type in which it is computed. -/
def to_integer_loop_ints (A T : integer_type) : List ℤ → ℤ → List ℤ
  | [], _ => []
  | digit :: digits, r =>
      let d := A.convert (T.max - digit)
      let p := A.convert (r * 10)
      [T.max - digit, d.tdiv 10] ++
        if d.tdiv 10 < r then []
        else [r * 10, p + digit] ++
          to_integer_loop_ints A T digits (T.convert (A.convert (p + digit)))

/-- What `operator T` computes. -/
def to_integer_ints (int T : integer_type) (a : decimal) : List ℤ :=
  to_integer_loop_ints (int.arithmetic T) T a.digits.reverse 0

section Conversion

variable {int T : integer_type} {digits : List ℤ} {r d : ℤ}

/-- What is read is at least what has been read. -/
theorem le_foldl (h : Digits 10 digits) (hr : 0 ≤ r) :
    r ≤ digits.foldl (fun r d => r * 10 + d) r := by
  induction digits generalizing r with
  | nil => exact le_refl r
  | cons d digits ih =>
    obtain ⟨hd, hdigits⟩ := h.cons
    have hrest := ih hdigits (show 0 ≤ r * 10 + d by omega)
    rw [List.foldl_cons]
    omega

/-- What the test computes is a value of the type. -/
theorem test_holds (T : integer_type) (hd : 0 ≤ d ∧ d < 10) :
    T.Holds (T.max - d) ∧ (T.max - d).tdiv 10 = (T.max - d) / 10 ∧
      T.Holds ((T.max - d) / 10) := by
  have hmax := T.le_max
  exact ⟨integer_type.holds_of_nonneg (by omega) (by omega),
    Int.tdiv_eq_ediv_of_nonneg (by omega),
    integer_type.holds_of_nonneg (by omega) (by omega)⟩

/-- An iteration of the loop: it throws exactly if the next result does not fit, and
computes the next result otherwise. -/
theorem to_integer_loop_cons (int : integer_type) (digits : List ℤ) (hd : 0 ≤ d ∧ d < 10)
    (hr : 0 ≤ r) :
    to_integer_loop (int.arithmetic T) T (d :: digits) r =
      if T.max < r * 10 + d then .error overflow
      else to_integer_loop (int.arithmetic T) T digits (r * 10 + d) := by
  obtain ⟨hsub, hdiv, -⟩ := test_holds T hd
  rw [to_integer_loop, integer_type.convert_eq (hsub.arithmetic int), hdiv]
  by_cases hfits : T.max < r * 10 + d
  · rw [if_pos (by omega), if_pos hfits]
  · have hmul : T.Holds (r * 10) := integer_type.holds_of_nonneg (by omega) (by omega)
    have hadd : T.Holds (r * 10 + d) := integer_type.holds_of_nonneg (by omega) (by omega)
    rw [if_neg (by omega), if_neg hfits, integer_type.convert_eq (hmul.arithmetic int),
      integer_type.convert_eq (hadd.arithmetic int), integer_type.convert_eq hadd]

/-- **The loop is exact or throws.** -/
theorem to_integer_loop_eq (int : integer_type) (h : Digits 10 digits) (hr : 0 ≤ r)
    (hmax : r ≤ T.max) :
    to_integer_loop (int.arithmetic T) T digits r =
      if T.max < digits.foldl (fun r d => r * 10 + d) r then .error overflow
      else .ok (digits.foldl (fun r d => r * 10 + d) r) := by
  induction digits generalizing r with
  | nil => exact (if_neg (not_lt.mpr hmax)).symm
  | cons d digits ih =>
    obtain ⟨hd, hdigits⟩ := h.cons
    rw [to_integer_loop_cons int digits hd hr, List.foldl_cons]
    by_cases hfits : T.max < r * 10 + d
    · -- what is still to be read makes it larger
      have hrest := le_foldl hdigits (show 0 ≤ r * 10 + d by omega)
      rw [if_pos hfits, if_pos (by omega)]
    · rw [if_neg hfits]
      exact ih hdigits (by omega) (by omega)

/-- **Nothing that the loop computes wraps around.** -/
theorem to_integer_loop_ints_hold (int : integer_type) (h : Digits 10 digits) (hr : 0 ≤ r)
    (hmax : r ≤ T.max) :
    ∀ x ∈ to_integer_loop_ints (int.arithmetic T) T digits r, (int.arithmetic T).Holds x := by
  induction digits generalizing r with
  | nil =>
    intro x hx
    cases hx
  | cons d digits ih =>
    obtain ⟨hd, hdigits⟩ := h.cons
    obtain ⟨hsub, hdiv, hquot⟩ := test_holds T hd
    intro x hx
    rw [to_integer_loop_ints] at hx
    simp only [integer_type.convert_eq (hsub.arithmetic int), hdiv] at hx
    rcases List.mem_append.mp hx with hx | hx
    · rcases List.mem_cons.mp hx with rfl | hx
      · exact hsub.arithmetic int
      · rw [List.mem_singleton.mp hx]
        exact hquot.arithmetic int
    · by_cases hthrows : (T.max - d) / 10 < r
      · rw [if_pos hthrows] at hx
        cases hx
      -- the test has passed: neither the product nor the sum exceeds the maximum
      · have hmul : T.Holds (r * 10) := integer_type.holds_of_nonneg (by omega) (by omega)
        have hadd : T.Holds (r * 10 + d) := integer_type.holds_of_nonneg (by omega) (by omega)
        rw [if_neg hthrows, integer_type.convert_eq (hmul.arithmetic int),
          integer_type.convert_eq (hadd.arithmetic int), integer_type.convert_eq hadd] at hx
        rcases List.mem_append.mp hx with hx | hx
        · rcases List.mem_cons.mp hx with rfl | hx
          · exact hmul.arithmetic int
          · rw [List.mem_singleton.mp hx]
            exact hadd.arithmetic int
        · exact ih hdigits (by omega) (by omega) x hx

end Conversion

theorem to_integer_eq (int T : integer_type) {a : decimal} (ha : a.Digital) :
    to_integer int T a = if T.max < a.toInt then .error overflow else .ok a.toInt := by
  have hdigits : Digits 10 a.digits.reverse := fun d hd => ha d (List.mem_reverse.mp hd)
  have hmax := T.le_max
  unfold to_integer
  rw [to_integer_loop_eq int hdigits (le_refl 0) (by omega), foldl_reverse_eq_value]
  rfl

/-- **The conversion to an integer type is exact or refused**, nothing wraps around on
the way, and every value of the type that is not negative comes back from a decimal. -/
theorem integer_round_trip (int T : integer_type) :
    (∀ d : decimal, d.Normal →
      (d.toInt ≤ T.max → to_integer int T d = .ok d.toInt) ∧
      (T.max < d.toInt → to_integer int T d = .error overflow) ∧
      ∀ x ∈ to_integer_ints int T d, (int.arithmetic T).Holds x) ∧
    ∀ x, T.Holds x → 0 ≤ x → ∃ d, of_integer x = .ok d ∧ d.Normal ∧ d.toInt = x ∧
      to_integer int T d = .ok x := by
  refine ⟨fun d hd => ⟨fun hfits => ?_, fun hlarge => ?_, ?_⟩, fun x hx hnonneg => ?_⟩
  · rw [to_integer_eq int T hd.digital, if_neg (not_lt.mpr hfits)]
  · rw [to_integer_eq int T hd.digital, if_pos hlarge]
  · have hmax := T.le_max
    exact to_integer_loop_ints_hold int
      (fun c hc => hd.digits c (List.mem_reverse.mp hc)) (le_refl 0) (by omega)
  · obtain ⟨d, hd, hnormal, hvalue⟩ := of_integer_spec hnonneg
    refine ⟨d, hd, hnormal, hvalue, ?_⟩
    rw [to_integer_eq int T hnormal.digital, hvalue, if_neg (not_lt.mpr hx.2)]

/-- A `signed char` holds 127 and not 128. -/
example :
    let int : integer_type := ⟨true, 32, by decide⟩
    let T : integer_type := ⟨true, 8, by decide⟩
    to_integer int T ⟨[7, 2, 1]⟩ = .ok 127 ∧ to_integer int T ⟨[8, 2, 1]⟩ = .error overflow := by
  decide

end decimal
end Kaiu
