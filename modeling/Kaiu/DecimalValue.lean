/-
The arithmetic of `decimal` is the arithmetic of the values.

The invariant of each loop says what the vector and the carry are worth together:
one iteration of `+=` at position `i` adds `b[i]` times the place, whether it ends up
in the digit or in the carry, and likewise in `-=`, with a borrow, and in the row of
a product. All entries stay digits, so that nothing that is assigned to a `char` is
narrowed. That the results are normalised follows from their values: a vector of
digits is, if its value needs its length (`canonical_of_pow_le`). This includes what
a `-=` that throws leaves behind, since the borrow is worth as much as the place
after the last one.
-/
import Kaiu.Decimal
import Mathlib.Data.Nat.Factorial.Basic

set_option autoImplicit false

namespace Kaiu

open Exit Positional

/-! ## Vectors -/

theorem narrow_eq {x : ℤ} (hlow : -128 ≤ x) (hhigh : x < 128) : narrow x = x := by
  unfold narrow
  omega

section Vectors

variable {l : List ℤ} {n : ℕ}

theorem length_resize (n : ℕ) (l : List ℤ) : (resize n l).length = n := by
  unfold resize
  rw [List.length_append, List.length_take, List.length_replicate]
  omega

theorem resize_ne_nil (hn : 0 < n) (l : List ℤ) : resize n l ≠ [] := by
  intro h
  have hlen := length_resize n l
  rw [h, List.length_nil] at hlen
  omega

theorem digits_resize (h : Digits 10 l) (n : ℕ) : Digits 10 (resize n l) :=
  (h.take n).append (Digits.zeros (by norm_num) _)

theorem value_resize (n : ℕ) (l : List ℤ) : value 10 (resize n l) = value 10 (l.take n) := by
  unfold resize
  rw [value_append, value_replicate_zero, mul_zero, add_zero]

/-- What is cut off is zero. -/
theorem value_resize_of_le (h : l.length ≤ n) : value 10 (resize n l) = value 10 l := by
  rw [value_resize, List.take_of_length_le h]

theorem getD_resize_of_le {i : ℕ} (hi : l.length ≤ i) (n : ℕ) : (resize n l).getD i 0 = 0 := by
  unfold resize
  by_cases h : i < (l.take n ++ List.replicate (n - l.length) 0).length
  · have hlen : (l.take n).length ≤ i := by
      rw [List.length_take]
      omega
    rw [List.getD_append_right _ _ _ _ hlen, List.getD_eq_getElem?_getD]
    exact List.getElem?_getD_replicate_default_eq _ _ _
  · exact List.getD_eq_default _ _ (Nat.le_of_not_lt h)

theorem getD_resize_of_lt {i : ℕ} (hi : i < l.length) (hn : i < n) :
    (resize n l).getD i 0 = l.getD i 0 := by
  unfold resize
  have hlen : i < (l.take n).length := by
    rw [List.length_take]
    omega
  rw [List.getD_append _ _ _ _ hlen, List.getD_eq_getElem _ _ hlen, List.getElem_take,
    List.getD_eq_getElem _ _ hi]

/-- A buffer of zeros. -/
theorem resize_zero (hn : 0 < n) : resize n [0] = List.replicate n 0 := by
  obtain ⟨k, rfl⟩ := Nat.exists_eq_succ_of_ne_zero (Nat.ne_of_gt hn)
  simp [resize, List.replicate_succ]

/-- The buffer that is used again holds zeros. -/
theorem resize_filled (n : ℕ) (l : List ℤ) :
    resize n (l.map fun _ => 0) = List.replicate n 0 := by
  unfold resize
  rw [List.map_const', List.take_replicate, List.replicate_append_replicate, List.length_replicate]
  congr 1
  omega

end Vectors

namespace decimal

variable {a b : decimal}

/-- The number that a `decimal` stands for. -/
def toInt (a : decimal) : ℤ :=
  value 10 a.digits

/-- The entries are digits. -/
def Digital (a : decimal) : Prop :=
  Digits 10 a.digits

/-- The digits are normalised. -/
abbrev Normal (a : decimal) : Prop :=
  Canonical 10 a.digits

theorem Digital.nonneg (h : a.Digital) : 0 ≤ a.toInt :=
  value_nonneg (by norm_num) h

theorem Digital.lt (h : a.Digital) : a.toInt < 10 ^ a.length :=
  value_lt (by norm_num) h

theorem Digital.at_index (h : a.Digital) (i : ℕ) : 0 ≤ a.at_index i ∧ a.at_index i < 10 :=
  h.getD (by norm_num) i

theorem Normal.digital (h : a.Normal) : a.Digital := h.digits

theorem Normal.length_pos (h : a.Normal) : 0 < a.length :=
  List.length_pos_iff.mpr h.nonempty

theorem Normal.pow_le (h : a.Normal) (hlen : a.length ≠ 1) : 10 ^ (a.length - 1) ≤ a.toInt :=
  Canonical.pow_le (by norm_num) h hlen

theorem normal_zero : zero.Normal := canonical_singleton (by norm_num)

theorem normal_one : one.Normal := canonical_singleton (by norm_num)

/-- One digit is the number it stands for. -/
theorem toInt_of_length (h : a.length = 1) : a.toInt = a.at_index 0 := by
  obtain ⟨d, hd⟩ := List.length_eq_one_iff.mp h
  simp [toInt, at_index, hd]

theorem isZero_iff_of_length (h : a.length = 1) : a.isZero = true ↔ a.toInt = 0 := by
  rw [toInt_of_length h]
  simp [isZero, h]

/-- What is zero has one digit, if it is normalised. -/
theorem Normal.isZero_iff (h : a.Normal) : a.isZero = true ↔ a.toInt = 0 := by
  by_cases hlen : a.length = 1
  · exact isZero_iff_of_length hlen
  · have hpow := h.pow_le hlen
    have hpos : (0 : ℤ) < 10 ^ (a.length - 1) := by positivity
    have hne : a.isZero = false := by simp [isZero, hlen]
    rw [hne]
    constructor
    · intro hfalse
      cases hfalse
    · intro hzero
      omega

theorem Normal.isUnity_iff (h : a.Normal) : a.isUnity = true ↔ a.toInt = 1 := by
  by_cases hlen : a.length = 1
  · rw [toInt_of_length hlen]
    simp [isUnity, hlen]
  · have hpow := h.pow_le hlen
    have hlen' := h.length_pos
    have hten : (10 : ℤ) ^ 1 ≤ 10 ^ (a.length - 1) := pow_le_pow_right₀ (by norm_num) (by omega)
    have hne : a.isUnity = false := by simp [isUnity, hlen]
    rw [hne]
    constructor
    · intro hfalse
      cases hfalse
    · intro hone
      omega

/-! ## Constructors -/

theorem push_digits_spec (val : ℕ) :
    Digits 10 (push_digits val) ∧ value 10 (push_digits val) = val ∧
      (val ≠ 0 → ∀ d, (push_digits val).getLast? = some d → d ≠ 0) := by
  -- the induction follows the loop
  induction val using push_digits.induct with
  | case1 =>
    refine ⟨?_, ?_, fun h => absurd rfl h⟩
    · intro d hd
      simp [push_digits] at hd
    · simp [push_digits]
  | case2 val h ih =>
    obtain ⟨hdigits, hvalue, htop⟩ := ih
    have hnarrow : narrow (val % 10) = val % 10 := narrow_eq (by omega) (by omega)
    rw [push_digits, if_neg h, hnarrow]
    refine ⟨?_, ?_, fun _ d hd => ?_⟩
    · intro d hd
      rcases List.mem_cons.mp hd with rfl | hd
      · omega
      · exact hdigits d hd
    · rw [value_cons, hvalue]
      omega
    · by_cases hrest : val / 10 = 0
      · rw [hrest, push_digits, if_pos rfl] at hd
        simp only [List.getLast?_singleton, Option.some.injEq] at hd
        omega
      · rw [List.getLast?_cons] at hd
        cases hlast : (push_digits (val / 10)).getLast? with
        | none =>
          have hnil := List.getLast?_eq_none_iff.mp hlast
          rw [push_digits, if_neg hrest] at hnil
          cases hnil
        | some d' =>
          rw [hlast, Option.getD_some] at hd
          exact htop hrest d (by rw [hlast, ← Option.some.inj hd])

/-- **What is constructed from an integer is normalised and has its value.** -/
theorem of_integer_spec {val : ℤ} (h : 0 ≤ val) :
    ∃ a, of_integer val = .ok a ∧ a.Normal ∧ a.toInt = val := by
  unfold of_integer
  rw [if_neg (by omega)]
  by_cases hval : val = 0
  · rw [if_neg (not_not.mpr hval)]
    exact ⟨_, rfl, normal_zero, by rw [hval]; rfl⟩
  · rw [if_pos hval]
    obtain ⟨hdigits, hvalue, htop⟩ := push_digits_spec val.toNat
    have hne : val.toNat ≠ 0 := by omega
    refine ⟨_, rfl, ⟨hdigits, ?_, fun _ h => htop hne 0 h rfl⟩, ?_⟩
    · intro hnil
      have hnil : push_digits val.toNat = [] := hnil
      rw [hnil, value_nil] at hvalue
      omega
    · show value 10 (push_digits val.toNat) = val
      rw [hvalue]
      omega

/-- The loop goes down to the first digit that is not zero. -/
theorem remove_lz_loop_spec {l : List ℤ} (h : Digits 10 l) {i : ℕ} (hi : i ≤ l.length)
    (hbottom : i = 0 → l.getD 0 0 = 0) :
    Canonical 10 (remove_lz_loop l i) ∧ value 10 (remove_lz_loop l i) = value 10 (l.take i) := by
  -- induction on the number of digits that have not been looked at
  induction i with
  | zero =>
    have hvalue : value 10 (resize 1 l) = 0 := by
      rw [value_resize, value_take_succ, hbottom rfl]
      simp
    have hone : (resize 1 l).length = 1 := length_resize 1 l
    rw [remove_lz_loop, hvalue]
    refine ⟨⟨digits_resize h 1, resize_ne_nil Nat.one_pos l, fun hne => absurd hone hne⟩, ?_⟩
    simp
  | succ i ih =>
    rw [remove_lz_loop]
    by_cases hd : l.getD i 0 = 0
    · rw [if_neg (not_not.mpr hd), value_take_succ, hd, zero_mul, add_zero]
      exact ih (by omega) fun hzero => hzero ▸ hd
    · rw [if_pos hd, value_resize]
      refine ⟨canonical_of_pow_le (by norm_num) (digits_resize h _)
        (resize_ne_nil (Nat.succ_pos i) l) fun _ => ?_, rfl⟩
      have hlow := value_nonneg (by norm_num) (h.take i)
      have hdigit := h.getD (by norm_num) i
      have hplace : 1 * (10 : ℤ) ^ i ≤ l.getD i 0 * 10 ^ i :=
        mul_le_mul_of_nonneg_right (by omega) (by positivity)
      rw [length_resize, Nat.add_sub_cancel, value_resize, value_take_succ]
      omega

/-- **`remove_lz` normalises.** -/
theorem remove_lz_spec (h : a.Digital) : a.remove_lz.Normal ∧ a.remove_lz.toInt = a.toInt := by
  have hbottom : a.length = 0 → a.digits.getD 0 0 = 0 := by
    intro hlen
    rw [List.eq_nil_of_length_eq_zero hlen]
    rfl
  obtain ⟨hnormal, hvalue⟩ := remove_lz_loop_spec h (le_refl a.length) hbottom
  have htake : a.digits.take a.length = a.digits := List.take_of_length_le (le_refl _)
  rw [htake] at hvalue
  exact ⟨hnormal, hvalue⟩

theorem push_chars_digits {val : List Char} {digits digits' : List ℤ} (h : Digits 10 digits)
    (hval : push_chars val digits = .ok digits') : Digits 10 digits' := by
  induction val generalizing digits with
  | nil =>
    rw [push_chars] at hval
    cases hval
    exact h
  | cons c val ih =>
    rw [push_chars] at hval
    by_cases hcomma : c = ','
    · rw [if_pos hcomma] at hval
      exact ih h hval
    · rw [if_neg hcomma] at hval
      by_cases hc : '0' ≤ c ∧ c ≤ '9'
      · rw [if_pos hc] at hval
        refine ih (h.append fun d hd => ?_) hval
        have hlow : '0'.toNat ≤ c.toNat := hc.1
        have hhigh : c.toNat ≤ '9'.toNat := hc.2
        have hzero : '0'.toNat = 48 := rfl
        have hnine : '9'.toNat = 57 := rfl
        rw [List.mem_singleton.mp hd, narrow_eq (by omega) (by omega)]
        omega
      · rw [if_neg hc] at hval
        cases hval

/-- What is constructed from a string is normalised. -/
theorem of_string_normal {val : List Char} (h : of_string val = .ok a) : a.Normal := by
  unfold of_string at h
  cases hdigits : push_chars val.reverse [] with
  | error error =>
    rw [hdigits] at h
    cases h
  | ok digits =>
    rw [hdigits] at h
    cases h
    have hempty : Digits 10 [] := fun d hd => absurd hd List.not_mem_nil
    exact (remove_lz_spec (push_chars_digits hempty hdigits)).1

/-! ## Addition -/

/-- What the loop of `+=` keeps: `start` is the vector before the loop. -/
structure Added (start b : List ℤ) (i : ℕ) (s : List ℤ × Bool) : Prop where
  length : s.1.length = start.length
  digits : Digits 10 s.1
  worth : value 10 s.1 + (if s.2 then 1 else 0) * 10 ^ i = value 10 start + value 10 (b.take i)
  rest : ∀ j, i ≤ j → s.1.getD j 0 = start.getD j 0

/-- What an iteration of `+=` writes and carries. -/
theorem add_step_eq {l b : List ℤ} (carry : Bool) (i : ℕ) (hl : Digits 10 l)
    (hb : Digits 10 b) :
    ∃ d carry', add_step b (l, carry) i = (l.set i d, carry') ∧ (0 ≤ d ∧ d < 10) ∧
      d + 10 * (if carry' then 1 else 0) = l.getD i 0 + b.getD i 0 + if carry then 1 else 0 := by
  have hx := hl.getD (by norm_num) i
  have hy := hb.getD (by norm_num) i
  have hc : (0 : ℤ) ≤ (if carry then 1 else 0) ∧ (if carry then 1 else 0) ≤ (1 : ℤ) := by
    split <;> omega
  unfold add_step
  generalize hsum : l.getD i 0 + b.getD i 0 + (if carry then 1 else 0) = d
  have hd : narrow d = d := narrow_eq (by omega) (by omega)
  rw [hd]
  by_cases hcarry : 10 ≤ d
  · have hd' : narrow (d - 10) = d - 10 := narrow_eq (by omega) (by omega)
    refine ⟨d - 10, true, ?_, by omega, ?_⟩
    · simp [hcarry, hd']
    · simp
  · refine ⟨d, false, ?_, by omega, ?_⟩
    · simp [hcarry]
    · simp

theorem Added.step {start b : List ℤ} {i : ℕ} {s : List ℤ × Bool} (hb : Digits 10 b)
    (hi : i < start.length) (h : Added start b i s) : Added start b (i + 1) (add_step b s i) := by
  obtain ⟨l, carry⟩ := s
  obtain ⟨hlen, hdigits, hworth, hrest⟩ := h
  obtain ⟨d, carry', heq, hd, hsum⟩ := add_step_eq carry i hdigits hb
  rw [heq]
  refine ⟨?_, hdigits.set hd i, ?_, fun j hj => ?_⟩
  · rw [List.length_set]
    exact hlen
  · have hset : i < l.length := by
      rw [hlen]
      exact hi
    have hvalue := value_set_carry hset hsum
    rw [value_take_succ]
    show value 10 (l.set i d) + (if carry' then 1 else 0) * 10 ^ (i + 1) = _
    linarith
  · show (l.set i d).getD j 0 = _
    rw [getD_set_ne (by omega)]
    exact hrest j (by omega)

/-- The loop of `+=`. -/
theorem add_loop_spec {l b : List ℤ} {w : ℕ} (hl : Digits 10 l) (hb : Digits 10 b)
    (hw : w ≤ l.length) : Added l b w ((List.range w).foldl (add_step b) (l, false)) := by
  refine foldl_range w ⟨rfl, hl, ?_, fun j _ => rfl⟩ fun i hi s hs => hs.step hb (by omega)
  simp

/-- While `b` is the vector that is rewritten, the digits that are still to be read
are the original ones. -/
theorem add_loop_self {l : List ℤ} {w : ℕ} (hl : Digits 10 l) (b : List ℤ) (hb : Digits 10 b)
    (hw : w ≤ l.length) (hsame : ∀ i < w, l.getD i 0 = b.getD i 0) :
    (List.range w).foldl (fun s i => add_step s.1 s i) (l, false)
      = (List.range w).foldl (add_step b) (l, false) := by
  refine foldl_range_congr (I := Added l b) w ⟨rfl, hl, by simp, fun j _ => rfl⟩
    (fun i hi s hs => hs.step hb (by omega)) fun i hi s hs => ?_
  have hread : s.1.getD i 0 = b.getD i 0 := by
    rw [hs.rest i (le_refl i), hsame i hi]
  unfold add_step
  rw [hread]

/-- How `+=` ends: the carry becomes a digit, or the place for it is given up. -/
theorem Added.ends {l b : List ℤ} {w : ℕ} {s : List ℤ × Bool} (hla : l.length ≤ w)
    (hlb : b.length ≤ w) (h : Added (resize (w + 1) l) b w s) :
    let r : decimal := if s.2 then ⟨s.1.set w 1⟩ else ⟨resize w s.1⟩
    r.Digital ∧ r.toInt = value 10 l + value 10 b ∧
      r.length = w + if 10 ^ w ≤ value 10 l + value 10 b then 1 else 0 := by
  obtain ⟨v, carry⟩ := s
  obtain ⟨hlen, hdigits, hworth, hrest⟩ := h
  simp only at hlen hdigits hworth hrest
  rw [length_resize] at hlen
  rw [value_resize_of_le (by omega), List.take_of_length_le hlb] at hworth
  -- the last digit has not been written
  have hlast : v.getD w 0 = 0 := (hrest w (le_refl w)).trans (getD_resize_of_le hla _)
  have hcut : value 10 v = value 10 (v.take w) := by
    have h : value 10 (v.take (w + 1)) = _ := value_take_succ v w
    rw [List.take_of_length_le (by omega), hlast, zero_mul, add_zero] at h
    exact h
  have hlenw : (v.take w).length = w := by
    rw [List.length_take]
    omega
  have hlow := value_nonneg (by norm_num) (hdigits.take w)
  have hhigh := value_lt (by norm_num) (hdigits.take w)
  rw [hlenw] at hhigh
  rw [hcut] at hworth
  cases carry with
  | true =>
    simp only [if_true, one_mul] at hworth ⊢
    rw [if_pos (by omega)]
    refine ⟨hdigits.set (by norm_num) w, ?_, ?_⟩
    · show value 10 (v.set w 1) = _
      rw [value_set (by omega), hlast, hcut]
      linarith
    · show (v.set w 1).length = w + 1
      rw [List.length_set, hlen]
  | false =>
    simp only [Bool.false_eq_true, if_false, zero_mul, add_zero] at hworth ⊢
    rw [if_neg (by omega)]
    refine ⟨digits_resize hdigits w, ?_, length_resize w v⟩
    show value 10 (resize w v) = _
    rw [value_resize, hworth]

theorem isZero_length (h : a.isZero = true) : a.length = 1 := by
  simp [isZero] at h
  exact h.1

/-- **Addition is exact.** There may be leading zeros on both sides. The sum is as
long as the longer number, unless it needs one digit more. -/
theorem add_assign_spec (ha : a.Digital) (hb : b.Digital) (ha' : 0 < a.length)
    (hb' : 0 < b.length) :
    (a.add_assign b).Digital ∧ (a.add_assign b).toInt = a.toInt + b.toInt ∧
      (a.add_assign b).length = max a.length b.length
        + if 10 ^ max a.length b.length ≤ a.toInt + b.toInt then 1 else 0 := by
  have hlta := ha.lt
  have hltb := hb.lt
  unfold add_assign
  by_cases hza : a.isZero
  · have hlen := isZero_length hza
    have hzero := (isZero_iff_of_length hlen).mp hza
    have hmax : max a.length b.length = b.length := by omega
    rw [if_pos hza, hmax, hzero, zero_add, if_neg (not_le.mpr hltb)]
    exact ⟨hb, rfl, rfl⟩
  · rw [if_neg hza]
    by_cases hzb : b.isZero
    · have hlen := isZero_length hzb
      have hzero := (isZero_iff_of_length hlen).mp hzb
      have hmax : max a.length b.length = a.length := by omega
      rw [if_pos hzb, hmax, hzero, add_zero, if_neg (not_le.mpr hlta)]
      exact ⟨ha, rfl, rfl⟩
    · rw [if_neg hzb]
      have hloop := add_loop_spec (digits_resize ha (max a.length b.length + 1)) hb
        (w := max a.length b.length) (by rw [length_resize]; omega)
      exact hloop.ends (Nat.le_max_left ..) (Nat.le_max_right ..)

/-- **Adding an object to itself** is adding a copy of it. -/
theorem add_assign_self_eq (ha : a.Digital) : a.add_assign_self = a.add_assign a := by
  unfold add_assign_self add_assign
  by_cases hz : a.isZero
  · rw [if_pos hz, if_pos hz]
  · rw [if_neg hz, if_neg hz, if_neg hz, max_self]
    have hloop := add_loop_self (digits_resize ha (a.length + 1)) a.digits ha (w := a.length)
      (by rw [length_resize]; omega) fun i hi => getD_resize_of_lt hi (by omega)
    simp only [hloop]

/-- What is added to a buffer that is long enough leaves its length. -/
theorem add_assign_within (ha : a.Digital) (hb : b.Digital) (hlen : 1 < a.length)
    (hb' : 0 < b.length) (hle : b.length ≤ a.length) (hfits : a.toInt + b.toInt < 10 ^ a.length) :
    (a.add_assign b).Digital ∧ (a.add_assign b).toInt = a.toInt + b.toInt ∧
      (a.add_assign b).length = a.length := by
  obtain ⟨hdigits, hvalue, hlength⟩ := add_assign_spec ha hb (by omega) hb'
  rw [max_eq_left hle, if_neg (not_le.mpr hfits)] at hlength
  exact ⟨hdigits, hvalue, hlength⟩

/-- The sum of two normalised numbers is normalised. -/
theorem add_assign_normal (ha : a.Normal) (hb : b.Normal) : (a.add_assign b).Normal := by
  have hpa := ha.length_pos
  have hpb := hb.length_pos
  have hna := ha.digital.nonneg
  have hnb := hb.digital.nonneg
  obtain ⟨hdigits, hvalue, hlength⟩ := add_assign_spec ha.digital hb.digital hpa hpb
  refine canonical_of_pow_le (by norm_num) hdigits ?_ fun hne => ?_
  · intro hnil
    have hzero : (a.add_assign b).length = 0 := by
      rw [length, hnil, List.length_nil]
    omega
  · show (10 : ℤ) ^ ((a.add_assign b).length - 1) ≤ (a.add_assign b).toInt
    have hne : (a.add_assign b).length ≠ 1 := hne
    rw [hvalue]
    by_cases hsum : (10 : ℤ) ^ max a.length b.length ≤ a.toInt + b.toInt
    · rw [if_pos hsum] at hlength
      rw [hlength, Nat.add_sub_cancel]
      exact hsum
    · rw [if_neg hsum, add_zero] at hlength
      rw [hlength] at hne ⊢
      -- the longer one is large enough alone
      rcases Nat.le_total a.length b.length with hle | hle
      · rw [max_eq_right hle] at hne ⊢
        have hpow := hb.pow_le hne
        omega
      · rw [max_eq_left hle] at hne ⊢
        have hpow := ha.pow_le hne
        omega

/-! ## Subtraction -/

/-- What the loop of `-=` keeps: `start` is the vector before the loop. -/
structure Subtracted (start b : List ℤ) (i : ℕ) (s : List ℤ × Bool) : Prop where
  length : s.1.length = start.length
  digits : Digits 10 s.1
  worth : value 10 s.1 - (if s.2 then 1 else 0) * 10 ^ i = value 10 start - value 10 (b.take i)
  rest : ∀ j, i ≤ j → s.1.getD j 0 = start.getD j 0

/-- What an iteration of `-=` writes and borrows. -/
theorem sub_step_eq {l b : List ℤ} (borrow : Bool) (i : ℕ) (hl : Digits 10 l)
    (hb : Digits 10 b) :
    ∃ d borrow', sub_step b (l, borrow) i = (l.set i d, borrow') ∧ (0 ≤ d ∧ d < 10) ∧
      d - 10 * (if borrow' then 1 else 0) = l.getD i 0 - b.getD i 0 - if borrow then 1 else 0 := by
  have hx := hl.getD (by norm_num) i
  have hy := hb.getD (by norm_num) i
  have hc : (0 : ℤ) ≤ (if borrow then 1 else 0) ∧ (if borrow then 1 else 0) ≤ (1 : ℤ) := by
    split <;> omega
  unfold sub_step
  generalize hsum : l.getD i 0 - b.getD i 0 - (if borrow then 1 else 0) = d
  have hd : narrow d = d := narrow_eq (by omega) (by omega)
  rw [hd]
  by_cases hborrow : d < 0
  · have hd' : narrow (10 + d) = 10 + d := narrow_eq (by omega) (by omega)
    refine ⟨10 + d, true, ?_, by omega, ?_⟩
    · simp [hborrow, hd']
    · simp
  · refine ⟨d, false, ?_, by omega, ?_⟩
    · simp [hborrow]
    · simp

theorem Subtracted.step {start b : List ℤ} {i : ℕ} {s : List ℤ × Bool} (hb : Digits 10 b)
    (hi : i < start.length) (h : Subtracted start b i s) :
    Subtracted start b (i + 1) (sub_step b s i) := by
  obtain ⟨l, borrow⟩ := s
  obtain ⟨hlen, hdigits, hworth, hrest⟩ := h
  obtain ⟨d, borrow', heq, hd, hsum⟩ := sub_step_eq borrow i hdigits hb
  rw [heq]
  refine ⟨?_, hdigits.set hd i, ?_, fun j hj => ?_⟩
  · rw [List.length_set]
    exact hlen
  · have hset : i < l.length := by
      rw [hlen]
      exact hi
    -- a borrow is a negative carry
    have hvalue := value_set_carry (y := -b.getD i 0) (c := -if borrow then 1 else 0)
      (d := d) hset (show d + 10 * (-if borrow' then 1 else 0) = _ by linarith)
    rw [value_take_succ]
    show value 10 (l.set i d) - (if borrow' then 1 else 0) * 10 ^ (i + 1) = _
    simp only at hworth
    linarith
  · show (l.set i d).getD j 0 = _
    rw [getD_set_ne (by omega)]
    exact hrest j (by omega)

/-- The loop of `-=`. -/
theorem sub_loop_spec {l b : List ℤ} (hl : Digits 10 l) (hb : Digits 10 b) :
    Subtracted l b l.length ((List.range l.length).foldl (sub_step b) (l, false)) := by
  refine foldl_range _ ⟨rfl, hl, ?_, fun j _ => rfl⟩ fun i hi s hs => hs.step hb hi
  simp

theorem sub_loop_self {l : List ℤ} (hl : Digits 10 l) :
    (List.range l.length).foldl (fun s i => sub_step s.1 s i) (l, false)
      = (List.range l.length).foldl (sub_step l) (l, false) := by
  refine foldl_range_congr (I := Subtracted l l) _ ⟨rfl, hl, by simp, fun j _ => rfl⟩
    (fun i hi s hs => hs.step hl hi) fun i hi s hs => ?_
  have hread : s.1.getD i 0 = l.getD i 0 := hs.rest i (le_refl i)
  unfold sub_step
  rw [hread]

/-- What `-=` makes of the digits and of the last borrow, if it comes to its loop. -/
theorem sub_assign_loop (ha : a.Digital) (hb : b.Digital) (hz : ¬ b.isZero)
    (hlen : b.length ≤ a.length) :
    ∃ (l : List ℤ) (borrow : Bool), a.sub_assign b
        = (if borrow then throws ⟨l⟩ underflow else returns (remove_lz ⟨l⟩)) ∧
      Digits 10 l ∧ l.length = a.length ∧
      value 10 l - (if borrow then 1 else 0) * 10 ^ a.length = a.toInt - b.toInt := by
  obtain ⟨hlens, hdigits, hworth, -⟩ := sub_loop_spec ha hb
  have htake : b.digits.take a.digits.length = b.digits := List.take_of_length_le hlen
  rw [htake] at hworth
  unfold sub_assign
  rw [if_neg hz, if_neg (not_lt.mpr hlen)]
  exact ⟨_, _, rfl, hdigits, hlens, hworth⟩

/-- **Subtraction is exact, and underflow is detected exactly.** What is left behind
by the exception is normalised as well. -/
theorem sub_assign_spec (ha : a.Normal) (hb : b.Normal) :
    (a.toInt < b.toInt → ∃ r, a.sub_assign b = throws r underflow ∧ r.Normal) ∧
      (b.toInt ≤ a.toInt →
        ∃ r, a.sub_assign b = returns r ∧ r.Normal ∧ r.toInt = a.toInt - b.toInt) := by
  have hna := ha.digital.nonneg
  by_cases hz : b.isZero
  · have hreturns : a.sub_assign b = returns a := if_pos hz
    have hzero := hb.isZero_iff.mp hz
    exact ⟨fun h => by omega, fun _ => ⟨a, hreturns, ha, by omega⟩⟩
  · by_cases hlen : b.length > a.length
    · have hthrows : a.sub_assign b = throws a underflow := by
        unfold sub_assign
        rw [if_neg hz, if_pos hlen]
      have hlt : a.toInt < b.toInt :=
        Canonical.value_lt_of_length_lt (by norm_num) ha hb hlen
      exact ⟨fun _ => ⟨a, hthrows, ha⟩, fun h => absurd hlt (not_lt.mpr h)⟩
    · obtain ⟨l, borrow, heq, hdigits, hlens, hworth⟩ :=
        sub_assign_loop ha.digital hb.digital hz (Nat.le_of_not_lt hlen)
      have hlow := value_nonneg (by norm_num) hdigits
      have hhigh := value_lt (by norm_num) hdigits
      rw [hlens] at hhigh
      rw [heq]
      cases borrow with
      | true =>
        simp only [if_true, one_mul] at hworth ⊢
        refine ⟨fun _ => ⟨⟨l⟩, rfl, ?_⟩, fun h => by omega⟩
        refine canonical_of_pow_le (by norm_num) hdigits ?_ fun hne => ?_
        · intro hnil
          have hnil : l = [] := hnil
          have hpos := ha.length_pos
          rw [hnil, List.length_nil] at hlens
          omega
        · have hne : l.length ≠ 1 := hne
          have hpow := ha.pow_le (hlens ▸ hne)
          have hltb := hb.digital.lt
          -- the borrow is worth more than all of `b`
          have hmono : (10 : ℤ) ^ b.length ≤ 10 ^ a.length :=
            pow_le_pow_right₀ (by norm_num) (Nat.le_of_not_lt hlen)
          show (10 : ℤ) ^ (l.length - 1) ≤ value 10 l
          rw [hlens]
          omega
      | false =>
        simp only [Bool.false_eq_true, if_false, zero_mul, sub_zero] at hworth ⊢
        obtain ⟨hnormal, hvalue⟩ := remove_lz_spec (a := ⟨l⟩) hdigits
        have hl : toInt ⟨l⟩ = value 10 l := rfl
        exact ⟨fun h => by omega, fun _ => ⟨_, rfl, hnormal, by rw [hvalue, hl, hworth]⟩⟩

/-- **What a subtraction that throws leaves behind.** The last borrow is worth more than
the subtrahend, so the digits have been changed if there was one. -/
theorem sub_assign_throws (ha : a.Normal) (hb : b.Normal) (hlt : a.toInt < b.toInt) :
    ∃ r, a.sub_assign b = throws r underflow ∧ (r.digits = a.digits ↔ a.length < b.length) := by
  have hna := ha.digital.nonneg
  have hz : ¬ b.isZero := by
    intro hz
    have hzero := hb.isZero_iff.mp hz
    omega
  by_cases hlen : b.length > a.length
  · refine ⟨a, ?_, fun _ => hlen, fun _ => rfl⟩
    unfold sub_assign
    rw [if_neg hz, if_pos hlen]
  · obtain ⟨l, borrow, heq, hdigits, -, hworth⟩ :=
      sub_assign_loop ha.digital hb.digital hz (Nat.le_of_not_lt hlen)
    have hlow := value_nonneg (by norm_num) hdigits
    cases borrow with
    | false =>
      simp only [Bool.false_eq_true, if_false, zero_mul, sub_zero] at hworth
      omega
    | true =>
      simp only [if_true, one_mul] at hworth
      refine ⟨⟨l⟩, heq, fun hsame => ?_, fun h => absurd h hlen⟩
      have hltb := hb.digital.lt
      have hmono : (10 : ℤ) ^ b.length ≤ 10 ^ a.length :=
        pow_le_pow_right₀ (by norm_num) (Nat.le_of_not_lt hlen)
      have hsame : value 10 l = a.toInt := congrArg (value 10) hsame
      omega

/-- Five minus seven is underflow, after the digit has been rewritten. -/
example : sub_assign ⟨[5]⟩ ⟨[7]⟩ = throws ⟨[8]⟩ underflow := by decide

/-- **Subtracting an object from itself** is subtracting a copy of it. -/
theorem sub_assign_self_eq (ha : a.Digital) : a.sub_assign_self = a.sub_assign a := by
  have hloop : (List.range a.length).foldl (fun s i => sub_step s.1 s i) (a.digits, false)
      = (List.range a.length).foldl (sub_step a.digits) (a.digits, false) := sub_loop_self ha
  unfold sub_assign_self sub_assign
  simp only [hloop, gt_iff_lt, lt_self_iff_false, if_false]

/-- Whether `-=` throws or not, a normalised object stays one. -/
theorem sub_assign_normal (ha : a.Normal) (hb : b.Normal) : (a.sub_assign b).1.Normal := by
  obtain ⟨hless, hgreater⟩ := sub_assign_spec ha hb
  by_cases h : a.toInt < b.toInt
  · obtain ⟨r, heq, hr⟩ := hless h
    rw [heq]
    exact hr
  · obtain ⟨r, heq, hr, -⟩ := hgreater (not_lt.mp h)
    rw [heq]
    exact hr

/-! ## Multiplication -/

/-- What the loop of a row keeps. Nothing has been written to the right of the
carry. -/
structure Rowed (b : List ℤ) (ad : ℤ) (i n j : ℕ) (s : List ℤ × ℤ) : Prop where
  length : s.1.length = n
  digits : Digits 10 s.1
  carry : 0 ≤ s.2 ∧ s.2 ≤ 8
  worth : value 10 s.1 + s.2 * 10 ^ (j + i) = ad * value 10 (b.take j) * 10 ^ i
  rest : ∀ k, j + i ≤ k → s.1.getD k 0 = 0

/-- What an iteration of a row writes and carries; nothing is narrowed. -/
theorem mul_step_eq {b l : List ℤ} {ad carry : ℤ} (i j : ℕ) (hb : Digits 10 b)
    (had : 0 ≤ ad ∧ ad < 10) (hcarry : 0 ≤ carry ∧ carry ≤ 8) :
    ∃ d carry', mul_step b ad i (l, carry) j = (l.set (j + i) d, carry') ∧ (0 ≤ d ∧ d < 10) ∧
      (0 ≤ carry' ∧ carry' ≤ 8) ∧ d + 10 * carry' = b.getD j 0 * ad + carry := by
  have hy := hb.getD (by norm_num) j
  have hlow : 0 ≤ b.getD j 0 * ad := mul_nonneg hy.1 had.1
  have hhigh : b.getD j 0 * ad ≤ 9 * 9 :=
    mul_le_mul (by omega) (by omega) had.1 (by norm_num)
  unfold mul_step
  generalize hsum : b.getD j 0 * ad + carry = d
  have hd : narrow d = d := narrow_eq (by omega) (by omega)
  have hdiv : d.tdiv 10 = d / 10 := Int.tdiv_eq_ediv_of_nonneg (by omega)
  have hc : narrow (d / 10) = d / 10 := narrow_eq (by omega) (by omega)
  have hr : narrow (d - d / 10 * 10) = d - d / 10 * 10 := narrow_eq (by omega) (by omega)
  refine ⟨d - d / 10 * 10, d / 10, ?_, by omega, by omega, by omega⟩
  simp only [hd, hdiv, hc, hr]

theorem Rowed.step {b : List ℤ} {ad : ℤ} {i n j : ℕ} {s : List ℤ × ℤ} (hb : Digits 10 b)
    (had : 0 ≤ ad ∧ ad < 10) (hj : j + i < n) (h : Rowed b ad i n j s) :
    Rowed b ad i n (j + 1) (mul_step b ad i s j) := by
  obtain ⟨l, carry⟩ := s
  obtain ⟨hlen, hdigits, hcarry, hworth, hrest⟩ := h
  obtain ⟨d, carry', heq, hd, hcarry', hsum⟩ := mul_step_eq (l := l) i j hb had hcarry
  rw [heq]
  refine ⟨?_, hdigits.set hd _, hcarry', ?_, fun k hk => ?_⟩
  · rw [List.length_set]
    exact hlen
  · have hset : j + i < l.length := by
      rw [hlen]
      exact hj
    have hold : l.getD (j + i) 0 = 0 := hrest _ (le_refl _)
    have hvalue := value_set_carry (y := b.getD j 0 * ad) hset
      (show d + 10 * carry' = l.getD (j + i) 0 + b.getD j 0 * ad + carry by rw [hold]; omega)
    have hplace : j + 1 + i = j + i + 1 := by omega
    show value 10 (l.set (j + i) d) + carry' * 10 ^ (j + 1 + i) = _
    rw [hplace, hvalue, value_take_succ]
    simp only at hworth
    rw [hworth, pow_add]
    ring
  · show (l.set (j + i) d).getD k 0 = 0
    rw [getD_set_ne (by omega)]
    exact hrest k (by omega)

/-- What the loop of a row starts with. -/
theorem rowed_init (b : List ℤ) (ad : ℤ) (i n : ℕ) :
    Rowed b ad i n 0 (List.replicate n 0, 0) := by
  refine ⟨List.length_replicate, Digits.zeros (by norm_num) _, by norm_num, ?_, fun k _ => ?_⟩
  · simp
  · rw [List.getD_eq_getElem?_getD]
    exact List.getElem?_getD_replicate_default_eq _ _ _

/-- **The product of a number and a digit, shifted.** -/
theorem row_spec {ad : ℤ} (i : ℕ) (hb : b.Digital) (had : 0 ≤ ad ∧ ad < 10) :
    (row b ad i (List.replicate (b.length + i + 1) 0)).Digital ∧
      (row b ad i (List.replicate (b.length + i + 1) 0)).toInt = ad * b.toInt * 10 ^ i ∧
      b.length + i ≤ (row b ad i (List.replicate (b.length + i + 1) 0)).length ∧
      (row b ad i (List.replicate (b.length + i + 1) 0)).length ≤ b.length + i + 1 := by
  have hrow : Rowed b.digits ad i (b.length + i + 1) b.length
      ((List.range b.length).foldl (mul_step b.digits ad i)
        (List.replicate (b.length + i + 1) 0, 0)) := by
    apply foldl_range _ (rowed_init b.digits ad i _)
    intro j hj s hs
    exact hs.step hb had (by omega)
  unfold row
  simp only
  generalize (List.range b.length).foldl (mul_step b.digits ad i)
    (List.replicate (b.length + i + 1) 0, 0) = s at hrow ⊢
  obtain ⟨l, carry⟩ := s
  obtain ⟨hlen, hdigits, hcarry, hworth, hrest⟩ := hrow
  simp only at hlen hdigits hcarry hworth hrest ⊢
  have htake : b.digits.take b.length = b.digits := List.take_of_length_le (le_refl _)
  rw [htake] at hworth
  have hlast : l.getD (b.length + i) 0 = 0 := hrest _ (le_refl _)
  by_cases hc : carry = 0
  -- no carry is left, and the last digit, a zero, is cut off
  · rw [if_neg (not_not.mpr hc)]
    refine ⟨digits_resize hdigits _, ?_, ?_, ?_⟩
    · have hcut : value 10 (l.take (b.length + i + 1)) = _ := value_take_succ l (b.length + i)
      rw [List.take_of_length_le (by omega), hlast, zero_mul, add_zero] at hcut
      rw [hc, zero_mul, add_zero, hcut] at hworth
      show value 10 (resize (b.length + i) l) = _
      rw [value_resize, hworth]
      rfl
    · exact (length_resize _ _).ge
    · exact (length_resize _ _).le.trans (Nat.le_succ _)
  -- the carry is the last digit
  · rw [if_pos hc]
    refine ⟨hdigits.set (by omega) _, ?_, ?_, ?_⟩
    · show value 10 (l.set (b.length + i) carry) = _
      rw [value_set (by omega), hlast, sub_zero, hworth]
      rfl
    · show b.length + i ≤ (l.set (b.length + i) carry).length
      rw [List.length_set]
      omega
    · show (l.set (b.length + i) carry).length ≤ b.length + i + 1
      rw [List.length_set]
      omega

/-- Adding a row to a buffer in which the product fits. -/
theorem add_row_spec {c : decimal} {ad : ℤ} {i n : ℕ} (hb : b.Digital) (hb' : 0 < b.length)
    (had : 0 ≤ ad ∧ ad < 10) (hc : c.Digital) (hlen : c.length = n) (hn : b.length + i + 1 ≤ n)
    (hfits : c.toInt + ad * b.toInt * 10 ^ i < 10 ^ n) :
    let r := c.add_assign (row b ad i (List.replicate (b.length + i + 1) 0))
    r.Digital ∧ r.length = n ∧ r.toInt = c.toInt + ad * b.toInt * 10 ^ i := by
  obtain ⟨hdigits, hvalue, hlow, hhigh⟩ := row_spec i hb had
  have hsum := add_assign_within hc hdigits (by omega) (by omega) (by omega)
    (by rw [hvalue, hlen]; exact hfits)
  rw [hvalue, hlen] at hsum
  exact ⟨hsum.1, hsum.2.2, hsum.2.1⟩

/-- A buffer of zeros. -/
theorem buffer_spec {n : ℕ} (hn : 0 < n) :
    Digital ⟨resize n [0]⟩ ∧ length ⟨resize n [0]⟩ = n ∧ toInt ⟨resize n [0]⟩ = 0 := by
  rw [resize_zero hn]
  exact ⟨Digits.zeros (by norm_num) n, List.length_replicate, value_replicate_zero n⟩

/-- The product of the lower digits fits into the buffer. -/
theorem mul_fits (ha : a.Digital) (hb : b.Digital) (i : ℕ) :
    value 10 (a.digits.take i) * b.toInt < 10 ^ (a.length + b.length) := by
  have htake : (a.digits.take i).length ≤ a.length := by
    rw [List.length_take]
    exact Nat.min_le_right ..
  have hlow := value_lt (by norm_num) (ha.take i)
  have hmono : (10 : ℤ) ^ (a.digits.take i).length ≤ 10 ^ a.length :=
    pow_le_pow_right₀ (by norm_num) htake
  rw [pow_add]
  exact mul_lt_mul'' (lt_of_lt_of_le hlow hmono) hb.lt (value_nonneg (by norm_num) (ha.take i))
    hb.nonneg

/-- What the outer loop keeps: `c` is the product of the digits that have been
passed. -/
structure Multiplied (a b : decimal) (i : ℕ) (c : decimal) : Prop where
  digital : c.Digital
  length : c.length = a.length + b.length
  worth : c.toInt = value 10 (a.digits.take i) * b.toInt

theorem Multiplied.step {c : decimal} {i : ℕ} (ha : a.Digital) (hb : b.Digital)
    (hb' : 0 < b.length) (hi : i < a.length) (h : Multiplied a b i c) :
    Multiplied a b (i + 1) (mul_row a b c i) := by
  have hworth : value 10 (a.digits.take (i + 1)) * b.toInt
      = c.toInt + a.at_index i * b.toInt * 10 ^ i := by
    rw [h.worth, value_take_succ, add_mul]
    show _ + a.at_index i * 10 ^ i * b.toInt = _
    ring
  unfold mul_row
  by_cases had : a.at_index i = 0
  · rw [if_pos had]
    refine ⟨h.digital, h.length, ?_⟩
    rw [hworth, had, zero_mul, zero_mul, add_zero]
  · rw [if_neg had, resize_zero (Nat.succ_pos _)]
    have hfits := mul_fits ha hb (i + 1)
    rw [hworth] at hfits
    obtain ⟨hdigits, hlen, hvalue⟩ :=
      add_row_spec hb hb' (ha.at_index i) h.digital h.length (by omega) hfits
    exact ⟨hdigits, hlen, hvalue.trans hworth.symm⟩

/-- The two factors, in some order. -/
theorem shorter_longer (l r : decimal) :
    (shorter l r = l ∧ longer l r = r) ∨ (shorter l r = r ∧ longer l r = l) := by
  unfold shorter longer
  by_cases h : l.length ≤ r.length
  · rw [if_pos h, if_neg (not_lt.mpr h)]
    exact Or.inl ⟨rfl, rfl⟩
  · rw [if_neg h, if_pos (Nat.lt_of_not_le h)]
    exact Or.inr ⟨rfl, rfl⟩

/-- What holds of both factors holds of the shorter and of the longer one, and so
does what is symmetric. -/
theorem factors_normal {l r : decimal} (hl : l.Normal) (hr : r.Normal) :
    (shorter l r).Normal ∧ (longer l r).Normal ∧
      (shorter l r).toInt * (longer l r).toInt = l.toInt * r.toInt := by
  rcases shorter_longer l r with ⟨hs, hg⟩ | ⟨hs, hg⟩ <;> rw [hs, hg]
  · exact ⟨hl, hr, rfl⟩
  · exact ⟨hr, hl, mul_comm ..⟩

/-- **Multiplication is exact**, and its result is normalised. -/
theorem mul_spec {l r : decimal} (hl : l.Normal) (hr : r.Normal) :
    (l.mul r).Normal ∧ (l.mul r).toInt = l.toInt * r.toInt := by
  obtain ⟨ha, hb, hproduct⟩ := factors_normal hl hr
  rw [← hproduct]
  unfold mul
  generalize shorter l r = a at ha ⊢
  generalize longer l r = b at hb ⊢
  simp only
  by_cases hz : a.isZero
  · rw [if_pos hz, ha.isZero_iff.mp hz, zero_mul]
    exact ⟨normal_zero, rfl⟩
  · rw [if_neg hz]
    by_cases hu : a.isUnity
    · rw [if_pos hu, ha.isUnity_iff.mp hu, one_mul]
      exact ⟨hb, rfl⟩
    · rw [if_neg hu]
      have hpos : 0 < a.length + b.length := Nat.add_pos_left ha.length_pos _
      have hloop : Multiplied a b a.length
          ((List.range a.length).foldl (mul_row a b) ⟨resize (a.length + b.length) [0]⟩) := by
        refine foldl_range _ ?_ fun i hi c hc => hc.step ha.digital hb.digital hb.length_pos hi
        obtain ⟨hdigits, hlen, hzero⟩ := buffer_spec hpos
        exact ⟨hdigits, hlen, by rw [hzero]; simp⟩
      obtain ⟨hdigits, -, hvalue⟩ := hloop
      obtain ⟨hnormal, hlz⟩ := remove_lz_spec hdigits
      have htake : a.digits.take a.length = a.digits := List.take_of_length_le (le_refl _)
      rw [htake] at hvalue
      exact ⟨hnormal, hlz.trans hvalue⟩

/-! ## The factorial -/

theorem toInt_one : one.toInt = 1 := rfl

/-- `--` takes one away from what is not zero. -/
theorem dec_spec (ha : a.Normal) (hpos : 1 ≤ a.toInt) :
    ∃ r, a.dec = returns r ∧ r.Normal ∧ r.toInt = a.toInt - 1 :=
  (sub_assign_spec ha normal_one).2 hpos

/-- The loop multiplies by `i`, `i - 1`, ..., `2`, and ends. -/
theorem factorial_loop_spec (n : ℕ) {i r : decimal} (hi : i.Normal) (hr : r.Normal)
    (hvalue : i.toInt = n + 1) :
    ∃ a, factorial_loop (n + 1) i r = some (.ok a) ∧ a.Normal ∧
      a.toInt = r.toInt * (n + 1).factorial := by
  -- induction on the value of `i`
  induction n generalizing i r with
  | zero =>
    have hunit : i.isUnity := hi.isUnity_iff.mpr (by rw [hvalue]; norm_num)
    rw [factorial_loop, if_pos hunit]
    exact ⟨r, rfl, hr, by simp⟩
  | succ n ih =>
    have hunit : ¬ i.isUnity := by
      intro h
      have hone := hi.isUnity_iff.mp h
      omega
    obtain ⟨i', hdec, hi', hvalue'⟩ := dec_spec hi (by omega)
    obtain ⟨hr', hproduct⟩ := mul_spec hr hi
    obtain ⟨a, hloop, ha, hresult⟩ := ih hi' hr' (by rw [hvalue', hvalue]; push_cast; ring)
    rw [factorial_loop, if_neg hunit, hdec]
    refine ⟨a, hloop, ha, ?_⟩
    rw [hresult, hproduct, hvalue, Nat.factorial_succ (n + 1)]
    push_cast
    ring

/-- **`!` terminates**, and its result is the factorial. -/
theorem factorial_spec (ha : a.Normal) :
    ∃ r, a.factorial = some (.ok r) ∧ r.Normal ∧ r.toInt = a.toInt.toNat.factorial := by
  have hnonneg := ha.digital.nonneg
  unfold factorial
  by_cases hsmall : a.isZero ∨ a.isUnity
  · rw [if_pos hsmall]
    refine ⟨one, rfl, normal_one, ?_⟩
    rcases hsmall with h | h
    · rw [ha.isZero_iff.mp h]
      rfl
    · rw [ha.isUnity_iff.mp h]
      rfl
  · rw [if_neg hsmall]
    -- the loop starts at the predecessor of a number that is at least two
    have hne : a.toInt ≠ 0 ∧ a.toInt ≠ 1 :=
      ⟨fun h => hsmall (Or.inl (ha.isZero_iff.mpr h)),
        fun h => hsmall (Or.inr (ha.isUnity_iff.mpr h))⟩
    obtain ⟨i, hsub, hi, hvalue⟩ := (sub_assign_spec ha normal_one).2 (by rw [toInt_one]; omega)
    obtain ⟨n, hn⟩ : ∃ n : ℕ, a.toInt = n + 2 := ⟨(a.toInt - 2).toNat, by omega⟩
    have hcount : i.toInt = n + 1 := by
      rw [hvalue, toInt_one, hn]
      ring
    have hfuel : (value 10 i.digits).toNat = n + 1 := by
      have h : value 10 i.digits = n + 1 := hcount
      omega
    have hsub' : a.sub one = .ok i := by
      unfold sub
      rw [hsub]
      rfl
    obtain ⟨r, hloop, hr, hresult⟩ := factorial_loop_spec n hi ha hcount
    rw [hsub']
    simp only [hfuel]
    refine ⟨r, hloop, hr, ?_⟩
    have hfact : a.toInt.toNat = n + 1 + 1 := by omega
    rw [hresult, hn, ← hn, hfact, Nat.factorial_succ (n + 1), hn]
    push_cast
    ring

/-! ## Comparison -/

/-- **`==` compares the values.** -/
theorem eq_iff (ha : a.Normal) (hb : b.Normal) : a.eq b = true ↔ a.toInt = b.toInt := by
  unfold eq
  rw [decide_eq_true_iff]
  constructor
  · intro h
    unfold toInt
    rw [h]
  · exact Canonical.ext (by norm_num) ha hb

/-- The loop compares the digits that are left. -/
theorem relation_loop_spec (ha : a.Digital) (hb : b.Digital) (i : ℕ) :
    relation_loop a b i = Int.sign (value 10 (a.digits.take i) - value 10 (b.digits.take i)) := by
  induction i with
  | zero => simp [relation_loop]
  | succ i ih =>
    have hx := ha.at_index i
    have hy := hb.at_index i
    have hd : narrow (a.at_index i - b.at_index i) = a.at_index i - b.at_index i :=
      narrow_eq (by omega) (by omega)
    have hbound : ∀ {c : decimal}, c.Digital →
        0 ≤ value 10 (c.digits.take i) ∧ value 10 (c.digits.take i) < 10 ^ i := by
      intro c hc
      have hlt := value_lt (by norm_num) (hc.take i)
      have hmono : (10 : ℤ) ^ (c.digits.take i).length ≤ 10 ^ i :=
        pow_le_pow_right₀ (by norm_num) (by rw [List.length_take]; omega)
      exact ⟨value_nonneg (by norm_num) (hc.take i), lt_of_lt_of_le hlt hmono⟩
    have hla := hbound ha
    have hlb := hbound hb
    rw [relation_loop, value_take_succ, value_take_succ]
    simp only [hd]
    have hax : a.digits.getD i 0 = a.at_index i := rfl
    have hbx : b.digits.getD i 0 = b.at_index i := rfl
    rw [hax, hbx]
    -- a digit decides, since the lower ones are worth less than its place
    by_cases hgt : a.at_index i - b.at_index i > 0
    · rw [if_pos hgt]
      have hplace : 1 * (10 : ℤ) ^ i ≤ (a.at_index i - b.at_index i) * 10 ^ i :=
        mul_le_mul_of_nonneg_right (by omega) (by positivity)
      exact (Int.sign_eq_one_of_pos (by linarith)).symm
    · rw [if_neg hgt]
      by_cases hlt : a.at_index i - b.at_index i < 0
      · rw [if_pos hlt]
        have hplace : (a.at_index i - b.at_index i) * 10 ^ i ≤ -1 * (10 : ℤ) ^ i :=
          mul_le_mul_of_nonneg_right (by omega) (by positivity)
        exact (Int.sign_eq_neg_one_of_neg (by linarith)).symm
      · rw [if_neg hlt, ih]
        have heq : a.at_index i = b.at_index i := by omega
        rw [heq, add_sub_add_right_eq_sub]

/-- **The ordering compares the values.** -/
theorem relation_to_spec (ha : a.Normal) (hb : b.Normal) :
    a.relation_to b = Int.sign (a.toInt - b.toInt) := by
  unfold relation_to
  by_cases hgt : a.length > b.length
  · rw [if_pos hgt]
    have hlt : b.toInt < a.toInt := Canonical.value_lt_of_length_lt (by norm_num) hb ha hgt
    exact (Int.sign_eq_one_of_pos (by omega)).symm
  · rw [if_neg hgt]
    by_cases hlt : b.length > a.length
    · rw [if_pos hlt]
      have hlt : a.toInt < b.toInt := Canonical.value_lt_of_length_lt (by norm_num) ha hb hlt
      exact (Int.sign_eq_neg_one_of_neg (by omega)).symm
    · rw [if_neg hlt, relation_loop_spec ha.digital hb.digital]
      have hta : a.digits.take a.length = a.digits := List.take_of_length_le (le_refl _)
      have htb : b.digits.take a.length = b.digits :=
        List.take_of_length_le (Nat.le_of_not_lt hlt)
      rw [hta, htb]
      rfl

end decimal
end Kaiu
