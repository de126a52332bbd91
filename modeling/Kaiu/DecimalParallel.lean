/-
`parallel_multiply` agrees with `operator *`.

A worker multiplies the digits of `a` in its range with `b`, and the ranges are cut
at `(as * worker) / workers`, so that the end of one is the beginning of the next:
in the sum of what the workers contribute only the two ends are left
(`sum_telescope`). Each contribution is a buffer that is as long as `result`, leading
zeros included, and since the contributions are not negative no partial sum is larger
than the product, which fits. The order in which the workers lock the mutex permutes
the terms of that sum.
-/
import Kaiu.DecimalValue
import Mathlib.Algebra.Order.BigOperators.Group.List
import Mathlib.Data.List.Range

set_option autoImplicit false

namespace Kaiu
namespace decimal

open Exit Positional

variable {a b : decimal}

/-! ## One worker -/

/-- What the loop of `partial_product` keeps after `k` iterations. What the last one
has left in `tmp` does not matter. -/
structure Partial (a b : decimal) (first k : ℕ) (s : decimal × List ℤ) : Prop where
  digital : s.1.Digital
  length : s.1.length = a.length + b.length
  worth : s.1.toInt
    = (value 10 (a.digits.take (first + k)) - value 10 (a.digits.take first)) * b.toInt

/-- What has been passed before the range began is worth something. -/
theorem range_fits (ha : a.Digital) (hb : b.Digital) (first last : ℕ) :
    (value 10 (a.digits.take last) - value 10 (a.digits.take first)) * b.toInt
      < 10 ^ (a.length + b.length) := by
  have hfits := mul_fits ha hb last
  have hbefore : 0 ≤ value 10 (a.digits.take first) * b.toInt :=
    mul_nonneg (value_nonneg (by norm_num) (ha.take first)) hb.nonneg
  rw [sub_mul]
  omega

theorem Partial.step {s : decimal × List ℤ} {first k : ℕ} (ha : a.Digital) (hb : b.Digital)
    (hb' : 0 < b.length) (h : Partial a b first k s) :
    Partial a b first (k + 1) (partial_step a b s (first + k)) := by
  have hworth : (value 10 (a.digits.take (first + (k + 1))) - value 10 (a.digits.take first))
      * b.toInt = s.1.toInt + a.at_index (first + k) * b.toInt * 10 ^ (first + k) := by
    rw [h.worth, ← Nat.add_assoc, value_take_succ]
    show (_ + a.at_index (first + k) * 10 ^ (first + k) - _) * b.toInt = _
    ring
  unfold partial_step
  by_cases had : a.at_index (first + k) = 0
  · rw [if_pos had]
    refine ⟨h.digital, h.length, ?_⟩
    rw [hworth, had, zero_mul, zero_mul, add_zero]
  · rw [if_neg had, resize_filled]
    -- a digit that is not zero is inside
    have hinside : first + k < a.length := by
      by_contra hout
      exact had (List.getD_eq_default _ _ (Nat.le_of_not_lt hout))
    have hfits := range_fits ha hb first (first + (k + 1))
    rw [hworth] at hfits
    obtain ⟨hdigits, hlen, hvalue⟩ := add_row_spec hb hb' (ha.at_index (first + k)) h.digital
      h.length (by omega) hfits
    exact ⟨hdigits, hlen, hvalue.trans hworth.symm⟩

/-- **A partial product.** The buffer is as long as that of the whole product. -/
theorem partial_product_spec (ha : a.Digital) (hb : b.Digital) (hb' : 0 < b.length)
    (first last : ℕ) :
    (partial_product a b first last).Digital ∧
      (partial_product a b first last).length = a.length + b.length ∧
      (first ≤ last → (partial_product a b first last).toInt
        = (value 10 (a.digits.take last) - value 10 (a.digits.take first)) * b.toInt) := by
  have hloop : Partial a b first (last - first)
      ((List.range (last - first)).foldl (fun s k => partial_step a b s (first + k))
        (⟨resize (a.length + b.length) [0]⟩, [0])) := by
    refine foldl_range _ ?_ fun k _ s hs => hs.step ha hb hb'
    obtain ⟨hdigits, hlen, hzero⟩ := buffer_spec (Nat.add_pos_right a.length hb')
    exact ⟨hdigits, hlen, by rw [hzero]; simp⟩
  refine ⟨hloop.digital, hloop.length, fun hle => ?_⟩
  have hworth := hloop.worth
  rw [Nat.add_sub_cancel' hle] at hworth
  exact hworth

/-! ## The sum -/

/-- Adding buffers of one length to another one, whatever is in them. -/
theorem foldl_add_digital {ι : Type*} {f : ι → decimal} {n : ℕ} (order : List ι) {c : decimal}
    (hf : ∀ i, (f i).Digital ∧ (f i).length = n) (hn : 0 < n) (hc : c.Digital)
    (hlen : 0 < c.length) : (order.foldl (fun c i => c.add_assign (f i)) c).Digital := by
  induction order generalizing c with
  | nil => exact hc
  | cons i order ih =>
    obtain ⟨hdigits, hlength⟩ := hf i
    obtain ⟨hsum, -, hlong⟩ := add_assign_spec hc hdigits hlen (by omega)
    refine ih hsum ?_
    rw [hlong]
    exact Nat.lt_of_lt_of_le (lt_max_of_lt_left hlen) (Nat.le_add_right ..)

/-- The sum is exact when it fits. -/
theorem foldl_add_spec {ι : Type*} {f : ι → decimal} {n : ℕ} (order : List ι) {c : decimal}
    (hn : 1 < n) (hf : ∀ i ∈ order, (f i).Digital ∧ (f i).length = n) (hc : c.Digital)
    (hlen : c.length = n) (hfits : c.toInt + (order.map fun i => (f i).toInt).sum < 10 ^ n) :
    (order.foldl (fun c i => c.add_assign (f i)) c).toInt
      = c.toInt + (order.map fun i => (f i).toInt).sum := by
  -- induction on what is left to be added
  induction order generalizing c with
  | nil => simp
  | cons i order ih =>
    obtain ⟨hdigits, hlength⟩ := hf i (List.mem_cons_self ..)
    have hrest : ∀ j ∈ order, (f j).Digital ∧ (f j).length = n :=
      fun j hj => hf j (List.mem_cons_of_mem i hj)
    have hnonneg : 0 ≤ (order.map fun j => (f j).toInt).sum := by
      apply List.sum_nonneg
      intro x hx
      obtain ⟨j, hj, rfl⟩ := List.mem_map.mp hx
      exact (hrest j hj).1.nonneg
    rw [List.map_cons, List.sum_cons] at hfits ⊢
    obtain ⟨hsum, hvalue, hlong⟩ := add_assign_within hc hdigits (by omega) (by omega) (by omega)
      (show c.toInt + (f i).toInt < 10 ^ c.length by rw [hlen]; omega)
    rw [List.foldl_cons, ih hrest hsum (hlong.trans hlen) (by rw [hvalue]; omega), hvalue]
    omega

/-- The ranges lie side by side. -/
theorem sum_telescope (f : ℕ → ℤ) (n : ℕ) :
    ((List.range n).map fun i => f (i + 1) - f i).sum = f n - f 0 := by
  induction n with
  | zero => simp
  | succ n ih =>
    rw [List.range_succ, List.map_append, List.sum_append, ih]
    simp

/-- What `partial_product` contributes in the range of each worker. -/
theorem contribution_spec (ha : a.Digital) (hb : b.Digital) (hb' : 0 < b.length) {k : ℕ}
    (hsize : a.length * k < 2 ^ 64) {worker : ℕ} (hworker : worker < k) :
    (partial_product a b (first_of a.length k worker) (first_of a.length k (worker + 1))).toInt
      = value 10 (a.digits.take (a.length * (worker + 1) / k)) * b.toInt
        - value 10 (a.digits.take (a.length * worker / k)) * b.toInt := by
  -- nothing overflows
  have hproduct : ∀ w ≤ k, first_of a.length k w = a.length * w / k := by
    intro w hw
    have hle : a.length * w ≤ a.length * k := Nat.mul_le_mul_left _ hw
    rw [first_of, Nat.mod_eq_of_lt (by omega)]
  have hle : a.length * worker / k ≤ a.length * (worker + 1) / k :=
    Nat.div_le_div_right (Nat.mul_le_mul_left _ (Nat.le_succ worker))
  rw [hproduct worker hworker.le, hproduct (worker + 1) hworker,
    (partial_product_spec ha hb hb' _ _).2.2 hle, sub_mul]

/-! ## The product -/

/-- Whatever the workers do, the result is normalised. -/
theorem parallel_multiply_normal {l r : decimal} (hl : l.Normal) (hr : r.Normal)
    (hardware_concurrency : ℕ) (order : List ℕ) :
    (parallel_multiply hardware_concurrency order l r).Normal := by
  obtain ⟨ha, hb, -⟩ := factors_normal hl hr
  unfold parallel_multiply
  simp only
  by_cases hz : (shorter l r).isZero
  · rw [if_pos hz]
    exact normal_zero
  · rw [if_neg hz]
    by_cases hu : (shorter l r).isUnity
    · rw [if_pos hu]
      exact hb
    · rw [if_neg hu]
      by_cases hk : workers hardware_concurrency l r = 0
      · rw [if_pos hk]
        exact (mul_spec hl hr).1
      · rw [if_neg hk]
        have hpos : 0 < (shorter l r).length + (longer l r).length :=
          Nat.add_pos_right _ hb.length_pos
        obtain ⟨hdigits, hlen, -⟩ := buffer_spec hpos
        refine (remove_lz_spec (foldl_add_digital order (fun worker => ?_) hpos hdigits ?_)).1
        · obtain ⟨hdigits, hlen, -⟩ := partial_product_spec ha.digital hb.digital hb.length_pos
            (first_of (shorter l r).length (workers hardware_concurrency l r) worker)
            (first_of (shorter l r).length (workers hardware_concurrency l r) (worker + 1))
          exact ⟨hdigits, hlen⟩
        · rw [hlen]
          exact hpos

/-- **`parallel_multiply` agrees with `*`**, for every number of cores and in whatever
order the workers add what they have computed, if the products that give the ranges do
not overflow. -/
theorem parallel_multiply_eq {l r : decimal} (hl : l.Normal) (hr : r.Normal)
    (hardware_concurrency : ℕ) {order : List ℕ}
    (horder : order.Perm (List.range (workers hardware_concurrency l r)))
    (hsize : (shorter l r).length * workers hardware_concurrency l r < 2 ^ 64) :
    parallel_multiply hardware_concurrency order l r = l.mul r := by
  obtain ⟨ha, hb, hproduct⟩ := factors_normal hl hr
  obtain ⟨hmul, hvalue⟩ := mul_spec hl hr
  have hnormal := parallel_multiply_normal hl hr hardware_concurrency order
  -- two normalised numbers of the same value
  refine congrArg decimal.mk (Canonical.ext (by norm_num) hnormal hmul (Eq.trans ?_ hvalue.symm))
  show (parallel_multiply hardware_concurrency order l r).toInt = _
  rw [← hproduct]
  unfold parallel_multiply
  simp only
  by_cases hz : (shorter l r).isZero
  · rw [if_pos hz, ha.isZero_iff.mp hz, zero_mul]
    rfl
  · rw [if_neg hz]
    by_cases hu : (shorter l r).isUnity
    · rw [if_pos hu, ha.isUnity_iff.mp hu, one_mul]
    · rw [if_neg hu]
      by_cases hk : workers hardware_concurrency l r = 0
      · rw [if_pos hk, hvalue, hproduct]
      · rw [if_neg hk]
        generalize workers hardware_concurrency l r = k at horder hsize hk ⊢
        generalize shorter l r = a at ha hsize ⊢
        generalize longer l r = b at hb ⊢
        have hpa := ha.length_pos
        have hpb := hb.length_pos
        obtain ⟨hdigital, hlen, hzero⟩ := buffer_spec (show 0 < a.length + b.length by omega)
        generalize (⟨resize (a.length + b.length) [0]⟩ : decimal) = result at hdigital hlen hzero ⊢
        -- the contributions, in the order of the ranges
        have hsum : (order.map fun worker => (partial_product a b (first_of a.length k worker)
            (first_of a.length k (worker + 1))).toInt).sum = a.toInt * b.toInt := by
          have hperm := (horder.map fun worker => (partial_product a b
            (first_of a.length k worker) (first_of a.length k (worker + 1))).toInt).sum_eq
          have hterms := List.map_congr_left (l := List.range k) fun worker hw =>
            contribution_spec ha.digital hb.digital hpb hsize (List.mem_range.mp hw)
          rw [hperm, hterms, sum_telescope fun worker =>
            value 10 (a.digits.take (a.length * worker / k)) * b.toInt]
          have htake : a.digits.take a.length = a.digits := List.take_of_length_le (le_refl _)
          rw [Nat.mul_div_cancel _ (Nat.pos_of_ne_zero hk), htake, Nat.mul_zero, Nat.zero_div,
            List.take_zero, value_nil, zero_mul, sub_zero]
          rfl
        have hbuffers : ∀ worker, (partial_product a b (first_of a.length k worker)
            (first_of a.length k (worker + 1))).Digital ∧ (partial_product a b
            (first_of a.length k worker) (first_of a.length k (worker + 1))).length
              = a.length + b.length := fun worker =>
          have h := partial_product_spec ha.digital hb.digital hpb _ _
          ⟨h.1, h.2.1⟩
        have hfits : a.toInt * b.toInt < 10 ^ (a.length + b.length) := by
          have h := mul_fits ha.digital hb.digital a.length
          rwa [List.take_of_length_le (show a.digits.length ≤ a.length from le_refl _)] at h
        have hadded := foldl_add_spec order (by omega) (fun worker _ => hbuffers worker)
          hdigital hlen (by rw [hzero, hsum, zero_add]; exact hfits)
        have hresult := foldl_add_digital order hbuffers (by omega) hdigital (by omega)
        rw [(remove_lz_spec hresult).2, hadded, hzero, hsum, zero_add]

/-- Numbers of two thousand digits, and two workers of which the second is faster. -/
theorem parallel_multiply_eq_sevens :
    parallel_multiply 4 [1, 0] ⟨List.replicate 2000 7⟩ ⟨List.replicate 2000 7⟩
      = mul ⟨List.replicate 2000 7⟩ ⟨List.replicate 2000 7⟩ := by
  have hlen : ∀ n : ℕ, length ⟨List.replicate n 7⟩ = n := fun n => List.length_replicate
  have hnormal : ∀ n : ℕ, 0 < n → Normal ⟨List.replicate n 7⟩ := by
    intro n hn
    refine ⟨fun d hd => ?_, fun hnil => ?_, fun _ htop => ?_⟩
    · rw [List.eq_of_mem_replicate hd]
      norm_num
    · have hzero := congrArg List.length hnil
      rw [List.length_replicate, List.length_nil] at hzero
      omega
    · have hmem := List.mem_of_getLast? htop
      have hseven := List.eq_of_mem_replicate hmem
      norm_num at hseven
  have hfactor : shorter ⟨List.replicate 2000 7⟩ ⟨List.replicate 2000 7⟩
      = ⟨List.replicate 2000 7⟩ := if_pos (le_refl _)
  have hworkers : workers 4 ⟨List.replicate 2000 7⟩ ⟨List.replicate 2000 7⟩ = 2 := by
    rw [workers, hfactor, hlen]
    norm_num
  refine parallel_multiply_eq (hnormal 2000 (by norm_num)) (hnormal 2000 (by norm_num)) 4 ?_ ?_
  · rw [hworkers]
    exact List.Perm.swap 0 1 []
  · rw [hworkers, hfactor, hlen]
    norm_num

end decimal
end Kaiu
