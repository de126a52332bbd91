/-
The numbers below a bound, taken with a stride.

Of the numbers below `x`, those that leave the remainder `i` modulo `n` are `i`,
`i + n`, `i + 2 * n` and so on, and each number below `x` leaves one remainder. So a
product over the numbers below `x` is the product, over the remainders, of products
with the stride `n`: `n` workers, of which each takes every `n`-th factor, have taken
every factor once.
-/
import Mathlib.Algebra.BigOperators.Group.Finset.Basic

set_option autoImplicit false

namespace Strides

open Finset

variable {M : Type*} [CommMonoid M] {n i m x : ℕ}

end Strides
