/-
What every component below shares: the exceptions the program can throw or
store, the outcome of a promise, and the two debug switches of the build.

`std::exception_ptr` is a nullable pointer to any exception. The user's own
exceptions are an arbitrary type `E`; the two the library itself raises are
`std::logic_error`, with its message, and the `std::bad_function_call` of an
empty `std::function`.
-/
import Mathlib.Logic.Function.Basic

set_option autoImplicit false

namespace Kaiu

/-- A `std::exception_ptr`. -/
inductive ExceptionPtr (E : Type*) where
  | null
  | user (error : E)
  | logic_error (what : String)
  | bad_function_call
  deriving DecidableEq, Repr

/-- What a promise is settled with. -/
inductive Outcome (V E : Type*) where
  | resolved (value : V)
  | rejected (error : ExceptionPtr E)
  deriving DecidableEq, Repr

/-- The preprocessor switches that add run-time checks (`promise.h`,
`promise_stream.h`); `DEBUG` defines both. -/
structure Build where
  SAFE_PROMISES : Bool
  SAFE_PROMISE_STREAMS : Bool
  deriving DecidableEq, Repr

/-- `make mode=debug`. -/
def Build.debug : Build := ⟨true, true⟩

/-- `make mode=release`. -/
def Build.release : Build := ⟨false, false⟩

/-- The ways an operation can fail to return: `X` is the type of these ways,
and every exception is one of them. A component whose operations can also block
for ever has a larger `X` than `ExceptionPtr E`. -/
class Throws (E : outParam (Type*)) (X : Type*) where
  throw : ExceptionPtr E → X

instance {E : Type*} : Throws E (ExceptionPtr E) := ⟨id⟩

end Kaiu
