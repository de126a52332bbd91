/-
Computations that can end in an exception and keep their state when they do.

A C++ member function that throws has already changed the object when it does,
so the functions modelled in this development do not have the type
`S → Except X S`: what they leave behind is the state *and* the exception, if
any. This file is the small calculus of such results: sequencing, a `catch`
that rethrows, and the rules by which a property of the state is carried
through a sequence whether or not an exception is on its way.
-/
import Mathlib.Logic.Function.Basic

set_option autoImplicit false

namespace Exit

universe u v

/-- What a computation over `S` leaves: its state, and the exception it ended
with (`none` when it returned). -/
abbrev Ended (S : Type u) (X : Type v) := S × Option X

variable {S : Type u} {X : Type v}

/-- Return normally from state `s`. -/
def returns (s : S) : Ended S X := (s, none)

/-- Leave state `s` by throwing `x`. -/
def throws (s : S) (x : X) : Ended S X := (s, some x)

/-- Go on with `f` unless an exception is on its way. -/
def andThen (r : Ended S X) (f : S → Ended S X) : Ended S X :=
  match r with
  | (s, none) => f s
  | (s, some x) => (s, some x)

/-- `try { r } catch (...) { h; throw; }`: the handler runs on the state the
exception left, and what `h` throws itself replaces the exception. -/
def rethrowing (r : Ended S X) (h : S → Ended S X) : Ended S X :=
  match r with
  | (s, none) => (s, none)
  | (s, some x) =>
    match h s with
    | (s', none) => (s', some x)
    | (s', some y) => (s', some y)

@[simp] theorem returns_fst (s : S) : (returns s : Ended S X).1 = s := rfl

@[simp] theorem returns_snd (s : S) : (returns s : Ended S X).2 = none := rfl

@[simp] theorem throws_fst (s : S) (x : X) : (throws s x).1 = s := rfl

@[simp] theorem throws_snd (s : S) (x : X) : (throws s x).2 = some x := rfl

@[simp] theorem returns_andThen (s : S) (f : S → Ended S X) :
    andThen (returns s) f = f s := rfl

@[simp] theorem throws_andThen (s : S) (x : X) (f : S → Ended S X) :
    andThen (throws s x) f = throws s x := rfl

@[simp] theorem returns_rethrowing (s : S) (h : S → Ended S X) :
    rethrowing (returns s) h = returns s := rfl

theorem throws_rethrowing {s s' : S} {h : S → Ended S X} (hs : h s = returns s') (x : X) :
    rethrowing (throws s x) h = throws s' x := by
  unfold rethrowing throws
  simp only []
  rw [hs]
  rfl

/-- A handler decides the state that an exception leaves. -/
theorem rethrowing_fst_of_threw (s : S) (x : X) (h : S → Ended S X) :
    (rethrowing (s, some x) h).1 = (h s).1 := by
  rcases hh : h s with ⟨s', _ | y⟩ <;> simp [rethrowing, hh]

/-- A handler neither swallows an exception nor makes one up. -/
theorem rethrowing_thrown {r : Ended S X} {h : S → Ended S X} :
    (rethrowing r h).2 ≠ none ↔ r.2 ≠ none := by
  obtain ⟨s, _ | x⟩ := r
  · rfl
  · rcases hh : h s with ⟨s', _ | y⟩ <;> simp [rethrowing, hh]

/-- A computation that returned goes on. -/
theorem andThen_of_returned {r : Ended S X} (hr : r.2 = none) (f : S → Ended S X) :
    andThen r f = f r.1 := by
  obtain ⟨s, x⟩ := r
  cases hr
  rfl

/-- A computation that threw does not. -/
theorem andThen_of_threw {r : Ended S X} {x : X} (hr : r.2 = some x) (f : S → Ended S X) :
    andThen r f = r := by
  obtain ⟨s, y⟩ := r
  cases hr
  rfl

/-! ## Carrying a property of the state -/

/-- **The sequence rule.** `P` is carried through a sequence whose first part
leaves it and whose second part keeps it, also when the first part throws. -/
theorem andThen_keeps {P : S → Prop} {r : Ended S X} {f : S → Ended S X}
    (hr : P r.1) (hf : P r.1 → P (f r.1).1) : P (andThen r f).1 := by
  obtain ⟨s, x⟩ := r
  cases x with
  | none => exact hf hr
  | some x => exact hr

end Exit
