/-
`decimal`: natural numbers of any length, as vectors of decimal digits.

A `digit` is a `char`, which is taken to be signed and to have eight bits: what is
computed in `int` and assigned to a digit goes through `narrow`. The loops are the
source's, over positions, each of which reads and rewrites one digit; a vector is
read through the checked `operator []` or at a position that is inside, so that in
both cases zero stands for what is not there. A member function that throws leaves
the object as it is at that point, so that `-=` and `--` end in a state and an
exception.

The workers of `parallel_multiply` share nothing but `result`, to which each of them
adds its partial product with the mutex locked: a run is the order in which they do
so.
-/
import Kaiu.Library.Exit
import Kaiu.Library.Positional

set_option autoImplicit false

namespace Kaiu

open Exit Positional

/-- An `int` is assigned to a `char`. -/
def narrow (x : ℤ) : ℤ :=
  (x + 128) % 256 - 128

/-- `vector<digit>::resize`. -/
def resize (n : ℕ) (digits : List ℤ) : List ℤ :=
  digits.take n ++ List.replicate (n - digits.length) 0

/-- The class `decimal`. -/
structure decimal where
  digits : List ℤ := [0]
  deriving DecidableEq, Repr

namespace decimal

/-- What its member functions throw. -/
inductive Error where
  | invalid_argument (what : String)
  | underflow_error (what : String)
  deriving DecidableEq, Repr

/-- `operator []`. -/
def at_index (a : decimal) (index : ℕ) : ℤ :=
  a.digits.getD index 0

/-- `length`. -/
def length (a : decimal) : ℕ :=
  a.digits.length

/-- `isZero`. -/
def isZero (a : decimal) : Bool :=
  a.length = 1 ∧ a.at_index 0 = 0

/-- `isUnity`. -/
def isUnity (a : decimal) : Bool :=
  a.length = 1 ∧ a.at_index 0 = 1

/-- `operator bool`. -/
def to_bool (a : decimal) : Bool :=
  !a.isZero

/-! ## Constructors -/

/-- `while (val) { digits.push_back(val % 10); val /= 10; }`. -/
def push_digits (val : ℕ) : List ℤ :=
  if val = 0 then [] else narrow (val % 10) :: push_digits (val / 10)

/-- `decimal(T val)`. -/
def of_integer (val : ℤ) : Except Error decimal :=
  if val < 0 then .error (.invalid_argument "Negative value not allowed")
  else if val ≠ 0 then .ok ⟨push_digits val.toNat⟩
  else .ok ⟨[0]⟩

/-- `decimal(0)`. -/
def zero : decimal := ⟨[0]⟩

/-- `decimal(1)`. -/
def one : decimal := ⟨[1]⟩

/-- The loop of `remove_lz`, of which `i` iterations are left. -/
def remove_lz_loop (digits : List ℤ) : ℕ → List ℤ
  | 0 => resize 1 digits
  | i + 1 => if digits.getD i 0 ≠ 0 then resize (i + 1) digits else remove_lz_loop digits i

/-- `remove_lz`. -/
def remove_lz (a : decimal) : decimal :=
  ⟨remove_lz_loop a.digits a.length⟩

/-- The loop of `decimal(const string& val)`, from the last character to the first. -/
def push_chars : List Char → List ℤ → Except Error (List ℤ)
  | [], digits => .ok digits
  | c :: val, digits =>
      if c = ',' then push_chars val digits
      else if '0' ≤ c ∧ c ≤ '9' then
        push_chars val (digits ++ [narrow (c.toNat - '0'.toNat)])
      else .error (.invalid_argument ("Not a digit: " ++ String.singleton c))

/-- `decimal(const string& val)`. -/
def of_string (val : List Char) : Except Error decimal :=
  match push_chars val.reverse [] with
  | .ok digits => .ok (remove_lz ⟨digits⟩)
  | .error error => .error error

/-! ## Addition and subtraction -/

/-- The body of the loop of `+=`: the vector and the carry. -/
def add_step (b : List ℤ) (s : List ℤ × Bool) (i : ℕ) : List ℤ × Bool :=
  let d := narrow (s.1.getD i 0 + b.getD i 0 + if s.2 then 1 else 0)
  let carry : Bool := 10 ≤ d
  (s.1.set i (if carry then narrow (d - 10) else d), carry)

/-- `operator +=`, for another object. -/
def add_assign (a b : decimal) : decimal :=
  if a.isZero then b
  else if b.isZero then a
  else
    let w := max a.length b.length
    let s := (List.range w).foldl (add_step b.digits) (resize (w + 1) a.digits, false)
    if s.2 then ⟨s.1.set w 1⟩ else ⟨resize w s.1⟩

/-- `operator +=`, for the object itself: `b` is read while it is rewritten. -/
def add_assign_self (a : decimal) : decimal :=
  if a.isZero then a
  else
    let w := a.length
    let s := (List.range w).foldl (fun s i => add_step s.1 s i) (resize (w + 1) a.digits, false)
    if s.2 then ⟨s.1.set w 1⟩ else ⟨resize w s.1⟩

/-- `operator +`. -/
def add (a b : decimal) : decimal :=
  a.add_assign b

/-- `operator ++`. -/
def inc (a : decimal) : decimal :=
  a.add_assign one

/-- The body of the loop of `-=`: the vector and the borrow. -/
def sub_step (b : List ℤ) (s : List ℤ × Bool) (i : ℕ) : List ℤ × Bool :=
  let d := narrow (s.1.getD i 0 - b.getD i 0 - if s.2 then 1 else 0)
  let borrow : Bool := d < 0
  (s.1.set i (if borrow then narrow (10 + d) else d), borrow)

/-- What is thrown when the result would be negative. -/
def underflow : Error :=
  .underflow_error "Negative values not allowed"

/-- `operator -=`, for another object. -/
def sub_assign (a b : decimal) : Ended decimal Error :=
  if b.isZero then returns a
  else
    let w := a.length
    if b.length > w then throws a underflow
    else
      let s := (List.range w).foldl (sub_step b.digits) (a.digits, false)
      if s.2 then throws ⟨s.1⟩ underflow else returns (remove_lz ⟨s.1⟩)

/-- `operator -=`, for the object itself. -/
def sub_assign_self (a : decimal) : Ended decimal Error :=
  if a.isZero then returns a
  else
    let w := a.length
    let s := (List.range w).foldl (fun s i => sub_step s.1 s i) (a.digits, false)
    if s.2 then throws ⟨s.1⟩ underflow else returns (remove_lz ⟨s.1⟩)

/-- `operator -`: the object that is left behind by an exception is a copy. -/
def sub (a b : decimal) : Except Error decimal :=
  match a.sub_assign b with
  | (r, none) => .ok r
  | (_, some error) => .error error

/-- `operator --`. -/
def dec (a : decimal) : Ended decimal Error :=
  a.sub_assign one

/-! ## Multiplication -/

/-- The body of the inner loop of `*`: `tmp` and the carry. -/
def mul_step (b : List ℤ) (ad : ℤ) (i : ℕ) (s : List ℤ × ℤ) (j : ℕ) : List ℤ × ℤ :=
  let d := narrow (b.getD j 0 * ad + s.2)
  let carry := narrow (d.tdiv 10)
  (s.1.set (j + i) (narrow (d - carry * 10)), carry)

/-- The product of `b` and the digit `ad` at position `i`, in `tmp`. -/
def row (b : decimal) (ad : ℤ) (i : ℕ) (tmp : List ℤ) : decimal :=
  let bs := b.length
  let s := (List.range bs).foldl (mul_step b.digits ad i) (tmp, 0)
  if s.2 ≠ 0 then ⟨s.1.set (bs + i) s.2⟩ else ⟨resize (bs + i) s.1⟩

/-- The body of the outer loop of `*`. -/
def mul_row (a b : decimal) (c : decimal) (i : ℕ) : decimal :=
  let ad := a.at_index i
  if ad = 0 then c
  else c.add_assign (row b ad i (resize (b.length + i + 1) [0]))

/-- The shorter factor, `a`. -/
def shorter (l r : decimal) : decimal :=
  if l.length ≤ r.length then l else r

/-- The longer factor, `b`. -/
def longer (l r : decimal) : decimal :=
  if l.length > r.length then l else r

/-- `operator *`. -/
def mul (l r : decimal) : decimal :=
  let a := shorter l r
  let b := longer l r
  if a.isZero then zero
  else if a.isUnity then b
  else remove_lz ((List.range a.length).foldl (mul_row a b) ⟨resize (a.length + b.length) [0]⟩)

/-- `operator *=`. -/
def mul_assign (a b : decimal) : decimal :=
  a.mul b

/-- The loop of `!`. It is left after as many iterations as the value of `i`, see
`factorial_spec`. -/
def factorial_loop : ℕ → decimal → decimal → Option (Except Error decimal)
  | 0, _, _ => none
  | n + 1, i, r =>
      if i.isUnity then some (.ok r)
      else
        let r := r.mul_assign i
        match i.dec with
        | (i, none) => factorial_loop n i r
        | (_, some error) => some (.error error)

/-- `operator !`. -/
def factorial (x : decimal) : Option (Except Error decimal) :=
  if x.isZero ∨ x.isUnity then some (.ok one)
  else
    match x.sub one with
    | .ok i => factorial_loop (value 10 i.digits).toNat i x
    | .error error => some (.error error)

/-! ## Comparison -/

/-- `operator ==`. -/
def eq (a b : decimal) : Bool :=
  a.digits = b.digits

/-- `operator !=`. -/
def ne (a b : decimal) : Bool :=
  !a.eq b

/-- The loop of `relation_to`, of which `i` iterations are left. -/
def relation_loop (a b : decimal) : ℕ → ℤ
  | 0 => 0
  | i + 1 =>
      let d := narrow (a.at_index i - b.at_index i)
      if d > 0 then 1 else if d < 0 then -1 else relation_loop a b i

/-- `relation_to`. -/
def relation_to (a b : decimal) : ℤ :=
  if a.length > b.length then 1
  else if b.length > a.length then -1
  else relation_loop a b a.length

/-- `operator >`. -/
def gt (a b : decimal) : Bool :=
  a.relation_to b > 0

/-- `operator >=`. -/
def ge (a b : decimal) : Bool :=
  a.relation_to b ≥ 0

/-- `operator <`. -/
def lt (a b : decimal) : Bool :=
  a.relation_to b < 0

/-- `operator <=`. -/
def le (a b : decimal) : Bool :=
  a.relation_to b ≤ 0

/-! ## `parallel_multiply` -/

/-- The body of the loop of `partial_product`: `c` and `tmp`. -/
def partial_step (a b : decimal) (s : decimal × List ℤ) (i : ℕ) : decimal × List ℤ :=
  let ad := a.at_index i
  if ad = 0 then s
  else
    let tmp := row b ad i (resize (b.length + i + 1) (s.2.map fun _ => 0))
    (s.1.add_assign tmp, tmp.digits)

/-- What `partial_product(first, last)` adds to `result`. -/
def partial_product (a b : decimal) (first last : ℕ) : decimal :=
  ((List.range (last - first)).foldl (fun s k => partial_step a b s (first + k))
    (⟨resize (a.length + b.length) [0]⟩, [0])).1

/-- `(as * worker) / workers`, in `size_t`. -/
def first_of (as workers worker : ℕ) : ℕ :=
  as * worker % 2 ^ 64 / workers

/-- The number of workers. -/
def workers (hardware_concurrency : ℕ) (l r : decimal) : ℕ :=
  min hardware_concurrency ((shorter l r).length / 1000)

/-- `parallel_multiply`, with the order in which the workers lock the mutex. -/
def parallel_multiply (hardware_concurrency : ℕ) (order : List ℕ) (l r : decimal) : decimal :=
  let a := shorter l r
  let b := longer l r
  if a.isZero then zero
  else if a.isUnity then b
  else
    let workers := workers hardware_concurrency l r
    if workers = 0 then l.mul r
    else
      remove_lz (order.foldl (fun result worker => result.add_assign
        (partial_product a b (first_of a.length workers worker)
          (first_of a.length workers (worker + 1)))) ⟨resize (a.length + b.length) [0]⟩)

/-! ## Objects -/

/-- What is done with objects, of which `x`, `y` and `z` are names. -/
inductive Op (V : Type*) where
  | construct (x : V)
  | construct_integer (x : V) (val : ℤ)
  | construct_string (x : V) (val : List Char)
  | copy (x y : V)
  | add_assign (x y : V)
  | add (x y z : V)
  | inc (x : V)
  | sub_assign (x y : V)
  | sub (x y z : V)
  | dec (x : V)
  | mul (x y z : V)
  | mul_assign (x y : V)
  | factorial (x y : V)
  | parallel_multiply (x y z : V) (hardware_concurrency : ℕ) (order : List ℕ)

variable {V : Type*} [DecidableEq V]

/-- An object is assigned what has been returned, unless an exception was thrown. -/
def assign (x : V) (r : Except Error decimal) (s : V → decimal) : Ended (V → decimal) Error :=
  match r with
  | .ok a => returns (Function.update s x a)
  | .error error => throws s error

/-- A member function has changed an object, and may have thrown. -/
def modify (x : V) (r : Ended decimal Error) (s : V → decimal) : Ended (V → decimal) Error :=
  (Function.update s x r.1, r.2)

/-- One operation; `none` if it does not terminate. -/
def exec (op : Op V) (s : V → decimal) : Option (Ended (V → decimal) Error) :=
  match op with
  | .construct x => some (assign x (.ok {}) s)
  | .construct_integer x val => some (assign x (of_integer val) s)
  | .construct_string x val => some (assign x (of_string val) s)
  | .copy x y => some (assign x (.ok (s y)) s)
  | .add_assign x y =>
      some (assign x (.ok (if x = y then (s x).add_assign_self else (s x).add_assign (s y))) s)
  | .add x y z => some (assign x (.ok ((s y).add (s z))) s)
  | .inc x => some (assign x (.ok (s x).inc) s)
  | .sub_assign x y =>
      some (modify x (if x = y then (s x).sub_assign_self else (s x).sub_assign (s y)) s)
  | .sub x y z => some (assign x ((s y).sub (s z)) s)
  | .dec x => some (modify x (s x).dec s)
  | .mul x y z => some (assign x (.ok ((s y).mul (s z))) s)
  | .mul_assign x y => some (assign x (.ok ((s x).mul_assign (s y))) s)
  | .factorial x y => (s y).factorial.map fun r => assign x r s
  | .parallel_multiply x y z hardware_concurrency order =>
      some (assign x (.ok (parallel_multiply hardware_concurrency order (s y) (s z))) s)

/-- A sequence of operations. Every exception is caught. -/
def run : List (Op V) → (V → decimal) → Option (V → decimal)
  | [], s => some s
  | op :: ops, s => (exec op s).bind fun r => run ops r.1

end decimal
end Kaiu
