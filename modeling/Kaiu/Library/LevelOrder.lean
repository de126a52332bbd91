/-
Level order, and the queue that produces it.

A node has a list of children. The levels of a forest are its roots, their children
from left to right, the children of these, and so on; the level order lists the levels
one after the other. A queue that is emptied from the front, while the children of what
is taken are appended at the back, hands out the nodes level by level: when a level is
at the front and nothing is behind it, the next level is in the queue as soon as the
first one has been taken.
-/
import Mathlib.Data.List.Basic
import Mathlib.Order.Basic

set_option autoImplicit false

namespace LevelOrder

universe u

variable {ι : Type u} (children : ι → List ι)

/-- The nodes at depth `n` of a forest, from left to right. -/
def level : ℕ → List ι → List ι
  | 0, roots => roots
  | n + 1, roots => level n (roots.flatMap children)

/-- The first `n` levels of a forest, one after the other. -/
def levels : ℕ → List ι → List ι
  | 0, _ => []
  | n + 1, roots => roots ++ levels n (roots.flatMap children)

/-- What `n` takings hand out of a queue, and the queue that they leave. -/
def takings : ℕ → List ι → List ι × List ι
  | 0, queue => ([], queue)
  | _ + 1, [] => ([], [])
  | n + 1, x :: queue =>
    let rest := takings n (queue ++ children x)
    (x :: rest.1, rest.2)

variable {children}

@[simp] theorem level_nil (n : ℕ) : level children n [] = [] := by
  induction n with
  | zero => rfl
  | succ n ih => rw [level, List.flatMap_nil, ih]

theorem level_append (n : ℕ) (xs ys : List ι) :
    level children n (xs ++ ys) = level children n xs ++ level children n ys := by
  induction n generalizing xs ys with
  | zero => rfl
  | succ n ih => rw [level, level, level, List.flatMap_append, ih]

theorem level_add (m n : ℕ) (roots : List ι) :
    level children (m + n) roots = level children n (level children m roots) := by
  induction m generalizing roots with
  | zero => rw [Nat.zero_add, level]
  | succ m ih => rw [Nat.succ_add, level, level, ih]

/-- Below an empty level there is nothing. -/
theorem level_eq_nil_of_le {m n : ℕ} {roots : List ι} (h : level children m roots = [])
    (hle : m ≤ n) : level children n roots = [] := by
  obtain ⟨k, rfl⟩ := Nat.exists_eq_add_of_le hle
  rw [level_add, h, level_nil]

/-- **A finite forest has finitely many levels**: if there is no infinite descent from a
node, its tree has an empty level. -/
theorem exists_level_eq_nil {x : ι} (hx : Acc (fun y x => y ∈ children x) x) :
    ∃ n, level children n [x] = [] := by
  induction hx with
  | intro x _ ih =>
    -- a depth that suffices for all children
    have hall : ∀ ys : List ι, (∀ y ∈ ys, y ∈ children x) → ∃ n, level children n ys = [] := by
      intro ys
      induction ys with
      | nil => exact fun _ => ⟨0, rfl⟩
      | cons y ys ihys =>
        intro hsub
        obtain ⟨n, hn⟩ := ih y (hsub y (List.mem_cons_self ..))
        obtain ⟨m, hm⟩ := ihys fun z hz => hsub z (List.mem_cons_of_mem y hz)
        refine ⟨max n m, ?_⟩
        rw [← List.singleton_append, level_append,
          level_eq_nil_of_le hn (Nat.le_max_left ..), level_eq_nil_of_le hm (Nat.le_max_right ..)]
        rfl
    obtain ⟨n, hn⟩ := hall (children x) fun _ h => h
    refine ⟨n + 1, ?_⟩
    rw [level, List.flatMap_singleton]
    exact hn

/-! ## The queue -/

/-- **What is at the front of the queue comes first**, and its children go behind what is
at the back. The induction is on the front. -/
theorem takings_front (n : ℕ) (front back : List ι) :
    takings children (front.length + n) (front ++ back)
      = (front ++ (takings children n (back ++ front.flatMap children)).1,
        (takings children n (back ++ front.flatMap children)).2) := by
  induction front generalizing back with
  | nil => rw [List.length_nil, Nat.zero_add, List.flatMap_nil, List.append_nil]; rfl
  | cons x front ih =>
    have hnext := ih (back ++ children x)
    rw [List.append_assoc, ← List.flatMap_cons] at hnext
    rw [List.length_cons, Nat.succ_add, List.cons_append, takings, List.append_assoc, hnext]
    rfl

/-- **The queue hands out the levels**, one after the other. -/
theorem takings_levels (n : ℕ) (roots : List ι) :
    takings children (levels children n roots).length roots
      = (levels children n roots, level children n roots) := by
  induction n generalizing roots with
  | zero => rfl
  | succ n ih =>
    let next := levels children n (roots.flatMap children)
    have hfront : takings children (roots.length + next.length) (roots ++ [])
        = (roots ++ (takings children next.length ([] ++ roots.flatMap children)).1,
          (takings children next.length ([] ++ roots.flatMap children)).2) :=
      takings_front next.length roots []
    rw [List.append_nil, List.nil_append, ih] at hfront
    rw [levels, List.length_append, hfront, level]

/-- Fewer takings hand out the beginning. -/
theorem takings_take {m n : ℕ} (hmn : m ≤ n) (queue : List ι) :
    (takings children m queue).1 = (takings children n queue).1.take m := by
  induction m generalizing n queue with
  | zero => rfl
  | succ m ih =>
    obtain ⟨n, rfl⟩ := Nat.exists_eq_add_of_le' (Nat.lt_of_lt_of_le (Nat.succ_pos m) hmn)
    cases queue with
    | nil => rfl
    | cons x queue =>
      rw [takings, takings, List.take_succ_cons]
      exact congrArg _ (ih (Nat.le_of_succ_le_succ hmn) _)

/-- A queue that can be emptied is the beginning of what it hands out. -/
theorem queue_initial (n : ℕ) (queue : List ι) (hempty : (takings children n queue).2 = []) :
    queue <+: (takings children n queue).1 := by
  induction n generalizing queue with
  | zero =>
    have hnil : queue = [] := hempty
    rw [hnil]
    exact List.nil_prefix
  | succ n ih =>
    cases queue with
    | nil => exact List.nil_prefix
    | cons x queue =>
      rw [takings, List.prefix_cons_inj]
      exact (List.prefix_append ..).trans (ih _ hempty)

/-- **At every point**, what has been handed out and the queue behind it are the
beginning of what is handed out in the end. -/
theorem takings_initial {m n : ℕ} (hmn : m ≤ n) (queue : List ι)
    (hempty : (takings children n queue).2 = []) :
    (takings children m queue).1 ++ (takings children m queue).2
      <+: (takings children n queue).1 := by
  induction m generalizing n queue with
  | zero => exact queue_initial n queue hempty
  | succ m ih =>
    obtain ⟨n, rfl⟩ := Nat.exists_eq_add_of_le' (Nat.lt_of_lt_of_le (Nat.succ_pos m) hmn)
    cases queue with
    | nil => exact List.nil_prefix
    | cons x queue =>
      rw [takings, takings, List.cons_append, List.prefix_cons_inj]
      exact ih (Nat.le_of_succ_le_succ hmn) _ hempty

end LevelOrder
