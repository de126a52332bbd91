/-
Machines, what is seen of them, and the refinement of one by another.

A step of a machine is seen from outside or not. What is seen of a run is its trace. A
machine refines another one by a map of states where each of its steps is a run of the
other one between the states that it is mapped to, with the same trace: then all that is
seen of the first one can be seen of the second one.

Objects that threads share are machines of which calls and returns are seen. A description
of what the operations of an object do, each of them at once, is such a machine too
(`Atomic`): a call takes effect at some point between the call and the return. An object
that refines it is linearizable.
-/
import Mathlib.Logic.Function.Basic

set_option autoImplicit false

namespace Refinement

open Function

universe u v w x y

/-! ## Traces -/

section Traces

variable {S : Type u} {A : Type v} {ε : Type w}

/-- A run of a machine, with what is seen of it. -/
inductive Trace (step : S → Option ε → S → Prop) (s : S) : List ε → S → Prop where
  | start : Trace step s [] s
  | inside {l : List ε} {t u : S} (h : Trace step s l t) (hstep : step t none u) :
      Trace step s l u
  | seen {l : List ε} {t u : S} {e : ε} (h : Trace step s l t) (hstep : step t (some e) u) :
      Trace step s (l ++ [e]) u

variable {step : S → Option ε → S → Prop} {step' : A → Option ε → A → Prop} {s t u : S}
  {l l' : List ε} {e : Option ε}

/-- A single step. -/
theorem Trace.single (h : step s e t) : Trace step s e.toList t := by
  cases e with
  | none => exact .inside .start h
  | some e => exact .seen .start h

/-- A run to the same state. -/
theorem Trace.to (h : Trace step s l t) (ht : u = t) : Trace step s l u :=
  ht ▸ h

theorem Trace.trans (h : Trace step s l t) (h' : Trace step t l' u) : Trace step s (l ++ l') u := by
  induction h' with
  | start => simpa using h
  | inside h' hstep ih => exact .inside ih hstep
  | seen h' hstep ih =>
    rw [← List.append_assoc]
    exact .seen ih hstep

/-- A machine keeps an invariant, and by a map of its states every step of it is a run of
another machine with the same trace. -/
structure Refines (step : S → Option ε → S → Prop) (step' : A → Option ε → A → Prop)
    (I : S → Prop) (abs : S → A) : Prop where
  keeps : ∀ s e t, I s → step s e t → I t
  simulates : ∀ s e t, I s → step s e t → Trace step' (abs s) e.toList (abs t)

/-- **Traces are refined.** The induction carries the invariant along. -/
theorem Refines.trace {I : S → Prop} {abs : S → A} (hr : Refines step step' I abs) (hs : I s)
    (h : Trace step s l t) : I t ∧ Trace step' (abs s) l (abs t) := by
  induction h with
  | start => exact ⟨hs, .start⟩
  | inside h hstep ih =>
    have hsim := hr.simulates _ _ _ ih.1 hstep
    refine ⟨hr.keeps _ _ _ ih.1 hstep, ?_⟩
    simpa using ih.2.trans hsim
  | seen h hstep ih =>
    exact ⟨hr.keeps _ _ _ ih.1 hstep, ih.2.trans (hr.simulates _ _ _ ih.1 hstep)⟩

end Traces

/-! ## Objects whose operations take effect at once -/

/-- What is seen of an object: calls of its operations, and their results. -/
inductive Action (T : Type u) (Op : Type v) (Res : Type w) where
  | call (t : T) (op : Op)
  | ret (t : T) (res : Res)

/-- Where a thread stands with an operation. -/
inductive Phase (Op : Type v) (Res : Type w) where
  | idle
  | called (op : Op)
  | done (res : Res)

/-- An object, and where the threads stand with their operations. -/
structure Atomic (T : Type u) (Q : Type x) (Op : Type v) (Res : Type w) where
  object : Q
  phases : T → Phase Op Res := fun _ => .idle

section Atomic

variable {T : Type u} {Q : Type x} {Op : Type v} {Res : Type w} [DecidableEq T]

/-- A thread comes to another phase. -/
def Atomic.go (a : Atomic T Q Op Res) (t : T) (phase : Phase Op Res) : Atomic T Q Op Res :=
  { a with phases := update a.phases t phase }

theorem Atomic.go_go (a : Atomic T Q Op Res) (t : T) (p p' : Phase Op Res) :
    (a.go t p).go t p' = a.go t p' :=
  congrArg (Atomic.mk a.object) (update_idem ..)

/-- The steps of an object: an operation that is called takes effect at once, at any time
before it returns. -/
inductive Atomic.Step (effect : Op → Q → Res → Q → Prop) :
    Atomic T Q Op Res → Option (Action T Op Res) → Atomic T Q Op Res → Prop where
  | call (a : Atomic T Q Op Res) (t : T) (op : Op) (h : a.phases t = .idle) :
      Step effect a (some (.call t op)) (a.go t (.called op))
  | commit (a : Atomic T Q Op Res) (t : T) {op : Op} {res : Res} {q : Q}
      (h : a.phases t = .called op) (heffect : effect op a.object res q) :
      Step effect a none { a.go t (.done res) with object := q }
  | ret (a : Atomic T Q Op Res) (t : T) {res : Res} (h : a.phases t = .done res) :
      Step effect a (some (.ret t res)) (a.go t .idle)

end Atomic

end Refinement
