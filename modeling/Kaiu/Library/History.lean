/-
Runs of a machine, and machines that keep a history of what has happened.

What every step keeps holds in a run, and what some steps bring nearer can be reached,
for one component of the machine after the other if need be.

A safety property of a run speaks about every point of it, and a run is known by
the list of its events. Where every step of a machine appends at most one event,
each prefix of the history of a state is the history of an earlier state, so that
a property of all reachable states is a property of all points of the history.
-/
import Mathlib.Data.Fintype.EquivFin
import Mathlib.Data.List.Basic
import Mathlib.Logic.Relation
import Mathlib.Order.RelClasses

set_option autoImplicit false

namespace History

open Relation

universe u v w

variable {S : Type u} {ε : Type v} {R : S → S → Prop} {s t : S}

/-- **The invariant rule.** What every step keeps holds after any number of
steps. -/
theorem keeps {I : S → Prop} (hstep : ∀ s t, I s → R s t → I t) (hs : I s)
    (hst : ReflTransGen R s t) : I t := by
  induction hst with
  | refl => exact hs
  | tail _ h ih => exact hstep _ _ ih h

/-- **The progress rule.** From every state that an invariant holds of, a goal can be
reached, if in each of these states it has been reached or some steps lead to a smaller
one of them. The induction is on the measure. -/
theorem reaches_within {M : Type w} [LT M] [WellFoundedLT M] (measure : S → M) {I goal : S → Prop}
    (hstep : ∀ s, I s → goal s ∨ ∃ t, ReflTransGen R s t ∧ I t ∧ measure t < measure s)
    (hs : I s) : ∃ t, ReflTransGen R s t ∧ I t ∧ goal t := by
  induction hm : measure s using WellFoundedLT.induction generalizing s with
  | ind m ih =>
    subst hm
    rcases hstep s hs with hgoal | ⟨t, hst, ht, hlt⟩
    · exact ⟨s, .refl, hs, hgoal⟩
    · obtain ⟨u, htu, hu⟩ := ih _ hlt ht rfl
      exact ⟨u, hst.trans htu, hu⟩

/-- The progress rule for an invariant that every step keeps. -/
theorem reaches {M : Type w} [LT M] [WellFoundedLT M] (measure : S → M) {I goal : S → Prop}
    (hkeeps : ∀ s t, I s → R s t → I t)
    (hstep : ∀ s, I s → goal s ∨ ∃ t, ReflTransGen R s t ∧ measure t < measure s) (hs : I s) :
    ∃ t, ReflTransGen R s t ∧ goal t := by
  have hstep' : ∀ s, I s → goal s ∨ ∃ t, ReflTransGen R s t ∧ I t ∧ measure t < measure s := by
    intro s hs
    refine (hstep s hs).imp_right fun ⟨t, hst, hlt⟩ => ?_
    exact ⟨t, hst, keeps hkeeps hs hst, hlt⟩
  obtain ⟨t, hst, -, ht⟩ := reaches_within measure hstep' hs
  exact ⟨t, hst, ht⟩

/-- **One after the other.** If each of finitely many components can be brought to where
it should be while the others stay as they are, then all of them can. The induction is on
those that have been. -/
theorem reaches_in_turn {ι L : Type*} [Finite ι] (part : S → ι → L) (goal : ι → L → Prop)
    {I : S → Prop}
    (hstep : ∀ i s, I s → ∃ t, ReflTransGen R s t ∧ I t ∧ goal i (part t i) ∧
      ∀ j ≠ i, part t j = part s j) (hs : I s) :
    ∃ t, ReflTransGen R s t ∧ I t ∧ ∀ i, goal i (part t i) := by
  classical
  have := Fintype.ofFinite ι
  have hall : ∀ F : Finset ι, ∃ t, ReflTransGen R s t ∧ I t ∧ ∀ i ∈ F, goal i (part t i) := by
    intro F
    induction F using Finset.induction with
    | empty => exact ⟨s, .refl, hs, nofun⟩
    | insert i F hi ih =>
      obtain ⟨t, hst, ht, hF⟩ := ih
      obtain ⟨u, htu, hu, hgoal, hothers⟩ := hstep i t ht
      refine ⟨u, hst.trans htu, hu, fun j hj => ?_⟩
      by_cases hji : j = i
      · rw [hji]
        exact hgoal
      · rw [hothers j hji]
        exact hF j ((Finset.mem_insert.mp hj).resolve_left hji)
  obtain ⟨t, hst, ht, hgoal⟩ := hall Finset.univ
  exact ⟨t, hst, ht, fun i => hgoal i (Finset.mem_univ i)⟩

/-- Every step appends at most one event to the history. -/
def Appends (R : S → S → Prop) (log : S → List ε) : Prop :=
  ∀ s t, R s t → log t = log s ∨ ∃ event, log t = log s ++ [event]

variable {log : S → List ε}

theorem Appends.mono (hR : Appends R log) (hst : ReflTransGen R s t) : log s <+: log t := by
  refine keeps (I := fun t => log s <+: log t) (fun t u ih h => ?_) List.prefix_rfl hst
  rcases hR t u h with heq | ⟨event, heq⟩
  · rwa [heq]
  · rw [heq]
    exact ih.trans (List.prefix_append ..)

/-- **Every point of the history was a state.** The induction is on the steps; a
prefix of the history that is not one of the history before the last step is the
whole of it. -/
theorem Appends.exists_point (hR : Appends R log) (hst : ReflTransGen R s t)
    {point : List ε} (hs : log s <+: point) (ht : point <+: log t) :
    ∃ u, ReflTransGen R s u ∧ log u = point := by
  induction hst with
  | refl => exact ⟨s, .refl, hs.eq_of_length_le ht.length_le⟩
  | @tail t u hst h ih =>
    by_cases hpoint : point <+: log t
    · exact ih hpoint
    · refine ⟨u, hst.tail h, ?_⟩
      rcases hR t u h with heq | ⟨event, heq⟩
      · exact absurd (heq ▸ ht) hpoint
      · rw [heq, List.prefix_concat_iff] at ht
        rw [heq]
        exact (ht.resolve_right hpoint).symm

end History
