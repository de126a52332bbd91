/-
`StarterPistol`: a barrier that can be reset for another round.

Any number of threads call `ready`, and one that is not among them calls `reset`; their
steps come in any order. `trigger.wait` evaluates its condition, releases the mutex and
blocks in one step, and locks the mutex again after a wake-up, which may be spurious.
`reset` does not lock the mutex: it reads `racers` in one step and writes it in another.

No `ready` returns before all calls of its round have been made. But a thread that has
been woken looks at `racers` again, and by then `reset` may have written the number of
the next round, so that the thread waits for that round too: `reset` looks at `racers`
only, which is zero before those that wait have seen it.
-/
import Kaiu.Library.Exit
import Kaiu.Library.History
import Kaiu.Library.Mutex
import Mathlib.Data.List.Nodup
import Mathlib.Data.List.Perm.Subperm

set_option autoImplicit false

namespace Kaiu

open Exit Mutex Relation Function

namespace StarterPistol

/-- What `reset` throws. -/
inductive Error where
  | logic_error (what : String)
  deriving DecidableEq

/-- Where a thread stands in `ready`. -/
inductive Place where
  /-- About to lock the mutex. -/
  | ready
  /-- The mutex is locked, and `racers` is to be decremented. -/
  | counting
  /-- `racers` is zero, and `notify_all` is to be called. -/
  | firing
  /-- In `trigger.wait`, with the mutex locked; its condition is to be evaluated. -/
  | checking
  /-- In `trigger.wait`, about to release the mutex and to block at once. -/
  | waiting
  | blocked
  /-- Woken, and about to lock the mutex again. -/
  | woken
  /-- The mutex is to be unlocked, and `ready` returns. -/
  | leaving
  deriving DecidableEq

namespace Place

/-- The mutex is locked by the thread. -/
def critical : Place → Bool
  | counting | firing | checking | waiting | leaving => true
  | ready | blocked | woken => false

/-- The thread has not been counted. -/
def pending : Place → Bool
  | ready | counting => true
  | firing | checking | waiting | blocked | woken | leaving => false

/-- The thread is in `trigger.wait`. -/
def in_wait : Place → Bool
  | checking | waiting | blocked | woken => true
  | ready | counting | firing | leaving => false

/-- The thread knows that all have been counted. -/
def knows : Place → Bool
  | firing | leaving => true
  | ready | counting | checking | waiting | blocked | woken => false

/-- The thread may still call `notify_all`. -/
def may_notify : Place → Bool
  | ready | counting | firing => true
  | checking | waiting | blocked | woken | leaving => false

theorem may_notify_of_pending {place : Place} (h : place.pending) : place.may_notify := by
  cases place <;> first | rfl | cases h

end Place

/-- A thread: outside of `ready`, or in a call of `ready` that it has made in a round. -/
inductive Thread where
  | away
  | within (round : ℕ) (place : Place)
  deriving DecidableEq

namespace Thread

/-- The mutex is locked by the thread. -/
@[simp] def critical : Thread → Bool
  | away => false
  | within _ place => place.critical

/-- What `notify_all` does to a thread. -/
@[simp] def wake : Thread → Thread
  | within round .blocked => within round .woken
  | thread => thread

end Thread

/-- The thread that calls `reset`. -/
inductive Starter where
  | idle
  /-- `racers` was found to be zero, and `racers_` is to be written. -/
  | resetting (racers_ : ℤ)
  deriving DecidableEq

end StarterPistol

/-- The members of `StarterPistol`, and what the threads are doing. -/
structure StarterPistol (T : Type*) where
  racers : ℤ := 0
  trigger_mutex : Option T := none
  threads : T → StarterPistol.Thread := fun _ => .away
  starter : StarterPistol.Starter := .idle
  /-- Not in the source: the number of resets, which is the number of the round. -/
  round : ℕ := 0
  /-- Not in the source: the number of racers of each round. -/
  size : ℕ → ℤ := fun _ => 0
  /-- Not in the source: the threads that have called `ready` in each round, those that
  have been counted, and those to which `ready` has returned. -/
  called : ℕ → List T := fun _ => []
  counted : ℕ → List T := fun _ => []
  returned : ℕ → List T := fun _ => []

namespace StarterPistol

variable {T : Type*}

/-- `reset`, up to the write. -/
def reset (racers_ : ℤ) (s : StarterPistol T) : Ended (StarterPistol T) Error :=
  if s.racers ≠ 0 then throws s (.logic_error "Attempted to reset a pending starter pistol")
  else returns { s with starter := .resetting racers_ }

/-- The write of `reset`, with which the next round starts. -/
def write (racers_ : ℤ) (s : StarterPistol T) : StarterPistol T :=
  { s with
    racers := racers_
    starter := .idle
    round := s.round + 1
    size := update s.size (s.round + 1) racers_ }

section Steps

variable [DecidableEq T]

/-- A thread goes on. -/
def go (t : T) (thread : Thread) (s : StarterPistol T) : StarterPistol T :=
  { s with threads := update s.threads t thread }

/-- A thread locks the mutex. -/
def lock (t : T) (thread : Thread) (s : StarterPistol T) : StarterPistol T :=
  { s.go t thread with trigger_mutex := some t }

/-- A thread unlocks the mutex. -/
def unlock (t : T) (thread : Thread) (s : StarterPistol T) : StarterPistol T :=
  { s.go t thread with trigger_mutex := none }

/-- A thread calls `ready`. -/
def call (t : T) (s : StarterPistol T) : StarterPistol T :=
  { s.go t (.within s.round .ready) with
    called := update s.called s.round (s.called s.round ++ [t]) }

/-- `--racers == 0`. -/
def count (t : T) (round : ℕ) (s : StarterPistol T) : StarterPistol T :=
  { s.go t (.within round (if s.racers - 1 = 0 then .firing else .checking)) with
    racers := s.racers - 1
    counted := update s.counted round (s.counted round ++ [t]) }

/-- `trigger.notify_all()`. -/
def notify_all (s : StarterPistol T) : StarterPistol T :=
  { s with threads := fun t => (s.threads t).wake }

/-- `ready` returns. -/
def leave (t : T) (round : ℕ) (s : StarterPistol T) : StarterPistol T :=
  { s.unlock t .away with returned := update s.returned round (s.returned round ++ [t]) }

@[simp] theorem go_threads (t : T) (thread : Thread) (s : StarterPistol T) :
    (s.go t thread).threads = update s.threads t thread := rfl

omit [DecidableEq T] in
@[simp] theorem notify_all_threads (s : StarterPistol T) (t : T) :
    s.notify_all.threads t = (s.threads t).wake := rfl

variable (calls writes : StarterPistol T → Prop)

/-- The steps. A round has as many calls as there are racers, from different threads;
`calls` and `writes` say where a reset may begin, and where it may write. -/
inductive Step : StarterPistol T → StarterPistol T → Prop where
  | call (s : StarterPistol T) (t : T) (h : s.threads t = .away)
      (hcalled : (s.called s.round).length < s.size s.round) (hnew : t ∉ s.called s.round) :
      Step s (s.call t)
  | lock (s : StarterPistol T) (t : T) {round : ℕ} (h : s.threads t = .within round .ready)
      (hfree : s.trigger_mutex = none) : Step s (s.lock t (.within round .counting))
  | count (s : StarterPistol T) (t : T) {round : ℕ} (h : s.threads t = .within round .counting) :
      Step s (s.count t round)
  | notify_all (s : StarterPistol T) (t : T) {round : ℕ}
      (h : s.threads t = .within round .firing) :
      Step s (s.notify_all.go t (.within round .leaving))
  | waited (s : StarterPistol T) (t : T) {round : ℕ} (h : s.threads t = .within round .checking)
      (hracers : s.racers = 0) : Step s (s.go t (.within round .leaving))
  | wait (s : StarterPistol T) (t : T) {round : ℕ} (h : s.threads t = .within round .checking)
      (hracers : s.racers ≠ 0) : Step s (s.go t (.within round .waiting))
  | block (s : StarterPistol T) (t : T) {round : ℕ} (h : s.threads t = .within round .waiting) :
      Step s (s.unlock t (.within round .blocked))
  /-- A wake-up that nobody has asked for. -/
  | wake (s : StarterPistol T) (t : T) {round : ℕ} (h : s.threads t = .within round .blocked) :
      Step s (s.go t (.within round .woken))
  | relock (s : StarterPistol T) (t : T) {round : ℕ} (h : s.threads t = .within round .woken)
      (hfree : s.trigger_mutex = none) : Step s (s.lock t (.within round .checking))
  | leave (s : StarterPistol T) (t : T) {round : ℕ} (h : s.threads t = .within round .leaving) :
      Step s (s.leave t round)
  | reset (s : StarterPistol T) (racers_ : ℤ) (h : s.starter = .idle) (hracers_ : 1 ≤ racers_)
      (hcalls : calls s) : Step s (s.reset racers_).1
  | write (s : StarterPistol T) {racers_ : ℤ} (h : s.starter = .resetting racers_)
      (hwrites : writes s) : Step s (s.write racers_)

end Steps

/-- One of the calls of the round has returned, or there is no round. -/
def Returned (s : StarterPistol T) : Prop :=
  s.round = 0 ∨ s.returned s.round ≠ []

/-- No thread is in `trigger.wait`. -/
def NoneInWait (s : StarterPistol T) : Prop :=
  ∀ t round place, s.threads t = .within round place → place.in_wait = false

/-- A thread blocks, or is about to: all calls of its round have been made, and none of
those that have not returned is going to notify it. -/
def LeftWaiting (s : StarterPistol T) (t : T) : Prop :=
  ∃ round, (s.threads t = .within round .waiting ∨ s.threads t = .within round .blocked) ∧
    (s.called round).length = s.size round ∧
    ∀ u place, s.threads u = .within round place → place.may_notify = false

/-! ## The rounds -/

/-- All racers of a round have been counted. -/
def Full (s : StarterPistol T) (round : ℕ) : Prop :=
  (s.counted round).length = s.size round

/-- What is left to count; who has been counted, has called; a round begins when the one
before it is full, and its calls return when it is full itself. -/
structure Rounds (s : StarterPistol T) : Prop where
  racers : s.racers = s.size s.round - (s.counted s.round).length
  nodup_called : ∀ round, (s.called round).Nodup
  nodup_counted : ∀ round, (s.counted round).Nodup
  counted_subset : ∀ round, s.counted round ⊆ s.called round
  called_le : ∀ round, (s.called round).length ≤ s.size round
  future : ∀ round, s.round < round → s.called round = []
  past : ∀ round, round < s.round → s.Full round
  returned : ∀ round, s.returned round ≠ [] → round ≤ s.round ∧ s.Full round

/-- The threads in `ready` have called in their round, and are pending until they have
been counted; a thread that knows that all have been counted is right. -/
structure Inv (s : StarterPistol T) : Prop extends Rounds s where
  guards : Guards (Thread.critical ·) s.trigger_mutex s.threads
  caller : ∀ t round place, s.threads t = .within round place → t ∈ s.called round
  not_counted : ∀ t round place, s.threads t = .within round place → place.pending →
    t ∉ s.counted round
  pending : ∀ t round, t ∈ s.called round → t ∉ s.counted round →
    ∃ place, s.threads t = .within round place ∧ place.pending
  knows : ∀ t round place, s.threads t = .within round place → place.knows → s.Full round
  resetting : ∀ racers_, s.starter = .resetting racers_ → s.racers = 0 ∧ 1 ≤ racers_

variable {s s' : StarterPistol T} {t u : T} {round : ℕ} {place place' : Place}
  {calls writes : StarterPistol T → Prop}

/-- In a full round, those that have been counted are all that have called. -/
theorem Rounds.perm (h : Rounds s) (hfull : s.Full round) :
    (s.counted round).Perm (s.called round) := by
  refine ((h.nodup_counted round).subperm (h.counted_subset round)).perm_of_length_le ?_
  have hle := h.called_le round
  have heq : ((s.counted round).length : ℤ) = s.size round := hfull
  omega

theorem Rounds.called_eq (h : Rounds s) (hfull : s.Full round) :
    (s.called round).length = s.size round := by
  rw [← (h.perm hfull).length_eq]
  exact hfull

/-- Where all racers have called and some have not been counted, one of the callers has
not. -/
theorem Rounds.exists_not_counted (h : Rounds s) (hcalled : (s.called round).length = s.size round)
    (hnot : ¬ s.Full round) : ∃ t ∈ s.called round, t ∉ s.counted round := by
  by_contra hall
  have hsub : s.called round ⊆ s.counted round := by
    intro t ht
    by_contra hnot
    exact hall ⟨t, ht, hnot⟩
  have hle := ((h.nodup_called round).subperm hsub).length_le
  have hge := ((h.nodup_counted round).subperm (h.counted_subset round)).length_le
  refine hnot ?_
  unfold Full
  omega

theorem Rounds.full_iff (h : Rounds s) : s.Full s.round ↔ s.racers = 0 := by
  have hracers := h.racers
  unfold Full
  omega

/-- Threads are in a round that has begun. -/
theorem Inv.round_le (h : Inv s) (ht : s.threads t = .within round place) : round ≤ s.round := by
  by_contra hlt
  have hmem := h.caller t round place ht
  rw [h.future round (by omega)] at hmem
  cases hmem

/-- Threads that have not been counted are in the current round, which is not full. -/
theorem Inv.round_eq (h : Inv s) (ht : s.threads t = .within round place)
    (hplace : place.pending) : round = s.round ∧ s.racers ≠ 0 := by
  have hnot : ¬ s.Full round := fun hfull => h.not_counted t round place ht hplace
    ((h.perm hfull).mem_iff.mpr (h.caller t round place ht))
  have heq : round = s.round := by
    have hle := h.round_le ht
    by_contra hne
    exact hnot (h.past round (by omega))
  refine ⟨heq, fun hzero => hnot ?_⟩
  rw [heq, h.full_iff]
  exact hzero

/-- A thread that finds zero is in a full round. -/
theorem Inv.full_of_racers (h : Inv s) (ht : s.threads t = .within round place)
    (hracers : s.racers = 0) : s.Full round := by
  rcases Nat.lt_or_eq_of_le (h.round_le ht) with hlt | rfl
  · exact h.past round hlt
  · exact h.full_iff.mpr hracers

theorem inv_start : Inv ({} : StarterPistol T) where
  racers := rfl
  nodup_called _ := List.nodup_nil
  nodup_counted _ := List.nodup_nil
  counted_subset _ := List.Subset.refl _
  called_le _ := le_rfl
  future _ _ := rfl
  past round hlt := absurd hlt (Nat.not_lt_zero round)
  returned _ hreturned := absurd rfl hreturned
  guards t := iff_of_false Bool.false_ne_true (Option.some_ne_none t ∘ Eq.symm)
  caller t round place ht := by cases ht
  not_counted t round place ht := by cases ht
  pending t round ht := by cases ht
  knows t round place ht := by cases ht
  resetting racers_ hstarter := by cases hstarter

section Steps

variable [DecidableEq T]

/-- Where the threads are after one of them has gone on. -/
theorem within_update (t : T) (thread : Thread) (threads : T → Thread)
    (hu : update threads t thread u = .within round place) :
    u = t ∧ thread = .within round place ∨ u ≠ t ∧ threads u = .within round place := by
  by_cases heq : u = t
  · subst heq
    exact .inl ⟨rfl, (update_self ..).symm.trans hu⟩
  · exact .inr ⟨heq, (update_of_ne heq ..).symm.trans hu⟩

/-- A thread goes on in its round; who owns the mutex then is left to the caller. -/
theorem Inv.goes (h : Inv s) (ht : s.threads t = .within round place)
    (hpending : place'.pending = place.pending) (hknows : place'.knows → s.Full round)
    {owner : Option T}
    (hguards : Guards (Thread.critical ·) owner (update s.threads t (.within round place'))) :
    Inv { s.go t (.within round place') with trigger_mutex := owner } :=
  { h with
    guards := hguards
    caller := by
      intro u round' place₁ hu
      rcases within_update t _ _ hu with ⟨rfl, heq⟩ | ⟨-, hu⟩
      · cases heq
        exact h.caller _ _ _ ht
      · exact h.caller u round' place₁ hu
    not_counted := by
      intro u round' place₁ hu hplace
      rcases within_update t _ _ hu with ⟨rfl, heq⟩ | ⟨-, hu⟩
      · cases heq
        exact h.not_counted _ _ _ ht (hpending ▸ hplace)
      · exact h.not_counted u round' place₁ hu hplace
    pending := by
      intro u round' hcalled hnot
      obtain ⟨place₁, hu, hplace⟩ := h.pending u round' hcalled hnot
      by_cases heq : u = t
      · subst heq
        rw [ht] at hu
        cases hu
        exact ⟨place', update_self .., hpending.trans hplace⟩
      · exact ⟨place₁, (update_of_ne heq ..).trans hu, hplace⟩
    knows := by
      intro u round' place₁ hu hplace
      rcases within_update t _ _ hu with ⟨rfl, heq⟩ | ⟨-, hu⟩
      · cases heq
        exact hknows hplace
      · exact h.knows u round' place₁ hu hplace }

theorem Inv.go (h : Inv s) (ht : s.threads t = .within round place)
    (hplace : place'.pending = place.pending ∧ place'.critical = place.critical)
    (hknows : place'.knows → s.Full round) : Inv (s.go t (.within round place')) :=
  h.goes ht hplace.1 hknows (h.guards.move (by simp [ht, hplace.2]))

theorem Inv.lock (h : Inv s) (hfree : s.trigger_mutex = none)
    (ht : s.threads t = .within round place)
    (hplace : place'.pending = place.pending ∧ place'.critical) (hknows : place'.knows = false) :
    Inv (s.lock t (.within round place')) :=
  h.goes ht hplace.1 (fun hk => absurd hk (by simp [hknows]))
    ((hfree ▸ h.guards).lock (by simp [hplace.2]))

theorem Inv.unlock (h : Inv s) (ht : s.threads t = .within round place)
    (hplace : place'.pending = place.pending ∧ place.critical ∧ place'.critical = false)
    (hknows : place'.knows = false) : Inv (s.unlock t (.within round place')) :=
  h.goes ht hplace.1 (fun hk => absurd hk (by simp [hknows]))
    (h.guards.unlock (by simp [ht, hplace.2.1]) (by simp [hplace.2.2]))

/-- A thread calls `ready`: it was away, and is the last one to have called. -/
theorem Inv.call (h : Inv s) (ht : s.threads t = .away)
    (hcalled : (s.called s.round).length < s.size s.round) (hnew : t ∉ s.called s.round) :
    Inv (s.call t) := by
  have hsame : ∀ round, round ≠ s.round → (s.call t).called round = s.called round :=
    fun round hne => update_of_ne hne ..
  have hround : (s.call t).called s.round = s.called s.round ++ [t] := update_self ..
  have hsubset : ∀ round, s.called round ⊆ (s.call t).called round := by
    intro round
    by_cases heq : round = s.round
    · rw [heq, hround]
      exact List.subset_append_left ..
    · rw [hsame round heq]
      exact List.Subset.refl _
  exact {
    racers := h.racers
    nodup_called := by
      intro round
      by_cases heq : round = s.round
      · rw [heq, hround, ← List.concat_eq_append]
        exact (h.nodup_called s.round).concat hnew
      · rw [hsame round heq]
        exact h.nodup_called round
    nodup_counted := h.nodup_counted
    counted_subset := fun round => List.Subset.trans (h.counted_subset round) (hsubset round)
    called_le := by
      intro round
      by_cases heq : round = s.round
      · rw [heq, hround, List.length_append, List.length_singleton]
        exact hcalled
      · rw [hsame round heq]
        exact h.called_le round
    future := by
      intro round hlt
      rw [hsame round (Nat.ne_of_gt hlt)]
      exact h.future round hlt
    past := h.past
    returned := h.returned
    guards := h.guards.move (by simp [ht, Place.critical])
    caller := by
      intro u round place hu
      rcases within_update t _ _ hu with ⟨rfl, heq⟩ | ⟨-, hu⟩
      · cases heq
        rw [hround]
        exact List.mem_append_right _ (List.mem_singleton_self u)
      · exact hsubset round (h.caller u round place hu)
    not_counted := by
      intro u round place hu hplace
      rcases within_update t _ _ hu with ⟨rfl, heq⟩ | ⟨-, hu⟩
      · cases heq
        exact fun hcounted => hnew (h.counted_subset _ hcounted)
      · exact h.not_counted u round place hu hplace
    pending := by
      intro u round hcalled hnot
      by_cases heq : u = t
      · subst heq
        have hcurrent : round = s.round := by
          by_contra hne
          rw [hsame round hne] at hcalled
          obtain ⟨place, hu, -⟩ := h.pending u round hcalled hnot
          rw [ht] at hu
          cases hu
        exact ⟨.ready, by rw [hcurrent]; exact update_self .., rfl⟩
      · have hbefore : u ∈ s.called round := by
          by_cases hcurrent : round = s.round
          · rw [hcurrent, hround, List.mem_append, List.mem_singleton] at hcalled
            rw [hcurrent]
            exact hcalled.resolve_right heq
          · rwa [hsame round hcurrent] at hcalled
        obtain ⟨place, hu, hplace⟩ := h.pending u round hbefore hnot
        exact ⟨place, (update_of_ne heq ..).trans hu, hplace⟩
    knows := by
      intro u round place hu hplace
      rcases within_update t _ _ hu with ⟨rfl, heq⟩ | ⟨-, hu⟩
      · cases heq
        cases hplace
      · exact h.knows u round place hu hplace
    resetting := h.resetting }

/-- A thread is counted. -/
theorem Inv.count (h : Inv s) (ht : s.threads t = .within round .counting) :
    Inv (s.count t round) := by
  obtain ⟨rfl, hracers⟩ := h.round_eq ht rfl
  have hnot : t ∉ s.counted s.round := h.not_counted t _ _ ht rfl
  have hsame : ∀ round, round ≠ s.round → (s.count t s.round).counted round = s.counted round :=
    fun round hne => update_of_ne hne ..
  have hround : (s.count t s.round).counted s.round = s.counted s.round ++ [t] := update_self ..
  have hcounted : ∀ u ≠ t, ∀ round,
      u ∈ (s.count t s.round).counted round ↔ u ∈ s.counted round := by
    intro u hne round
    by_cases heq : round = s.round
    · rw [heq, hround, List.mem_append, List.mem_singleton, or_iff_left hne]
    · rw [hsame round heq]
  -- the last one to be counted finds zero
  have hlast : s.racers - 1 = 0 → (s.count t s.round).Full s.round := by
    intro hzero
    have heq := h.racers
    show (((s.count t s.round).counted s.round).length : ℤ) = s.size s.round
    rw [hround, List.length_append, List.length_singleton]
    push_cast
    omega
  have hfull : ∀ round, s.Full round → (s.count t s.round).Full round := by
    intro round hfull
    have hne : round ≠ s.round := by
      rintro rfl
      exact hracers (h.full_iff.mp hfull)
    unfold Full
    rw [hsame round hne]
    exact hfull
  have hplace : ∀ place, (if s.racers - 1 = 0 then Place.firing else .checking) = place →
      place.pending = false ∧ (place.knows → s.racers - 1 = 0) := by
    intro place hplace
    split at hplace <;> subst hplace
    · exact ⟨rfl, fun _ => by assumption⟩
    · exact ⟨rfl, fun hknows => by cases hknows⟩
  exact {
    racers := by
      show s.racers - 1 = s.size s.round - ((s.count t s.round).counted s.round).length
      rw [hround, h.racers, List.length_append, List.length_singleton]
      push_cast
      omega
    nodup_called := h.nodup_called
    nodup_counted := by
      intro round
      by_cases heq : round = s.round
      · rw [heq, hround, ← List.concat_eq_append]
        exact (h.nodup_counted s.round).concat hnot
      · rw [hsame round heq]
        exact h.nodup_counted round
    counted_subset := by
      intro round
      by_cases heq : round = s.round
      · rw [heq, hround]
        refine List.append_subset.mpr ⟨h.counted_subset s.round, fun u hu => ?_⟩
        rw [List.mem_singleton.mp hu]
        exact h.caller t _ _ ht
      · rw [hsame round heq]
        exact h.counted_subset round
    called_le := h.called_le
    future := h.future
    past := fun round hlt => hfull round (h.past round hlt)
    returned := fun round hreturned =>
      ⟨(h.returned round hreturned).1, hfull round (h.returned round hreturned).2⟩
    guards := h.guards.move (by
      rw [ht]
      show (if s.racers - 1 = 0 then Place.firing else .checking).critical = true ↔ true = true
      split <;> simp [Place.critical])
    caller := by
      intro u round place hu
      rcases within_update t _ _ hu with ⟨rfl, heq⟩ | ⟨-, hu⟩
      · cases heq
        exact h.caller _ _ _ ht
      · exact h.caller u round place hu
    not_counted := by
      intro u round place hu hpending
      rcases within_update t _ _ hu with ⟨rfl, heq⟩ | ⟨hne, hu⟩
      · cases heq
        rw [(hplace _ rfl).1] at hpending
        cases hpending
      · rw [hcounted u hne]
        exact h.not_counted u round place hu hpending
    pending := by
      intro u round hcalled hnot'
      have hne : u ≠ t := by
        rintro rfl
        by_cases heq : round = s.round
        · rw [heq, hround] at hnot'
          exact hnot' (List.mem_append_right _ (List.mem_singleton_self u))
        · rw [hsame round heq] at hnot'
          obtain ⟨place, hu, -⟩ := h.pending u round hcalled hnot'
          rw [ht] at hu
          cases hu
          exact heq rfl
      rw [hcounted u hne] at hnot'
      obtain ⟨place, hu, hpending⟩ := h.pending u round hcalled hnot'
      exact ⟨place, (update_of_ne hne ..).trans hu, hpending⟩
    knows := by
      intro u round place hu hknows
      rcases within_update t _ _ hu with ⟨rfl, heq⟩ | ⟨-, hu⟩
      · cases heq
        exact hlast ((hplace _ rfl).2 hknows)
      · exact hfull round (h.knows u round place hu hknows)
    resetting := fun racers_ hstarter => absurd (h.resetting racers_ hstarter).1 hracers }

omit [DecidableEq T] in
/-- All threads that are blocked are woken. -/
theorem Inv.notify_all (h : Inv s) : Inv s.notify_all := by
  have hwithin : ∀ {u round place}, s.notify_all.threads u = .within round place →
      ∃ place', s.threads u = .within round place' ∧ place'.pending = place.pending ∧
        place'.knows = place.knows ∧ place'.critical = place.critical := by
    intro u round place hu
    rw [notify_all_threads] at hu
    cases hthread : s.threads u with
    | away => rw [hthread] at hu; cases hu
    | within round' place' =>
      rw [hthread] at hu
      cases place' <;> cases hu <;> exact ⟨_, rfl, rfl, rfl, rfl⟩
  exact { h with
    guards := by
      intro u
      refine Iff.trans ?_ (h.guards u)
      cases hu : s.threads u with
      | away => simp [hu]
      | within round place => cases place <;> simp [hu, Place.critical]
    caller := by
      intro u round place hu
      obtain ⟨place', hu', -⟩ := hwithin hu
      exact h.caller u round place' hu'
    not_counted := by
      intro u round place hu hplace
      obtain ⟨place', hu', hpending, -⟩ := hwithin hu
      exact h.not_counted u round place' hu' (hpending.trans hplace)
    pending := by
      intro u round hcalled hnot
      obtain ⟨place, hu, hplace⟩ := h.pending u round hcalled hnot
      refine ⟨place, ?_, hplace⟩
      rw [notify_all_threads, hu]
      cases place <;> first | rfl | cases hplace
    knows := by
      intro u round place hu hplace
      obtain ⟨place', hu', -, hknows, -⟩ := hwithin hu
      exact h.knows u round place' hu' (hknows.trans hplace) }

/-- `ready` returns. -/
theorem Inv.leave (h : Inv s) (ht : s.threads t = .within round .leaving) :
    Inv (s.leave t round) :=
  { h with
    returned := by
      intro round' hreturned
      by_cases heq : round' = round
      · subst heq
        exact ⟨h.round_le ht, h.knows t _ _ ht rfl⟩
      · exact h.returned round' (by rwa [← update_of_ne heq (s.returned round ++ [t]) s.returned])
    guards := h.guards.unlock (by simp [ht, Place.critical]) (by simp)
    caller := by
      intro u round' place hu
      rcases within_update t _ _ hu with ⟨rfl, heq⟩ | ⟨-, hu⟩
      · cases heq
      · exact h.caller u round' place hu
    not_counted := by
      intro u round' place hu hplace
      rcases within_update t _ _ hu with ⟨rfl, heq⟩ | ⟨-, hu⟩
      · cases heq
      · exact h.not_counted u round' place hu hplace
    pending := by
      intro u round' hcalled hnot
      obtain ⟨place, hu, hplace⟩ := h.pending u round' hcalled hnot
      have hne : u ≠ t := by
        rintro rfl
        rw [ht] at hu
        cases hu
        cases hplace
      exact ⟨place, (update_of_ne hne ..).trans hu, hplace⟩
    knows := by
      intro u round' place hu hplace
      rcases within_update t _ _ hu with ⟨rfl, heq⟩ | ⟨-, hu⟩
      · cases heq
      · exact h.knows u round' place hu hplace }

omit [DecidableEq T] in
/-- The next round starts, as the one before it is full. -/
theorem Inv.write (h : Inv s) {racers_ : ℤ} (hracers_ : 1 ≤ racers_)
    (hracers : s.racers = 0) : Inv (s.write racers_) := by
  have hnext : s.called (s.round + 1) = [] := h.future _ (Nat.lt_succ_self _)
  have hcounted : s.counted (s.round + 1) = [] :=
    List.subset_nil.mp (hnext ▸ h.counted_subset (s.round + 1))
  have hsize : ∀ round, round ≠ s.round + 1 → (s.write racers_).size round = s.size round :=
    fun round hne => update_of_ne hne ..
  have hself : (s.write racers_).size (s.round + 1) = racers_ := update_self ..
  have hfull : ∀ round ≤ s.round, s.Full round → (s.write racers_).Full round := by
    intro round hle hfull
    unfold Full
    rw [hsize round (by omega)]
    exact hfull
  exact {
    racers := by
      show racers_ = (s.write racers_).size (s.round + 1) - (s.counted (s.round + 1)).length
      rw [hself, hcounted, List.length_nil]
      push_cast
      omega
    nodup_called := h.nodup_called
    nodup_counted := h.nodup_counted
    counted_subset := h.counted_subset
    called_le := by
      intro round
      by_cases heq : round = s.round + 1
      · subst heq
        show ((s.called (s.round + 1)).length : ℤ) ≤ (s.write racers_).size (s.round + 1)
        rw [hself, hnext, List.length_nil]
        push_cast
        omega
      · rw [hsize round heq]
        exact h.called_le round
    future := fun round hlt => h.future round (Nat.lt_of_succ_lt hlt)
    past := by
      intro round hlt
      have hle : round ≤ s.round := Nat.lt_succ_iff.mp hlt
      refine hfull round hle ?_
      rcases Nat.lt_or_eq_of_le hle with hlt | rfl
      · exact h.past round hlt
      · exact h.full_iff.mpr hracers
    returned := by
      intro round hreturned
      obtain ⟨hle, hfull'⟩ := h.returned round hreturned
      exact ⟨Nat.le_succ_of_le hle, hfull round hle hfull'⟩
    guards := h.guards
    caller := h.caller
    not_counted := h.not_counted
    pending := h.pending
    knows := fun u round place hu hplace =>
      hfull round (h.round_le hu) (h.knows u round place hu hplace)
    resetting := fun racers' hstarter => by cases hstarter }

omit [DecidableEq T] in
/-- A reset begins, if it does not throw. -/
theorem Inv.reset (h : Inv s) {racers_ : ℤ} (hracers_ : 1 ≤ racers_) :
    Inv (s.reset racers_).1 := by
  unfold StarterPistol.reset
  split
  · exact h
  · rename_i hracers
    rw [returns_fst]
    exact { h with
      resetting := by
        intro racers' hstarter
        cases hstarter
        exact ⟨not_not.mp hracers, hracers_⟩ }

/-- **Every step** keeps the invariant. -/
theorem Step.inv (h : Inv s) (hstep : Step calls writes s s') : Inv s' := by
  cases hstep with
  | call t ht hcalled hnew => exact h.call ht hcalled hnew
  | lock t ht hfree => exact h.lock hfree ht ⟨rfl, rfl⟩ rfl
  | count t ht => exact h.count ht
  | notify_all t ht =>
    have ht' := (notify_all_threads s t).trans (congrArg Thread.wake ht)
    exact h.notify_all.go ht' ⟨rfl, rfl⟩ fun _ => h.knows t _ _ ht rfl
  | waited t ht hracers => exact h.go ht ⟨rfl, rfl⟩ fun _ => h.full_of_racers ht hracers
  | wait t ht hracers => exact h.go ht ⟨rfl, rfl⟩ fun hknows => by cases hknows
  | block t ht => exact h.unlock ht ⟨rfl, rfl, rfl⟩ rfl
  | wake t ht => exact h.go ht ⟨rfl, rfl⟩ fun hknows => by cases hknows
  | relock t ht hfree => exact h.lock hfree ht ⟨rfl, rfl⟩ rfl
  | leave t ht => exact h.leave ht
  | reset racers_ hidle hracers_ hcalls => exact h.reset hracers_
  | write hresetting hwrites =>
    obtain ⟨hracers, hracers_⟩ := h.resetting _ hresetting
    exact h.write hracers_ hracers

/-- Fewer resets are fewer steps. -/
theorem Step.mono {calls' writes' : StarterPistol T → Prop} (hstep : Step calls writes s s')
    (hcalls : ∀ s, calls s → calls' s) (hwrites : ∀ s, writes s → writes' s) :
    Step calls' writes' s s' := by
  cases hstep with
  | reset racers_ h hracers_ hcall => exact .reset s racers_ h hracers_ (hcalls s hcall)
  | write h hwrite => exact .write s h (hwrites s hwrite)
  | _ => constructor <;> assumption

theorem inv_of_reachable (h : ReflTransGen (Step calls writes) {} s) : Inv s :=
  History.keeps (fun _ _ => Step.inv) inv_start h

/-! ## Runs in which no reset finds a thread in `wait` -/

/-- The threads in `trigger.wait` are in the current round, and a thread that blocks does
so because some are still to be counted, or is going to be woken. -/
structure Awaited (s : StarterPistol T) : Prop where
  current : ∀ t round place, s.threads t = .within round place → place.in_wait → round = s.round
  waiting : ∀ t round, s.threads t = .within round .waiting → s.racers ≠ 0
  blocked : ∀ t round, s.threads t = .within round .blocked →
    s.racers ≠ 0 ∨ ∃ u, s.threads u = .within s.round .firing

omit [DecidableEq T] in
theorem awaited_start : Awaited ({} : StarterPistol T) where
  current t round place ht := by cases ht
  waiting t round ht := by cases ht
  blocked t round ht := by cases ht

/-- A thread goes on that has nothing to notify. -/
theorem Awaited.goes (h : Awaited s) {thread : Thread}
    (ht : ∀ round, s.threads t ≠ .within round .firing)
    (hcurrent : ∀ round place, thread = .within round place → place.in_wait → round = s.round)
    (hracers : ∀ round, thread = .within round .waiting ∨ thread = .within round .blocked →
      s.racers ≠ 0) : Awaited (s.go t thread) where
  current u round place hu hplace := by
    rcases within_update t _ _ hu with ⟨rfl, heq⟩ | ⟨-, hu⟩
    · exact hcurrent round place heq hplace
    · exact h.current u round place hu hplace
  waiting u round hu := by
    rcases within_update t _ _ hu with ⟨rfl, heq⟩ | ⟨-, hu⟩
    · exact hracers round (.inl heq)
    · exact h.waiting u round hu
  blocked u round hu := by
    rcases within_update t _ _ hu with ⟨rfl, heq⟩ | ⟨-, hu⟩
    · exact .inl (hracers round (.inr heq))
    · refine (h.blocked u round hu).imp_right fun ⟨v, hv⟩ => ⟨v, ?_⟩
      have hne : v ≠ t := fun heq => ht s.round (heq ▸ hv)
      exact (update_of_ne hne ..).trans hv

/-- A thread that is in `wait` stays there. -/
theorem Awaited.go (h : Awaited s) (ht : s.threads t = .within round place)
    (hplace : place ≠ .firing ∧ (place'.in_wait → place.in_wait))
    (hracers : place' = .waiting ∨ place' = .blocked → s.racers ≠ 0) :
    Awaited (s.go t (.within round place')) := by
  refine h.goes (fun round' heq => hplace.1 ?_) (fun round' place₁ heq hin => ?_)
    fun round' heq => hracers ?_
  · rw [ht] at heq
    cases heq
    rfl
  · cases heq
    exact h.current t _ _ ht (hplace.2 hin)
  · rcases heq with heq | heq <;> cases heq
    · exact .inl rfl
    · exact .inr rfl

theorem Awaited.lock (h : Awaited s) (ht : s.threads t = .within round place)
    (hplace : place ≠ .firing ∧ (place'.in_wait → place.in_wait))
    (hracers : place' = .waiting ∨ place' = .blocked → s.racers ≠ 0) :
    Awaited (s.lock t (.within round place')) :=
  { h.go ht hplace hracers with }

theorem Awaited.unlock (h : Awaited s) (ht : s.threads t = .within round place)
    (hplace : place ≠ .firing ∧ (place'.in_wait → place.in_wait))
    (hracers : place' = .waiting ∨ place' = .blocked → s.racers ≠ 0) :
    Awaited (s.unlock t (.within round place')) :=
  { h.go ht hplace hracers with }

/-- A thread is counted; where it is the last one, it is going to notify. -/
theorem Awaited.count (h : Awaited s) (hinv : Inv s)
    (ht : s.threads t = .within round .counting) : Awaited (s.count t round) := by
  obtain ⟨rfl, -⟩ := hinv.round_eq ht rfl
  refine ⟨fun u round place hu hplace => ?_, fun u round hu => ?_, fun u round hu => ?_⟩
  · rcases within_update t _ _ hu with ⟨rfl, heq⟩ | ⟨-, hu⟩
    · cases heq
      rfl
    · exact h.current u round place hu hplace
  · rcases within_update t _ _ hu with ⟨rfl, heq⟩ | ⟨hne, hu⟩
    · split at heq <;> cases heq
    · -- only one thread has locked the mutex
      exact absurd (hinv.guards.eq (by simp [hu, Place.critical]) (by simp [ht, Place.critical])) hne
  · by_cases hzero : s.racers - 1 = 0
    · refine .inr ⟨t, ?_⟩
      show update s.threads t (.within s.round (if s.racers - 1 = 0 then .firing else .checking)) t
        = .within s.round .firing
      rw [update_self, if_pos hzero]
    · exact .inl hzero

/-- After `notify_all` no thread is blocked. -/
theorem Awaited.notify_all (h : Awaited s) :
    Awaited (s.notify_all.go t (.within round .leaving)) := by
  have hwake : ∀ {u round' place}, s.notify_all.threads u = .within round' place →
      place ≠ .blocked ∧ ∃ place', s.threads u = .within round' place' ∧
        place'.in_wait = place.in_wait ∧ (place = .waiting → place' = .waiting) := by
    intro u round' place hu
    rw [notify_all_threads] at hu
    cases hthread : s.threads u with
    | away => rw [hthread] at hu; cases hu
    | within round₁ place₁ =>
      rw [hthread] at hu
      cases place₁ <;> cases hu <;>
        exact ⟨by simp, _, rfl, rfl, fun heq => (by first | rfl | cases heq)⟩
  refine ⟨fun u round' place hu hplace => ?_, fun u round' hu => ?_, fun u round' hu => ?_⟩
  · rcases within_update t _ _ hu with ⟨rfl, heq⟩ | ⟨-, hu⟩
    · cases heq
      cases hplace
    · obtain ⟨-, place', hu', hin, -⟩ := hwake hu
      exact h.current u round' place' hu' (hin.trans hplace)
  · rcases within_update t _ _ hu with ⟨rfl, heq⟩ | ⟨-, hu⟩
    · cases heq
    · obtain ⟨-, place', hu', -, hwaiting⟩ := hwake hu
      exact h.waiting u round' (hwaiting rfl ▸ hu')
  · rcases within_update t _ _ hu with ⟨rfl, heq⟩ | ⟨-, hu⟩
    · cases heq
    · exact absurd rfl (hwake hu).1

/-- **Every step** of such a run keeps it. -/
theorem Step.awaited (hinv : Inv s) (h : Awaited s) (hstep : Step calls NoneInWait s s') :
    Awaited s' := by
  cases hstep with
  | call t ht hcalled hnew =>
    have hgo : Awaited (s.go t (.within s.round .ready)) :=
      h.goes (by simp [ht]) (fun round place heq hin => by cases heq; cases hin)
        fun round heq => by rcases heq with heq | heq <;> cases heq
    exact { hgo with }
  | lock t ht hfree => exact h.lock ht ⟨by simp, id⟩ (by simp)
  | count t ht => exact h.count hinv ht
  | notify_all t ht => exact h.notify_all
  | waited t ht hracers => exact h.go ht ⟨by simp, fun _ => rfl⟩ (by simp)
  | wait t ht hracers => exact h.go ht ⟨by simp, id⟩ fun _ => hracers
  | block t ht => exact h.unlock ht ⟨by simp, id⟩ fun _ => h.waiting t _ ht
  | wake t ht => exact h.go ht ⟨by simp, id⟩ (by simp)
  | relock t ht hfree => exact h.lock ht ⟨by simp, id⟩ (by simp)
  | leave t ht =>
    have hgo : Awaited (s.go t .away) :=
      h.goes (by simp [ht]) (fun round place heq => by cases heq)
        fun round heq => by rcases heq with heq | heq <;> cases heq
    exact { hgo with }
  | reset racers_ hidle hracers_ hcalls =>
    unfold StarterPistol.reset
    split
    · exact h
    · exact { h with }
  | write hresetting hwrites =>
    refine ⟨fun u round place hu hplace => ?_, fun u round hu => ?_, fun u round hu => ?_⟩
    · rw [hwrites u round place hu] at hplace
      cases hplace
    · cases hwrites u round _ hu
    · cases hwrites u round _ hu

theorem awaited_of_reachable (h : ReflTransGen (Step calls NoneInWait) {} s) :
    Inv s ∧ Awaited s :=
  History.keeps (I := fun s => Inv s ∧ Awaited s)
    (fun _ _ hs hstep => ⟨hstep.inv hs.1, hstep.awaited hs.1 hs.2⟩) ⟨inv_start, awaited_start⟩ h

omit [DecidableEq T] in
/-- A thread that is left waiting has found that some are still to be counted, and those
are not going to notify it. -/
theorem Awaited.not_leftWaiting (h : Awaited s) (hinv : Inv s) (t : T) : ¬ s.LeftWaiting t := by
  rintro ⟨round, ht, hcalled, hnobody⟩
  have hround : round = s.round := by
    rcases ht with ht | ht
    · exact h.current t round _ ht rfl
    · exact h.current t round _ ht rfl
  subst hround
  have hracers : s.racers ≠ 0 := by
    rcases ht with ht | ht
    · exact h.waiting t _ ht
    · refine (h.blocked t _ ht).resolve_right fun ⟨u, hu⟩ => ?_
      cases hnobody u _ hu
  -- one of the callers has not been counted, and will notify in the end
  obtain ⟨u, hu, hnot⟩ := hinv.exists_not_counted hcalled fun hfull =>
    hracers (hinv.full_iff.mp hfull)
  obtain ⟨place, hplace, hpending⟩ := hinv.pending u _ hu hnot
  exact Bool.false_ne_true
    ((hnobody u place hplace).symm.trans (Place.may_notify_of_pending hpending))

/-! ## A reset that finds a thread in `wait` -/

/-- A thread of an earlier round is in `trigger.wait`, as a round begins that is not full
and in which nobody has called. -/
structure Behind (s : StarterPistol T) (t : T) (round : ℕ) : Prop where
  inv : Inv s
  racers : s.racers ≠ 0
  earlier : round < s.round
  none_called : s.called s.round = []
  within : ∃ place, s.threads t = .within round place ∧ place.in_wait

omit [DecidableEq T] in
/-- Nobody is to be counted. -/
theorem Behind.not_pending (h : Behind s t round) {round' : ℕ}
    (hu : s.threads u = .within round' place) : place.pending = false := by
  by_contra hpending
  obtain ⟨rfl, -⟩ := h.inv.round_eq hu (by simpa using hpending)
  have hcalled := h.inv.caller u _ _ hu
  rw [h.none_called] at hcalled
  cases hcalled

omit [DecidableEq T] in
/-- A thread that blocks in an earlier round is left waiting if nobody is about to notify. -/
theorem Behind.leftWaiting (h : Behind s t round)
    (ht : s.threads t = .within round .waiting ∨ s.threads t = .within round .blocked)
    (hfiring : ∀ u, s.threads u ≠ .within round .firing) : s.LeftWaiting t := by
  refine ⟨round, ht, h.inv.called_eq (h.inv.past round h.earlier), fun u place hu => ?_⟩
  have hpending := h.not_pending hu
  cases place with
  | ready | counting => cases hpending
  | firing => exact absurd hu (hfiring u)
  | checking | waiting | blocked | woken | leaving => rfl

/-- The thread that has locked the mutex, and that is in `trigger.wait`, blocks. -/
theorem Behind.leftWaiting_of_owner (h : Behind s t round) (hmx : s.trigger_mutex = some t) :
    ∃ s', ReflTransGen (Step calls writes) s s' ∧ s'.LeftWaiting t := by
  obtain ⟨place, ht, hin⟩ := h.within
  have hcritical : (s.threads t).critical := (h.inv.guards t).mpr hmx
  -- it is the only one at a critical point
  have hfiring : ∀ u, s.threads u ≠ .within round .firing := by
    intro u hu
    have hcritical' : (s.threads u).critical := by simp [hu, Place.critical]
    obtain rfl := h.inv.guards.eq hcritical' hcritical
    rw [ht] at hu
    cases hu
    cases hin
  rw [ht] at hcritical
  cases place with
  | ready | counting | firing | leaving => cases hin
  | blocked | woken => cases hcritical
  | waiting => exact ⟨s, .refl, h.leftWaiting (.inl ht) hfiring⟩
  | checking =>
    have hstep : Step calls writes s (s.go t (.within round .waiting)) := .wait s t ht h.racers
    have hself : (s.go t (.within round .waiting)).threads t = .within round .waiting :=
      update_self ..
    refine ⟨_, .single hstep, Behind.leftWaiting ⟨hstep.inv h.inv, h.racers, h.earlier,
      h.none_called, _, hself, rfl⟩ (.inl hself) fun u hu => ?_⟩
    rcases within_update t _ _ hu with ⟨-, heq⟩ | ⟨-, hu⟩
    · cases heq
    · exact hfiring u hu

/-- Where nobody has locked the mutex, the thread blocks already, or wakes and locks it. -/
theorem Behind.leftWaiting_of_free (h : Behind s t round) (hmx : s.trigger_mutex = none) :
    ∃ s', ReflTransGen (Step calls writes) s s' ∧ s'.LeftWaiting t := by
  obtain ⟨place, ht, hin⟩ := h.within
  have hguards : Guards (Thread.critical ·) none s.threads := hmx ▸ h.inv.guards
  cases place with
  | ready | counting | firing | leaving => cases hin
  | checking | waiting => exact absurd (by simp [ht, Place.critical]) (hguards.not_critical t)
  | blocked =>
    refine ⟨s, .refl, h.leftWaiting (.inr ht) fun u hu => hguards.not_critical u ?_⟩
    simp [hu, Place.critical]
  | woken =>
    have hstep : Step calls writes s (s.lock t (.within round .checking)) := .relock s t ht hmx
    have hbehind : Behind (s.lock t (.within round .checking)) t round :=
      ⟨hstep.inv h.inv, h.racers, h.earlier, h.none_called, .checking, update_self .., rfl⟩
    obtain ⟨s', hrun, hleft⟩ : ∃ s', ReflTransGen (Step calls writes) _ s' ∧ s'.LeftWaiting t :=
      hbehind.leftWaiting_of_owner rfl
    exact ⟨s', .head hstep hrun, hleft⟩

/-- Another thread goes on. -/
theorem Behind.other (h : Behind s t round) (hne : t ≠ u) (hinv : Inv s') {thread : Thread}
    (hsame : s'.racers = s.racers ∧ s'.round = s.round ∧ s'.called = s.called)
    (hthreads : s'.threads = update s.threads u thread) : Behind s' t round := by
  obtain ⟨place, ht, hin⟩ := h.within
  exact ⟨hinv, hsame.1 ▸ h.racers, hsame.2.1 ▸ h.earlier,
    by rw [hsame.2.1, hsame.2.2]; exact h.none_called, place,
    by rw [hthreads]; exact (update_of_ne hne ..).trans ht, hin⟩

/-- Another thread calls `notify_all`: the thread is still in `trigger.wait`. -/
theorem Behind.notify_all (h : Behind s t round) (hne : t ≠ u) {round' : ℕ}
    (hinv : Inv (s.notify_all.go u (.within round' .leaving))) :
    Behind (s.notify_all.go u (.within round' .leaving)) t round := by
  obtain ⟨place, ht, hin⟩ := h.within
  refine ⟨hinv, h.racers, h.earlier, h.none_called, ?_⟩
  have ht' : (s.notify_all.go u (.within round' .leaving)).threads t = (s.threads t).wake :=
    update_of_ne hne ..
  rw [ht', ht]
  cases place with
  | blocked => exact ⟨.woken, rfl, rfl⟩
  | ready | counting | firing | checking | waiting | woken | leaving => exact ⟨_, rfl, hin⟩

/-- Another thread, which has locked the mutex, goes on until it has unlocked it. -/
theorem Behind.freed (h : Behind s t round) (hne : t ≠ u) (hmx : s.trigger_mutex = some u) :
    ∃ s', ReflTransGen (Step calls writes) s s' ∧ Behind s' t round ∧ s'.trigger_mutex = none := by
  have hcritical : (s.threads u).critical := (h.inv.guards u).mpr hmx
  cases hu : s.threads u with
  | away =>
    rw [hu] at hcritical
    cases hcritical
  | within round' place =>
    have hpending := h.not_pending hu
    rw [hu] at hcritical
    cases place with
    | ready | blocked | woken => cases hcritical
    | counting => cases hpending
    | leaving =>
      have hleave : Step calls writes s (s.leave u round') := .leave s u hu
      exact ⟨_, .single hleave, h.other hne (hleave.inv h.inv) ⟨rfl, rfl, rfl⟩ rfl, rfl⟩
    | waiting =>
      have hblock : Step calls writes s (s.unlock u (.within round' .blocked)) := .block s u hu
      exact ⟨_, .single hblock, h.other hne (hblock.inv h.inv) ⟨rfl, rfl, rfl⟩ rfl, rfl⟩
    | checking =>
      have hwait : Step calls writes s (s.go u (.within round' .waiting)) :=
        .wait s u hu h.racers
      have hblock : Step calls writes (s.go u (.within round' .waiting))
          ((s.go u (.within round' .waiting)).unlock u (.within round' .blocked)) :=
        .block _ u (update_self ..)
      have hbehind := h.other hne (hwait.inv h.inv) ⟨rfl, rfl, rfl⟩ rfl
      exact ⟨_, .head hwait (.single hblock),
        hbehind.other hne (hblock.inv hbehind.inv) ⟨rfl, rfl, rfl⟩ rfl, rfl⟩
    | firing =>
      have hnotify : Step calls writes s (s.notify_all.go u (.within round' .leaving)) :=
        .notify_all s u hu
      have hleave : Step calls writes (s.notify_all.go u (.within round' .leaving))
          ((s.notify_all.go u (.within round' .leaving)).leave u round') :=
        .leave _ u (update_self ..)
      have hbehind := h.notify_all hne (hnotify.inv h.inv)
      exact ⟨_, .head hnotify (.single hleave),
        hbehind.other hne (hleave.inv hbehind.inv) ⟨rfl, rfl, rfl⟩ rfl, rfl⟩

/-- **A thread that is behind can be left waiting**, as soon as the mutex is its own or
is free. -/
theorem Behind.exists_leftWaiting (h : Behind s t round) :
    ∃ s', ReflTransGen (Step calls writes) s s' ∧ s'.LeftWaiting t := by
  cases hmx : s.trigger_mutex with
  | none => exact h.leftWaiting_of_free hmx
  | some u =>
    by_cases hne : t = u
    · exact h.leftWaiting_of_owner (hne ▸ hmx)
    · obtain ⟨s', hrun, hbehind, hfree⟩ : ∃ s', ReflTransGen (Step calls writes) s s' ∧
        Behind s' t round ∧ s'.trigger_mutex = none := h.freed hne hmx
      obtain ⟨s'', hrun', hleft⟩ : ∃ s'', ReflTransGen (Step calls writes) s' s'' ∧
        s''.LeftWaiting t := hbehind.leftWaiting_of_free hfree
      exact ⟨s'', hrun.trans hrun', hleft⟩

omit [DecidableEq T] in
/-- A thread that a reset finds in `trigger.wait` is behind. -/
theorem Inv.behind (h : Inv s) {racers_ : ℤ} (hresetting : s.starter = .resetting racers_)
    (ht : s.threads t = .within round place) (hin : place.in_wait) :
    Behind (s.write racers_) t round := by
  obtain ⟨hracers, hracers_⟩ := h.resetting _ hresetting
  refine ⟨h.write hracers_ hracers, ?_, Nat.lt_succ_of_le (h.round_le ht),
    h.future _ (Nat.lt_succ_self _), place, ht, hin⟩
  show racers_ ≠ 0
  omega

end Steps

/-- **Rounds, and when they are separate.** In every run, no call returns before all calls
of its round have been made; and where the resets write when no thread is in
`trigger.wait`, no caller of a round in which all calls have been made is left waiting. A
reset that throws changes nothing, and where one writes with a thread in `trigger.wait`,
there is a run on which that thread is left waiting. -/
theorem rounds_of_none_in_wait [DecidableEq T] :
    (∀ (calls writes : StarterPistol T → Prop) (s : StarterPistol T),
      ReflTransGen (Step calls writes) {} s →
        ∀ round, s.returned round ≠ [] → (s.called round).length = s.size round) ∧
    (∀ (calls : StarterPistol T → Prop) (s : StarterPistol T),
      ReflTransGen (Step calls NoneInWait) {} s → ∀ t, ¬ s.LeftWaiting t) ∧
    (∀ (s : StarterPistol T) (racers_ : ℤ), s.racers ≠ 0 → s.reset racers_ =
      throws s (.logic_error "Attempted to reset a pending starter pistol")) ∧
    ∀ (calls writes : StarterPistol T → Prop) (s : StarterPistol T) (racers_ : ℤ) (t : T)
      (round : ℕ) (place : Place), ReflTransGen (Step calls writes) {} s →
        s.starter = .resetting racers_ → s.threads t = .within round place → place.in_wait →
        ∃ s', ReflTransGen (Step calls writes) (s.write racers_) s' ∧ s'.LeftWaiting t := by
  refine ⟨fun calls writes s h round hreturned => ?_, fun calls s h t => ?_,
    fun s racers_ hracers => if_pos hracers,
    fun calls writes s racers_ t round place h hresetting ht hin => ?_⟩
  · have hinv := inv_of_reachable h
    exact hinv.called_eq (hinv.returned round hreturned).2
  · obtain ⟨hinv, hawaited⟩ := awaited_of_reachable h
    exact hawaited.not_leftWaiting hinv t
  · exact ((inv_of_reachable h).behind hresetting ht hin).exists_leftWaiting

/-- Two racers: one has blocked, and the other one, which has come last, has returned. -/
def one_returned : StarterPistol Bool :=
  let first := (((((({} : StarterPistol Bool).reset 2).1.write 2).call false).lock
    false (.within 1 .counting)).count false 1).go false (.within 1 .waiting)
  let second := ((((first.unlock false (.within 1 .blocked)).call true).lock
    true (.within 1 .counting)).count true 1)
  (second.notify_all.go true (.within 1 .leaving)).leave true 1

theorem reaches_one_returned :
    ReflTransGen (Step Returned NoneInWait) {} one_returned := by
  refine .tail ?_ (.leave _ true rfl)
  refine .tail ?_ (.notify_all _ true rfl)
  refine .tail ?_ (.count _ true rfl)
  refine .tail ?_ (.lock _ true rfl rfl)
  refine .tail ?_ (.call _ true rfl (by decide) (by decide))
  refine .tail ?_ (.block _ false rfl)
  refine .tail ?_ (.wait _ false rfl (by decide))
  refine .tail ?_ (.count _ false rfl)
  refine .tail ?_ (.lock _ false rfl rfl)
  refine .tail ?_ (.call _ false rfl (by decide) (by decide))
  refine .tail ?_ (.write _ rfl fun t round place ht => by cases ht)
  exact .single (.reset _ 2 rfl (by decide) (.inl rfl))

/-- The call that has returned is one of two that have been made, and the other caller has
been woken: it may be left waiting if the pistol is reset now. -/
theorem rounds_of_none_in_wait_one_returned :
    one_returned.threads false = .within 1 .woken ∧ one_returned.called 1 = [false, true] ∧
      (one_returned.called 1).length = one_returned.size 1 ∧
      (∀ t, ¬ one_returned.LeftWaiting t) ∧
      ∃ s', ReflTransGen (Step Returned NoneInWait) ((one_returned.reset 1).1.write 1) s' ∧
        s'.LeftWaiting false := by
  obtain ⟨hcalled, hnone, -, hleft⟩ := rounds_of_none_in_wait (T := Bool)
  have hreset : Step Returned NoneInWait one_returned (one_returned.reset 1).1 :=
    .reset _ 1 rfl (by decide) (.inr (List.cons_ne_nil true []))
  refine ⟨rfl, rfl, ?_, hnone Returned _ reaches_one_returned, ?_⟩
  · exact hcalled Returned NoneInWait _ reaches_one_returned 1 (List.cons_ne_nil true [])
  · exact hleft Returned NoneInWait _ 1 false 1 .woken (reaches_one_returned.tail hreset) rfl rfl rfl

/-- The pistol is reset for a single racer, before the caller that has been woken sees
zero: it waits again. -/
def reset_too_early : StarterPistol Bool :=
  ((((one_returned.reset 1).1.write 1).lock false (.within 1 .checking)).go
    false (.within 1 .waiting))

theorem reaches_reset_too_early :
    ReflTransGen (Step Returned fun _ => True) {} reset_too_early := by
  refine .tail ?_ (.wait _ false rfl (by decide))
  refine .tail ?_ (.relock _ false rfl rfl)
  refine .tail ?_ (.write _ rfl trivial)
  refine .tail ?_ (.reset _ 1 rfl (by decide) (.inr (List.cons_ne_nil true [])))
  have hmore : ∀ s s' : StarterPistol Bool, Step Returned NoneInWait s s' →
      Step Returned (fun _ => True) s s' :=
    fun _ _ hstep => hstep.mono (fun _ => id) fun _ _ => trivial
  exact ReflTransGen.mono hmore _ _ reaches_one_returned

/-- A caller of the first round is left waiting by the second one. -/
theorem left_waiting_of_reset :
    ¬ ∀ s : StarterPistol Bool, ReflTransGen (Step Returned fun _ => True) {} s →
      (∀ round, s.returned round ≠ [] → (s.called round).length = s.size round) ∧
        ∀ t, ¬ s.LeftWaiting t := by
  intro hall
  refine (hall _ reaches_reset_too_early).2 false ⟨1, .inl rfl, rfl, fun u place hu => ?_⟩
  cases u <;> cases hu
  rfl

end StarterPistol
end Kaiu
