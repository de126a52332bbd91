/-
`lock_many`: a number of mutexes, locked without a deadlock.

Any number of threads construct and destroy `lock_many` objects, each time over a list
of mutexes of its own; every step is one call of `lock`, `try_lock` or `unlock` of one
thread, and the steps come in any order. A call of `try_lock` may fail where the mutex
is free, as that of `std::mutex` may.

A pass of the constructor starts with the mutex that the pass before it has failed to
lock, and that is the only mutex for which it blocks: nothing is owned then.
-/
import Kaiu.Library.History
import Kaiu.Library.Mutex
import Mathlib.Data.List.Count
import Mathlib.Data.List.Nodup
import Mathlib.Data.Nat.ModEq

set_option autoImplicit false

namespace Kaiu

open Mutex Relation Function

/-- `std::unique_lock<std::mutex>`. -/
structure unique_lock (M : Type*) where
  mutex : M
  owns : Bool
  deriving DecidableEq

/-- `std::defer_lock`. -/
def defer_lock {M : Type*} (mutex : M) : unique_lock M :=
  { mutex := mutex, owns := false }

namespace LockMany

/-- Where a thread stands with its `lock_many`. -/
inductive Point where
  /-- In the `for` loop of the constructor. -/
  | locking (start counter : ℕ)
  /-- About to look at `locks[i]` and to unlock it if it is owned: in the constructor,
  which goes on with a pass from `next`, or in the destructor. -/
  | unlocking (next : Option ℕ) (i : ℕ)
  /-- The constructor has returned. -/
  | constructed
  /-- The constructor has thrown what `unique_lock` throws if it owns its mutex already. -/
  | threw
  deriving DecidableEq

/-- A thread: outside of `lock_many`, or with an object for the mutexes `range`. -/
inductive Thread (M : Type*) where
  | outside
  | within (range : List M) (locks : List (unique_lock M)) (point : Point)

end LockMany

/-- The owners of the mutexes, and the threads. -/
structure LockMany (T M : Type*) where
  owner : M → Option T
  threads : T → LockMany.Thread M

namespace LockMany

variable {T M : Type*}

/-- The threads are outside of `lock_many`, and no mutex is owned. -/
def start : LockMany T M where
  owner _ := none
  threads _ := .outside

/-- The index `i` of the `for` loop. -/
def index (locks : List (unique_lock M)) (start counter : ℕ) : ℕ :=
  (start + counter) % locks.length

section Steps

variable [DecidableEq T] [DecidableEq M]

/-- A thread goes on. -/
def go (s : LockMany T M) (t : T) (thread : Thread M) : LockMany T M :=
  { s with threads := update s.threads t thread }

/-- The mutex `m` has a new owner, or none, as a thread goes on. -/
def own (s : LockMany T M) (m : M) (owner : Option T) (t : T) (thread : Thread M) :
    LockMany T M where
  owner := update s.owner m owner
  threads := update s.threads t thread

/-- The steps of a thread. -/
inductive Step : LockMany T M → LockMany T M → Prop where
  /-- The constructor, up to the first pass: there is none if there is no mutex. -/
  | construct (s : LockMany T M) (t : T) (range : List M) (hrange : range.Nodup)
      (h : s.threads t = .outside) :
      Step s (s.go t (.within range (range.map defer_lock)
        (if range.length = 0 then .constructed else .locking 0 0)))
  /-- `lock.lock()` gets the first mutex of a pass. -/
  | lock (s : LockMany T M) (t : T) {range : List M} {locks : List (unique_lock M)} {start : ℕ}
      {m : M} (h : s.threads t = .within range locks (.locking start 0))
      (hlock : locks[index locks start 0]? = some ⟨m, false⟩) (hfree : s.owner m = none) :
      Step s (s.own m (some t) t
        (.within range (locks.set (index locks start 0) ⟨m, true⟩) (.locking start 1)))
  /-- `lock.try_lock()` gets one of the others. -/
  | try_lock (s : LockMany T M) (t : T) {range : List M} {locks : List (unique_lock M)}
      {start counter : ℕ} {m : M} (h : s.threads t = .within range locks (.locking start counter))
      (hcounter : 0 < counter ∧ counter < locks.length)
      (hlock : locks[index locks start counter]? = some ⟨m, false⟩) (hfree : s.owner m = none) :
      Step s (s.own m (some t) t
        (.within range (locks.set (index locks start counter) ⟨m, true⟩)
          (.locking start (counter + 1))))
  /-- `lock.try_lock()` fails. -/
  | try_lock_fails (s : LockMany T M) (t : T) {range : List M} {locks : List (unique_lock M)}
      {start counter : ℕ} {m : M} (h : s.threads t = .within range locks (.locking start counter))
      (hcounter : 0 < counter ∧ counter < locks.length)
      (hlock : locks[index locks start counter]? = some ⟨m, false⟩) :
      Step s (s.go t (.within range locks (.unlocking (some (index locks start counter)) 0)))
  /-- `lock.lock()` and `lock.try_lock()` throw. -/
  | throws (s : LockMany T M) (t : T) {range : List M} {locks : List (unique_lock M)}
      {start counter : ℕ} {m : M} (h : s.threads t = .within range locks (.locking start counter))
      (hcounter : counter < locks.length)
      (hlock : locks[index locks start counter]? = some ⟨m, true⟩) :
      Step s (s.go t (.within range locks .threw))
  /-- The `for` loop ends without a failure, and the constructor returns. -/
  | returns (s : LockMany T M) (t : T) {range : List M} {locks : List (unique_lock M)}
      {start counter : ℕ} (h : s.threads t = .within range locks (.locking start counter))
      (hcounter : ¬ counter < locks.length) :
      Step s (s.go t (.within range locks .constructed))
  /-- The destructor is called. -/
  | destroy (s : LockMany T M) (t : T) {range : List M} {locks : List (unique_lock M)}
      (h : s.threads t = .within range locks .constructed) :
      Step s (s.go t (.within range locks (.unlocking none 0)))
  /-- `locks[i]` owns its mutex, which is unlocked. -/
  | unlock (s : LockMany T M) (t : T) {range : List M} {locks : List (unique_lock M)}
      {next : Option ℕ} {i : ℕ} {m : M}
      (h : s.threads t = .within range locks (.unlocking next i))
      (hlock : locks[i]? = some ⟨m, true⟩) :
      Step s (s.own m none t
        (.within range (locks.set i ⟨m, false⟩) (.unlocking next (i + 1))))
  /-- `locks[i]` does not own its mutex. -/
  | pass (s : LockMany T M) (t : T) {range : List M} {locks : List (unique_lock M)}
      {next : Option ℕ} {i : ℕ} {m : M}
      (h : s.threads t = .within range locks (.unlocking next i))
      (hlock : locks[i]? = some ⟨m, false⟩) :
      Step s (s.go t (.within range locks (.unlocking next (i + 1))))
  /-- All have been unlocked in the constructor, and the next pass starts. -/
  | restart (s : LockMany T M) (t : T) {range : List M} {locks : List (unique_lock M)}
      {start i : ℕ} (h : s.threads t = .within range locks (.unlocking (some start) i))
      (hi : locks[i]? = none) :
      Step s (s.go t (.within range locks (.locking start 0)))
  /-- All have been unlocked in the destructor. -/
  | destroyed (s : LockMany T M) (t : T) {range : List M} {locks : List (unique_lock M)}
      {i : ℕ} (h : s.threads t = .within range locks (.unlocking none i))
      (hi : locks[i]? = none) :
      Step s (s.go t .outside)

end Steps

/-- A thread is in `lock()`, for the mutex `m`: it goes on when nobody owns `m`. -/
def Locking (s : LockMany T M) (t : T) (m : M) : Prop :=
  ∃ range locks start owns, s.threads t = .within range locks (.locking start 0) ∧
    locks[index locks start 0]? = some ⟨m, owns⟩

/-- A thread blocks in `lock()`, on a mutex that `u` owns. -/
def BlockedOn (s : LockMany T M) (t u : T) : Prop :=
  WaitsFor s.owner s.Locking t u

/-! ## The indices of a pass -/

variable {locks : List (unique_lock M)} {first counter c i : ℕ}

theorem index_lt (hlocks : 0 < locks.length) : index locks first counter < locks.length :=
  Nat.mod_lt _ hlocks

/-- A pass does not come to an index twice. -/
theorem index_ne (hc : c < counter) (hcounter : counter < locks.length) :
    index locks first c ≠ index locks first counter := by
  intro heq
  have hmod : c ≡ counter [MOD locks.length] := Nat.ModEq.add_left_cancel' first heq
  exact hc.ne (hmod.eq_of_lt_of_lt (hc.trans hcounter) hcounter)

/-- A whole pass comes to every index: to `i` when it has made as many steps as there
are from `first` to `i`, around the end of the list. -/
theorem exists_index (hfirst : first < locks.length) (hi : i < locks.length) :
    ∃ c < locks.length, index locks first c = i := by
  rcases Nat.lt_or_ge i first with hlt | hge
  · refine ⟨i + locks.length - first, by omega, ?_⟩
    rw [index, show first + (i + locks.length - first) = i + locks.length by omega,
      Nat.add_mod_right, Nat.mod_eq_of_lt hi]
  · refine ⟨i - first, by omega, ?_⟩
    rw [index, Nat.add_sub_cancel' hge, Nat.mod_eq_of_lt hi]

/-! ## The objects of a thread -/

/-- `locks[i]` owns its mutex. -/
def Owns (locks : List (unique_lock M)) (i : ℕ) : Prop :=
  ∃ m, locks[i]? = some ⟨m, true⟩

/-- `m` is owned by one of the objects. -/
def OwnedBy (locks : List (unique_lock M)) (m : M) : Prop :=
  ∃ i : ℕ, locks[i]? = some ⟨m, true⟩

variable {m m' : M} {b b' : Bool}

theorem owns_set (h : locks[i]? = some ⟨m, b⟩) {j : ℕ} :
    Owns (locks.set i ⟨m, b'⟩) j ↔ if j = i then b' = true else Owns locks j := by
  have hi : i < locks.length := (List.getElem?_eq_some_iff.mp h).1
  unfold Owns
  by_cases hj : j = i
  · subst hj
    simp [List.getElem?_set_self hi]
  · rw [if_neg hj, List.getElem?_set_ne (Ne.symm hj)]

theorem map_mutex_set (h : locks[i]? = some ⟨m, b⟩) :
    (locks.set i ⟨m, b'⟩).map unique_lock.mutex = locks.map unique_lock.mutex := by
  refine List.ext_getElem? fun j => ?_
  by_cases hj : i = j
  · subst hj
    have hi : i < locks.length := (List.getElem?_eq_some_iff.mp h).1
    rw [List.getElem?_map, List.getElem?_map, List.getElem?_set_self hi, h]
    rfl
  · rw [List.getElem?_map, List.getElem?_map, List.getElem?_set_ne hj]

/-- Distinct objects are for distinct mutexes. -/
theorem index_eq_of_mutex_eq (hnodup : (locks.map unique_lock.mutex).Nodup) {j : ℕ}
    (hi : locks[i]? = some ⟨m, b⟩) (hj : locks[j]? = some ⟨m, b'⟩) : i = j := by
  have hlt : i < (locks.map unique_lock.mutex).length := by
    simpa using (List.getElem?_eq_some_iff.mp hi).1
  refine (List.getElem?_inj hlt hnodup).mp ?_
  rw [List.getElem?_map, List.getElem?_map, hi, hj]
  rfl

theorem ownedBy_set_true (h : locks[i]? = some ⟨m, b⟩) :
    OwnedBy (locks.set i ⟨m, true⟩) m' ↔ m' = m ∨ OwnedBy locks m' := by
  have hi : i < locks.length := (List.getElem?_eq_some_iff.mp h).1
  constructor
  · rintro ⟨j, hj⟩
    by_cases hij : i = j
    · subst hij
      rw [List.getElem?_set_self hi, Option.some_inj, unique_lock.mk.injEq] at hj
      exact .inl hj.1.symm
    · rw [List.getElem?_set_ne hij] at hj
      exact .inr ⟨j, hj⟩
  · rintro (rfl | ⟨j, hj⟩)
    · exact ⟨i, List.getElem?_set_self hi⟩
    · by_cases hij : i = j
      · subst hij
        rw [h, Option.some_inj, unique_lock.mk.injEq] at hj
        exact ⟨i, hj.1 ▸ List.getElem?_set_self hi⟩
      · exact ⟨j, (List.getElem?_set_ne hij).trans hj⟩

theorem ownedBy_set_false (hnodup : (locks.map unique_lock.mutex).Nodup)
    (h : locks[i]? = some ⟨m, b⟩) :
    OwnedBy (locks.set i ⟨m, false⟩) m' ↔ OwnedBy locks m' ∧ m' ≠ m := by
  have hi : i < locks.length := (List.getElem?_eq_some_iff.mp h).1
  constructor
  · rintro ⟨j, hj⟩
    by_cases hij : i = j
    · subst hij
      rw [List.getElem?_set_self hi, Option.some_inj, unique_lock.mk.injEq] at hj
      exact absurd hj.2 Bool.false_ne_true
    · rw [List.getElem?_set_ne hij] at hj
      refine ⟨⟨j, hj⟩, ?_⟩
      rintro rfl
      exact hij (index_eq_of_mutex_eq hnodup h hj)
  · rintro ⟨⟨j, hj⟩, hne⟩
    refine ⟨j, ?_⟩
    by_cases hij : i = j
    · subst hij
      rw [h, Option.some_inj, unique_lock.mk.injEq] at hj
      exact absurd hj.1.symm hne
    · exact (List.getElem?_set_ne hij).trans hj

/-! ## The invariant -/

/-- What is owned at the points of the code: in a pass, what the pass has come to. -/
def AtPoint (locks : List (unique_lock M)) : Point → Prop
  | .locking start counter =>
    start < locks.length ∧ counter ≤ locks.length ∧
      ∀ i, Owns locks i ↔ ∃ c < counter, index locks start c = i
  | .unlocking next i => (∀ start ∈ next, start < locks.length) ∧ ∀ j < i, ¬ Owns locks j
  | .constructed => ∀ i < locks.length, Owns locks i
  | .threw => False

/-- A thread owns `own`, and its objects know it. -/
structure Holds (own : Set M) (range : List M) (locks : List (unique_lock M)) (point : Point) :
    Prop where
  mutexes : locks.map unique_lock.mutex = range
  nodup : range.Nodup
  owned : ∀ m, m ∈ own ↔ OwnedBy locks m
  at_point : AtPoint locks point

/-- A thread is at a point of its code, with what it owns there. -/
def Fits (own : Set M) : Thread M → Prop
  | .outside => own = ∅
  | .within range locks point => Holds own range locks point

/-- Every thread owns what belongs to the point of its code. -/
def Inv (s : LockMany T M) : Prop :=
  ∀ t, Fits (owned s.owner t) (s.threads t)

variable {own : Set M} {range : List M} {next : Option ℕ} {point : Point}

/-- A thread that is about to block owns nothing. -/
theorem Holds.own_empty (h : Holds own range locks (.locking first 0)) : own = ∅ := by
  refine Set.eq_empty_of_forall_notMem fun m hm => ?_
  obtain ⟨i, hi⟩ := (h.owned m).mp hm
  obtain ⟨c, hc, -⟩ := (h.at_point.2.2 i).mp ⟨m, hi⟩
  exact Nat.not_lt_zero c hc

theorem Holds.moves (h : Holds own range locks point) {point' : Point}
    (hpoint : AtPoint locks point') : Holds own range locks point' :=
  { h with at_point := hpoint }

/-- An object has locked its mutex. -/
theorem Holds.lock (h : Holds own range locks (.locking first counter))
    (hcounter : counter < locks.length)
    (hlock : locks[index locks first counter]? = some ⟨m, false⟩) :
    Holds (insert m own) range (locks.set (index locks first counter) ⟨m, true⟩)
      (.locking first (counter + 1)) where
  mutexes := (map_mutex_set hlock).trans h.mutexes
  nodup := h.nodup
  owned m' := by rw [Set.mem_insert_iff, ownedBy_set_true hlock, h.owned m']
  at_point := by
    obtain ⟨hfirst, -, howns⟩ := h.at_point
    refine ⟨by rwa [List.length_set], by rwa [List.length_set], fun i => ?_⟩
    have hindex : ∀ c, index (locks.set (index locks first counter) ⟨m, true⟩) first c
        = index locks first c := fun c => by rw [index, List.length_set, index]
    simp only [hindex]
    rw [owns_set hlock]
    by_cases hi : i = index locks first counter
    · rw [if_pos hi]
      exact iff_of_true rfl ⟨counter, Nat.lt_succ_self counter, hi.symm⟩
    · rw [if_neg hi, howns i]
      constructor
      · rintro ⟨c, hc, hci⟩
        exact ⟨c, Nat.lt_succ_of_lt hc, hci⟩
      · rintro ⟨c, hc, hci⟩
        rcases Nat.lt_succ_iff_lt_or_eq.mp hc with hc | rfl
        · exact ⟨c, hc, hci⟩
        · exact absurd hci.symm hi

/-- The object that a pass comes to does not own its mutex. -/
theorem Holds.not_owns (h : Holds own range locks (.locking first counter))
    (hcounter : counter < locks.length) : ¬ Owns locks (index locks first counter) := by
  intro howns
  obtain ⟨c, hc, heq⟩ := (h.at_point.2.2 _).mp howns
  exact index_ne hc hcounter heq

/-- A pass that has come to the end owns all mutexes. -/
theorem Holds.constructed (h : Holds own range locks (.locking first counter))
    (hcounter : ¬ counter < locks.length) : Holds own range locks .constructed := by
  refine h.moves fun i hi => ?_
  obtain ⟨hfirst, -, howns⟩ := h.at_point
  obtain ⟨c, hc, heq⟩ := exists_index hfirst hi
  exact (howns i).mpr ⟨c, hc.trans_le (Nat.le_of_not_lt hcounter), heq⟩

/-- An object has unlocked its mutex. -/
theorem Holds.unlock (h : Holds own range locks (.unlocking next i))
    (hlock : locks[i]? = some ⟨m, true⟩) :
    Holds (own \ {m}) range (locks.set i ⟨m, false⟩) (.unlocking next (i + 1)) where
  mutexes := (map_mutex_set hlock).trans h.mutexes
  nodup := h.nodup
  owned m' := by
    rw [Set.mem_sdiff, Set.mem_singleton_iff, ownedBy_set_false (h.mutexes ▸ h.nodup) hlock,
      h.owned m']
  at_point := by
    obtain ⟨hnext, hunlocked⟩ := h.at_point
    refine ⟨by rwa [List.length_set], fun j hj => ?_⟩
    rw [owns_set hlock]
    by_cases hij : j = i
    · simp [hij]
    · rw [if_neg hij]
      exact hunlocked j (by omega)

theorem Holds.pass (h : Holds own range locks (.unlocking next i))
    (hlock : locks[i]? = some ⟨m, false⟩) : Holds own range locks (.unlocking next (i + 1)) := by
  obtain ⟨hnext, hunlocked⟩ := h.at_point
  refine h.moves ⟨hnext, fun j hj => ?_⟩
  rcases Nat.lt_succ_iff_lt_or_eq.mp hj with hj | rfl
  · exact hunlocked j hj
  · rintro ⟨m', hm'⟩
    simp [hlock] at hm'

/-- At the end of the loop that unlocks, nothing is owned. -/
theorem Holds.unlocked (h : Holds own range locks (.unlocking next i)) (hi : locks[i]? = none) :
    ∀ j, ¬ Owns locks j := by
  rintro j ⟨m, hm⟩
  have hj : j < locks.length := (List.getElem?_eq_some_iff.mp hm).1
  exact h.at_point.2 j (hj.trans_le (List.getElem?_eq_none_iff.mp hi)) ⟨m, hm⟩

/-- What the constructor starts with. -/
theorem Holds.construct (hrange : range.Nodup) : Holds (∅ : Set M) range (range.map defer_lock)
    (if range.length = 0 then .constructed else .locking 0 0) where
  mutexes := by rw [List.map_map]; exact List.map_id _
  nodup := hrange
  owned m := by
    refine iff_of_false (Set.notMem_empty m) ?_
    rintro ⟨i, hi⟩
    simp [defer_lock] at hi
  at_point := by
    by_cases hempty : range.length = 0
    · rw [if_pos hempty]
      intro i hi
      rw [List.length_map, hempty] at hi
      exact absurd hi (Nat.not_lt_zero i)
    · rw [if_neg hempty]
      refine ⟨by rw [List.length_map]; exact Nat.pos_of_ne_zero hempty, Nat.zero_le _, fun i => ?_⟩
      refine iff_of_false ?_ fun ⟨c, hc, _⟩ => Nat.not_lt_zero c hc
      rintro ⟨m, hm⟩
      simp [defer_lock] at hm

theorem Holds.index_lt (h : Holds own range locks (.locking first counter)) :
    index locks first counter < locks.length :=
  LockMany.index_lt (Nat.zero_lt_of_lt h.at_point.1)

variable {s s' : LockMany T M} {t : T} {thread : Thread M}

theorem inv_start : Inv (start : LockMany T M) :=
  fun _ => Set.eq_empty_of_forall_notMem fun _ => Option.some_ne_none _ ∘ Eq.symm

theorem Inv.holds (h : Inv s) (ht : s.threads t = .within range locks point) :
    Holds (owned s.owner t) range locks point := by
  have hfits := h t
  rwa [ht] at hfits

/-! ## The steps keep it -/

section Steps

variable [DecidableEq T] [DecidableEq M]

omit [DecidableEq M] in
theorem Inv.go (h : Inv s) (ht : Fits (owned s.owner t) thread) : Inv (s.go t thread) := by
  intro u
  by_cases hu : u = t
  · subst hu
    simpa [LockMany.go] using ht
  · simpa [LockMany.go, hu] using h u

theorem Inv.lock (h : Inv s) (hfree : s.owner m = none)
    (ht : Fits (insert m (owned s.owner t)) thread) : Inv (s.own m (some t) t thread) := by
  intro u
  by_cases hu : u = t
  · subst hu
    simpa [LockMany.own, owned_lock] using ht
  · simpa [LockMany.own, hu, owned_lock_of_ne hfree hu] using h u

theorem Inv.unlock (h : Inv s) (howner : s.owner m = some t)
    (ht : Fits (owned s.owner t \ {m}) thread) : Inv (s.own m none t thread) := by
  intro u
  by_cases hu : u = t
  · subst hu
    simpa [LockMany.own, owned_unlock] using ht
  · simpa [LockMany.own, hu, owned_unlock_of_ne howner hu] using h u

/-- **Every step** keeps the invariant. -/
theorem Step.inv (h : Inv s) (hstep : Step s s') : Inv s' := by
  cases hstep with
  | construct t range hrange ht =>
    have hown : owned s.owner t = ∅ := by simpa [ht, Fits] using h t
    exact h.go (hown ▸ Holds.construct hrange)
  | lock t ht hlock hfree =>
    have hholds := h.holds ht
    exact h.lock hfree (hholds.lock (Nat.zero_lt_of_lt hholds.at_point.1) hlock)
  | try_lock t ht hcounter hlock hfree => exact h.lock hfree ((h.holds ht).lock hcounter.2 hlock)
  | try_lock_fails t ht hcounter hlock =>
    refine h.go ((h.holds ht).moves ⟨?_, fun j hj => absurd hj (Nat.not_lt_zero j)⟩)
    rintro start ⟨⟩
    exact (h.holds ht).index_lt
  | throws t ht hcounter hlock => exact absurd ⟨_, hlock⟩ ((h.holds ht).not_owns hcounter)
  | returns t ht hcounter => exact h.go ((h.holds ht).constructed hcounter)
  | destroy t ht =>
    refine h.go ((h.holds ht).moves ⟨?_, fun j hj => absurd hj (Nat.not_lt_zero j)⟩)
    rintro start ⟨⟩
  | unlock t ht hlock =>
    have hholds := h.holds ht
    exact h.unlock ((hholds.owned _).mpr ⟨_, hlock⟩) (hholds.unlock hlock)
  | pass t ht hlock => exact h.go ((h.holds ht).pass hlock)
  | restart t ht hi =>
    have hholds := h.holds ht
    refine h.go (hholds.moves ⟨hholds.at_point.1 _ rfl, Nat.zero_le _, fun i => ?_⟩)
    exact iff_of_false (hholds.unlocked hi i) fun ⟨c, hc, _⟩ => Nat.not_lt_zero c hc
  | destroyed t ht hi =>
    have hholds := h.holds ht
    refine h.go (Set.eq_empty_of_forall_notMem fun m hm => ?_)
    obtain ⟨j, hj⟩ := (hholds.owned m).mp hm
    exact hholds.unlocked hi j ⟨m, hj⟩

theorem inv_of_reachable (h : ReflTransGen Step start s) : Inv s :=
  History.keeps (fun _ _ => Step.inv) inv_start h

/-- **`lock_many` locks everything, without a deadlock.** In every state that is reached, a
thread that is in `lock()` owns no mutex, so that no thread is in a cycle of threads of
which each is blocked on a mutex that the next one owns; and where the constructor has
returned, the thread owns each of the mutexes, by exactly one of its objects. -/
theorem locks_all_without_deadlock {s : LockMany T M} (h : ReflTransGen Step start s) :
    (∀ t m, s.Locking t m → ∀ m', s.owner m' ≠ some t) ∧
    (∀ t, ¬ TransGen s.BlockedOn t t) ∧
    ∀ t range locks, s.threads t = .within range locks .constructed →
      ∀ m ∈ range, s.owner m = some t ∧ locks.count ⟨m, true⟩ = 1 := by
  have hinv := inv_of_reachable h
  have hlocking : ∀ t m, s.Locking t m → owned s.owner t = ∅ := by
    rintro t m ⟨range, locks, start, owns, ht, -⟩
    exact (hinv.holds ht).own_empty
  refine ⟨fun t m hm m' => ?_, not_waits_for_itself hlocking, fun t range locks ht m hm => ?_⟩
  · have hnot : m' ∉ owned s.owner t := hlocking t m hm ▸ Set.notMem_empty m'
    exact hnot
  · have hholds := hinv.holds ht
    rw [← hholds.mutexes] at hm
    obtain ⟨⟨_, owns⟩, hmem, rfl⟩ := List.mem_map.mp hm
    obtain ⟨i, hi, hget⟩ := List.getElem_of_mem hmem
    obtain ⟨m, hm⟩ := hholds.at_point i hi
    have howns : owns = true := by
      rw [List.getElem?_eq_getElem hi, hget, Option.some_inj, unique_lock.mk.injEq] at hm
      exact hm.2
    subst howns
    refine ⟨(hholds.owned _).mpr ⟨i, (List.getElem?_eq_getElem hi).trans (congrArg some hget)⟩, ?_⟩
    have hnodup : locks.Nodup := List.Nodup.of_map _ (hholds.mutexes ▸ hholds.nodup)
    exact List.count_eq_one_of_mem hnodup hmem

end Steps

/-- Two threads with the same mutexes in opposite orders: one has constructed its
`lock_many`, and the other one is in `lock()`. -/
def opposite : LockMany Bool Bool :=
  let locks₀ := [false, true].map defer_lock
  let locks₁ := locks₀.set (index locks₀ 0 0) ⟨false, true⟩
  let locks₂ := locks₁.set (index locks₁ 0 1) ⟨true, true⟩
  ((((start.go false (.within [false, true] locks₀ (.locking 0 0))).own
    false (some false) false (.within [false, true] locks₁ (.locking 0 1))).own
    true (some false) false (.within [false, true] locks₂ (.locking 0 2))).go
    false (.within [false, true] locks₂ .constructed)).go
    true (.within [true, false] ([true, false].map defer_lock) (.locking 0 0))

theorem reaches_opposite : ReflTransGen Step start opposite := by
  refine .tail ?_ (.construct _ true [true, false] (by decide) rfl)
  refine .tail ?_ (.returns _ false rfl (by decide))
  refine .tail ?_ (.try_lock _ false rfl (by decide) rfl rfl)
  refine .tail ?_ (.lock _ false rfl rfl rfl)
  exact .single (.construct _ false [false, true] (by decide) rfl)

/-- The second thread waits for the first one, and owns nothing. -/
theorem locks_all_without_deadlock_opposite :
    opposite.BlockedOn true false ∧ (∀ m, opposite.owner m ≠ some true) ∧
      (∀ t, ¬ TransGen opposite.BlockedOn t t) ∧ ∀ m, opposite.owner m = some false := by
  have hlocking : opposite.Locking true true := ⟨_, _, _, _, rfl, rfl⟩
  obtain ⟨hnone, hcycle, hall⟩ := locks_all_without_deadlock reaches_opposite
  refine ⟨⟨true, hlocking, rfl⟩, hnone true true hlocking, hcycle, fun m => ?_⟩
  exact (hall false [false, true] _ rfl m (by cases m <;> decide)).1

end LockMany
end Kaiu
