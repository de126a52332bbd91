/-
`ScopedCounter`: a counter whose changes are undone when they go out of scope.

A change is an object, a `ScopedAdjustment`: its constructor adds `delta` to the counter,
its destructor takes it away again, and to move it leaves nothing to take away. Any number
of threads construct, move and destroy adjustments, ask whether the counter is zero and
wait until it is, and their steps come in any order. `zero_cv.wait` evaluates its
condition, releases the mutex and blocks in one step, and locks the mutex again after a
wake-up, which may be spurious.

To its callers the counter is a set of adjustments, of which the sum is known: each
operation could as well take effect at one point between its call and its return
(`adjustments_atomic`). Nobody sleeps through a zero (`nobody_sleeps_at_zero`). The counter
is a group here, which covers integers that wrap around.
-/
import Kaiu.Library.Census
import Kaiu.Library.History
import Kaiu.Library.Mutex
import Kaiu.Library.Refinement

set_option autoImplicit false

namespace Kaiu

open Census Mutex Refinement Relation Function

namespace ScopedCounter

/-- A constructor or a destructor of an adjustment, which is known by a handle. -/
inductive Change (H G : Type*) where
  | construct (handle : H) (delta : G)
  | destroy (handle : H) (delta : G)

/-- Where a thread stands in the functions of the counter. -/
inductive Point (H G : Type*) where
  | outside
  /-- In `adjust`, and `delta == 0` is to be evaluated. -/
  | entered (change : Change H G)
  /-- About to lock the mutex. -/
  | adjusting (change : Change H G)
  /-- The mutex is locked, and the value is to be changed. -/
  | adding (change : Change H G)
  /-- `value == 0` is to be evaluated. -/
  | testing (change : Change H G)
  /-- About to call `notify_all`. -/
  | notifying (change : Change H G)
  /-- The mutex is to be unlocked. -/
  | adjusted (change : Change H G)
  /-- `adjust` has returned. -/
  | ended (change : Change H G)
  /-- In the move constructor; `delta` has been swapped. -/
  | moving (old new : H) (delta : G)
  /-- In `isZero`, about to lock the mutex. -/
  | reading
  | examining
  | examined (result : Bool)
  /-- In `waitForZero`, about to lock the mutex. -/
  | waiting
  /-- In `zero_cv.wait`, the mutex is locked and the condition is to be evaluated. -/
  | checking
  /-- About to unlock the mutex and to block at once. -/
  | blocking
  | blocked
  /-- Woken, and about to lock the mutex again. -/
  | woken
  /-- The value was zero, and the mutex is to be unlocked. -/
  | waited

/-- An adjustment; `used` by the thread that constructs, destroys or moves it. -/
inductive Adjustment (T G : Type*) where
  | unborn
  | live (delta : G)
  | used (thread : T)

end ScopedCounter

/-- The members of `ScopedCounter`, its adjustments, and what the threads are doing. -/
structure ScopedCounter (T H G : Type*) where
  value : G
  zero_cv_mutex : Option T := none
  threads : T → ScopedCounter.Point H G := fun _ => .outside
  adjustments : H → ScopedCounter.Adjustment T G := fun _ => .unborn
  /-- Not in the source: the adjustments that have been added to the value. -/
  counted : H → Option G := fun _ => none

namespace ScopedCounter

variable {T H G : Type*}

section Changes

variable [AddCommGroup G]

namespace Change

@[simp] def handle : Change H G → H
  | construct handle _ => handle
  | destroy handle _ => handle

/-- The argument of `adjust`. -/
@[simp] def amount : Change H G → G
  | construct _ delta => delta
  | destroy _ delta => -delta

/-- What is counted of the adjustment before the value is changed. -/
@[simp] def before : Change H G → Option G
  | construct _ _ => none
  | destroy _ delta => some delta

/-- What is counted of the adjustment when the value has been changed. -/
@[simp] def after : Change H G → Option G
  | construct _ delta => some delta
  | destroy _ _ => none

/-- What has become of the adjustment in the end. -/
@[simp] def result : Change H G → Adjustment T G
  | construct _ delta => .live delta
  | destroy _ _ => .unborn

end Change

end Changes

namespace Point

/-- The mutex is locked by the thread. -/
@[simp] def critical : Point H G → Bool
  | adding _ | testing _ | notifying _ | adjusted _ => true
  | examining | examined _ | checking | blocking | waited => true
  | outside | entered _ | adjusting _ | ended _ | moving .. => false
  | reading | waiting | blocked | woken => false

/-- The thread has changed the value, and will wake those that wait if it is zero. -/
@[simp] def tests : Point H G → Bool
  | testing _ | notifying _ => true
  | _ => false

/-- What `notify_all` does to a thread. -/
@[simp] def wake : Point H G → Point H G
  | blocked => woken
  | point => point

end Point

/-- The operations, as their callers see them. -/
inductive Operation (H G : Type*) where
  | delta (handle : H) (amount : G)
  | destroy (handle : H)
  | move (old new : H)
  | is_zero
  | wait_for_zero

/-- The operation that a change is. -/
@[simp] def Change.operation : Change H G → Operation H G
  | construct handle delta => .delta handle delta
  | destroy handle _ => .destroy handle

section Steps

variable [DecidableEq T] [DecidableEq H] [DecidableEq G] [AddCommGroup G]

/-- A thread goes on. -/
def go (t : T) (point : Point H G) (s : ScopedCounter T H G) : ScopedCounter T H G :=
  { s with threads := update s.threads t point }

/-- A thread locks the mutex. -/
def lock (t : T) (point : Point H G) (s : ScopedCounter T H G) : ScopedCounter T H G :=
  { s.go t point with zero_cv_mutex := some t }

/-- A thread unlocks the mutex. -/
def unlock (t : T) (point : Point H G) (s : ScopedCounter T H G) : ScopedCounter T H G :=
  { s.go t point with zero_cv_mutex := none }

/-- What is done to an adjustment. -/
def set (handle : H) (adjustment : Adjustment T G) (s : ScopedCounter T H G) :
    ScopedCounter T H G :=
  { s with adjustments := update s.adjustments handle adjustment }

/-- What is counted of an adjustment. -/
def count (handle : H) (delta : Option G) (s : ScopedCounter T H G) : ScopedCounter T H G :=
  { s with counted := update s.counted handle delta }

/-- `zero_cv.notify_all()`. -/
def notify_all (s : ScopedCounter T H G) : ScopedCounter T H G :=
  { s with threads := fun t => (s.threads t).wake }

/-- The steps of a thread, with what is seen of them. -/
inductive Step : ScopedCounter T H G → Option (Action T (Operation H G) (Option Bool)) →
    ScopedCounter T H G → Prop where
  | delta (s : ScopedCounter T H G) (t : T) (handle : H) (amount : G)
      (h : s.threads t = .outside) (hnew : s.adjustments handle = .unborn) :
      Step s (some (.call t (.delta handle amount)))
        ((s.set handle (.used t)).go t (.entered (.construct handle amount)))
  | destroy (s : ScopedCounter T H G) (t : T) (handle : H) {delta : G}
      (h : s.threads t = .outside) (hlive : s.adjustments handle = .live delta) :
      Step s (some (.call t (.destroy handle)))
        ((s.set handle (.used t)).go t (.entered (.destroy handle delta)))
  | unchanged (s : ScopedCounter T H G) (t : T) {change : Change H G}
      (h : s.threads t = .entered change) (hzero : change.amount = 0) :
      Step s none ((s.count change.handle change.after).go t (.ended change))
  | adjust (s : ScopedCounter T H G) (t : T) {change : Change H G}
      (h : s.threads t = .entered change) (hzero : change.amount ≠ 0) :
      Step s none (s.go t (.adjusting change))
  | adjust_lock (s : ScopedCounter T H G) (t : T) {change : Change H G}
      (h : s.threads t = .adjusting change) (hfree : s.zero_cv_mutex = none) :
      Step s none (s.lock t (.adding change))
  | add (s : ScopedCounter T H G) (t : T) {change : Change H G}
      (h : s.threads t = .adding change) :
      Step s none (({ s with value := s.value + change.amount }.count change.handle
        change.after).go t (.testing change))
  | zero (s : ScopedCounter T H G) (t : T) {change : Change H G}
      (h : s.threads t = .testing change) (hvalue : s.value = 0) :
      Step s none (s.go t (.notifying change))
  | not_zero (s : ScopedCounter T H G) (t : T) {change : Change H G}
      (h : s.threads t = .testing change) (hvalue : s.value ≠ 0) :
      Step s none (s.go t (.adjusted change))
  | notify_all (s : ScopedCounter T H G) (t : T) {change : Change H G}
      (h : s.threads t = .notifying change) : Step s none (s.notify_all.go t (.adjusted change))
  | adjust_unlock (s : ScopedCounter T H G) (t : T) {change : Change H G}
      (h : s.threads t = .adjusted change) : Step s none (s.unlock t (.ended change))
  | ended (s : ScopedCounter T H G) (t : T) {change : Change H G}
      (h : s.threads t = .ended change) :
      Step s (some (.ret t none)) ((s.set change.handle change.result).go t .outside)
  | move (s : ScopedCounter T H G) (t : T) (old new : H) {delta : G}
      (h : s.threads t = .outside) (hlive : s.adjustments old = .live delta)
      (hnew : s.adjustments new = .unborn) :
      Step s (some (.call t (.move old new)))
        (((((s.set old (.used t)).set new (.used t)).count old (some 0)).count new
          (some delta)).go t (.moving old new delta))
  | moved (s : ScopedCounter T H G) (t : T) {old new : H} {delta : G}
      (h : s.threads t = .moving old new delta) :
      Step s (some (.ret t none)) (((s.set old (.live 0)).set new (.live delta)).go t .outside)
  | is_zero (s : ScopedCounter T H G) (t : T) (h : s.threads t = .outside) :
      Step s (some (.call t .is_zero)) (s.go t .reading)
  | read_lock (s : ScopedCounter T H G) (t : T) (h : s.threads t = .reading)
      (hfree : s.zero_cv_mutex = none) : Step s none (s.lock t .examining)
  | examine (s : ScopedCounter T H G) (t : T) (h : s.threads t = .examining) :
      Step s none (s.go t (.examined (s.value = 0)))
  | examined (s : ScopedCounter T H G) (t : T) {result : Bool}
      (h : s.threads t = .examined result) :
      Step s (some (.ret t (some result))) (s.unlock t .outside)
  | wait_for_zero (s : ScopedCounter T H G) (t : T) (h : s.threads t = .outside) :
      Step s (some (.call t .wait_for_zero)) (s.go t .waiting)
  | wait_lock (s : ScopedCounter T H G) (t : T) (h : s.threads t = .waiting)
      (hfree : s.zero_cv_mutex = none) : Step s none (s.lock t .checking)
  | waited (s : ScopedCounter T H G) (t : T) (h : s.threads t = .checking) (hvalue : s.value = 0) :
      Step s none (s.go t .waited)
  | wait (s : ScopedCounter T H G) (t : T) (h : s.threads t = .checking) (hvalue : s.value ≠ 0) :
      Step s none (s.go t .blocking)
  | block (s : ScopedCounter T H G) (t : T) (h : s.threads t = .blocking) :
      Step s none (s.unlock t .blocked)
  /-- A wake-up that nobody has asked for. -/
  | wake (s : ScopedCounter T H G) (t : T) (h : s.threads t = .blocked) :
      Step s none (s.go t .woken)
  | relock (s : ScopedCounter T H G) (t : T) (h : s.threads t = .woken)
      (hfree : s.zero_cv_mutex = none) : Step s none (s.lock t .checking)
  | wait_unlock (s : ScopedCounter T H G) (t : T) (h : s.threads t = .waited) :
      Step s (some (.ret t none)) (s.unlock t .outside)
  /-- `notify`, which anybody may call. -/
  | notify (s : ScopedCounter T H G) (t : T) (h : s.threads t = .outside) :
      Step s none s.notify_all

end Steps

/-! ## The invariant -/

/-- What is known of the adjustments that a thread uses. -/
def Point.expects [AddCommGroup G] (t : T) (adjustments : H → Adjustment T G)
    (counted : H → Option G) : Point H G → Prop
  | entered change | adjusting change | adding change =>
    adjustments change.handle = .used t ∧ counted change.handle = change.before
  | testing change | notifying change | adjusted change | ended change =>
    adjustments change.handle = .used t ∧ counted change.handle = change.after
  | moving old new delta => old ≠ new ∧ adjustments old = .used t ∧ adjustments new = .used t ∧
      counted old = some 0 ∧ counted new = some delta
  | _ => True

/-- What an adjustment adds to the value. -/
def Adjustment.delta [AddCommGroup G] : Adjustment T G → G
  | live delta => delta
  | unborn | used _ => 0

/-- An adjustment that nobody uses is counted if it is live. -/
def Adjustment.agrees (counted : Option G) : Adjustment T G → Prop
  | unborn => counted = none
  | live delta => counted = some delta
  | used _ => True

/-- The sum of the adjustments. -/
def sum [AddCommGroup G] [Fintype H] (counted : H → Option G) : G :=
  total (fun delta : Option G => delta.getD 0) counted

/-- The mutex is locked by the thread that is in a critical section; the value is the sum of
what is counted; a thread blocks only while the value is not zero, or is going to be woken. -/
structure Inv [AddCommGroup G] [Fintype H] (initial : G) (s : ScopedCounter T H G) : Prop where
  guards : Guards (Point.critical ·) s.zero_cv_mutex s.threads
  value : s.value = initial + sum s.counted
  agrees : ∀ handle, (s.adjustments handle).agrees (s.counted handle)
  expects : ∀ t, (s.threads t).expects t s.adjustments s.counted
  blocking : ∀ t, s.threads t = .blocking → s.value ≠ 0
  blocked : ∀ t, s.threads t = .blocked → s.value ≠ 0 ∨ ∃ u, (s.threads u).tests

section Invariant

variable [DecidableEq T] [DecidableEq H] [DecidableEq G] [AddCommGroup G] [Fintype H]
  {initial : G} {s s' : ScopedCounter T H G} {t : T} {p : Point H G}
  {e : Option (Action T (Operation H G) (Option Bool))}

omit [DecidableEq T] [DecidableEq G] in
/-- The value is changed by as much as what is counted. -/
theorem sum_count (change : Change H G) (h : s.counted change.handle = change.before) :
    sum (update s.counted change.handle change.after) = sum s.counted + change.amount := by
  have hmove := total_update (fun delta : Option G => delta.getD 0) s.counted change.handle
    change.after
  rw [h] at hmove
  unfold sum
  cases change with
  | construct handle delta => simpa using hmove
  | destroy handle delta =>
    simp only [Change.before, Change.after, Change.handle, Option.getD_some,
      Option.getD_none, add_zero] at hmove
    rw [Change.amount, ← hmove]
    simp

omit [DecidableEq T] [DecidableEq G] in
/-- A move changes nothing of what is counted. -/
theorem sum_move {old new : H} {delta : G} (hne : new ≠ old) (hold : s.counted old = some delta)
    (hnew : s.counted new = none) :
    sum (update (update s.counted old (some 0)) new (some delta)) = sum s.counted := by
  have hfirst := total_update (fun delta : Option G => delta.getD 0) s.counted old (some 0)
  have hsecond := total_update (fun delta : Option G => delta.getD 0)
    (update s.counted old (some 0)) new (some delta)
  rw [update_of_ne hne, hnew] at hsecond
  rw [hold] at hfirst
  unfold sum
  simp only [Option.getD_some, Option.getD_none, add_zero] at hfirst hsecond
  rw [hsecond, hfirst]

/-- What another thread may do to the adjustments: it leaves those alone that a thread uses. -/
def Leaves (s s' : ScopedCounter T H G) (t : T) : Prop :=
  ∀ u ≠ t, ∀ handle, s.adjustments handle = .used u →
    s'.adjustments handle = .used u ∧ s'.counted handle = s.counted handle

omit [DecidableEq T] [DecidableEq H] [DecidableEq G] [Fintype H] in
theorem Leaves.expects (h : Leaves s s' t) {u : T} (hu : u ≠ t) {point : Point H G}
    (hpoint : point.expects u s.adjustments s.counted) :
    point.expects u s'.adjustments s'.counted := by
  have hleaves := h u hu
  cases point with
  | entered change | adjusting change | adding change | testing change | notifying change
  | adjusted change | ended change =>
    obtain ⟨hused, hcounted⟩ := hpoint
    obtain ⟨hused', hsame⟩ := hleaves _ hused
    exact ⟨hused', hsame.trans hcounted⟩
  | moving old new delta =>
    obtain ⟨hne, hold, hnew, hcold, hcnew⟩ := hpoint
    obtain ⟨hold', hsame⟩ := hleaves _ hold
    obtain ⟨hnew', hsame'⟩ := hleaves _ hnew
    exact ⟨hne, hold', hnew', hsame.trans hcold, hsame'.trans hcnew⟩
  | outside | reading | examining | examined | waiting | checking | blocking | blocked | woken
  | waited => trivial

/-- A thread goes on. The value may be changed by the thread that has locked the mutex, and
then the thread tests it. -/
structure Turn (initial : G) (s s' : ScopedCounter T H G) (t : T) (p : Point H G) : Prop where
  threads : s'.threads = update s.threads t p
  value : s'.value = initial + sum s'.counted
  agrees : ∀ handle, (s'.adjustments handle).agrees (s'.counted handle)
  expects : p.expects t s'.adjustments s'.counted
  leaves : Leaves s s' t
  same : s'.value = s.value ∨ (s.threads t).critical = true
  blocking : p = .blocking ∨ p = .blocked → s'.value ≠ 0
  wakes : p.tests = true ∨ s'.value ≠ 0 ∨ s'.value = s.value ∧ (s.threads t).tests = false ∨
    ∀ u, s.threads u ≠ .blocked

omit [DecidableEq H] [DecidableEq G] in
/-- The invariant is kept, if the mutex still guards the critical sections. -/
theorem Inv.turn (h : Inv initial s) (hturn : Turn initial s s' t p)
    (hguards : Guards (Point.critical ·) s'.zero_cv_mutex s'.threads) : Inv initial s' where
  guards := hguards
  value := hturn.value
  agrees := hturn.agrees
  expects u := by
    rw [hturn.threads]
    by_cases hu : u = t
    · subst hu
      rw [update_self]
      exact hturn.expects
    · rw [update_of_ne hu]
      exact hturn.leaves.expects hu (h.expects u)
  blocking u hthread := by
    rw [hturn.threads] at hthread
    by_cases hu : u = t
    · subst hu
      rw [update_self] at hthread
      exact hturn.blocking (.inl hthread)
    · rw [update_of_ne hu] at hthread
      rcases hturn.same with hsame | hcritical
      · rw [hsame]
        exact h.blocking u hthread
      · exact absurd (h.guards.eq (by simp [hthread]) hcritical) hu
  blocked u hthread := by
    rw [hturn.threads] at hthread ⊢
    by_cases hu : u = t
    · subst hu
      rw [update_self] at hthread
      exact .inl (hturn.blocking (.inr hthread))
    · rw [update_of_ne hu] at hthread
      rcases hturn.wakes with htests | hvalue | ⟨hsame, htests⟩ | hnobody
      · exact .inr ⟨t, by rwa [update_self]⟩
      · exact .inl hvalue
      · rw [hsame]
        refine (h.blocked u hthread).imp_right fun ⟨v, hv⟩ => ⟨v, ?_⟩
        have hne : v ≠ t := fun heq => Bool.false_ne_true (htests.symm.trans (heq ▸ hv))
        rwa [update_of_ne hne]
      · exact absurd hthread (hnobody u)

/-- A thread goes on, and nothing else changes than who owns the mutex. -/
structure Moves (s s' : ScopedCounter T H G) (t : T) (p : Point H G) : Prop where
  threads : s'.threads = update s.threads t p
  value : s'.value = s.value
  adjustments : s'.adjustments = s.adjustments
  counted : s'.counted = s.counted

omit [DecidableEq H] [DecidableEq G] in
theorem Moves.turn (h : Inv initial s) (hmoves : Moves s s' t p)
    (hexpects : p.expects t s.adjustments s.counted)
    (hblocking : p = .blocking ∨ p = .blocked → s.value ≠ 0)
    (hwakes : p.tests = true ∨ s.value ≠ 0 ∨ (s.threads t).tests = false ∨
      ∀ u, s.threads u ≠ .blocked) : Turn initial s s' t p where
  threads := hmoves.threads
  value := by
    rw [hmoves.value, hmoves.counted]
    exact h.value
  agrees := by
    rw [hmoves.adjustments, hmoves.counted]
    exact h.agrees
  expects := by
    rw [hmoves.adjustments, hmoves.counted]
    exact hexpects
  leaves _ _ _ hused := ⟨hmoves.adjustments ▸ hused, hmoves.counted ▸ rfl⟩
  same := .inl hmoves.value
  blocking := by
    rw [hmoves.value]
    exact hblocking
  wakes := by
    rw [hmoves.value]
    exact hwakes.imp_right (Or.imp_right (Or.imp_left fun h => ⟨rfl, h⟩))

omit [DecidableEq H] [DecidableEq G] in
/-- A thread goes on where it is, with or without the mutex. -/
theorem Inv.go (h : Inv initial s) (hexpects : p.expects t s.adjustments s.counted)
    (hcritical : p.critical = (s.threads t).critical)
    (hblocking : p = .blocking ∨ p = .blocked → s.value ≠ 0)
    (hwakes : p.tests = true ∨ s.value ≠ 0 ∨ (s.threads t).tests = false ∨
      ∀ u, s.threads u ≠ .blocked) : Inv initial (s.go t p) :=
  h.turn (Moves.turn h ⟨rfl, rfl, rfl, rfl⟩ hexpects hblocking hwakes)
    (h.guards.move (by rw [hcritical]))

omit [DecidableEq H] [DecidableEq G] in
/-- A thread locks the mutex. -/
theorem Inv.lock (h : Inv initial s) (hfree : s.zero_cv_mutex = none)
    (hexpects : p.expects t s.adjustments s.counted) (hcritical : p.critical = true)
    (hblocking : p ≠ .blocking ∧ p ≠ .blocked) : Inv initial (s.lock t p) := by
  have hnot := (hfree ▸ h.guards).not_critical t
  have htests : (s.threads t).tests = false := by
    cases hthread : s.threads t <;> rw [hthread] at hnot <;> first | rfl | exact absurd rfl hnot
  exact h.turn (Moves.turn h ⟨rfl, rfl, rfl, rfl⟩ hexpects
      (fun hp => (hp.elim hblocking.1 hblocking.2).elim) (.inr (.inr (.inl htests))))
    ((hfree ▸ h.guards).lock hcritical)

omit [DecidableEq H] [DecidableEq G] in
/-- A thread unlocks the mutex. -/
theorem Inv.unlock (h : Inv initial s) (hexpects : p.expects t s.adjustments s.counted)
    (hcritical : (s.threads t).critical = true ∧ p.critical = false)
    (hblocking : p = .blocking ∨ p = .blocked → s.value ≠ 0)
    (htests : (s.threads t).tests = false) : Inv initial (s.unlock t p) :=
  h.turn (Moves.turn h ⟨rfl, rfl, rfl, rfl⟩ hexpects hblocking (.inr (.inr (.inl htests))))
    (h.guards.unlock hcritical.1 (by rw [hcritical.2]; exact Bool.false_ne_true))

omit [DecidableEq T] [DecidableEq H] [DecidableEq G] in
/-- Nobody is blocked any more. -/
theorem Inv.notify_all (h : Inv initial s) : Inv initial s.notify_all where
  guards u := by
    refine Iff.trans ?_ (h.guards u)
    show (s.threads u).wake.critical = true ↔ (s.threads u).critical = true
    cases s.threads u <;> exact Iff.rfl
  value := h.value
  agrees := h.agrees
  expects u := by
    have hu := h.expects u
    show (s.threads u).wake.expects u s.adjustments s.counted
    cases hthread : s.threads u <;> rw [hthread] at hu <;> exact hu
  blocking u hthread := by
    refine h.blocking u ?_
    have hthread' : (s.threads u).wake = .blocking := hthread
    cases hpoint : s.threads u <;> rw [hpoint] at hthread' <;> first | rfl | cases hthread'
  blocked u hthread := by
    have hthread' : (s.threads u).wake = .blocked := hthread
    cases hpoint : s.threads u <;> rw [hpoint] at hthread' <;> cases hthread'

omit [DecidableEq T] [DecidableEq G] [Fintype H] [AddCommGroup G] in
/-- An adjustment that no other thread uses. -/
theorem leaves_set {handle : H} {adjustment : Adjustment T G}
    (hfree : ∀ u ≠ t, s.adjustments handle ≠ .used u)
    (hs : s'.adjustments = update s.adjustments handle adjustment)
    (hcounted : ∀ other, other ≠ handle → s'.counted other = s.counted other) :
    Leaves s s' t := by
  intro u hu other hused
  have hne : other ≠ handle := fun heq => hfree u hu (heq ▸ hused)
  rw [hs, update_of_ne hne]
  exact ⟨hused, hcounted other hne⟩

omit [DecidableEq T] [DecidableEq G] [AddCommGroup G] [Fintype H] in
theorem agrees_set {handle : H} {adjustment : Adjustment T G} {counted : H → Option G}
    (h : ∀ handle, (s.adjustments handle).agrees (s.counted handle))
    (hset : adjustment.agrees (counted handle))
    (hcounted : ∀ other, other ≠ handle → counted other = s.counted other) (other : H) :
    (update s.adjustments handle adjustment other).agrees (counted other) := by
  by_cases heq : other = handle
  · subst heq
    rwa [update_self]
  · rw [update_of_ne heq, hcounted other heq]
    exact h other

omit [DecidableEq G] in
/-- An adjustment begins to be constructed or destroyed. -/
theorem Inv.enter (h : Inv initial s) (change : Change H G) (ht : s.threads t = .outside)
    (hadjustment : s.adjustments change.handle = .unborn ∧ change.before = none ∨
      ∃ delta, s.adjustments change.handle = .live delta ∧ change.before = some delta) :
    Inv initial ((s.set change.handle (.used t)).go t (.entered change)) := by
  have hbefore : s.counted change.handle = change.before := by
    have hagrees := h.agrees change.handle
    rcases hadjustment with ⟨hunborn, hnone⟩ | ⟨delta, hlive, hsome⟩
    · rw [hunborn] at hagrees
      exact hagrees.trans hnone.symm
    · rw [hlive] at hagrees
      exact hagrees.trans hsome.symm
  have hfree : ∀ u ≠ t, s.adjustments change.handle ≠ .used u := by
    intro u _ hused
    rcases hadjustment with ⟨hunborn, -⟩ | ⟨delta, hlive, -⟩
    · rw [hunborn] at hused
      cases hused
    · rw [hlive] at hused
      cases hused
  refine h.turn (t := t) (p := .entered change) ?_ (h.guards.move (by simp [ht]))
  exact {
    threads := rfl
    value := h.value
    agrees := agrees_set h.agrees trivial fun _ _ => rfl
    expects := ⟨update_self .., hbefore⟩
    leaves := leaves_set hfree rfl fun _ _ => rfl
    same := .inl rfl
    blocking := fun hp => by rcases hp with hp | hp <;> cases hp
    wakes := .inr (.inr (.inl ⟨rfl, by rw [ht]; rfl⟩)) }

omit [DecidableEq G] in
/-- A change is counted, by a thread that adds it to the value. -/
theorem Inv.changes (h : Inv initial s) {change : Change H G}
    (hexpects : s.adjustments change.handle = .used t ∧ s.counted change.handle = change.before)
    (hs : s'.adjustments = s.adjustments ∧
      s'.counted = update s.counted change.handle change.after ∧
      s'.value = s.value + change.amount ∧ s'.zero_cv_mutex = s.zero_cv_mutex ∧
      s'.threads = update s.threads t p)
    (hp : p.expects t s'.adjustments s'.counted ∧ p.critical = (s.threads t).critical ∧
      p ≠ .blocking ∧ p ≠ .blocked)
    (hsame : change.amount = 0 ∧ (s.threads t).tests = false ∨
      (s.threads t).critical = true ∧ p.tests = true) : Inv initial s' := by
  obtain ⟨hadjustments, hcounted, hvalue, hmutex, hthreads⟩ := hs
  obtain ⟨hused, hbefore⟩ := hexpects
  have hothers : ∀ other, other ≠ change.handle → s'.counted other = s.counted other :=
    fun other hne => hcounted ▸ update_of_ne hne ..
  refine h.turn (t := t) (p := p) ?_ ?_
  · exact {
      threads := hthreads
      value := by
        rw [hvalue, hcounted, sum_count change hbefore, h.value, add_assoc]
      agrees := fun other => by
        rw [hadjustments]
        by_cases heq : other = change.handle
        · rw [heq, hused]
          trivial
        · rw [hothers other heq]
          exact h.agrees other
      expects := hp.1
      leaves := fun u hu other hother => by
        have hne : other ≠ change.handle := fun heq => by
          rw [heq, hused] at hother
          cases hother
          exact hu rfl
        exact ⟨hadjustments ▸ hother, hothers other hne⟩
      same := hsame.imp (fun h => by rw [hvalue, h.1, add_zero]) And.left
      blocking := fun hblocking => (hblocking.elim hp.2.2.1 hp.2.2.2).elim
      wakes := by
        rcases hsame with ⟨hzero, htests⟩ | ⟨-, htests⟩
        · exact .inr (.inr (.inl ⟨by rw [hvalue, hzero, add_zero], htests⟩))
        · exact .inl htests }
  · rw [hmutex, hthreads]
    exact h.guards.move (by rw [hp.2.1])

omit [DecidableEq G] in
/-- The constructor or the destructor returns. -/
theorem Inv.ends (h : Inv initial s) {change : Change H G} (ht : s.threads t = .ended change) :
    Inv initial ((s.set change.handle change.result).go t .outside) := by
  have hexpects := h.expects t
  rw [ht] at hexpects
  obtain ⟨hused, hafter⟩ := hexpects
  have hfree : ∀ u ≠ t, s.adjustments change.handle ≠ .used u := by
    intro u hu heq
    rw [hused] at heq
    cases heq
    exact hu rfl
  have hagrees : (change.result : Adjustment T G).agrees (s.counted change.handle) := by
    rw [hafter]
    cases change <;> rfl
  refine h.turn (t := t) (p := .outside) ?_ (h.guards.move (by simp [ht]))
  exact {
    threads := rfl
    value := h.value
    agrees := agrees_set h.agrees hagrees fun _ _ => rfl
    expects := trivial
    leaves := leaves_set hfree rfl fun _ _ => rfl
    same := .inl rfl
    blocking := fun hp => by rcases hp with hp | hp <;> cases hp
    wakes := .inr (.inr (.inl ⟨rfl, by rw [ht]; rfl⟩)) }

omit [DecidableEq G] in
/-- An adjustment begins to be moved: what was counted of it is counted of the new one. -/
theorem Inv.moves (h : Inv initial s) {old new : H} {delta : G} (ht : s.threads t = .outside)
    (hlive : s.adjustments old = .live delta) (hnew : s.adjustments new = .unborn) :
    Inv initial (((((s.set old (.used t)).set new (.used t)).count old (some 0)).count new
      (some delta)).go t (.moving old new delta)) := by
  have hold : s.counted old = some delta := by
    have hagrees := h.agrees old
    rwa [hlive] at hagrees
  have hnone : s.counted new = none := by
    have hagrees := h.agrees new
    rwa [hnew] at hagrees
  have hne : new ≠ old := by
    rintro rfl
    rw [hlive] at hnew
    cases hnew
  refine h.turn (t := t) (p := .moving old new delta) ?_ (h.guards.move (by simp [ht]))
  exact {
    threads := rfl
    value := by
      show s.value = initial + sum (update (update s.counted old (some 0)) new (some delta))
      rw [sum_move hne hold hnone, h.value]
    agrees := fun handle => by
      by_cases heq : handle = new
      · simp [count, set, ScopedCounter.go, heq, Adjustment.agrees]
      · by_cases heq' : handle = old
        · simp [count, set, ScopedCounter.go, heq', hne.symm, Adjustment.agrees]
        · simpa [count, set, ScopedCounter.go, heq, heq'] using h.agrees handle
    expects := by
      refine ⟨hne.symm, ?_, ?_, ?_, ?_⟩ <;> simp [count, set, ScopedCounter.go, hne.symm]
    leaves := fun u hu handle hused => by
      have hne' : handle ≠ new := fun heq => by
        rw [heq, hnew] at hused
        cases hused
      have hne'' : handle ≠ old := fun heq => by
        rw [heq, hlive] at hused
        cases hused
      simpa [count, set, ScopedCounter.go, hne', hne''] using hused
    same := .inl rfl
    blocking := fun hp => by rcases hp with hp | hp <;> cases hp
    wakes := .inr (.inr (.inl ⟨rfl, by rw [ht]; rfl⟩)) }

omit [DecidableEq G] in
/-- The move constructor returns. -/
theorem Inv.moved (h : Inv initial s) {old new : H} {delta : G}
    (ht : s.threads t = .moving old new delta) :
    Inv initial (((s.set old (.live 0)).set new (.live delta)).go t .outside) := by
  have hexpects := h.expects t
  rw [ht] at hexpects
  obtain ⟨hne, hold, hnew, hcold, hcnew⟩ := hexpects
  refine h.turn (t := t) (p := .outside) ?_ (h.guards.move (by simp [ht]))
  exact {
    threads := rfl
    value := h.value
    agrees := fun handle => by
      by_cases heq : handle = new
      · simp [set, ScopedCounter.go, heq, Adjustment.agrees, hcnew]
      · by_cases heq' : handle = old
        · simp [set, ScopedCounter.go, heq', hne, Adjustment.agrees, hcold]
        · simpa [set, ScopedCounter.go, heq, heq'] using h.agrees handle
    expects := trivial
    leaves := fun u hu handle hused => by
      have hne' : handle ≠ new := fun heq => by
        rw [heq, hnew] at hused
        cases hused
        exact hu rfl
      have hne'' : handle ≠ old := fun heq => by
        rw [heq, hold] at hused
        cases hused
        exact hu rfl
      simpa [set, ScopedCounter.go, hne', hne''] using hused
    same := .inl rfl
    blocking := fun hp => by rcases hp with hp | hp <;> cases hp
    wakes := .inr (.inr (.inl ⟨rfl, by rw [ht]; rfl⟩)) }

/-- **Every step** keeps the invariant. -/
theorem Step.inv (h : Inv initial s) (hstep : Step s e s') : Inv initial s' := by
  have hexpects (t : T) {point : Point H G} (ht : s.threads t = point) :
      point.expects t s.adjustments s.counted := ht ▸ h.expects t
  cases hstep with
  | delta t handle amount ht hnew => exact h.enter (.construct handle amount) ht (.inl ⟨hnew, rfl⟩)
  | @destroy t handle delta ht hlive =>
    exact h.enter (.destroy handle delta) ht (.inr ⟨delta, hlive, rfl⟩)
  | @unchanged t change ht hzero =>
    obtain ⟨hused, hbefore⟩ := hexpects t ht
    refine h.changes ⟨hused, hbefore⟩ ⟨rfl, rfl, by rw [hzero, add_zero]; rfl, rfl, rfl⟩ ?_
      (.inl ⟨hzero, by rw [ht]; rfl⟩)
    exact ⟨⟨hused, update_self ..⟩, by simp [ht], by simp, by simp⟩
  | @add t change ht =>
    obtain ⟨hused, hbefore⟩ := hexpects t ht
    refine h.changes ⟨hused, hbefore⟩ ⟨rfl, rfl, rfl, rfl, rfl⟩ ?_ (.inr ⟨by rw [ht]; rfl, rfl⟩)
    exact ⟨⟨hused, update_self ..⟩, by simp [ht], by simp, by simp⟩
  | adjust t ht hzero => exact h.go (hexpects t ht :) (by simp [ht]) (by simp) (by simp [ht])
  | adjust_lock t ht hfree => exact h.lock hfree (hexpects t ht :) rfl (by simp)
  | zero t ht hvalue => exact h.go (hexpects t ht :) (by simp [ht]) (by simp) (.inl rfl)
  | not_zero t ht hvalue =>
    exact h.go (hexpects t ht :) (by simp [ht]) (by simp) (.inr (.inl hvalue))
  | @notify_all t change ht =>
    have ht' : s.notify_all.threads t = .notifying change := congrArg Point.wake ht
    have hnobody : ∀ u, s.notify_all.threads u ≠ .blocked := by
      intro u hu
      have hu' : (s.threads u).wake = .blocked := hu
      cases hthread : s.threads u <;> rw [hthread] at hu' <;> cases hu'
    exact h.notify_all.go (hexpects t ht :) (by simp [ht']) (by simp)
      (.inr (.inr (.inr hnobody)))
  | adjust_unlock t ht => exact h.unlock (hexpects t ht :) (by simp [ht]) (by simp) (by simp [ht])
  | ended t ht => exact h.ends ht
  | move t old new ht hlive hnew => exact h.moves ht hlive hnew
  | moved t ht => exact h.moved ht
  | is_zero t ht | examine t ht | wait_for_zero t ht | waited t ht | wake t ht =>
    exact h.go trivial (by simp [ht]) (by simp) (by simp [ht])
  | wait t ht hvalue => exact h.go trivial (by simp [ht]) (fun _ => hvalue) (by simp [ht])
  | read_lock t ht hfree | wait_lock t ht hfree | relock t ht hfree =>
    exact h.lock hfree trivial rfl (by simp)
  | examined t ht | wait_unlock t ht =>
    exact h.unlock trivial (by simp [ht]) (by simp) (by simp [ht])
  | block t ht => exact h.unlock trivial (by simp [ht]) (fun _ => h.blocking t ht) (by simp [ht])
  | notify t ht => exact h.notify_all

omit [DecidableEq T] [DecidableEq H] [DecidableEq G] in
theorem inv_start (initial : G) : Inv initial ({ value := initial } : ScopedCounter T H G) where
  guards t := iff_of_false Bool.false_ne_true (Option.some_ne_none t ∘ Eq.symm)
  value := by
    have hzero : sum (fun _ : H => (none : Option G)) = 0 := total_eq_zero fun _ => rfl
    rw [hzero, add_zero]
  agrees _ := rfl
  expects _ := trivial
  blocking t ht := by cases ht
  blocked t ht := by cases ht

end Invariant

/-! ## The counter as a set of adjustments -/

/-- What an operation does to the adjustments, and what it returns. -/
inductive Effect [DecidableEq H] [DecidableEq G] [AddCommGroup G] [Fintype H] (initial : G) :
    Operation H G → (H → Option G) → Option Bool → (H → Option G) → Prop where
  | delta (counted : H → Option G) (handle : H) (amount : G) (hnew : counted handle = none) :
      Effect initial (.delta handle amount) counted none (update counted handle (some amount))
  | destroy (counted : H → Option G) (handle : H) (hlive : counted handle ≠ none) :
      Effect initial (.destroy handle) counted none (update counted handle none)
  | move (counted : H → Option G) (old new : H) {delta : G} (hlive : counted old = some delta)
      (hnew : counted new = none) : Effect initial (.move old new) counted none
        (update (update counted old (some 0)) new (some delta))
  | is_zero (counted : H → Option G) :
      Effect initial .is_zero counted (some (initial + sum counted = 0)) counted
  | wait_for_zero (counted : H → Option G) (hzero : initial + sum counted = 0) :
      Effect initial .wait_for_zero counted none counted

/-- Where a thread stands with its operation: a change takes effect when the value is changed,
and the others when the value is looked at. -/
@[simp] def Point.phase : Point H G → Phase (Operation H G) (Option Bool)
  | outside => .idle
  | entered change | adjusting change | adding change => .called change.operation
  | testing _ | notifying _ | adjusted _ | ended _ => .done none
  | moving .. => .done none
  | reading | examining => .called .is_zero
  | examined result => .done (some result)
  | waiting | checking | blocking | blocked | woken => .called .wait_for_zero
  | waited => .done none

/-- A counter as an object whose operations take effect at once. -/
def atomic (s : ScopedCounter T H G) :
    Atomic T (H → Option G) (Operation H G) (Option Bool) where
  object := s.counted
  phases t := (s.threads t).phase

section Atomic

variable [DecidableEq T] [DecidableEq H] [DecidableEq G] [AddCommGroup G] [Fintype H]
  {initial : G} {s s' : ScopedCounter T H G} {t : T} {p : Point H G}
  {e : Option (Action T (Operation H G) (Option Bool))}

omit [DecidableEq H] [DecidableEq G] [AddCommGroup G] [Fintype H] in
/-- A thread goes on. -/
theorem atomic_update (hthreads : s'.threads = update s.threads t p) :
    atomic s' = { (atomic s).go t p.phase with object := s'.counted } := by
  refine congrArg (Atomic.mk _) (funext fun u => ?_)
  show (s'.threads u).phase = update (fun u => (s.threads u).phase) t p.phase u
  rw [hthreads]
  by_cases heq : u = t
  · subst heq
    rw [update_self, update_self]
  · rw [update_of_ne heq, update_of_ne heq]

omit [DecidableEq H] [DecidableEq G] [AddCommGroup G] [Fintype H] in
/-- A step that is not seen: the thread is where it was with its operation. -/
theorem atomic_stays (hthreads : s'.threads = update s.threads t p)
    (hcounted : s'.counted = s.counted) (h : p.phase = (s.threads t).phase) :
    atomic s' = atomic s := by
  rw [atomic_update hthreads, hcounted, h]
  exact congrArg (Atomic.mk _) (update_eq_self ..)

omit [DecidableEq T] [DecidableEq H] [DecidableEq G] [AddCommGroup G] [Fintype H] in
theorem phases_of (h : s.threads t = p) : (atomic s).phases t = p.phase :=
  congrArg Point.phase h

omit [DecidableEq T] [DecidableEq H] [DecidableEq G] [AddCommGroup G] [Fintype H] in
/-- `notify_all` is not seen. -/
theorem atomic_notify_all (s : ScopedCounter T H G) :
    atomic s.notify_all = atomic s := by
  refine congrArg (Atomic.mk _) (funext fun u => ?_)
  show (s.threads u).wake.phase = (s.threads u).phase
  cases s.threads u <;> rfl

omit [DecidableEq T] in
/-- What is counted of the adjustment that a change is about. -/
theorem effect_of_change {change : Change H G} {counted : H → Option G}
    (h : counted change.handle = change.before) : Effect initial change.operation counted none
      (update counted change.handle change.after) := by
  cases change with
  | construct handle delta => exact .delta counted handle delta h
  | destroy handle delta =>
    refine .destroy counted handle fun hnone => ?_
    rw [show counted handle = some delta from h] at hnone
    cases hnone

/-- **Every step** is one that a counter could make whose operations take effect at once. -/
theorem Step.simulates (hinv : Inv initial s) (h : Step s e s') :
    Trace (Atomic.Step (Effect initial)) (atomic s) e.toList (atomic s') := by
  cases h with
  | delta t handle amount ht hnew =>
    exact Trace.single (.call _ t _ (phases_of ht)) |>.to (atomic_update rfl)
  | destroy t handle ht hlive =>
    exact Trace.single (.call _ t _ (phases_of ht)) |>.to (atomic_update rfl)
  | @unchanged t change ht hzero =>
    have hexpects := hinv.expects t
    rw [ht] at hexpects
    exact Trace.single (e := none) (.commit _ t (phases_of ht) (effect_of_change hexpects.2))
      |>.to (atomic_update rfl)
  | @add t change ht =>
    have hexpects := hinv.expects t
    rw [ht] at hexpects
    exact Trace.single (e := none) (.commit _ t (phases_of ht) (effect_of_change hexpects.2))
      |>.to (atomic_update rfl)
  | @notify_all t change ht =>
    have hgo : atomic (s.notify_all.go t (.adjusted change)) = atomic s.notify_all :=
      atomic_stays rfl rfl (congrArg (Point.phase ∘ Point.wake) ht).symm
    exact Trace.start.to (hgo.trans (atomic_notify_all s))
  | ended t ht => exact Trace.single (.ret _ t (phases_of ht)) |>.to (atomic_update rfl)
  | @move t old new delta ht hlive hnew =>
    have hold := hinv.agrees old
    have hnone := hinv.agrees new
    rw [hlive] at hold
    rw [hnew] at hnone
    -- the members are swapped at once when the constructor is called
    have hcall : Atomic.Step (Effect initial) (atomic s) (some (.call t (.move old new)))
      ((atomic s).go t (.called (.move old new))) := .call _ t _ (phases_of ht)
    refine Trace.to ((Trace.single hcall).inside
      (.commit _ t (update_self ..) (.move s.counted old new hold hnone))) ?_
    rw [Atomic.go_go]
    exact atomic_update (p := .moving old new delta) rfl
  | moved t ht => exact Trace.single (.ret _ t (phases_of ht)) |>.to (atomic_update rfl)
  | is_zero t ht => exact Trace.single (.call _ t _ (phases_of ht)) |>.to (atomic_update rfl)
  | examine t ht =>
    have heffect : Effect initial .is_zero (atomic s).object (some (s.value = 0))
        (atomic s).object := by
      rw [hinv.value]
      exact .is_zero s.counted
    exact Trace.single (e := none) (.commit _ t (phases_of ht) heffect) |>.to (atomic_update rfl)
  | examined t ht => exact Trace.single (.ret _ t (phases_of ht)) |>.to (atomic_update rfl)
  | wait_for_zero t ht => exact Trace.single (.call _ t _ (phases_of ht)) |>.to (atomic_update rfl)
  | waited t ht hvalue =>
    have heffect : Effect initial .wait_for_zero (atomic s).object none (atomic s).object :=
      .wait_for_zero s.counted (hinv.value.symm.trans hvalue)
    exact Trace.single (e := none) (.commit _ t (phases_of ht) heffect) |>.to (atomic_update rfl)
  | wait_unlock t ht => exact Trace.single (.ret _ t (phases_of ht)) |>.to (atomic_update rfl)
  | notify t ht => exact Trace.start.to (atomic_notify_all s)
  | adjust t ht | adjust_lock t ht | zero t ht | not_zero t ht | adjust_unlock t ht
  | read_lock t ht | wait_lock t ht | wait t ht | block t ht | wake t ht | relock t ht =>
    exact Trace.start.to (atomic_stays rfl rfl (by rw [ht]; rfl))

theorem refines (initial : G) : Refines Step (Atomic.Step (Effect initial))
    (fun s : ScopedCounter T H G => Inv initial s) atomic where
  keeps _ _ _ hinv h := h.inv hinv
  simulates _ _ _ := Step.simulates

/-- **A counter is linearizable.** Whatever its callers see in a run of it, they could see of a
set of adjustments whose operations take effect at once: `isZero` tells whether the initial
value and the adjustments add up to zero at some point during the call, and `waitForZero`
returns only if they do. -/
theorem adjustments_atomic (initial : G) {l : List (Action T (Operation H G) (Option Bool))}
    (h : Trace Step ({ value := initial } : ScopedCounter T H G) l s) :
    Trace (Atomic.Step (Effect initial)) { object := fun _ => none } l (atomic s) :=
  ((refines initial).trace (inv_start initial) h).2

/-- **Nobody sleeps at zero.** In every state that is reached, the value is the sum of the
initial value and of the adjustments, if none of them is being constructed, destroyed or
moved; and when the mutex is not locked and the value is zero, no thread is blocked. -/
theorem nobody_sleeps_at_zero (initial : G)
    {l : List (Action T (Operation H G) (Option Bool))}
    (h : Trace Step ({ value := initial } : ScopedCounter T H G) l s) :
    ((∀ handle t, s.adjustments handle ≠ .used t) →
      s.value = initial + total Adjustment.delta s.adjustments) ∧
    (s.zero_cv_mutex = none → s.value = 0 → ∀ t, s.threads t ≠ .blocked) := by
  have hinv := ((refines initial).trace (inv_start initial) h).1
  refine ⟨fun hunused => ?_, fun hfree hzero t ht => ?_⟩
  · rw [hinv.value]
    congr 1
    refine Finset.sum_congr rfl fun handle _ => ?_
    have hagrees := hinv.agrees handle
    cases hadjustment : s.adjustments handle with
    | unborn =>
      rw [hadjustment] at hagrees
      rw [show s.counted handle = none from hagrees]
      rfl
    | live delta =>
      rw [hadjustment] at hagrees
      rw [show s.counted handle = some delta from hagrees]
      rfl
    | used t => exact absurd hadjustment (hunused handle t)
  · rcases hinv.blocked t ht with hvalue | ⟨u, hu⟩
    · exact hvalue hzero
    · -- a thread that tests the value has locked the mutex
      refine (hfree ▸ hinv.guards).not_critical u ?_
      cases hthread : s.threads u <;> rw [hthread] at hu <;> first | rfl | cases hu

end Atomic

/-- A thread constructs an adjustment. -/
def constructing : ScopedCounter Bool Unit ℤ :=
  (((({ value := 0 } : ScopedCounter Bool Unit ℤ).set () (.used false)).go false
    (.entered (.construct () 1))).go false (.adjusting (.construct () 1))).lock false
      (.adding (.construct () 1))

/-- It has been constructed, another thread has blocked, and it is about to be destroyed. -/
def destroying : ScopedCounter Bool Unit ℤ :=
  let counted := ({ constructing with value := constructing.value + 1 }.count ()
    (some 1)).go false (.testing (.construct () 1))
  let alive := (((counted.go false (.adjusted (.construct () 1))).unlock false
    (.ended (.construct () 1))).set () (.live 1)).go false .outside
  let blocked := (((alive.go true .waiting).lock true .checking).go true .blocking).unlock true
    .blocked
  (((blocked.set () (.used false)).go false (.entered (.destroy () 1))).go false
    (.adjusting (.destroy () 1))).lock false (.adding (.destroy () 1))

/-- The value is zero, and the other thread has been woken. -/
def woken_at_zero : ScopedCounter Bool Unit ℤ :=
  let zero := ({ destroying with value := destroying.value + -1 }.count () none).go false
    (.testing (.destroy () 1))
  ((zero.go false (.notifying (.destroy () 1))).notify_all.go false
    (.adjusted (.destroy () 1))).unlock false (.ended (.destroy () 1))

theorem traces_constructing : Trace Step ({ value := 0 } : ScopedCounter Bool Unit ℤ)
    [.call false (.delta () 1)] constructing := by
  refine .inside ?_ (.adjust_lock _ false rfl rfl)
  refine .inside ?_ (.adjust _ false rfl (by decide))
  exact .seen .start (.delta _ false () 1 rfl rfl)

theorem traces_destroying : Trace Step constructing
    [.ret false none, .call true .wait_for_zero, .call false (.destroy ())] destroying := by
  have hrun : Trace Step constructing [] constructing := .start
  have hrun := hrun.inside (.add _ false rfl)
  have hrun := hrun.inside (.not_zero _ false rfl (by decide))
  have hrun := hrun.inside (.adjust_unlock _ false rfl)
  have hrun := hrun.seen (.ended _ false rfl)
  -- another thread waits, and blocks
  have hrun := hrun.seen (.wait_for_zero _ true rfl)
  have hrun := hrun.inside (.wait_lock _ true rfl rfl)
  have hrun := hrun.inside (.wait _ true rfl (by decide))
  have hrun := hrun.inside (.block _ true rfl)
  have hrun := hrun.seen (.destroy _ false () rfl rfl)
  have hrun := hrun.inside (.adjust _ false rfl (by decide))
  exact hrun.inside (.adjust_lock _ false rfl rfl)

theorem traces_woken_at_zero : Trace Step destroying [] woken_at_zero := by
  refine .inside ?_ (.adjust_unlock _ false rfl)
  refine .inside ?_ (.notify_all _ false rfl)
  refine .inside ?_ (.zero _ false rfl rfl)
  exact .inside .start (.add destroying false rfl)

/-- What has been seen is seen of a counter whose operations take effect at once. -/
theorem adjustments_atomic_woken :
    Trace (Atomic.Step (Effect 0)) { object := fun _ => none }
      [.call false (.delta () 1), .ret false none, .call true .wait_for_zero,
        .call false (.destroy ())] (atomic woken_at_zero) :=
  adjustments_atomic 0
    ((traces_constructing.trans traces_destroying).trans traces_woken_at_zero)

/-- The thread that has waited is not blocked any more. -/
theorem nobody_sleeps_at_zero_woken :
    woken_at_zero.value = 0 ∧ woken_at_zero.threads true ≠ .blocked := by
  obtain ⟨-, hawake⟩ := nobody_sleeps_at_zero 0
    ((traces_constructing.trans traces_destroying).trans traces_woken_at_zero)
  exact ⟨rfl, hawake rfl rfl true⟩

end ScopedCounter
end Kaiu
