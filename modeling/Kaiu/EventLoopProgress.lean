/-
`join` can always return.

`join` waits for the workers, for their queues and for itself: it is in a loop that ends
when it has found all of them idle, it takes all mutexes while the workers take them one
at a time, and it is not told of an event that is pushed while no worker is counted. For
events that come to an end and never block, there is no state of the loop from which
`join` cannot return any more (`join_can_return`).

What is left to do is measured by the work of the events that have not ended, by how far
the workers are from the end of their waits, and by how far `join` is from its end, in
this order. A worker that has something to do can make a step that makes this smaller, or
the one can that has locked the queue that it is waiting for; where no worker has, `join`
can.
-/
import Kaiu.EventLoopJoin
import Mathlib.Data.Nat.ModEq
import Mathlib.Data.Prod.Lex
import Mathlib.Order.WellFounded

set_option autoImplicit false

namespace Kaiu
namespace EventLoop

open Census ParallelEventLoop Relation Function

variable {P W C Task X : Type*}

/-- What is left to do after an action. -/
@[simp] def Then.left (size : Task → ℕ) : Then Task X → ℕ
  | goes_on task => size task
  | returns | throws _ => 0

/-- What an action has pushed. -/
def pushed_size (size : Task → ℕ) : Option (P × Task) → ℕ
  | none => 0
  | some (_, task) => size task

/-- Events never block, and each of their actions leaves less to do, what it pushes
included. -/
structure Terminates (program : Program P C Task X) (size : Task → ℕ) : Prop where
  acts : ∀ state task, ∃ state' event next, program.act state task state' event next
  ends : ∀ state task state' event next, program.act state task state' event next →
    next.left size + pushed_size size event < size task

/-! ## Who has locked the queues -/

/-- A queue is locked by `join`, or by a worker of its pool. -/
structure Owned (pools : Pools P W) (s : ParallelEventLoop P W C Task X) : Prop where
  worker : ∀ p w, s.queue_mutex p = some (.worker w) →
    pools.pool w = p ∧ (s.workers w).holds = true
  main : ∀ p, s.queue_mutex p = some .main → s.main = .checking ∨
    ∃ first counter, s.main = .locking first counter ∧
      ∃ i < counter, pools.queues[(first + i) % pools.queues.length]? = some p
  counter : ∀ first counter, s.main = .locking first counter → counter ≤ pools.queues.length

section Owned

variable [DecidableEq P] [DecidableEq W] {pools : Pools P W} {program : Program P C Task X}
  {s s' : ParallelEventLoop P W C Task X} {w : W}

omit [DecidableEq P] in
/-- A worker goes on; it may lock or unlock its queue. -/
theorem Owned.go (ho : Owned pools s) {x : Worker Task X}
    (hmutex : ∀ p owner, s'.queue_mutex p = some owner →
      owner = .worker w ∧ pools.pool w = p ∧ x.holds = true ∨
        owner ≠ .worker w ∧ s.queue_mutex p = some owner)
    (hmain : s'.main = s.main) (hworkers : s'.workers = update s.workers w x) :
    Owned pools s' where
  worker p v hp := by
    rw [hworkers]
    rcases hmutex p _ hp with ⟨heq, hpool, hx⟩ | ⟨hne, hp⟩
    · cases heq
      rw [update_self]
      exact ⟨hpool, hx⟩
    · have hvw : v ≠ w := fun heq => hne (heq ▸ rfl)
      rw [update_of_ne hvw]
      exact ho.worker p v hp
  main p hp := by
    rcases hmutex p _ hp with ⟨heq, -⟩ | ⟨-, hp⟩
    · cases heq
    · rw [hmain]
      exact ho.main p hp
  counter first counter heq := ho.counter first counter (hmain ▸ heq)

omit [DecidableEq P] in
/-- A worker goes on, and the mutexes are as they were. -/
theorem Owned.stays (ho : Owned pools s) {x : Worker Task X}
    (hx : (s.workers w).holds = true → x.holds = true) (hmutex : s'.queue_mutex = s.queue_mutex)
    (hmain : s'.main = s.main) (hworkers : s'.workers = update s.workers w x) :
    Owned pools s' := by
  refine ho.go (fun p owner hp => ?_) hmain hworkers
  rw [hmutex] at hp
  by_cases heq : owner = .worker w
  · subst heq
    obtain ⟨hpool, hholds⟩ := ho.worker p w hp
    exact .inl ⟨rfl, hpool, hx hholds⟩
  · exact .inr ⟨heq, hp⟩

/-- A worker locks its queue. -/
theorem Owned.lock (ho : Owned pools s) {x : Worker Task X} (hx : x.holds = true)
    (hmutex : s'.queue_mutex = update s.queue_mutex (pools.pool w) (some (.worker w)))
    (hw : (s.workers w).holds = false) (hmain : s'.main = s.main)
    (hworkers : s'.workers = update s.workers w x) : Owned pools s' := by
  refine ho.go (fun p owner hp => ?_) hmain hworkers
  rw [hmutex] at hp
  by_cases heq : p = pools.pool w
  · subst heq
    rw [update_self] at hp
    exact .inl ⟨(Option.some.inj hp).symm, rfl, hx⟩
  · rw [update_of_ne heq] at hp
    refine .inr ⟨fun howner => ?_, hp⟩
    subst howner
    rw [(ho.worker p w hp).2] at hw
    cases hw

/-- A worker unlocks its queue. -/
theorem Owned.unlock (ho : Owned pools s) {x : Worker Task X}
    (hmutex : s'.queue_mutex = update s.queue_mutex (pools.pool w) none)
    (hmain : s'.main = s.main) (hworkers : s'.workers = update s.workers w x) :
    Owned pools s' := by
  refine ho.go (fun p owner hp => ?_) hmain hworkers
  rw [hmutex] at hp
  by_cases heq : p = pools.pool w
  · subst heq
    rw [update_self] at hp
    cases hp
  · rw [update_of_ne heq] at hp
    refine .inr ⟨fun howner => ?_, hp⟩
    subst howner
    exact heq (ho.worker p w hp).1.symm

theorem PopStep.owned (ho : Owned pools s) (h : PopStep pools w s s') : Owned pools s' := by
  cases h with
  | lock hw hm | wake hw hm => exact ho.lock rfl rfl (by rw [hw]; rfl) rfl rfl
  | block hw hq | pop hw hq | pop_none hw hq => exact ho.unlock rfl rfl rfl
  | found hw hq | found_none hw hq | guard hw | waited hw hq | unguard hw =>
    exact ho.stays (fun _ => rfl) rfl rfl rfl

theorem RunStep.owned (ho : Owned pools s) (h : RunStep program w s s') : Owned pools s' := by
  cases h with
  | @goes_on id task task' state event hw hpush hact =>
    refine ho.stays (w := w) (x := .executing id task') (by simp [hw, Worker.holds]) ?_ ?_ ?_
    all_goals simp [ParallelEventLoop.go]
  | @returns id task state event hw hpush hact =>
    refine ho.stays (w := w) (x := .next) (by simp [hw, Worker.holds]) ?_ ?_ ?_
    all_goals simp [ParallelEventLoop.go]
  | @throws id task state x event hw hpush hact =>
    refine ho.stays (w := w) (x := .caught id x) (by simp [hw, Worker.holds]) ?_ ?_ ?_
    all_goals simp [ParallelEventLoop.go]
  | stores hw => exact ho.stays (by simp [hw, Worker.holds]) rfl rfl rfl

omit [DecidableEq P] [DecidableEq W] in
/-- The main thread has locked nothing. -/
theorem Owned.main_free (ho : Owned pools s)
    (hmutex : ∀ p owner, s'.queue_mutex p = some owner →
      owner ≠ .main ∧ s.queue_mutex p = some owner)
    (hworkers : s'.workers = s.workers)
    (hcounter : ∀ first counter, s'.main = .locking first counter → counter = 0) :
    Owned pools s' where
  worker p w hp := by
    rw [hworkers]
    exact ho.worker p w (hmutex p _ hp).2
  main p hp := absurd rfl (hmutex p _ hp).1
  counter first counter heq := by
    rw [hcounter first counter heq]
    exact Nat.zero_le _

omit [DecidableEq P] [DecidableEq W] in
/-- Outside of `lock_many` and the check, the main thread has locked nothing. -/
theorem Owned.not_main (ho : Owned pools s) (hchecking : s.main ≠ .checking)
    (hlocking : ∀ first counter, s.main = .locking first counter → counter = 0) (p : P) :
    s.queue_mutex p ≠ some .main := by
  intro hp
  rcases ho.main p hp with hmain | ⟨first, counter, hmain, i, hi, -⟩
  · exact hchecking hmain
  · rw [hlocking first counter hmain] at hi
    exact absurd hi (Nat.not_lt_zero i)

omit [DecidableEq P] in
theorem unlock_all_mutex {p : P} {owner : Owner W} (hp : s.unlock_all.queue_mutex p = some owner) :
    owner ≠ .main ∧ s.queue_mutex p = some owner := by
  have hp' : (if s.queue_mutex p = some .main then none else s.queue_mutex p) = some owner := hp
  split at hp'
  · cases hp'
  · rename_i hne
    exact ⟨fun heq => hne (heq ▸ hp'), hp'⟩

theorem MainStep.owned (ho : Owned pools s) (h : MainStep pools program s s') :
    Owned pools s' := by
  cases h with
  | env hmain hpush henv =>
    refine ⟨fun p w hp => ?_, fun p hp => ?_, fun first counter heq => ?_⟩
    · simpa using ho.worker p w (by simpa using hp)
    · simpa using ho.main p (by simpa using hp)
    · exact ho.counter first counter (by simpa using heq)
  | process hmain hx => exact ⟨ho.worker, ho.main, ho.counter⟩
  | @lock first counter p hmain hlt hp hm =>
    refine ⟨fun p' w hp' => ?_, fun p' hp' => .inr ⟨first, counter + 1, rfl, ?_⟩, ?_⟩
    · by_cases heq : p' = p
      · simp [own, heq] at hp'
      · exact ho.worker p' w (by simpa [own, heq] using hp')
    · by_cases heq : p' = p
      · exact ⟨counter, Nat.lt_succ_self _, heq ▸ hp⟩
      · have hp' : s.queue_mutex p' = some .main := by simpa [own, heq] using hp'
        rcases ho.main p' hp' with hchecking | ⟨first', counter', hlocking, i, hi, hp''⟩
        · rw [hmain] at hchecking
          cases hchecking
        · rw [hmain] at hlocking
          cases hlocking
          exact ⟨i, Nat.lt_succ_of_lt hi, hp''⟩
    · intro first' counter' heq
      cases heq
      exact hlt
  | all_locked hmain heq =>
    exact ⟨ho.worker, fun _ _ => .inl rfl, fun _ _ heq => by cases heq⟩
  | zero hmain hzero =>
    refine ho.main_free (fun p owner hp => ⟨?_, hp⟩) rfl fun first counter heq => by cases heq; rfl
    rintro rfl
    exact ho.not_main (by simp [hmain]) (by simp [hmain]) p hp
  | retry hmain hpos hlt hp hm =>
    exact ho.main_free (fun p owner hp => unlock_all_mutex hp) rfl fun first counter heq => by
      cases heq
      rfl
  | idle | busy =>
    exact ho.main_free (fun p owner hp => unlock_all_mutex hp) rfl fun first counter heq => by
      cases heq
  | join hmain | processed hmain | «return» hmain | resume hmain =>
    refine ho.main_free (fun p owner hp => ⟨?_, hp⟩) rfl fun first counter heq => by cases heq
    rintro rfl
    exact ho.not_main (by simp [hmain]) (by simp [hmain]) p hp

end Owned

/-! ## What is left to do -/

section Measure

variable [Fintype P] [Fintype W] (size : Task → ℕ) (pools : Pools P W)

/-- What is left to do of the event that a worker executes. -/
@[simp] def Worker.work : Worker Task X → ℕ
  | executing _ task => size task
  | _ => 0

/-- What is left to do of all events. -/
def work (s : ParallelEventLoop P W C Task X) : ℕ :=
  total (fun queue : List (ℕ × Task) => (queue.map fun event => size event.2).sum) s.queues +
    total (Worker.work size) s.workers

/-- How far a worker is from the next event or, if there is none, from its wait. -/
@[simp] def Worker.rank (empty : Bool) : Worker Task X → ℕ
  | caught .. => 9
  | next => 8
  | locked => 7
  | guarding => 6
  | waiting => 5
  | unguarding => 4
  | popping => 3
  | executing .. => 1
  | blocked => if empty then 0 else 6
  | left => 0

/-- How far all workers are. -/
def ranks (s : ParallelEventLoop P W C Task X) : ℕ :=
  ∑ w, (s.workers w).rank (s.queues (pools.pool w)).isEmpty

/-- How far `join` is from its end. -/
@[simp] def Main.rank (queues : ℕ) : Main → ℕ
  | running => queues + 6
  | processing => queues + 5
  | waiting => queues + 4
  | locking _ counter => queues - counter + 3
  | checking => 2
  | finishing => 1
  | returned => 0

/-- What is left to do for the workers. -/
def jobs (s : ParallelEventLoop P W C Task X) : ℕ ×ₗ ℕ :=
  toLex (work size s, ranks pools s)

/-- What is left to do until `join` returns. -/
def left (s : ParallelEventLoop P W C Task X) : (ℕ ×ₗ ℕ) ×ₗ ℕ :=
  toLex (jobs size pools s, s.exceptions.length + s.main.rank pools.queues.length)

variable {size} {pools} {program : Program P C Task X} {s s' : ParallelEventLoop P W C Task X}
  {w : W}

theorem left_lt_of_jobs (h : jobs size pools s' < jobs size pools s) :
    left size pools s' < left size pools s :=
  Prod.Lex.toLex_lt_toLex.mpr (.inl h)

/-- The main thread comes nearer to its end, or handles an exception. -/
theorem left_lt_of_main (hqueues : s'.queues = s.queues) (hworkers : s'.workers = s.workers)
    (h : s'.exceptions.length + s'.main.rank pools.queues.length
      < s.exceptions.length + s.main.rank pools.queues.length) :
    left size pools s' < left size pools s := by
  refine Prod.Lex.toLex_lt_toLex.mpr (.inr ⟨?_, h⟩)
  unfold jobs work ranks
  rw [hqueues, hworkers]

theorem jobs_lt_of_work (h : work size s' < work size s) :
    jobs size pools s' < jobs size pools s :=
  Prod.Lex.toLex_lt_toLex.mpr (.inl h)

/-- A worker comes nearer to its end, and the others are where they were. -/
theorem jobs_lt_of_rank (hwork : work size s' = work size s)
    (hle : ∀ v, (s'.workers v).rank (s'.queues (pools.pool v)).isEmpty
      ≤ (s.workers v).rank (s.queues (pools.pool v)).isEmpty)
    (hlt : (s'.workers w).rank (s'.queues (pools.pool w)).isEmpty
      < (s.workers w).rank (s.queues (pools.pool w)).isEmpty) :
    jobs size pools s' < jobs size pools s :=
  Prod.Lex.toLex_lt_toLex.mpr
    (.inr ⟨hwork, Finset.sum_lt_sum (fun v _ => hle v) ⟨w, Finset.mem_univ w, hlt⟩⟩)

variable [DecidableEq W]

/-- A worker goes on, with the queues as they are. -/
theorem jobs_lt_of_go {x : Worker Task X} (hwork : x.work size = (s.workers w).work size)
    (hrank : x.rank (s.queues (pools.pool w)).isEmpty
      < (s.workers w).rank (s.queues (pools.pool w)).isEmpty)
    (hqueues : s'.queues = s.queues) (hworkers : s'.workers = update s.workers w x) :
    jobs size pools s' < jobs size pools s := by
  refine jobs_lt_of_rank (w := w) ?_ (fun v => ?_) ?_
  · unfold work
    rw [hqueues, hworkers, total_update_same hwork]
  · rw [hqueues, hworkers]
    by_cases hv : v = w
    · subst hv
      rw [update_self]
      exact hrank.le
    · rw [update_of_ne hv]
  · rwa [hqueues, hworkers, update_self]

/-- If its queue is empty, a worker that is blocked has less to do. -/
theorem rank_le (x : Worker Task X) {empty empty' : Bool} (h : empty = true → empty' = true) :
    x.rank empty' ≤ x.rank empty := by
  cases x <;> cases empty <;> cases empty' <;> simp at h ⊢

variable [DecidableEq P]

/-- A worker takes an event. -/
theorem jobs_lt_of_pop {id : ℕ} {task : Task} {rest : List (ℕ × Task)}
    (hw : s.workers w = .popping) (hq : s.queues (pools.pool w) = (id, task) :: rest)
    (hqueues : s'.queues = update s.queues (pools.pool w) rest)
    (hworkers : s'.workers = update s.workers w (.executing id task)) :
    jobs size pools s' < jobs size pools s := by
  have hworker := total_update (Worker.work size) s.workers w (.executing id task)
  have hqueue := total_update (fun queue : List (ℕ × Task) =>
    (queue.map fun event => size event.2).sum) s.queues (pools.pool w) rest
  rw [hw] at hworker
  rw [hq] at hqueue
  simp only [Worker.work, List.map_cons, List.sum_cons] at hworker hqueue
  refine jobs_lt_of_rank (w := w) ?_ (fun v => ?_) ?_
  · unfold work
    rw [hqueues, hworkers]
    omega
  · rw [hqueues, hworkers]
    by_cases hv : v = w
    · subst hv
      simp [hw]
    · rw [update_of_ne hv]
      refine rank_le _ fun hempty => ?_
      by_cases hp : pools.pool v = pools.pool w
      · rw [hp, hq] at hempty
        cases hempty
      · rwa [update_of_ne hp]
  · rw [hqueues, hworkers, update_self, hw]
    simp

/-- A step in `pop`, unless it is a wake-up with nothing to do. -/
theorem PopStep.jobs_lt (hf : Found pools s) (h : PopStep pools w s s')
    (hwake : s.workers w = .blocked → s.queues (pools.pool w) ≠ []) :
    jobs size pools s' < jobs size pools s := by
  cases h with
  | lock hw hm | found hw hq | found_none hw hq | guard hw | waited hw hq | unguard hw =>
    exact jobs_lt_of_go (by rw [hw]; rfl) (by rw [hw]; simp) rfl rfl
  | block hw hq => exact jobs_lt_of_go (by rw [hw]; rfl) (by rw [hw]; simp [hq]) rfl rfl
  | wake hw hm => exact jobs_lt_of_go (by rw [hw]; rfl) (by rw [hw]; simp [hwake hw]) rfl rfl
  | pop hw hq => exact jobs_lt_of_pop hw hq rfl rfl
  | pop_none hw hq => exact absurd hq (hf.nonempty w (.inr hw))

omit [DecidableEq W] in
theorem work_push_some (event : Option (P × Task)) (s : ParallelEventLoop P W C Task X) :
    work size (s.push_some event) = work size s + pushed_size size event := by
  cases event with
  | none => rfl
  | some pt =>
    obtain ⟨p, task⟩ := pt
    have hqueue := total_update (fun queue : List (ℕ × Task) =>
      (queue.map fun event => size event.2).sum) s.queues p
      (s.queues p ++ [(s.pushed.length, task)])
    simp only [List.map_append, List.sum_append, List.map_cons, List.map_nil, List.sum_cons,
      List.sum_nil] at hqueue
    unfold work push_some push pushed_size
    simp only
    omega

/-- An action of an event leaves less to do. -/
theorem jobs_lt_of_act {id : ℕ} {task : Task} {event : Option (P × Task)} {x : Worker Task X}
    (hw : s.workers w = .executing id task) (hx : x.work size + pushed_size size event < size task)
    (hqueues : s'.queues = (s.push_some event).queues)
    (hworkers : s'.workers = update s.workers w x) : jobs size pools s' < jobs size pools s := by
  have hpush : work size (s.push_some event) = work size s + pushed_size size event :=
    work_push_some event s
  have hworker := total_update (Worker.work size) s.workers w x
  have hold : (s.workers w).work size = size task := by rw [hw]; rfl
  rw [hold] at hworker
  refine jobs_lt_of_work ?_
  unfold work at hpush ⊢
  rw [hqueues, hworkers]
  rw [push_some_workers] at hpush
  omega

/-! ## Something can always be done -/

/-- A worker that has locked its queue can go on. -/
theorem holder_can (hf : Found pools s) (hw : (s.workers w).holds = true) :
    ∃ s', PopStep pools w s s' ∧ jobs size pools s' < jobs size pools s := by
  have hsome : ∃ s', PopStep pools w s s' := by
    cases hplace : s.workers w with
    | locked =>
      by_cases hq : s.queues (pools.pool w) = []
      · exact ⟨_, .found_none hplace hq⟩
      · exact ⟨_, .found hplace hq⟩
    | guarding => exact ⟨_, .guard hplace⟩
    | waiting =>
      by_cases hq : s.queues (pools.pool w) = []
      · exact ⟨_, .block hplace hq⟩
      · exact ⟨_, .waited hplace hq⟩
    | unguarding => exact ⟨_, .unguard hplace⟩
    | popping =>
      obtain ⟨⟨id, task⟩, rest, hq⟩ := List.exists_cons_of_ne_nil (hf.nonempty w (.inr hplace))
      exact ⟨_, .pop hplace hq⟩
    | next | blocked | executing | caught | left =>
      rw [hplace] at hw
      cases hw
  obtain ⟨s', hstep⟩ := hsome
  refine ⟨s', hstep, hstep.jobs_lt hf fun hblocked => ?_⟩
  rw [hblocked] at hw
  cases hw

/-- A worker that has something to do. -/
def Worker.active (empty : Bool) : Worker Task X → Bool
  | blocked => !empty
  | left => false
  | _ => true

/-- A queue that `join` has not locked is free, or the worker can go on that has locked it. -/
theorem free_or_can (hf : Found pools s) (ho : Owned pools s) {p : P}
    (hmain : s.queue_mutex p ≠ some .main) : s.queue_mutex p = none ∨
      ∃ s', Step pools program s s' ∧ jobs size pools s' < jobs size pools s := by
  cases hm : s.queue_mutex p with
  | none => exact .inl rfl
  | some owner =>
    cases owner with
    | main => exact absurd hm hmain
    | worker w =>
      obtain ⟨s', hstep, hlt⟩ := holder_can hf (ho.worker p w hm).2
      exact .inr ⟨s', .pop w hstep, hlt⟩

/-- An event is executed, if the queue that it pushes to is free. -/
theorem executing_can (hprogram : Terminates program size) (hf : Found pools s)
    (ho : Owned pools s) (hmain : ∀ p, s.queue_mutex p ≠ some .main) {id : ℕ} {task : Task}
    (hw : s.workers w = .executing id task) :
    ∃ s', Step pools program s s' ∧ jobs size pools s' < jobs size pools s := by
  obtain ⟨state, event, next, hact⟩ := hprogram.acts s.state task
  have hsize := hprogram.ends _ _ _ _ _ hact
  have hpush : s.can_push event ∨
      ∃ s', Step pools program s s' ∧ jobs size pools s' < jobs size pools s := by
    cases event with
    | none => exact .inl (can_push_none s)
    | some pt =>
      refine (free_or_can hf ho (hmain pt.1)).imp_left fun hfree p task heq => ?_
      cases heq
      exact hfree
  refine hpush.elim (fun hpush => ?_) fun h => h
  cases next with
  | goes_on task' =>
    refine ⟨_, .run w (.goes_on hw hpush hact), ?_⟩
    refine jobs_lt_of_act hw (x := .executing id task') hsize (by cases event <;> rfl) ?_
    simp [ParallelEventLoop.go]
  | returns =>
    refine ⟨_, .run w (.returns hw hpush hact), ?_⟩
    refine jobs_lt_of_act hw (x := .next) hsize (by cases event <;> rfl) ?_
    simp [ParallelEventLoop.go]
  | throws x =>
    refine ⟨_, .run w (.throws hw hpush hact), ?_⟩
    refine jobs_lt_of_act hw (x := .caught id x) hsize (by cases event <;> rfl) ?_
    simp [ParallelEventLoop.go]

/-- **A worker can go on** that has something to do, or the one can that it waits for. -/
theorem worker_can (hprogram : Terminates program size) (hf : Found pools s)
    (ho : Owned pools s) (hmain : ∀ p, s.queue_mutex p ≠ some .main)
    (hw : (s.workers w).active (s.queues (pools.pool w)).isEmpty = true) :
    ∃ s', Step pools program s s' ∧ jobs size pools s' < jobs size pools s := by
  cases hplace : s.workers w with
  | next =>
    refine (free_or_can hf ho (hmain (pools.pool w))).elim (fun hfree => ?_) fun h => h
    have hstep : PopStep pools w s _ := .lock hplace hfree
    exact ⟨_, .pop w hstep, hstep.jobs_lt hf fun hblocked => by simp [hplace] at hblocked⟩
  | blocked =>
    have hq : s.queues (pools.pool w) ≠ [] := by
      rw [hplace] at hw
      simpa [Worker.active] using hw
    refine (free_or_can hf ho (hmain (pools.pool w))).elim (fun hfree => ?_) fun h => h
    have hstep : PopStep pools w s _ := .wake hplace hfree
    exact ⟨_, .pop w hstep, hstep.jobs_lt hf fun _ => hq⟩
  | executing id task => exact executing_can hprogram hf ho hmain hplace
  | caught id error =>
    exact ⟨_, .run w (.stores hplace), jobs_lt_of_go (by rw [hplace]; rfl) (by simp [hplace]) rfl rfl⟩
  | locked | guarding | waiting | unguarding | popping =>
    have hcan : ∃ s', PopStep pools w s s' ∧ jobs size pools s' < jobs size pools s :=
      holder_can hf (by rw [hplace]; rfl)
    obtain ⟨s', hstep, hlt⟩ := hcan
    exact ⟨s', .pop w hstep, hlt⟩
  | left =>
    rw [hplace] at hw
    cases hw

/-- What is known of all states that are reached. -/
structure Steady (pools : Pools P W) (s : ParallelEventLoop P W C Task X) : Prop where
  locks : Locks pools s
  counted : Counted s
  found : Found pools s
  owned : Owned pools s

omit [Fintype P] in
theorem Step.steady (hs : Steady pools s) (h : Step pools program s s') : Steady pools s' := by
  have hlocks := h.locks hs.locks
  cases h with
  | pop w h =>
    exact ⟨hlocks, h.counted hs.counted, h.keeps_found hs.locks hs.found, h.owned hs.owned⟩
  | run w h => exact ⟨hlocks, h.counted hs.counted, h.keeps_found hs.found, h.owned hs.owned⟩
  | main h => exact ⟨hlocks, h.counted hs.counted, h.keeps_found hs.found, h.owned hs.owned⟩

omit [Fintype P] [DecidableEq P] [DecidableEq W] in
theorem steady_start (state : C) :
    Steady pools (start state : ParallelEventLoop P W C Task X) where
  locks := ⟨nofun, nofun, nofun⟩
  counted := by
    rw [Counted, start, census_const_true rfl]
  found := ⟨by simp [start], by simp [start]⟩
  owned := ⟨nofun, nofun, nofun⟩

omit [Fintype P] [DecidableEq P] [DecidableEq W] in
/-- If the loop is not idle, a worker has something to do. -/
theorem Steady.exists_active (hs : Steady pools s) (hpools : ∀ p, ∃ w, pools.pool w = p)
    (h : ¬ ((∀ p ∈ pools.queues, s.queues p = []) ∧ s.threads_not_idle_counter = 0)) :
    ∃ w, (s.workers w).active (s.queues (pools.pool w)).isEmpty = true := by
  by_cases hzero : s.threads_not_idle_counter = 0
  · -- there is an event, and a worker for it
    obtain ⟨p, -, hp⟩ : ∃ p, p ∈ pools.queues ∧ s.queues p ≠ [] := by
      by_contra hall
      refine h ⟨fun p hp => ?_, hzero⟩
      by_contra hne
      exact hall ⟨p, hp, hne⟩
    obtain ⟨w, rfl⟩ := hpools p
    refine ⟨w, ?_⟩
    cases hplace : s.workers w with
    | blocked => simpa [Worker.active] using hp
    | left => exact absurd hplace (hs.found.stays w)
    | _ => rfl
  · have hpos : census Worker.not_idle s.workers ≠ 0 := fun heq =>
      hzero (by rw [hs.counted, heq]; rfl)
    rw [Ne, census_eq_zero_iff] at hpos
    obtain ⟨w, hw⟩ := not_forall.mp hpos
    refine ⟨w, ?_⟩
    cases hplace : s.workers w <;> rw [hplace] at hw <;> first | rfl | exact absurd rfl hw

omit [Fintype P] [Fintype W] [DecidableEq P] [DecidableEq W] in
/-- `lock_many` locks each mutex once. -/
theorem Owned.next_not_main (ho : Owned pools s) (hnodup : pools.queues.Nodup) {first counter : ℕ}
    {p : P} (hmain : s.main = .locking first counter) (hlt : counter < pools.queues.length)
    (hp : pools.queues[(first + counter) % pools.queues.length]? = some p) :
    s.queue_mutex p ≠ some .main := by
  intro hm
  rcases ho.main p hm with hchecking | ⟨first', counter', hlocking, i, hi, hp'⟩
  · rw [hmain] at hchecking
    cases hchecking
  · rw [hmain] at hlocking
    cases hlocking
    obtain ⟨hbound, hget⟩ := List.getElem?_eq_some_iff.mp hp
    obtain ⟨hbound', hget'⟩ := List.getElem?_eq_some_iff.mp hp'
    have hsame := (hnodup.getElem_inj_iff).mp (hget'.trans hget.symm)
    have hmod : i ≡ counter [MOD pools.queues.length] := Nat.ModEq.add_left_cancel' first hsame
    have heq : i = counter := by
      rwa [Nat.ModEq, Nat.mod_eq_of_lt (by omega), Nat.mod_eq_of_lt hlt] at hmod
    omega

variable (size pools program) in
/-- `join` has returned, or some steps lead nearer to its end. -/
def Nearer (s : ParallelEventLoop P W C Task X) : Prop :=
  s.main = .returned ∨
    ∃ t, ReflTransGen (Step pools program) s t ∧ left size pools t < left size pools s

/-- The main thread makes a step. -/
theorem MainStep.nearer (h : MainStep pools program s s') (hqueues : s'.queues = s.queues)
    (hworkers : s'.workers = s.workers)
    (hlt : s'.exceptions.length + s'.main.rank pools.queues.length
      < s.exceptions.length + s.main.rank pools.queues.length) : Nearer size pools program s :=
  .inr ⟨s', .single (.main h), left_lt_of_main hqueues hworkers hlt⟩

/-- A worker makes a step. -/
theorem nearer_of_worker
    (h : ∃ t, Step pools program s t ∧ jobs size pools t < jobs size pools s) :
    Nearer size pools program s := by
  obtain ⟨t, hstep, hlt⟩ := h
  exact .inr ⟨t, .single hstep, left_lt_of_jobs hlt⟩

/-- Exceptions are handled one by one, and then the main thread goes on. -/
theorem nearer_of_exceptions {main : Main}
    (hmain : s.main = .running ∨ s.main = .processing ∨ s.main = .finishing)
    (hnext : s.exceptions = [] → MainStep pools program s { s with main := main })
    (hrank : main.rank pools.queues.length < s.main.rank pools.queues.length) :
    Nearer size pools program s := by
  cases hx : s.exceptions with
  | nil => exact (hnext hx).nearer rfl rfl (Nat.add_lt_add_left hrank _)
  | cons y rest => exact (MainStep.process hmain hx).nearer rfl rfl (by simp [hx])

/-- `lock_many` locks the next queue, unless a worker has locked it. -/
theorem Steady.nearer_of_locking (hs : Steady pools s) (hnodup : pools.queues.Nodup)
    {first counter : ℕ} (hmain : s.main = .locking first counter) :
    Nearer size pools program s := by
  by_cases hlt : counter < pools.queues.length
  · have hbound := Nat.mod_lt (first + counter) (Nat.zero_lt_of_lt hlt)
    have hp := List.getElem?_eq_getElem hbound
    have hnext := hs.owned.next_not_main hnodup hmain hlt hp
    have hfree : s.queue_mutex _ = none ∨
        ∃ s', Step pools program s s' ∧ jobs size pools s' < jobs size pools s :=
      free_or_can hs.found hs.owned hnext
    rcases hfree with hfree | hcan
    · refine (MainStep.lock hmain hlt hp hfree).nearer rfl rfl ?_
      simp only [own, hmain, Main.rank]
      omega
    · exact nearer_of_worker hcan
  · have heq : counter = pools.queues.length :=
      Nat.le_antisymm (hs.owned.counter first counter hmain) (not_lt.mp hlt)
    refine (MainStep.all_locked hmain heq).nearer rfl rfl ?_
    simp only [hmain, Main.rank]
    omega

/-- The check fails: `join` unlocks the queues, and a worker has something to do. -/
theorem Steady.nearer_of_busy (hs : Steady pools s) (hprogram : Terminates program size)
    (hpools : ∀ p, ∃ w, pools.pool w = p) (hmain : s.main = .checking)
    (h : ¬ ((∀ p ∈ pools.queues, s.queues p = []) ∧ s.threads_not_idle_counter = 0)) :
    Nearer size pools program s := by
  have hbusy : MainStep pools program s _ := .busy hmain h
  have hs' : Steady pools { s with main := .processing }.unlock_all :=
    (Step.main hbusy).steady hs
  obtain ⟨w, hw⟩ := hs.exists_active hpools h
  obtain ⟨t, hstep, hlt⟩ := worker_can (w := w) hprogram hs'.found hs'.owned
    (hs'.owned.not_main (by simp [unlock_all]) (by simp [unlock_all])) hw
  exact .inr ⟨t, (ReflTransGen.single (.main hbusy)).tail hstep, left_lt_of_jobs hlt⟩

/-- **`join` comes nearer to its end**, or a worker does. -/
theorem Steady.nearer (hs : Steady pools s) (hprogram : Terminates program size)
    (hnodup : pools.queues.Nodup) (hpools : ∀ p, ∃ w, pools.pool w = p) :
    Nearer size pools program s := by
  cases hmain : s.main with
  | running => exact (MainStep.join hmain).nearer rfl rfl (by simp [hmain])
  | processing =>
    exact nearer_of_exceptions (.inr (.inl hmain)) (.processed hmain) (by simp [hmain])
  | waiting =>
    by_cases hzero : s.threads_not_idle_counter = 0
    · exact (MainStep.zero hmain hzero).nearer rfl rfl (by simp [hmain])
    · obtain ⟨w, hw⟩ := hs.exists_active hpools fun h => hzero h.2
      exact nearer_of_worker (worker_can hprogram hs.found hs.owned
        (hs.owned.not_main (by simp [hmain]) (by simp [hmain])) hw)
  | locking first counter => exact hs.nearer_of_locking hnodup hmain
  | checking =>
    by_cases h : (∀ p ∈ pools.queues, s.queues p = []) ∧ s.threads_not_idle_counter = 0
    · exact (MainStep.idle hmain h.1 h.2).nearer rfl rfl (by simp [unlock_all, hmain])
    · exact hs.nearer_of_busy hprogram hpools hmain h
  | finishing =>
    exact nearer_of_exceptions (.inr (.inr hmain)) (.return hmain) (by simp [hmain])
  | returned => exact .inl hmain

/-- **`join` can always return.** If the events come to an end and never block, then from every
state that is reached, wherever the workers and the main thread are, some steps lead to a state
in which `join` has returned. A worker that is blocked may wake without having been notified
(`PopStep.wake`), so this alone does not say that no notification is lost. -/
theorem join_can_return {state : C} (hprogram : Terminates program size)
    (hnodup : pools.queues.Nodup) (hpools : ∀ p, ∃ w, pools.pool w = p)
    (hrun : ReflTransGen (Step pools program) (start state) s) :
    ∃ t, ReflTransGen (Step pools program) s t ∧ t.main = .returned := by
  have hkeeps : ∀ s t, Steady pools s → Step pools program s t → Steady pools t :=
    fun _ _ hs h => h.steady hs
  exact History.reaches (left size pools) hkeeps
    (fun u hu => hu.nearer hprogram hnodup hpools)
    (History.keeps hkeeps (steady_start state) hrun)

end Measure

/-- Each event pushes the next one of a countdown, and returns. -/
def countdown : Program Unit Unit ℕ Empty where
  act _ task _ event next :=
    next = .returns ∧ event = match task with
      | 0 => none
      | rest + 1 => some ((), rest)
  env _ _ _ := True

theorem countdown_terminates : Terminates countdown Nat.succ where
  acts _ task := ⟨(), _, .returns, rfl, rfl⟩
  ends _ task _ event next h := by
    obtain ⟨rfl, rfl⟩ := h
    cases task <;> simp [pushed_size]

/-- One worker, and a countdown that is pushed while `join` waits: `join` can return. -/
theorem join_can_return_countdown :
    ∃ s t : ParallelEventLoop Unit Unit Unit ℕ Empty, s.main = .waiting ∧
      s.queues () = [(0, 2)] ∧ t.main = .returned ∧
      ReflTransGen (Step ⟨id, [()], by simp⟩ countdown) s t := by
  have hrun : ReflTransGen (Step ⟨id, [()], by simp⟩ countdown)
    (start ()) (start () : ParallelEventLoop Unit Unit Unit ℕ Empty) := .refl
  have hrun := hrun.tail (.main (@MainStep.env _ _ _ _ _ _ _ _ countdown _ ()
    (some ((), 2)) (fun _ => rfl) (fun _ _ _ => rfl) trivial))
  have hrun := hrun.tail (.main (.join rfl))
  have hrun := hrun.tail (.main (.processed rfl rfl))
  obtain ⟨t, hst, ht⟩ := join_can_return countdown_terminates (List.nodup_singleton ())
    (fun p => ⟨p, rfl⟩) hrun
  exact ⟨_, t, rfl, rfl, ht, hst⟩

end EventLoop
end Kaiu
