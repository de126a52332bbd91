/-
`join` is sound: when it returns, nothing is left to do.

`join` looks at two things that are locked separately, the queues and the number
of threads that are not idle. That this is enough rests on two invariants. `Locks`
ties the mutexes to where the threads stand, so that with all queues locked no
worker is inside `pop`. `Counted` says that the counter is the number of workers
that are not between the two ends of the wait. Together they leave every worker
blocked when the check succeeds, and a loop in that state stays so (`Quiet`).
That each event has then been run is a matter of bookkeeping: an event is in a
queue, or executing, or has ended (`Books`), and likewise for exceptions.
-/
import Kaiu.EventLoop

set_option autoImplicit false

namespace Kaiu
namespace EventLoop

open Census ParallelEventLoop Relation

variable {P W C Task X : Type*}

/-- The worker has locked its queue. -/
def Worker.holds : Worker Task X → Bool
  | .locked | .guarding | .waiting | .unguarding | .popping => true
  | _ => false

/-- The worker is counted by `threads_not_idle_counter`. -/
def Worker.not_idle : Worker Task X → Bool
  | .waiting | .blocked | .unguarding | .left => false
  | _ => true

/-- The worker executes the event. -/
def Worker.executes (id : ℕ) : Worker Task X → Bool
  | .executing id' _ => id' == id
  | _ => false

/-- The worker is about to store the exception. -/
def Worker.stores [DecidableEq X] (y : ℕ × X) : Worker Task X → Bool
  | .caught id error => (id, error) == y
  | _ => false

variable {s s' : ParallelEventLoop P W C Task X} {w : W} [DecidableEq W]

/-- The counter is the number of workers that are not idle. -/
def Counted [Fintype W] (s : ParallelEventLoop P W C Task X) : Prop :=
  s.threads_not_idle_counter = census Worker.not_idle s.workers

/-- A worker moves, and adjusts the counter by what it counts for. -/
theorem Counted.go [Fintype W] (hc : Counted s) {x : Worker Task X} {δ : ℤ}
    (hx : (x.not_idle.toNat : ℤ) = (s.workers w).not_idle.toNat + δ)
    (hcounter : s'.threads_not_idle_counter = s.threads_not_idle_counter + δ)
    (hworkers : s'.workers = Function.update s.workers w x) : Counted s' := by
  have hmove := census_update Worker.not_idle s.workers w x
  unfold Counted at hc ⊢
  rw [hcounter, hworkers, hc]
  omega

variable [DecidableEq P] {pools : Pools P W} {program : Program P C Task X}

/-! ## The mutexes -/

/-- Who has locked which queue. -/
structure Locks (pools : Pools P W) (s : ParallelEventLoop P W C Task X) : Prop where
  holds : ∀ w, (s.workers w).holds = true → s.queue_mutex (pools.pool w) = some (.worker w)
  locking : ∀ first counter, s.main = .locking first counter → ∀ i < counter, ∀ p,
    pools.queues[(first + i) % pools.queues.length]? = some p → s.queue_mutex p = some .main
  checking : s.main = .checking → ∀ p, s.queue_mutex p = some .main

omit [DecidableEq P] in
/-- A worker moves, and keeps the mutex of its queue if it has it. -/
theorem Locks.go (hl : Locks pools s) {x : Worker Task X} (hx : x.holds = (s.workers w).holds)
    (hmutex : s'.queue_mutex = s.queue_mutex) (hmain : s'.main = s.main)
    (hworkers : s'.workers = Function.update s.workers w x) : Locks pools s' := by
  constructor
  · intro w' hw'
    rw [hworkers] at hw'
    rw [hmutex]
    by_cases hww : w' = w
    · subst hww
      rw [Function.update_self, hx] at hw'
      exact hl.holds w' hw'
    · rw [Function.update_of_ne hww] at hw'
      exact hl.holds w' hw'
  · rw [hmain, hmutex]
    exact hl.locking
  · rw [hmain, hmutex]
    exact hl.checking

/-- A worker locks the mutex of its queue. -/
theorem Locks.lock (hl : Locks pools s) {x : Worker Task X}
    (hm : s.queue_mutex (pools.pool w) = none)
    (hmutex : s'.queue_mutex
      = Function.update s.queue_mutex (pools.pool w) (some (.worker w))) (hmain : s'.main = s.main)
    (hworkers : s'.workers = Function.update s.workers w x) : Locks pools s' := by
  -- a mutex that somebody else has is another one
  have hother : ∀ p owner, s.queue_mutex p = some owner → s'.queue_mutex p = some owner := by
    intro p owner hp
    have hne : p ≠ pools.pool w := by
      rintro rfl
      rw [hm] at hp
      cases hp
    rw [hmutex, Function.update_of_ne hne]
    exact hp
  constructor
  · intro w' hw'
    rw [hworkers] at hw'
    by_cases hww : w' = w
    · rw [hww, hmutex, Function.update_self]
    · rw [Function.update_of_ne hww] at hw'
      exact hother _ _ (hl.holds w' hw')
  · intro first counter heq i hi p hp
    rw [hmain] at heq
    exact hother _ _ (hl.locking first counter heq i hi p hp)
  · intro heq p
    rw [hmain] at heq
    exact hother _ _ (hl.checking heq p)

/-- A worker unlocks the mutex of its queue. -/
theorem Locks.unlock (hl : Locks pools s) {x : Worker Task X}
    (hw : (s.workers w).holds = true) (hx : x.holds = false)
    (hmutex : s'.queue_mutex = Function.update s.queue_mutex (pools.pool w) none)
    (hmain : s'.main = s.main) (hworkers : s'.workers = Function.update s.workers w x) :
    Locks pools s' := by
  have hown := hl.holds w hw
  have hother : ∀ p owner, owner ≠ .worker w → s.queue_mutex p = some owner →
      s'.queue_mutex p = some owner := by
    intro p owner howner hp
    have hne : p ≠ pools.pool w := by
      rintro rfl
      rw [hown] at hp
      exact howner (Option.some.inj hp).symm
    rw [hmutex, Function.update_of_ne hne]
    exact hp
  constructor
  · intro w' hw'
    rw [hworkers] at hw'
    by_cases hww : w' = w
    · rw [hww, Function.update_self, hx] at hw'
      cases hw'
    · rw [Function.update_of_ne hww] at hw'
      refine hother _ _ (fun heq => ?_) (hl.holds w' hw')
      injection heq with heq
      exact hww heq
  · intro first counter heq i hi p hp
    rw [hmain] at heq
    exact hother _ _ nofun (hl.locking first counter heq i hi p hp)
  · intro heq p
    rw [hmain] at heq
    exact hother _ _ nofun (hl.checking heq p)

theorem PopStep.locks (hl : Locks pools s) (h : PopStep pools w s s') : Locks pools s' := by
  cases h with
  | lock hw hm | wake hw hm => exact hl.lock hm rfl rfl rfl
  | block hw hq | pop hw hq | pop_none hw hq =>
    exact hl.unlock (by rw [hw]; rfl) rfl rfl rfl rfl
  | found hw hq | found_none hw hq | guard hw | waited hw hq | unguard hw =>
    exact hl.go (by rw [hw]; rfl) rfl rfl rfl

theorem RunStep.locks (hl : Locks pools s) (h : RunStep program w s s') : Locks pools s' := by
  cases h with
  | @goes_on id task task' state event hw hpush hact =>
    refine hl.go (x := .executing id task') (by rw [hw]; rfl) ?_ ?_ ?_
    all_goals simp [ParallelEventLoop.go]
  | @returns id task state event hw hpush hact =>
    refine hl.go (x := .next) (by rw [hw]; rfl) ?_ ?_ ?_
    all_goals simp [ParallelEventLoop.go]
  | @throws id task state x event hw hpush hact =>
    refine hl.go (x := .caught id x) (by rw [hw]; rfl) ?_ ?_ ?_
    all_goals simp [ParallelEventLoop.go]
  | stores hw => exact hl.go (by rw [hw]; rfl) rfl rfl rfl

/-- `lock_many` goes around: after as many mutexes as there are, it has locked each
of them. -/
theorem covers_all (first : ℕ) {n i : ℕ} (hi : i < n) : ∃ j < n, (first + j) % n = i := by
  refine ⟨(i + (n - first % n)) % n, Nat.mod_lt _ (by omega), ?_⟩
  have hlt : first % n < n := Nat.mod_lt _ (by omega)
  rw [Nat.add_mod, Nat.mod_mod, ← Nat.add_mod]
  have hsum : first + (i + (n - first % n)) = i + n * (first / n + 1) := by
    have := Nat.div_add_mod first n
    rw [Nat.mul_add]
    omega
  rw [hsum, Nat.add_mul_mod_self_left, Nat.mod_eq_of_lt hi]

omit [DecidableEq W] [DecidableEq P] in
/-- The main thread has locked nothing. -/
theorem locks_of_main
    (hholds : ∀ w, (s.workers w).holds = true → s.queue_mutex (pools.pool w) = some (.worker w))
    (hlocking : ∀ first counter, s.main = .locking first counter → counter = 0)
    (hchecking : s.main ≠ .checking) : Locks pools s := by
  refine ⟨hholds, fun first counter heq i hi => ?_, fun heq => absurd heq hchecking⟩
  rw [hlocking first counter heq] at hi
  exact absurd hi (Nat.not_lt_zero i)

omit [DecidableEq P] in
/-- The main thread unlocks its own mutexes only. -/
theorem Locks.holds_unlock_all (hl : Locks pools s) (w : W) (hw : (s.workers w).holds = true) :
    s.unlock_all.queue_mutex (pools.pool w) = some (.worker w) := by
  simp [unlock_all, hl.holds w hw]

theorem MainStep.locks (hl : Locks pools s) (h : MainStep pools program s s') :
    Locks pools s' := by
  cases h with
  | all_locked hmain heq =>
    rename_i first counter
    refine ⟨hl.holds, fun _ _ h => (by cases h), fun _ p => ?_⟩
    obtain ⟨i, hi, hp⟩ := List.mem_iff_getElem.mp (pools.mem_queues p)
    obtain ⟨j, hj, hmod⟩ := covers_all first hi
    refine hl.locking first counter hmain j (heq ▸ hj) p ?_
    rw [hmod, List.getElem?_eq_getElem hi, hp]
  | lock hmain hlt hp hm =>
    rename_i first counter p
    refine ⟨fun w hw => ?_, fun first' counter' heq i hi p' hp' => ?_, fun h => by cases h⟩
    · have hne : pools.pool w ≠ p := fun h => by
        have := hl.holds w hw
        rw [h, hm] at this
        cases this
      simpa [own, hne] using hl.holds w hw
    · -- the mutex that has just been locked, or one of those before it
      obtain ⟨rfl, rfl⟩ : first = first' ∧ counter + 1 = counter' := by injection heq; simp_all
      by_cases hpp : p' = p
      · simp [own, hpp]
      · have hne : i ≠ counter := fun h => by
          rw [h, hp] at hp'
          exact hpp (Option.some.inj hp').symm
        simpa [own, hpp] using hl.locking first counter hmain i (by omega) p' hp'
  | env hmain hpush henv =>
    constructor
    · simpa using hl.holds
    · simpa using hl.locking
    · simpa using hl.checking
  | process hmain hx => exact ⟨hl.holds, hl.locking, hl.checking⟩
  | zero hmain hzero =>
    refine locks_of_main hl.holds (fun first counter heq => ?_) (by simp)
    cases heq
    rfl
  | retry hmain hpos hlt hp hm =>
    refine locks_of_main hl.holds_unlock_all (fun first counter heq => ?_) (by simp [unlock_all])
    cases heq
    rfl
  | idle | busy =>
    refine locks_of_main hl.holds_unlock_all (fun first counter heq => ?_) (by simp [unlock_all])
    cases heq
  | join | processed | «return» | resume =>
    refine locks_of_main hl.holds (fun first counter heq => ?_) (by simp)
    cases heq

theorem Step.locks (hl : Locks pools s) (h : Step pools program s s') : Locks pools s' := by
  cases h with
  | pop w h => exact h.locks hl
  | run w h => exact h.locks hl
  | main h => exact h.locks hl

/-! ## The counter -/

section Counter

variable [Fintype W]

theorem PopStep.counted (hc : Counted s) (h : PopStep pools w s s') : Counted s' := by
  cases h with
  | lock hw hm | found hw hq | found_none hw hq | block hw hq | wake hw hm | waited hw hq
  | pop hw hq =>
    exact hc.go (δ := 0) (by simp [hw, Worker.not_idle]) (by simp [ParallelEventLoop.go, own]) rfl
  | guard hw => exact hc.go (δ := -1) (by simp [hw, Worker.not_idle]) rfl rfl
  | unguard hw => exact hc.go (δ := 1) (by simp [hw, Worker.not_idle]) rfl rfl
  | pop_none hw hq => exact hc.go (δ := -1) (by simp [hw, Worker.not_idle]) rfl rfl

theorem RunStep.counted (hc : Counted s) (h : RunStep program w s s') : Counted s' := by
  cases h with
  | goes_on hw hpush hact =>
    rename_i id task task' state event
    exact hc.go (w := w) (x := .executing id task') (δ := 0) (by simp [hw, Worker.not_idle])
      (by simp [ParallelEventLoop.go]) (by simp [ParallelEventLoop.go])
  | returns hw hpush hact =>
    exact hc.go (w := w) (x := .next) (δ := 0) (by simp [hw, Worker.not_idle])
      (by simp [ParallelEventLoop.go]) (by simp [ParallelEventLoop.go])
  | throws hw hpush hact =>
    rename_i id task state error event
    exact hc.go (w := w) (x := .caught id error) (δ := 0) (by simp [hw, Worker.not_idle])
      (by simp [ParallelEventLoop.go]) (by simp [ParallelEventLoop.go])
  | stores hw =>
    exact hc.go (δ := 0) (by simp [hw, Worker.not_idle]) (by simp [ParallelEventLoop.go]) rfl

theorem MainStep.counted (hc : Counted s) (h : MainStep pools program s s') : Counted s' := by
  unfold Counted at hc ⊢
  cases h <;> simpa [own, unlock_all] using hc

end Counter

/-! ## The queues -/

/-- A wait ends with an event in the queue, which only this worker can take. -/
structure Found (pools : Pools P W) (s : ParallelEventLoop P W C Task X) : Prop where
  nonempty : ∀ w, s.workers w = .unguarding ∨ s.workers w = .popping →
    s.queues (pools.pool w) ≠ []
  stays : ∀ w, s.workers w ≠ .left

omit [DecidableEq P] in
/-- A worker moves. -/
theorem Found.go (hf : Found pools s) {x : Worker Task X}
    (hx : x = .unguarding ∨ x = .popping → s'.queues (pools.pool w) ≠ []) (hleft : x ≠ .left)
    (hqueues : ∀ v, v ≠ w → s.workers v = .unguarding ∨ s.workers v = .popping →
      s'.queues (pools.pool v) ≠ [])
    (hworkers : s'.workers = Function.update s.workers w x) : Found pools s' := by
  constructor
  · intro v hv
    rw [hworkers] at hv
    by_cases hvw : v = w
    · rw [hvw, Function.update_self] at hv
      rw [hvw]
      exact hx hv
    · rw [Function.update_of_ne hvw] at hv
      exact hqueues v hvw hv
  · intro v
    rw [hworkers]
    by_cases hvw : v = w
    · rw [hvw, Function.update_self]
      exact hleft
    · rw [Function.update_of_ne hvw]
      exact hf.stays v

theorem PopStep.keeps_found (hl : Locks pools s) (hf : Found pools s) (h : PopStep pools w s s') :
    Found pools s' := by
  have hsame : ∀ v, v ≠ w → s.workers v = .unguarding ∨ s.workers v = .popping →
      s.queues (pools.pool v) ≠ [] := fun v _ hv => hf.nonempty v hv
  cases h with
  | lock hw hm => exact hf.go (x := .locked) (by simp) (by simp) hsame rfl
  | found hw hq => exact hf.go (x := .popping) (fun _ => hq) (by simp) hsame rfl
  | waited hw hq => exact hf.go (x := .unguarding) (fun _ => hq) (by simp) hsame rfl
  | found_none hw hq => exact hf.go (x := .guarding) (by simp) (by simp) hsame rfl
  | guard hw | wake hw hm => exact hf.go (x := .waiting) (by simp) (by simp) hsame rfl
  | block hw hq => exact hf.go (x := .blocked) (by simp) (by simp) hsame rfl
  | unguard hw =>
    exact hf.go (x := .popping) (fun _ => hf.nonempty w (Or.inl hw)) (by simp) hsame rfl
  | @pop id task rest hw hq =>
    refine hf.go (x := .executing id task) (by simp) (by simp) (fun v hvw hv => ?_) rfl
    -- the mutex of the queue is that of the worker that takes the event
    have hne : pools.pool v ≠ pools.pool w := by
      intro heq
      have hown := hl.holds w (by rw [hw]; rfl)
      have hown' := hl.holds v (by rcases hv with hv | hv <;> rw [hv] <;> rfl)
      rw [heq, hown] at hown'
      injection hown' with hown'
      injection hown' with hown'
      exact hvw hown'.symm
    show Function.update s.queues (pools.pool w) rest (pools.pool v) ≠ []
    rw [Function.update_of_ne hne]
    exact hf.nonempty v hv
  | pop_none hw hq => exact absurd hq (hf.nonempty w (Or.inr hw))

theorem RunStep.keeps_found (hf : Found pools s) (h : RunStep program w s s') : Found pools s' := by
  cases h with
  | @goes_on id task task' state event hw hpush hact =>
    refine hf.go (w := w) (x := .executing id task') (by simp) (by simp) (fun v _ hv => ?_) ?_
    · exact push_some_queues_ne _ _ (hf.nonempty v hv)
    · simp [ParallelEventLoop.go]
  | @returns id task state event hw hpush hact =>
    refine hf.go (w := w) (x := .next) (by simp) (by simp) (fun v _ hv => ?_) ?_
    · exact push_some_queues_ne _ _ (hf.nonempty v hv)
    · simp [ParallelEventLoop.go]
  | @throws id task state x event hw hpush hact =>
    refine hf.go (w := w) (x := .caught id x) (by simp) (by simp) (fun v _ hv => ?_) ?_
    · exact push_some_queues_ne _ _ (hf.nonempty v hv)
    · simp [ParallelEventLoop.go]
  | stores hw => exact hf.go (x := .next) (by simp) (by simp) (fun v _ hv => hf.nonempty v hv) rfl

theorem MainStep.keeps_found (hf : Found pools s) (h : MainStep pools program s s') :
    Found pools s' := by
  obtain ⟨hnonempty, hstays⟩ := hf
  cases h with
  | env hmain hpush henv =>
    refine ⟨fun w hw => push_some_queues_ne _ _ (hnonempty w (by simpa using hw)), fun w => ?_⟩
    simpa using hstays w
  | _ => exact ⟨hnonempty, hstays⟩

/-! ## The check -/

/-- When `join` has found the loop idle, the loop stays so. -/
def Quiet (s : ParallelEventLoop P W C Task X) : Prop :=
  s.main = .finishing ∨ s.main = .returned →
    (∀ p, s.queues p = []) ∧ ∀ w, s.workers w = .blocked ∨ s.workers w = .waiting

theorem PopStep.quiet (hq : Quiet s) (h : PopStep pools w s s') : Quiet s' := by
  intro hmain
  have hmain' : s.main = .finishing ∨ s.main = .returned := by
    cases h <;> exact hmain
  obtain ⟨hempty, hidle⟩ := hq hmain'
  have hw' := hidle w
  cases h with
  | wake hw hm =>
    refine ⟨hempty, fun v => ?_⟩
    by_cases hv : v = w <;> simp_all [go, own]
  | block hw hq' =>
    refine ⟨hempty, fun v => ?_⟩
    by_cases hv : v = w <;> simp_all [go, own]
  | _ => simp_all

theorem RunStep.quiet (hq : Quiet s) (h : RunStep program w s s') : Quiet s' := by
  intro hmain
  have hmain' : s.main = .finishing ∨ s.main = .returned := by
    cases h <;> simpa [go] using hmain
  have hw' := (hq hmain').2 w
  cases h <;> simp_all

/-- **The check.** With all queues locked, no worker is inside `pop`; with the
counter at zero, none is outside of the wait. -/
theorem MainStep.quiet [Fintype W] (hl : Locks pools s) (hc : Counted s) (hf : Found pools s)
    (hq : Quiet s) (h : MainStep pools program s s') : Quiet s' := by
  cases h with
  | idle hmain hempty hzero =>
    refine fun _ => ⟨fun p => hempty p (pools.mem_queues p), fun w => Or.inl ?_⟩
    have hidle : (s.workers w).not_idle = false := by
      refine census_eq_zero_iff.mp ?_ w
      rw [Counted, hzero] at hc
      exact_mod_cast hc.symm
    have hfree : (s.workers w).holds = false := by
      by_contra hne
      have := hl.holds w (by simpa using hne)
      rw [hl.checking hmain] at this
      cases this
    have hstays := hf.stays w
    simp only [unlock_all]
    cases hw : s.workers w <;> simp_all [Worker.not_idle, Worker.holds]
  | env hmain hpush henv =>
    rename_i state event
    cases event with
    | none => exact hq
    | some pt =>
      intro hmain'
      have hrunning := hmain (by simp)
      simp [hrunning] at hmain'
  | process hmain hx => exact hq
  | «return» hmain hx => exact fun _ => hq (Or.inl hmain)
  | _ => intro hmain'; simp_all [own, unlock_all]

/-! ## The events -/

/-- Every event that has been pushed is in one place, which belongs to the pool it
was pushed to. -/
structure Books [Fintype P] [Fintype W] (pools : Pools P W)
    (s : ParallelEventLoop P W C Task X) : Prop where
  count : ∀ id, total (fun queue => (queue.map Prod.fst).count id) s.queues
    + census (Worker.executes id) s.workers + (s.ended.map Prod.fst).count id
    = if id < s.pushed.length then 1 else 0
  queued : ∀ p, ∀ x ∈ s.queues p, s.pushed[x.1]? = some p
  executing : ∀ w id task, s.workers w = .executing id task →
    s.pushed[id]? = some (pools.pool w)
  ended : ∀ y ∈ s.ended, s.pushed[y.1]? = some (pools.pool y.2)

section Events

variable [Fintype P] [Fintype W]

omit [DecidableEq P] [Fintype P] in
theorem pushed_mono {pushed : List P} {id : ℕ} {p : P} (p' : P) (h : pushed[id]? = some p) :
    (pushed ++ [p'])[id]? = some p := by
  obtain ⟨hlt, -⟩ := List.getElem?_eq_some_iff.mp h
  rwa [List.getElem?_append_left hlt]

omit [DecidableEq W] in
theorem Books.push (hb : Books pools s) (p : P) (task : Task) : Books pools (s.push p task) where
  count id := by
    have hcount := hb.count id
    have hmove := total_update (fun queue => (queue.map Prod.fst).count id) s.queues p
      (s.queues p ++ [(s.pushed.length, task)])
    simp only [List.map_append, List.map_cons, List.map_nil, List.count_append,
      List.count_singleton] at hmove
    simp only [ParallelEventLoop.push, List.length_append, List.length_singleton]
    split at hcount <;> split at hmove <;> split <;> simp_all <;> omega
  queued p' x hx := by
    by_cases hp : p' = p
    · subst hp
      simp only [ParallelEventLoop.push, Function.update_self, List.mem_append,
        List.mem_singleton] at hx ⊢
      rcases hx with hx | rfl
      · exact pushed_mono _ (hb.queued p' x hx)
      · simp
    · simp only [ParallelEventLoop.push, Function.update_of_ne hp] at hx ⊢
      exact pushed_mono _ (hb.queued p' x hx)
  executing w id task h := pushed_mono _ (hb.executing w id task h)
  ended y hy := pushed_mono _ (hb.ended y hy)

omit [DecidableEq W] in
theorem Books.push_some (hb : Books pools s) (event : Option (P × Task)) :
    Books pools (s.push_some event) := by
  cases event with
  | none => exact hb
  | some pt => exact hb.push pt.1 pt.2

omit [DecidableEq W] [DecidableEq P] in
/-- The books are about the events only. -/
theorem Books.congr (hb : Books pools s) (hq : s'.queues = s.queues)
    (hp : s'.pushed = s.pushed) (hw : s'.workers = s.workers) (he : s'.ended = s.ended) :
    Books pools s' := by
  obtain ⟨hcount, hqueued, hexecuting, hended⟩ := hb
  constructor <;> simp only [hq, hp, hw, he] <;> assumption

omit [DecidableEq P] in
/-- A worker that moves without an event. -/
theorem Books.move (hb : Books pools s) {x : Worker Task X} (hq : s'.queues = s.queues)
    (hp : s'.pushed = s.pushed) (he : s'.ended = s.ended)
    (hw : s'.workers = Function.update s.workers w x)
    (hold : ∀ id, (s.workers w).executes id = false) (hnew : ∀ id, x.executes id = false) :
    Books pools s' where
  count id := by
    rw [hq, hp, he, hw, census_update_same (by rw [hold, hnew])]
    exact hb.count id
  queued := by
    rw [hq, hp]
    exact hb.queued
  executing v id task hv := by
    rw [hw] at hv
    rw [hp]
    by_cases hvw : v = w
    · subst hvw
      obtain rfl : x = .executing id task := by simpa using hv
      simpa [Worker.executes] using hnew id
    · exact hb.executing v id task (by simpa [hvw] using hv)
  ended := by
    rw [he, hp]
    exact hb.ended

/-- An event is taken from the queue. -/
theorem Books.pop (hb : Books pools s) {id : ℕ} {task : Task} {rest : List (ℕ × Task)}
    (hw : s.workers w = .popping) (hq : s.queues (pools.pool w) = (id, task) :: rest)
    (owner : P → Option (Owner W)) :
    Books pools { s with
      queues := Function.update s.queues (pools.pool w) rest, queue_mutex := owner
      workers := Function.update s.workers w (.executing id task) } where
  count id' := by
    -- the event is counted once in its queue before, and once at its worker after
    have hcount := hb.count id'
    have hqueue := total_update (fun queue => (queue.map Prod.fst).count id') s.queues
      (pools.pool w) rest
    have hmove := census_update (Worker.executes id') s.workers w (.executing id task)
    rw [hq] at hqueue
    rw [hw] at hmove
    simp only [List.map_cons, List.count_cons] at hqueue
    simp only [Worker.executes, Bool.toNat_false] at hmove
    by_cases hid : id = id'
    · subst hid
      simp_all
      omega
    · have hne : (id == id') = false := by simpa using hid
      simp_all
  queued p x hx := by
    by_cases hp : p = pools.pool w
    · subst hp
      simp only [Function.update_self] at hx
      exact hb.queued _ x (hq ▸ List.mem_cons_of_mem _ hx)
    · exact hb.queued p x (by simpa [hp] using hx)
  executing v id' task' hv := by
    by_cases hvw : v = w
    · subst hvw
      obtain ⟨rfl, rfl⟩ : id = id' ∧ task = task' := by simpa using hv
      exact hb.queued _ (id, task) (hq ▸ List.mem_cons_self)
    · exact hb.executing v id' task' (by simpa [hvw] using hv)
  ended := hb.ended

omit [DecidableEq P] in
/-- An event ends. -/
theorem Books.end_event (hb : Books pools s) {id : ℕ} {task : Task} {x : Worker Task X}
    (hw : s.workers w = .executing id task) (hnew : ∀ id, x.executes id = false) (state : C)
    (thrown : List (ℕ × X)) :
    Books pools { s with
      state := state, ended := s.ended ++ [(id, w)], thrown := thrown
      workers := Function.update s.workers w x } where
  count id' := by
    have hcount := hb.count id'
    have hmove := census_update (Worker.executes id') s.workers w x
    rw [hw, hnew] at hmove
    simp only [Worker.executes, Bool.toNat_false] at hmove
    simp only [List.map_append, List.map_cons, List.map_nil, List.count_append,
      List.count_singleton]
    by_cases hid : id = id'
    · subst hid
      simp_all
      omega
    · have hne : (id == id') = false := by simpa using hid
      simp_all
  queued := hb.queued
  executing v id' task' hv := by
    by_cases hvw : v = w
    · subst hvw
      obtain rfl : x = .executing id' task' := by simpa using hv
      simpa [Worker.executes] using hnew id'
    · exact hb.executing v id' task' (by simpa [hvw] using hv)
  ended y hy := by
    rcases List.mem_append.mp hy with hy | hy
    · exact hb.ended y hy
    · obtain rfl := List.mem_singleton.mp hy
      exact hb.executing w id task hw

omit [DecidableEq P] in
/-- An event goes on. -/
theorem Books.goes_on (hb : Books pools s) {id : ℕ} {task : Task} (task' : Task) (state : C)
    (hw : s.workers w = .executing id task) :
    Books pools { s with
      state := state, workers := Function.update s.workers w (.executing id task') } where
  count id' := by
    rw [census_update_same (by rw [hw]; rfl)]
    exact hb.count id'
  queued := hb.queued
  executing v id' task'' hv := by
    by_cases hvw : v = w
    · subst hvw
      obtain ⟨rfl, -⟩ : id = id' ∧ task' = task'' := by simpa using hv
      exact hb.executing _ _ _ hw
    · exact hb.executing v id' task'' (by simpa [hvw] using hv)
  ended := hb.ended

theorem PopStep.books (hb : Books pools s) (h : PopStep pools w s s') : Books pools s' := by
  cases h with
  | pop hw hq => exact hb.pop hw hq _
  | lock hw hm | found hw hq | found_none hw hq | guard hw | block hw hq | wake hw hm
  | waited hw hq | unguard hw | pop_none hw hq =>
    exact hb.move rfl rfl rfl rfl (by simp [hw, Worker.executes]) fun _ => rfl

theorem RunStep.books (hb : Books pools s) (h : RunStep program w s s') : Books pools s' := by
  cases h with
  | goes_on hw hpush hact =>
    rw [go_push_some]
    exact (hb.goes_on _ _ hw).push_some _
  | returns hw hpush hact =>
    rw [go_push_some]
    exact (hb.end_event hw (fun _ => rfl) _ _).push_some _
  | throws hw hpush hact =>
    rw [go_push_some]
    exact (hb.end_event hw (fun _ => rfl) _ _).push_some _
  | stores hw => exact hb.move rfl rfl rfl rfl (by simp [hw, Worker.executes]) fun _ => rfl

theorem MainStep.books (hb : Books pools s) (h : MainStep pools program s s') :
    Books pools s' := by
  cases h with
  | env hmain hpush henv =>
    refine Books.push_some ?_ _
    exact hb.congr rfl rfl rfl rfl
  | _ => exact hb.congr rfl rfl rfl rfl

end Events

/-! ## The exceptions -/

section Exceptions

variable [Fintype W] [DecidableEq X]

/-- Every exception that has been thrown is in one place. -/
structure Kept (s : ParallelEventLoop P W C Task X) : Prop where
  count : ∀ y, s.thrown.count y
    = s.handled.count y + s.exceptions.count y + census (Worker.stores y) s.workers
  processed : s.main = .returned → s.exceptions = []

omit [DecidableEq P] in
/-- What happens without an exception. -/
theorem Kept.move (hk : Kept s) {x : Worker Task X} (ht : s'.thrown = s.thrown)
    (hh : s'.handled = s.handled) (hx : s'.exceptions = s.exceptions)
    (hw : s'.workers = Function.update s.workers w x)
    (hm : s'.main = .returned → s.main = .returned)
    (hold : ∀ y, (s.workers w).stores y = false) (hnew : ∀ y, x.stores y = false) : Kept s' where
  count y := by
    rw [ht, hh, hx, hw, census_update_same (by rw [hold, hnew])]
    exact hk.count y
  processed h := by
    rw [hx]
    exact hk.processed (hm h)

theorem PopStep.kept (hk : Kept s) (h : PopStep pools w s s') : Kept s' := by
  cases h with
  | lock hw hm | found hw hq | found_none hw hq | guard hw | block hw hq | wake hw hm
  | waited hw hq | unguard hw | pop hw hq | pop_none hw hq =>
    exact hk.move rfl rfl rfl rfl id (by simp [hw, Worker.stores]) fun _ => rfl

theorem RunStep.kept (hq : Quiet s) (hk : Kept s) (h : RunStep program w s s') : Kept s' := by
  -- nothing is executed once `join` has found the loop idle
  have hnot : s.main = .returned → s.workers w = .blocked ∨ s.workers w = .waiting :=
    fun hmain => (hq (Or.inr hmain)).2 w
  cases h with
  | goes_on hw hpush hact =>
    rename_i id task task' state event
    exact hk.move (w := w) (x := .executing id task') (by simp [go]) (by simp [go]) (by simp [go])
      (by simp [go]) (by simp [go]) (by simp [hw, Worker.stores]) fun _ => rfl
  | returns hw hpush hact =>
    exact hk.move (w := w) (x := .next) (by simp [go]) (by simp [go]) (by simp [go])
      (by simp [go]) (by simp [go]) (by simp [hw, Worker.stores]) fun _ => rfl
  | throws hw hpush hact =>
    rename_i id task state x event
    refine ⟨fun y => ?_, fun hmain => ?_⟩
    · have hcount := hk.count y
      have hmove := census_update (Worker.stores y) s.workers w (.caught id x)
      rw [hw] at hmove
      simp only [Worker.stores, Bool.toNat_false] at hmove
      simp only [go, push_some_thrown, push_some_handled, push_some_exceptions,
        push_some_workers, List.count_append, List.count_singleton]
      by_cases hy : ((id, x) == y) = true
      · simp_all
        omega
      · simp_all
    · rcases hnot (by simpa [go] using hmain) with h | h <;> simp [hw] at h
  | stores hw =>
    rename_i id x
    refine ⟨fun y => ?_, fun hmain => ?_⟩
    · have hcount := hk.count y
      have hmove := census_update (Worker.stores y) s.workers w .next
      rw [hw] at hmove
      simp only [Worker.stores, Bool.toNat_false] at hmove
      simp only [go, List.count_append, List.count_singleton]
      by_cases hy : ((id, x) == y) = true
      · simp_all
        omega
      · simp_all
    · rcases hnot hmain with h | h <;> simp [hw] at h

theorem MainStep.kept (hk : Kept s) (h : MainStep pools program s s') : Kept s' := by
  obtain ⟨hcount, hprocessed⟩ := hk
  cases h with
  | process hmain hx =>
    rename_i y rest
    refine ⟨fun z => ?_, fun h => ?_⟩
    · have := hcount z
      rw [hx, List.count_cons] at this
      simp only [List.count_append, List.count_singleton]
      omega
    · have hreturned : s.main = .returned := h
      simp [hreturned] at hmain
  | env hmain hpush henv => exact ⟨by simpa using hcount, by simpa using hprocessed⟩
  | «return» hmain hx => exact ⟨hcount, fun _ => hx⟩
  | _ => exact ⟨hcount, by simp_all [own, unlock_all]⟩

end Exceptions

/-! ## Runs -/

section Runs

variable [Fintype P] [Fintype W] [DecidableEq X]

/-- The invariant of the loop. -/
structure Sound (pools : Pools P W) (s : ParallelEventLoop P W C Task X) : Prop where
  locks : Locks pools s
  counted : Counted s
  found : Found pools s
  quiet : Quiet s
  books : Books pools s
  kept : Kept s

omit [DecidableEq W] [DecidableEq P] in
theorem sound_start (pools : Pools P W) (state : C) :
    Sound pools (start state : ParallelEventLoop P W C Task X) where
  locks := ⟨nofun, nofun, nofun⟩
  counted := by
    rw [Counted, start, census_const_true rfl]
  found := ⟨by simp [start], by simp [start]⟩
  quiet := by simp [Quiet, start]
  books := by
    refine ⟨fun id => ?_, nofun, nofun, nofun⟩
    have hnone : census (Worker.executes id) (fun _ : W => (.next : Worker Task X)) = 0 :=
      census_const_false rfl
    simp [start, total, hnone]
  kept := by
    refine ⟨fun y => ?_, fun _ => rfl⟩
    have hnone : census (Worker.stores y) (fun _ : W => (.next : Worker Task X)) = 0 :=
      census_const_false rfl
    simp [start, hnone]

/-- **Every step keeps the invariant.** -/
theorem Step.sound (hs : Sound pools s) (h : Step pools program s s') : Sound pools s' := by
  have hlocks := h.locks hs.locks
  cases h with
  | pop w h =>
    exact ⟨hlocks, h.counted hs.counted, h.keeps_found hs.locks hs.found, h.quiet hs.quiet,
      h.books hs.books, h.kept hs.kept⟩
  | run w h =>
    exact ⟨hlocks, h.counted hs.counted, h.keeps_found hs.found, h.quiet hs.quiet,
      h.books hs.books, h.kept hs.quiet hs.kept⟩
  | main h =>
    exact ⟨hlocks, h.counted hs.counted, h.keeps_found hs.found,
      h.quiet hs.locks hs.counted hs.found hs.quiet, h.books hs.books, h.kept hs.kept⟩

theorem run_sound {state : C} (hrun : ReflTransGen (Step pools program) (start state) s) :
    Sound pools s :=
  History.keeps (fun _ _ hs h => h.sound hs) (sound_start pools state) hrun

/-- **`join` is sound.** When it has returned, in whatever order the threads have
made their steps: every event that was pushed has been executed to its end, by a
worker of its pool, and no event twice; no worker executes anything; and the
exceptions that have been passed to a handler are those that the events have
thrown, each as often as it was thrown. -/
theorem join_sound (pools : Pools P W) (program : Program P C Task X) (state : C)
    (hrun : ReflTransGen (Step pools program) (start state) s) (hmain : s.main = .returned) :
    (∀ id p, s.pushed[id]? = some p → ∃ w, pools.pool w = p ∧ (id, w) ∈ s.ended) ∧
    (s.ended.map Prod.fst).Nodup ∧
    (∀ w id task error, s.workers w ≠ .executing id task ∧ s.workers w ≠ .caught id error) ∧
    s.handled.Perm s.thrown := by
  have hs := run_sound hrun
  obtain ⟨hempty, hidle⟩ := hs.quiet (Or.inr hmain)
  have hqueues : ∀ id, total (fun queue : List (ℕ × Task) => (queue.map Prod.fst).count id)
      s.queues = 0 := fun id => total_eq_zero fun p => by simp [hempty p]
  have hexecutes : ∀ id, census (Worker.executes id) s.workers = 0 := fun id =>
    census_eq_zero_iff.mpr fun w => by rcases hidle w with h | h <;> simp [h, Worker.executes]
  have hstores : ∀ y, census (Worker.stores y) s.workers = 0 := fun y =>
    census_eq_zero_iff.mpr fun w => by rcases hidle w with h | h <;> simp [h, Worker.stores]
  have hcount : ∀ id, (s.ended.map Prod.fst).count id = if id < s.pushed.length then 1 else 0 := by
    intro id
    have := hs.books.count id
    rwa [hqueues, hexecutes, Nat.zero_add] at this
  refine ⟨fun id p hp => ?_, ?_, fun w id task error => ?_, ?_⟩
  · obtain ⟨hlt, -⟩ := List.getElem?_eq_some_iff.mp hp
    have hone := hcount id
    rw [if_pos hlt] at hone
    obtain ⟨⟨id', w⟩, hy, rfl⟩ := List.mem_map.mp (List.count_pos_iff.mp (hone ▸ Nat.one_pos))
    refine ⟨w, ?_, hy⟩
    have := hs.books.ended _ hy
    rw [hp] at this
    exact (Option.some.inj this).symm
  · refine List.nodup_iff_count_le_one.mpr fun id => ?_
    rw [hcount]
    split <;> omega
  · rcases hidle w with h | h <;> simp [h]
  · refine List.perm_iff_count.mpr fun y => ?_
    have := hs.kept.count y
    rw [hs.kept.processed hmain, hstores] at this
    simpa using this.symm

end Runs

/-- One pool with one worker, and one event, which throws: the worker runs it, goes
to wait for the next one, and `join` hands on the exception and returns. -/
theorem join_sound_throwing_event :
    ∃ s : ParallelEventLoop Unit Unit Unit Unit String,
      s.main = .returned ∧ s.pushed = [()] ∧ s.handled = [(0, "thrown")] ∧
      (∃ w, (0, w) ∈ s.ended) ∧ s.handled.Perm s.thrown := by
  let pools : Pools Unit Unit := ⟨id, [()], by simp⟩
  let program : Program Unit Unit Unit String :=
    ⟨fun _ _ _ event next => event = none ∧ next = .throws "thrown", fun _ _ _ => True⟩
  have hrun : ReflTransGen (Step pools program) (start ()) (start ()) := .refl
  -- the main thread pushes the event and the worker runs it
  have hrun := hrun.tail (.main (@MainStep.env _ _ _ _ _ _ _ pools program _ ()
    (some ((), ())) (fun _ => rfl) (fun _ _ _ => rfl) trivial))
  have hrun := hrun.tail (.pop () (.lock rfl rfl))
  have hrun := hrun.tail (.pop () (.found rfl (by simp [go, own, push_some, push])))
  have hrun := hrun.tail (.pop () (.pop rfl rfl))
  have hrun := hrun.tail (.run () (@RunStep.throws _ _ _ _ _ _ _ program () _ 0 () () _ none rfl
    (can_push_none _) ⟨rfl, rfl⟩))
  have hrun := hrun.tail (.run () (.stores rfl))
  -- the worker waits for another one
  have hrun := hrun.tail (.pop () (.lock rfl rfl))
  have hrun := hrun.tail (.pop () (.found_none rfl rfl))
  have hrun := hrun.tail (.pop () (.guard rfl))
  have hrun := hrun.tail (.pop () (.block rfl rfl))
  -- the main thread joins
  have hrun := hrun.tail (.main (.join rfl))
  have hrun := hrun.tail (.main (.process (Or.inr (Or.inl rfl)) rfl))
  have hrun := hrun.tail (.main (.processed rfl rfl))
  have hrun := hrun.tail (.main (.zero rfl rfl))
  have hrun := hrun.tail (.main (.lock rfl (by decide) rfl rfl))
  have hrun := hrun.tail (.main (.all_locked rfl rfl))
  have hrun := hrun.tail (.main (.idle rfl (fun _ _ => rfl) rfl))
  have hrun := hrun.tail (.main (.return rfl rfl))
  obtain ⟨hended, -, -, hperm⟩ := join_sound pools program () hrun rfl
  obtain ⟨w, -, hmem⟩ := hended 0 () rfl
  exact ⟨_, rfl, rfl, rfl, ⟨w, hmem⟩, hperm⟩

end EventLoop
end Kaiu
