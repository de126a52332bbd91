/-
The constructor of `ParallelEventLoop`: how the workers are let go.

The constructor checks the sizes of the pools, and then it makes a queue for each pool and
the threads of the pool, which run while it goes on. Each worker sets `this_pool`, counts
itself as not idle and is held by `starter_pistol`, and so is the constructor when it has
made all of them. The queues are in an `unordered_map` which nothing protects: a worker must
not look for its queue while the constructor still makes other ones.

A worker that has been let go finds all queues, and all workers counted (`constructs`). So
what the workers and the main thread do then is a run of the loop as it was modelled, in
which all workers have been let go at once (`runs_of_loop`).
-/
import Kaiu.EventLoop
import Kaiu.StarterPistol
import Mathlib.Data.Fintype.Option

set_option autoImplicit false

namespace Kaiu
namespace EventLoop

open Census Exit ParallelEventLoop Relation Function

/-- The pools that are asked for and their sizes, in the order of the iteration. -/
structure Request (P : Type*) where
  pools : List (P × ℤ)
  /-- No other pools are used. -/
  mem : ∀ p, p ∈ pools.map Prod.fst

/-- The pools of the threads, in the order in which these are created. -/
def hires {P : Type*} (pools : List (P × ℤ)) : List P :=
  pools.flatMap fun pair => List.replicate pair.2.toNat pair.1

namespace Request

variable {P : Type*} (request : Request P)

/-- The threads that are asked for. -/
abbrev Worker : Type :=
  Fin (hires request.pools).length

/-- The pools of the loop that is constructed. -/
def loop : Pools P request.Worker where
  pool w := (hires request.pools)[w]
  queues := request.pools.map Prod.fst
  mem_queues := request.mem

end Request

namespace Starting

/-- What the constructor throws. -/
inductive Error where
  | invalid_argument (what : String)
  | starter_pistol (error : StarterPistol.Error)
  deriving DecidableEq

/-- Where the main thread stands in the constructor. -/
inductive Constructor (P : Type*) where
  /-- In the first loop: `rest` is left to count. -/
  | counting (rest : List (P × ℤ)) (total_threads : ℤ)
  | threw (error : Error)
  /-- About to call `reset`. -/
  | resetting (total_threads : ℤ)
  /-- In `reset`, about to write. -/
  | writing
  /-- In the second loop: queues and threads are left to make for `rest`. -/
  | emplacing (rest : List (P × ℤ))
  /-- `left` threads are left to create for the pool. -/
  | creating (pool_type : P) (left : ℕ) (rest : List (P × ℤ))
  /-- About to call `ready`. -/
  | ready
  /-- In `ready`. -/
  | waiting
  | constructed

/-- Where a worker stands, up to its loop. -/
inductive Thread where
  | unborn
  /-- `this_pool` is to be set. -/
  | born
  /-- `not_idle` is to be constructed. -/
  | pooled
  /-- About to call `ready`. -/
  | counted
  /-- In `ready`. -/
  | waiting
  /-- In the loop. -/
  | looping
  deriving DecidableEq

/-- The worker has not counted itself as not idle. -/
@[simp] def Thread.uncounted : Thread → Bool
  | unborn | born | pooled => true
  | counted | waiting | looping => false

/-- The worker has called `ready`. -/
@[simp] def Thread.called : Thread → Bool
  | waiting | looping => true
  | unborn | born | pooled | counted => false

/-- The worker has set `this_pool`. -/
@[simp] def Thread.placed : Thread → Bool
  | pooled | counted | waiting | looping => true
  | unborn | born => false

/-- The main thread has called `ready`. -/
@[simp] def Constructor.called {P : Type*} : Constructor P → Bool
  | waiting | constructed => true
  | _ => false

end Starting

/-- A loop, its constructor, and what the threads are doing. -/
structure Starting {P : Type*} (request : Request P) (C Task X : Type*) where
  loop : ParallelEventLoop P request.Worker C Task X
  starter_pistol : StarterPistol (Owner request.Worker) := {}
  /-- The keys of `queues`. -/
  queues : List P := []
  /-- The pools that `do_threaded_loop` was bound to. -/
  threads : List P := []
  this_pool : request.Worker → Option P := fun _ => none
  main : Starting.Constructor P := .counting request.pools 0
  workers : request.Worker → Starting.Thread := fun _ => .unborn

namespace Starting

variable {P C Task X : Type*} {request : Request P}

/-- The constructor is called. -/
def start (request : Request P) (state : C) : Starting request C Task X :=
  { loop := { threads_not_idle_counter := 0, state := state } }

/-- A worker goes on. -/
def go (w : request.Worker) (thread : Thread) (s : Starting request C Task X) :
    Starting request C Task X :=
  { s with workers := update s.workers w thread }

/-- The steps of the constructor, before the threads are let go. -/
inductive MakeStep : Starting request C Task X → Starting request C Task X → Prop where
  | count (s : Starting request C Task X) {p : P} {n : ℤ} {rest : List (P × ℤ)} {total : ℤ}
      (h : s.main = .counting ((p, n) :: rest) total) (hn : 0 < n) :
      MakeStep s { s with main := .counting rest (total + n) }
  | refuse (s : Starting request C Task X) {p : P} {n : ℤ} {rest : List (P × ℤ)} {total : ℤ}
      (h : s.main = .counting ((p, n) :: rest) total) (hn : n ≤ 0) :
      MakeStep s { s with
        main := .threw (.invalid_argument ("Thread count specified for a pool is zero or "
          ++ "negative.  Use SynchronousEventLoop for non-threaded event loop.")) }
  | counted (s : Starting request C Task X) {total : ℤ} (h : s.main = .counting [] total) :
      MakeStep s { s with main := .resetting total }
  | reset (s : Starting request C Task X) {total : ℤ} (h : s.main = .resetting total)
      (hreset : (s.starter_pistol.reset (total + 1)).2 = none) :
      MakeStep s { s with
        starter_pistol := (s.starter_pistol.reset (total + 1)).1
        main := .writing }
  | reset_throws (s : Starting request C Task X) {total : ℤ} {error : StarterPistol.Error}
      (h : s.main = .resetting total)
      (hreset : (s.starter_pistol.reset (total + 1)).2 = some error) :
      MakeStep s { s with main := .threw (.starter_pistol error) }
  | write (s : Starting request C Task X) {racers : ℤ} (h : s.main = .writing)
      (hstarter : s.starter_pistol.starter = .resetting racers) :
      MakeStep s { s with
        starter_pistol := s.starter_pistol.write racers
        main := .emplacing request.pools }
  | emplace (s : Starting request C Task X) {p : P} {n : ℤ} {rest : List (P × ℤ)}
      (h : s.main = .emplacing ((p, n) :: rest)) :
      MakeStep s { s with queues := s.queues ++ [p], main := .creating p n.toNat rest }
  | create (s : Starting request C Task X) (w : request.Worker) {p : P} {left : ℕ}
      {rest : List (P × ℤ)} (h : s.main = .creating p (left + 1) rest)
      (hw : w.val = s.threads.length) :
      MakeStep s { s.go w .born with
        threads := s.threads ++ [p]
        main := .creating p left rest }
  | created (s : Starting request C Task X) {p : P} {rest : List (P × ℤ)}
      (h : s.main = .creating p 0 rest) : MakeStep s { s with main := .emplacing rest }
  | all_created (s : Starting request C Task X) (h : s.main = .emplacing []) :
      MakeStep s { s with main := .ready }

/-- The steps of the threads at the pistol, and of the workers on their way to it. -/
inductive ReadyStep : Starting request C Task X → Starting request C Task X → Prop where
  | set_pool (s : Starting request C Task X) (w : request.Worker) (h : s.workers w = .born) :
      ReadyStep s { s.go w .pooled with this_pool := update s.this_pool w s.threads[w.val]? }
  | delta (s : Starting request C Task X) (w : request.Worker) (h : s.workers w = .pooled) :
      ReadyStep s { s.go w .counted with loop := s.loop.adjust 1 }
  | ready (s : Starting request C Task X) (w : request.Worker) (h : s.workers w = .counted) :
      ReadyStep s { s.go w .waiting with
        starter_pistol := s.starter_pistol.call (.worker w) }
  | main_ready (s : Starting request C Task X) (h : s.main = .ready) :
      ReadyStep s { s with
        starter_pistol := s.starter_pistol.call .main
        main := .waiting }
  /-- A step inside `ready`. -/
  | barrier (s : Starting request C Task X) {pistol : StarterPistol (Owner request.Worker)}
      (h : StarterPistol.Step (fun _ => False) (fun _ => False) s.starter_pistol pistol)
      (hcalled : pistol.called = s.starter_pistol.called)
      (hreturned : pistol.returned = s.starter_pistol.returned) :
      ReadyStep s { s with starter_pistol := pistol }
  | leave (s : Starting request C Task X) (w : request.Worker) {round : ℕ}
      (h : s.workers w = .waiting)
      (hleaving : s.starter_pistol.threads (.worker w) = .within round .leaving) :
      ReadyStep s { s.go w .looping with
        starter_pistol := s.starter_pistol.leave (.worker w) round }
  | main_leaves (s : Starting request C Task X) {round : ℕ} (h : s.main = .waiting)
      (hleaving : s.starter_pistol.threads .main = .within round .leaving) :
      ReadyStep s { s with
        starter_pistol := s.starter_pistol.leave .main round
        main := .constructed }

/-- The steps: a worker is in its loop when it has been let go, and the loop is used when it
has been constructed. -/
inductive Step [DecidableEq P] (program : Program P C Task X) :
    Starting request C Task X → Starting request C Task X → Prop where
  | make {s s' : Starting request C Task X} (h : MakeStep s s') : Step program s s'
  | ready {s s' : Starting request C Task X} (h : ReadyStep s s') : Step program s s'
  | pop (s : Starting request C Task X) (w : request.Worker)
      {loop : ParallelEventLoop P request.Worker C Task X} (h : s.workers w = .looping)
      (hstep : PopStep request.loop w s.loop loop) : Step program s { s with loop := loop }
  | run (s : Starting request C Task X) (w : request.Worker)
      {loop : ParallelEventLoop P request.Worker C Task X} (h : s.workers w = .looping)
      (hstep : RunStep program w s.loop loop) : Step program s { s with loop := loop }
  | main (s : Starting request C Task X)
      {loop : ParallelEventLoop P request.Worker C Task X} (h : s.main = .constructed)
      (hstep : MainStep request.loop program s.loop loop) :
      Step program s { s with loop := loop }
  /-- What happens outside of the loop. -/
  | env (s : Starting request C Task X) {state : C}
      (henv : program.env s.loop.state state none) :
      Step program s { s with loop := { s.loop with state := state } }

/-! ## The invariant -/

/-- All sizes that are asked for are positive. -/
def Positive (request : Request P) : Prop :=
  ∀ pair ∈ request.pools, 0 < pair.2

/-- Nothing has been made, and no thread is at the pistol. -/
structure Before (s : Starting request C Task X) (starter : StarterPistol.Starter) : Prop where
  starter_pistol : s.starter_pistol = { starter := starter }
  queues : s.queues = []
  threads : s.threads = []

/-- The pistol has been loaded for all workers and the main thread. -/
structure Loaded (s : Starting request C Task X) : Prop where
  positive : Positive request
  round : s.starter_pistol.round = 1
  none_before : s.starter_pistol.size 0 = 0
  size : s.starter_pistol.size 1 = (hires request.pools).length + 1

/-- What has been made at each point of the constructor. -/
def At (s : Starting request C Task X) : Constructor P → Prop
  | .counting rest total => Before s .idle ∧ ∃ done, request.pools = done ++ rest ∧
      (∀ pair ∈ done, 0 < pair.2) ∧ total = (hires done).length
  | .threw error => Before s .idle ∧ (∃ what, error = .invalid_argument what) ∧ ¬ Positive request
  | .resetting total => Before s .idle ∧ Positive request ∧ total = (hires request.pools).length
  | .writing => Before s (.resetting ((hires request.pools).length + 1)) ∧ Positive request
  | .emplacing rest => Loaded s ∧ ∃ done, request.pools = done ++ rest ∧
      s.queues = done.map Prod.fst ∧ s.threads = hires done
  | .creating p left rest => Loaded s ∧ ∃ done n made, request.pools = done ++ (p, n) :: rest ∧
      s.queues = done.map Prod.fst ++ [p] ∧ s.threads = hires done ++ List.replicate made p ∧
      made + left = n.toNat
  | .ready | .waiting | .constructed => Loaded s ∧ s.queues = request.pools.map Prod.fst ∧
      s.threads = hires request.pools

/-- The thread has called `ready`. -/
def called (s : Starting request C Task X) : Owner request.Worker → Bool
  | .main => s.main.called
  | .worker w => (s.workers w).called

/-- `ready` has returned to the thread. -/
def let_go (s : Starting request C Task X) : Owner request.Worker → Prop
  | .main => s.main = .constructed
  | .worker w => s.workers w = .looping

/-- The pistol is used as it should be, the threads that were created are those that are
born, and they know their pools. -/
structure Inv (s : Starting request C Task X) : Prop where
  pistol : ReflTransGen (StarterPistol.Step StarterPistol.NoneInWait StarterPistol.NoneInWait) {}
    s.starter_pistol
  at_main : At s s.main
  unborn : ∀ w, s.workers w = .unborn ↔ s.threads.length ≤ w.val
  placed : ∀ w, (s.workers w).placed → s.this_pool w = some (request.loop.pool w)
  called : ∀ t, t ∈ s.starter_pistol.called s.starter_pistol.round ↔ s.called t
  let_go : ∀ t, s.let_go t → t ∈ s.starter_pistol.returned s.starter_pistol.round

variable {s s' : Starting request C Task X} {w : request.Worker} {t : Owner request.Worker}

theorem hires_append (pools pools' : List (P × ℤ)) :
    hires (pools ++ pools') = hires pools ++ hires pools' :=
  List.flatMap_append

theorem inv_start (state : C) : Inv (start request state : Starting request C Task X) where
  pistol := .refl
  at_main := ⟨⟨rfl, rfl, rfl⟩, [], rfl, nofun, rfl⟩
  unborn w := iff_of_true rfl (Nat.zero_le _)
  placed w h := by cases h
  called t := by cases t <;> exact iff_of_false List.not_mem_nil Bool.false_ne_true
  let_go t h := by cases t <;> cases h

/-- The pistol has been loaded, or nothing has been made. -/
theorem At.loaded (h : At s s.main) (hnot : ∀ starter, ¬ Before s starter) : Loaded s := by
  cases hmain : s.main <;> rw [hmain] at h <;> first | exact h.1 | exact (hnot _ h.1).elim

theorem Before.congr {starter : StarterPistol.Starter} (h : Before s starter)
    (hpistol : s'.starter_pistol = s.starter_pistol) (hqueues : s'.queues = s.queues)
    (hthreads : s'.threads = s.threads) : Before s' starter :=
  ⟨hpistol.trans h.starter_pistol, hqueues.trans h.queues, hthreads.trans h.threads⟩

theorem Loaded.congr (h : Loaded s) (hround : s'.starter_pistol.round = s.starter_pistol.round)
    (hsize : s'.starter_pistol.size = s.starter_pistol.size) : Loaded s' :=
  ⟨h.positive, hround.trans h.round, hsize ▸ h.none_before, hsize ▸ h.size⟩

/-- Nothing of what `At` says of has changed. -/
theorem At.congr {m : Constructor P} (h : At s m) (hpistol : s'.starter_pistol = s.starter_pistol)
    (hqueues : s'.queues = s.queues) (hthreads : s'.threads = s.threads) : At s' m := by
  cases m with
  | counting | threw | resetting | writing => exact ⟨h.1.congr hpistol hqueues hthreads, h.2⟩
  | emplacing | creating | ready | waiting | constructed =>
    refine ⟨h.1.congr (by rw [hpistol]) (by rw [hpistol]), ?_⟩
    rw [hqueues, hthreads]
    exact h.2

/-- A thread goes on at the pistol. -/
theorem At.shoots (h : At s s.main) (hloaded : Loaded s)
    (hround : s'.starter_pistol.round = s.starter_pistol.round)
    (hsize : s'.starter_pistol.size = s.starter_pistol.size) (hqueues : s'.queues = s.queues)
    (hthreads : s'.threads = s.threads) : At s' s.main := by
  have hnot {starter : StarterPistol.Starter} (h : Before s starter) : False := by
    have hround := hloaded.round
    rw [h.starter_pistol] at hround
    cases hround
  cases hmain : s.main <;> rw [hmain] at h
  case counting | threw | resetting | writing => exact (hnot h.1).elim
  all_goals
    refine ⟨h.1.congr hround hsize, ?_⟩
    rw [hqueues, hthreads]
    exact h.2

/-- The main thread goes on, and may make a queue. -/
theorem Inv.makes (h : Inv s) {m : Constructor P} {queues : List P}
    (hcalled : m.called = s.main.called) (hm : m ≠ .constructed)
    (hat : At { s with queues := queues, main := m } m) :
    Inv { s with queues := queues, main := m } where
  pistol := h.pistol
  at_main := hat
  unborn := h.unborn
  placed := h.placed
  called t := by
    refine (h.called t).trans ?_
    cases t with
    | main => exact Bool.eq_iff_iff.mp hcalled.symm
    | worker w => rfl
  let_go t ht := by
    cases t with
    | main => exact absurd ht hm
    | worker w => exact h.let_go (.worker w) ht

theorem hires_cons (p : P) (n : ℤ) (rest : List (P × ℤ)) :
    hires ((p, n) :: rest) = List.replicate n.toNat p ++ hires rest :=
  List.flatMap_cons

/-- There is a worker for each thread that is to be created, and it is for this pool. -/
theorem At.creates {p : P} {left : ℕ} {rest : List (P × ℤ)}
    (h : At s (.creating p (left + 1) rest)) :
    ∃ more, hires request.pools = s.threads ++ p :: more := by
  obtain ⟨-, done, n, made, hpools, -, hthreads, hmade⟩ := h
  refine ⟨List.replicate left p ++ hires rest, ?_⟩
  rw [hpools, hires_append, hires_cons, ← hmade, hthreads, List.replicate_add]
  simp [List.replicate_succ]

/-- `reset` does not throw. -/
theorem reset_eq (h : Before s .idle) (racers : ℤ) : s.starter_pistol.reset racers
    = returns { s.starter_pistol with starter := .resetting racers } := by
  rw [h.starter_pistol]
  rfl

theorem called_of_let_go (h : s.let_go t) : s.called t = true := by
  cases t with
  | main =>
    show s.main.called = true
    rw [show s.main = .constructed from h]
    rfl
  | worker w =>
    show (s.workers w).called = true
    rw [show s.workers w = .looping from h]
    rfl

/-- As long as no thread has been created, none is at the pistol. -/
theorem none_called (hworkers : ∀ w, s.workers w = .unborn) (hmain : s.main.called = false)
    (t : Owner request.Worker) : ¬ s.called t := by
  cases t with
  | main => exact ne_true_of_eq_false hmain
  | worker w =>
    refine ne_true_of_eq_false ?_
    show (s.workers w).called = false
    rw [hworkers w]
    rfl

theorem Inv.all_unborn (h : Inv s) (hthreads : s.threads = []) (w : request.Worker) :
    s.workers w = .unborn :=
  (h.unborn w).mpr (by rw [hthreads]; exact Nat.zero_le _)

/-- The pistol is reset. -/
theorem Inv.resets (h : Inv s) {total : ℤ} (hmain : s.main = .resetting total) :
    Inv { s with starter_pistol := (s.starter_pistol.reset (total + 1)).1, main := .writing } := by
  have hat := h.at_main
  rw [hmain] at hat
  obtain ⟨hbefore, hpositive, htotal⟩ := hat
  have heq := reset_eq hbefore (total + 1)
  have hworkers := h.all_unborn hbefore.threads
  have hidle : s.starter_pistol.starter = .idle := by rw [hbefore.starter_pistol]
  have hnone : s.starter_pistol.NoneInWait := by
    intro t round place ht
    rw [hbefore.starter_pistol] at ht
    cases ht
  have hstep : StarterPistol.Step StarterPistol.NoneInWait StarterPistol.NoneInWait
    s.starter_pistol (s.starter_pistol.reset (total + 1)).1 := .reset _ _ hidle (by omega) hnone
  rw [heq, returns_fst] at hstep ⊢
  have hnobody := none_called (s := { s with
    starter_pistol := { s.starter_pistol with starter := .resetting (total + 1) }
    main := .writing }) hworkers rfl
  exact {
    pistol := h.pistol.tail hstep
    at_main := by
      refine ⟨⟨?_, hbefore.queues, hbefore.threads⟩, hpositive⟩
      show { s.starter_pistol with starter := .resetting (total + 1) } = _
      rw [hbefore.starter_pistol, htotal]
    unborn := h.unborn
    placed := h.placed
    called := fun t => iff_of_false
      (fun hmem => none_called hworkers (by rw [hmain]; rfl) t ((h.called t).mp hmem)) (hnobody t)
    let_go := fun t ht => absurd (called_of_let_go ht) (hnobody t) }

/-- The pistol is loaded, and its round begins. -/
theorem Inv.writes (h : Inv s) (hmain : s.main = .writing) {racers : ℤ}
    (hstarter : s.starter_pistol.starter = .resetting racers) :
    Inv { s with
      starter_pistol := s.starter_pistol.write racers
      main := .emplacing request.pools } := by
  have hat := h.at_main
  rw [hmain] at hat
  obtain ⟨hbefore, hpositive⟩ := hat
  have hworkers := h.all_unborn hbefore.threads
  have hracers : racers = (hires request.pools).length + 1 := by
    rw [hbefore.starter_pistol] at hstarter
    cases hstarter
    rfl
  have hnone : s.starter_pistol.NoneInWait := by
    intro t round place ht
    rw [hbefore.starter_pistol] at ht
    cases ht
  have hnobody := none_called (s := { s with
    starter_pistol := s.starter_pistol.write racers
    main := .emplacing request.pools }) hworkers rfl
  exact {
    pistol := h.pistol.tail (.write _ hstarter hnone)
    at_main := by
      refine ⟨⟨hpositive, ?_, ?_, ?_⟩, [], rfl, hbefore.queues, hbefore.threads⟩
      all_goals simp [StarterPistol.write, hbefore.starter_pistol, hracers]
    unborn := h.unborn
    placed := h.placed
    called := fun t => by
      refine iff_of_false ?_ (hnobody t)
      simp [StarterPistol.write, hbefore.starter_pistol]
    let_go := fun t ht => absurd (called_of_let_go ht) (hnobody t) }

/-- A thread is created. -/
theorem Inv.creates (h : Inv s) {p : P} {left : ℕ} {rest : List (P × ℤ)}
    (hmain : s.main = .creating p (left + 1) rest) (hw : w.val = s.threads.length) :
    Inv { s.go w .born with threads := s.threads ++ [p], main := .creating p left rest } := by
  have hat := h.at_main
  rw [hmain] at hat
  obtain ⟨hloaded, done, n, made, hpools, hqueues, hthreads, hmade⟩ := hat
  have hunborn : s.workers w = .unborn := (h.unborn w).mpr (le_of_eq hw.symm)
  exact {
    pistol := h.pistol
    at_main := by
      refine ⟨hloaded.congr rfl rfl, done, n, made + 1, hpools, hqueues, ?_, by omega⟩
      show s.threads ++ [p] = _
      rw [hthreads, List.append_assoc, List.replicate_succ']
    unborn := fun w' => by
      show update s.workers w .born w' = .unborn ↔ (s.threads ++ [p]).length ≤ w'.val
      rw [List.length_append, List.length_singleton]
      by_cases heq : w' = w
      · subst heq
        simp [hw]
      · rw [update_of_ne heq, h.unborn w']
        have hne : w'.val ≠ w.val := fun hval => heq (Fin.ext hval)
        omega
    placed := fun w' hplaced => by
      by_cases heq : w' = w
      · subst heq
        simp [go] at hplaced
      · exact h.placed w' (by simpa [go, heq] using hplaced)
    called := fun t => by
      refine (h.called t).trans ?_
      cases t with
      | main => simp [Starting.called, hmain]
      | worker w' =>
        by_cases heq : w' = w
        · subst heq
          simp [Starting.called, go, hunborn]
        · simp [Starting.called, go, heq]
    let_go := fun t ht => by
      refine h.let_go t ?_
      cases t with
      | main => cases ht
      | worker w' =>
        by_cases heq : w' = w
        · subst heq
          simp [Starting.let_go, go] at ht
        · simpa [Starting.let_go, go, heq] using ht }

/-- A step of the constructor before the threads are let go. -/
theorem MakeStep.inv (h : Inv s) (hstep : MakeStep s s') : Inv s' := by
  have hat := h.at_main
  cases hstep with
  | @count p n rest total hmain hn =>
    rw [hmain] at hat
    obtain ⟨hbefore, done, hpools, hpositive, htotal⟩ := hat
    refine h.makes (by rw [hmain]; rfl) (by simp) ⟨hbefore.congr rfl rfl rfl,
      done ++ [(p, n)], ?_, ?_, ?_⟩
    · simpa using hpools
    · simp only [List.mem_append, List.mem_singleton]
      rintro pair (hmem | rfl)
      · exact hpositive pair hmem
      · exact hn
    · rw [htotal, hires_append, hires_cons, List.length_append, List.length_append,
        List.length_replicate]
      simp [hires]
      omega
  | @refuse p n rest total hmain hn =>
    rw [hmain] at hat
    obtain ⟨hbefore, done, hpools, -, -⟩ := hat
    refine h.makes (by rw [hmain]; rfl) (by simp) ⟨hbefore.congr rfl rfl rfl, ⟨_, rfl⟩,
      fun hpositive => ?_⟩
    have hpos := hpositive (p, n) (by rw [hpools]; simp)
    exact absurd hpos (not_lt.mpr hn)
  | counted hmain =>
    rw [hmain] at hat
    obtain ⟨hbefore, done, hpools, hpositive, htotal⟩ := hat
    rw [List.append_nil] at hpools
    subst hpools
    exact h.makes (by rw [hmain]; rfl) (by simp) ⟨hbefore.congr rfl rfl rfl, hpositive,
      htotal⟩
  | reset hmain hreset => exact h.resets hmain
  | @reset_throws total error hmain hreset =>
    rw [hmain] at hat
    rw [reset_eq hat.1 (total + 1)] at hreset
    cases hreset
  | write hmain hstarter => exact h.writes hmain hstarter
  | @emplace p n rest hmain =>
    rw [hmain] at hat
    obtain ⟨hloaded, done, hpools, hqueues, hthreads⟩ := hat
    refine h.makes (by rw [hmain]; rfl) (by simp) ⟨hloaded.congr rfl rfl,
      done, n, 0, hpools, ?_, ?_⟩
    · rw [hqueues]
    · exact ⟨by simpa using hthreads, Nat.zero_add _⟩
  | create w hmain hw => exact h.creates hmain hw
  | @created p rest hmain =>
    rw [hmain] at hat
    obtain ⟨hloaded, done, n, made, hpools, hqueues, hthreads, hmade⟩ := hat
    refine h.makes (by rw [hmain]; rfl) (by simp) ⟨hloaded.congr rfl rfl,
      done ++ [(p, n)], ?_, ?_, ?_⟩
    · simpa using hpools
    · simpa using hqueues
    · rw [hthreads, hires_append, hires_cons, ← hmade]
      simp [hires]
  | all_created hmain =>
    rw [hmain] at hat
    obtain ⟨hloaded, done, hpools, hqueues, hthreads⟩ := hat
    rw [List.append_nil] at hpools
    subst hpools
    exact h.makes (by rw [hmain]; rfl) (by simp) ⟨hloaded.congr rfl rfl, hqueues, hthreads⟩

/-! ## The threads at the pistol -/

theorem Inv.loaded_of_born (h : Inv s) (hw : s.workers w ≠ .unborn) : Loaded s :=
  h.at_main.loaded fun _ hbefore => hw (h.all_unborn hbefore.threads w)

theorem Inv.loaded_of_within (h : Inv s) {round : ℕ} {place : StarterPistol.Place}
    (ht : s.starter_pistol.threads t = .within round place) : Loaded s := by
  refine h.at_main.loaded fun _ hbefore => ?_
  rw [hbefore.starter_pistol] at ht
  cases ht

/-- There are as many threads as the pistol waits for. -/
def threadsEquiv (request : Request P) : Owner request.Worker ≃ Option request.Worker where
  toFun
    | .main => none
    | .worker w => some w
  invFun
    | none => .main
    | some w => .worker w
  left_inv t := by cases t <;> rfl
  right_inv t := by cases t <;> rfl

instance (request : Request P) : Fintype (Owner request.Worker) :=
  Fintype.ofEquiv _ (threadsEquiv request).symm

theorem card_threads (request : Request P) :
    Fintype.card (Owner request.Worker) = (hires request.pools).length + 1 := by
  rw [Fintype.card_congr (threadsEquiv request), Fintype.card_option, Fintype.card_fin]

/-- There is one round. -/
theorem Inv.round_eq (h : Inv s) {round : ℕ} {place : StarterPistol.Place}
    (ht : s.starter_pistol.threads t = .within round place) : round = s.starter_pistol.round := by
  have hloaded := h.loaded_of_within ht
  have hpistol := StarterPistol.inv_of_reachable h.pistol
  have hcalled := hpistol.caller t round place ht
  have hle := hpistol.round_le ht
  rw [hloaded.round] at hle ⊢
  by_contra hne
  obtain rfl : round = 0 := by omega
  have hnone := hpistol.called_le 0
  rw [hloaded.none_before] at hnone
  have hnil : s.starter_pistol.called 0 = [] := List.length_eq_zero_iff.mp (by omega)
  rw [hnil] at hcalled
  cases hcalled

/-- A thread that has not called `ready` may call it. -/
theorem Inv.may_call (h : Inv s) (hloaded : Loaded s) (ht : ¬ s.called t) :
    StarterPistol.Step StarterPistol.NoneInWait StarterPistol.NoneInWait s.starter_pistol
      (s.starter_pistol.call t) := by
  have hpistol := StarterPistol.inv_of_reachable h.pistol
  have hnew : t ∉ s.starter_pistol.called s.starter_pistol.round := fun hmem =>
    ht ((h.called t).mp hmem)
  have haway : s.starter_pistol.threads t = .away := by
    cases hthread : s.starter_pistol.threads t with
    | away => rfl
    | within round place =>
      refine absurd (hpistol.caller t round place hthread) ?_
      rwa [h.round_eq hthread]
  refine .call _ t haway ?_ hnew
  have hcard := (List.nodup_cons.mpr ⟨hnew, hpistol.nodup_called _⟩).length_le_card
  rw [card_threads, List.length_cons] at hcard
  rw [hloaded.round, hloaded.size] at *
  omega

/-- A thread that has called `ready` is one of those that have called it. -/
theorem Inv.called_call (h : Inv s) (hs : ∀ u, s'.called u ↔ u = t ∨ s.called u)
    (hpistol : s'.starter_pistol = s.starter_pistol.call t) (u : Owner request.Worker) :
    u ∈ s'.starter_pistol.called s'.starter_pistol.round ↔ s'.called u := by
  rw [hpistol, hs u, ← h.called u]
  show u ∈ update s.starter_pistol.called s.starter_pistol.round
    (s.starter_pistol.called s.starter_pistol.round ++ [t]) s.starter_pistol.round ↔ _
  rw [update_self, List.mem_append, List.mem_singleton, or_comm]

/-- A worker goes on to another place, and nobody else does. -/
structure Goes (s s' : Starting request C Task X) (w : request.Worker) (thread : Thread) :
    Prop where
  born : s.workers w ≠ .unborn ∧ thread ≠ .unborn
  main : s'.main = s.main
  made : s'.queues = s.queues ∧ s'.threads = s.threads
  workers : s'.workers = update s.workers w thread
  this_pool : ∀ w' ≠ w, s'.this_pool w' = s.this_pool w'
  placed : thread.placed → s'.this_pool w = some (request.loop.pool w)
  round : s'.starter_pistol.round = s.starter_pistol.round
  size : s'.starter_pistol.size = s.starter_pistol.size

variable {thread : Thread}

/-- A worker goes on; what it has done at the pistol is left to the caller. -/
theorem Inv.goes (h : Inv s) (hgoes : Goes s s' w thread)
    (hpistol : ReflTransGen
      (StarterPistol.Step StarterPistol.NoneInWait StarterPistol.NoneInWait) {} s'.starter_pistol)
    (hcalled : ∀ t, t ∈ s'.starter_pistol.called s'.starter_pistol.round ↔ s'.called t)
    (hlet : ∀ t, s'.let_go t → t ∈ s'.starter_pistol.returned s'.starter_pistol.round) :
    Inv s' where
  pistol := hpistol
  at_main := by
    rw [hgoes.main]
    exact h.at_main.shoots (h.loaded_of_born hgoes.born.1) hgoes.round hgoes.size hgoes.made.1
      hgoes.made.2
  unborn w' := by
    rw [hgoes.workers, hgoes.made.2, ← h.unborn w']
    by_cases heq : w' = w
    · subst heq
      simp [hgoes.born]
    · rw [update_of_ne heq]
  placed w' := by
    rw [hgoes.workers]
    by_cases heq : w' = w
    · subst heq
      rw [update_self]
      exact hgoes.placed
    · rw [update_of_ne heq, hgoes.this_pool w' heq]
      exact h.placed w'
  called := hcalled
  let_go := hlet

/-- Who has called `ready` when a worker has gone on. -/
theorem Goes.called_iff (hgoes : Goes s s' w thread) (t : Owner request.Worker) :
    s'.called t ↔ t = .worker w ∧ thread.called ∨ t ≠ .worker w ∧ s.called t := by
  cases t with
  | main => simp [Starting.called, hgoes.main]
  | worker w' =>
    by_cases heq : w' = w
    · subst heq
      simp [Starting.called, hgoes.workers]
    · simp [Starting.called, hgoes.workers, heq]

theorem Goes.let_go_iff (hgoes : Goes s s' w thread) (t : Owner request.Worker) :
    s'.let_go t ↔ t = .worker w ∧ thread = .looping ∨ t ≠ .worker w ∧ s.let_go t := by
  cases t with
  | main => simp [Starting.let_go, hgoes.main]
  | worker w' =>
    by_cases heq : w' = w
    · subst heq
      simp [Starting.let_go, hgoes.workers]
    · simp [Starting.let_go, hgoes.workers, heq]

/-- A worker goes on before it calls `ready`. -/
theorem Inv.goes_before (h : Inv s) (hgoes : Goes s s' w thread)
    (hpistol : s'.starter_pistol = s.starter_pistol)
    (hbefore : (s.workers w).called = false ∧ thread.called = false) : Inv s' := by
  refine h.goes hgoes (hpistol ▸ h.pistol) (fun t => ?_) (fun t ht => ?_)
  · rw [hpistol, h.called t, hgoes.called_iff t]
    by_cases heq : t = .worker w
    · subst heq
      rw [show s.called (.worker w) = false from hbefore.1, hbefore.2]
      simp
    · simp [heq]
  · rw [hpistol]
    rcases (hgoes.let_go_iff t).mp ht with ⟨-, rfl⟩ | ⟨-, ht⟩
    · cases hbefore.2
    · exact h.let_go t ht

/-- A thread that has been created knows its pool. -/
theorem Inv.bound (h : Inv s) (hw : s.workers w ≠ .unborn) :
    s.threads[w.val]? = some (request.loop.pool w) := by
  have hlt : w.val < s.threads.length := not_le.mp fun hle => hw ((h.unborn w).mpr hle)
  have hprefix : s.threads <+: hires request.pools := by
    have hat := h.at_main
    cases hmain : s.main <;> rw [hmain] at hat
    case counting | threw | resetting | writing => simp [hat.1.threads]
    case ready | waiting | constructed => rw [hat.2.2]
    case emplacing rest =>
      obtain ⟨-, done, hpools, -, hthreads⟩ := hat
      rw [hpools, hthreads, hires_append]
      exact List.prefix_append ..
    case creating p left rest =>
      obtain ⟨-, done, n, made, hpools, -, hthreads, hmade⟩ := hat
      rw [hpools, hthreads, hires_append, hires_cons, ← hmade, List.replicate_add,
        ← List.append_assoc, ← List.append_assoc]
      exact (List.prefix_append ..).trans (List.prefix_append ..)
  rw [List.getElem?_eq_getElem hlt, hprefix.getElem hlt]
  rfl

/-- A step inside `ready`. -/
theorem barrier_frame {pistol pistol' : StarterPistol (Owner request.Worker)}
    (h : StarterPistol.Step (fun _ => False) (fun _ => False) pistol pistol')
    (hcalled : pistol'.called = pistol.called) :
    (∃ t round place, pistol.threads t = .within round place) ∧ pistol'.round = pistol.round ∧
      pistol'.size = pistol.size := by
  cases h with
  | call t ht =>
    have hround : update pistol.called pistol.round (pistol.called pistol.round ++ [t])
        pistol.round = pistol.called pistol.round := congrFun hcalled pistol.round
    rw [update_self] at hround
    simp at hround
  | reset racers_ hidle hracers hcalls => exact hcalls.elim
  | write hstarter hwrites => exact hwrites.elim
  | lock t ht | count t ht | notify_all t ht | waited t ht | wait t ht | block t ht | wake t ht
  | relock t ht | leave t ht => exact ⟨⟨t, _, _, ht⟩, rfl, rfl⟩

/-- `ready` returns. -/
theorem Inv.returned (h : Inv s) {round : ℕ}
    (hleaving : s.starter_pistol.threads t = .within round .leaving) {u : Owner request.Worker}
    (hu : u = t ∨ s.let_go u) :
    u ∈ (s.starter_pistol.leave t round).returned (s.starter_pistol.leave t round).round := by
  have hround := h.round_eq hleaving
  show u ∈ update s.starter_pistol.returned round (s.starter_pistol.returned round ++ [t])
    s.starter_pistol.round
  rw [hround, update_self, List.mem_append, List.mem_singleton, or_comm]
  exact hu.imp_right (h.let_go u)

/-- A step of the threads at the pistol, or on their way to it. -/
theorem ReadyStep.inv (h : Inv s) (hstep : ReadyStep s s') : Inv s' := by
  cases hstep with
  | set_pool w hw =>
    have hbound := h.bound (w := w) (by simp [hw])
    have hgoes : Goes s { s.go w .pooled with
        this_pool := update s.this_pool w s.threads[w.val]? } w .pooled :=
      ⟨by simp [hw], rfl, ⟨rfl, rfl⟩, rfl, fun w' hne => update_of_ne hne ..,
        fun _ => (update_self ..).trans hbound, rfl, rfl⟩
    exact h.goes_before hgoes rfl (by simp [hw])
  | delta w hw =>
    have hgoes : Goes s { s.go w .counted with loop := s.loop.adjust 1 } w .counted :=
      ⟨by simp [hw], rfl, ⟨rfl, rfl⟩, rfl, fun _ _ => rfl, fun _ => h.placed w (by simp [hw]),
        rfl, rfl⟩
    exact h.goes_before hgoes rfl (by simp [hw])
  | ready w hw =>
    have hborn : s.workers w ≠ .unborn := by simp [hw]
    have hnot : ¬ s.called (.worker w) := by simp [Starting.called, hw]
    have hgoes : Goes s { s.go w .waiting with
        starter_pistol := s.starter_pistol.call (.worker w) } w .waiting :=
      ⟨by simp [hw], rfl, ⟨rfl, rfl⟩, rfl, fun _ _ => rfl, fun _ => h.placed w (by simp [hw]),
        rfl, rfl⟩
    refine h.goes hgoes (h.pistol.tail (h.may_call (h.loaded_of_born hborn) hnot))
      (h.called_call (fun t => ?_) rfl) fun t ht => ?_
    · rw [hgoes.called_iff t]
      by_cases heq : t = .worker w <;> simp [heq]
    · rcases (hgoes.let_go_iff t).mp ht with ⟨-, heq⟩ | ⟨-, ht⟩
      · cases heq
      · exact h.let_go t ht
  | main_ready hmain =>
    have hat := h.at_main
    rw [hmain] at hat
    have hnot : ¬ s.called .main := by simp [Starting.called, hmain]
    exact {
      pistol := h.pistol.tail (h.may_call hat.1 hnot)
      at_main := ⟨hat.1.congr rfl rfl, hat.2⟩
      unborn := h.unborn
      placed := h.placed
      called := h.called_call (fun t => by cases t <;> simp [Starting.called]) rfl
      let_go := fun t ht => by
        cases t with
        | main => cases ht
        | worker w => exact h.let_go (.worker w) ht }
  | @barrier pistol hstep hcalled hreturned =>
    obtain ⟨⟨t, round, place, ht⟩, hround, hsize⟩ := barrier_frame hstep hcalled
    exact {
      pistol := h.pistol.tail (hstep.mono (fun _ => False.elim) fun _ => False.elim)
      at_main := h.at_main.shoots (h.loaded_of_within ht) hround hsize rfl rfl
      unborn := h.unborn
      placed := h.placed
      called := fun t => by
        rw [hcalled, hround]
        exact h.called t
      let_go := fun t ht => by
        rw [hreturned, hround]
        exact h.let_go t ht }
  | @leave w round hw hleaving =>
    have hgoes : Goes s { s.go w .looping with
        starter_pistol := s.starter_pistol.leave (.worker w) round } w .looping :=
      ⟨by simp [hw], rfl, ⟨rfl, rfl⟩, rfl, fun _ _ => rfl, fun _ => h.placed w (by simp [hw]),
        rfl, rfl⟩
    refine h.goes hgoes (h.pistol.tail (.leave _ _ hleaving)) (fun t => ?_) fun t ht => ?_
    · refine (h.called t).trans ?_
      rw [hgoes.called_iff t]
      by_cases heq : t = .worker w
      · subst heq
        simp [Starting.called, hw]
      · simp [heq]
    · refine h.returned hleaving ?_
      rcases (hgoes.let_go_iff t).mp ht with ⟨heq, -⟩ | ⟨-, ht⟩
      · exact .inl heq
      · exact .inr ht
  | @main_leaves round hmain hleaving =>
    have hat := h.at_main
    rw [hmain] at hat
    exact {
      pistol := h.pistol.tail (.leave _ _ hleaving)
      at_main := ⟨hat.1.congr rfl rfl, hat.2⟩
      unborn := h.unborn
      placed := h.placed
      called := fun t => (h.called t).trans (by cases t <;> simp [Starting.called, hmain])
      let_go := fun t ht => by
        refine h.returned hleaving ?_
        cases t with
        | main => exact .inl rfl
        | worker w => exact .inr ht }

/-! ## Runs -/

section Runs

variable [DecidableEq P] {program : Program P C Task X}

omit [DecidableEq P] in
/-- What is done in the loop is not seen by the constructor. -/
theorem Inv.loop (h : Inv s) (loop : ParallelEventLoop P request.Worker C Task X) :
    Inv { s with loop := loop } where
  pistol := h.pistol
  at_main := h.at_main.congr rfl rfl rfl
  unborn := h.unborn
  placed := h.placed
  called t := (h.called t).trans (by cases t <;> exact Iff.rfl)
  let_go t ht := h.let_go t (by cases t <;> exact ht)

/-- **Every step** keeps the invariant. -/
theorem Step.inv (h : Inv s) (hstep : Step program s s') : Inv s' := by
  cases hstep with
  | make hstep => exact hstep.inv h
  | ready hstep => exact hstep.inv h
  | pop w hw hstep => exact h.loop _
  | run w hw hstep => exact h.loop _
  | main hmain hstep => exact h.loop _
  | env henv => exact h.loop _

theorem inv_of_reachable {state : C} (h : ReflTransGen (Step program) (start request state) s) :
    Inv s :=
  History.keeps (fun _ _ => Step.inv) (inv_start state) h

omit [DecidableEq P] in
/-- **When one is let go, all have called**: the pistol has waited for them. -/
theorem Inv.all_called (h : Inv s) (ht : s.let_go t) (u : Owner request.Worker) : s.called u := by
  have hpistol := StarterPistol.inv_of_reachable h.pistol
  have hloaded : Loaded s := by
    refine h.at_main.loaded fun _ hbefore => ?_
    have hmem := (h.called t).mpr (called_of_let_go ht)
    rw [hbefore.starter_pistol] at hmem
    cases hmem
  have hfull := (hpistol.returned _ (List.ne_nil_of_mem (h.let_go t ht))).2
  have hlength := hpistol.called_eq hfull
  have hsize := hloaded.size
  rw [← hloaded.round] at hsize
  have hcard : Fintype.card (Owner request.Worker)
      ≤ (s.starter_pistol.called s.starter_pistol.round).toFinset.card := by
    rw [List.toFinset_card_of_nodup (hpistol.nodup_called _), card_threads]
    omega
  have huniv := Finset.eq_univ_of_card _ (le_antisymm (Finset.card_le_univ _) hcard)
  rw [← h.called u, ← List.mem_toFinset, huniv]
  exact Finset.mem_univ u

/-- **The constructor keeps its promises.** When a thread has been let go, all queues have been
made and the constructor makes nothing any more, and all workers know their pools and are
counted; there is a worker for each thread that is created, and it is for the pool that the
thread is bound to; if a size is not positive, then nothing is made, and this is the only thing
that the constructor throws for; and no thread is left waiting at the pistol. -/
theorem constructs {state : C} (h : ReflTransGen (Step program) (start request state) s) :
    (∀ t, s.let_go t → s.queues = request.pools.map Prod.fst ∧ s.main.called ∧
      ∀ w, s.this_pool w = some (request.loop.pool w) ∧ (s.workers w).uncounted = false) ∧
    (∀ p left rest, s.main = .creating p (left + 1) rest →
      ∃ w : request.Worker, w.val = s.threads.length ∧ request.loop.pool w = p) ∧
    (¬ Positive request → s.threads = [] ∧ s.queues = []) ∧
    (∀ error, s.main = .threw error →
      (∃ what, error = .invalid_argument what) ∧ ¬ Positive request) ∧
    ∀ t, ¬ s.starter_pistol.LeftWaiting t := by
  have hinv := inv_of_reachable h
  have hat := hinv.at_main
  refine ⟨fun t ht => ?_, fun p left rest hmain => ?_, fun hnot => ?_, fun error hmain => ?_, ?_⟩
  · have hmain : s.main.called := hinv.all_called ht .main
    refine ⟨?_, hmain, fun w => ?_⟩
    · cases hm : s.main <;> rw [hm] at hat hmain <;> first | exact hat.2.1 | cases hmain
    · have hw : (s.workers w).called := hinv.all_called ht (.worker w)
      refine ⟨hinv.placed w ?_, ?_⟩
      · cases hthread : s.workers w <;> rw [hthread] at hw <;> first | rfl | cases hw
      · cases hthread : s.workers w <;> rw [hthread] at hw <;> first | rfl | cases hw
  · rw [hmain] at hat
    obtain ⟨more, hmore⟩ := hat.creates
    have hlt : s.threads.length < (hires request.pools).length := by simp [hmore]
    refine ⟨⟨s.threads.length, hlt⟩, rfl, ?_⟩
    simp [Request.loop, hmore]
  · cases hm : s.main <;> rw [hm] at hat <;>
      first | exact ⟨hat.1.threads, hat.1.queues⟩ | exact absurd hat.1.positive hnot
  · rw [hmain] at hat
    exact hat.2
  · obtain ⟨hpistol, hawaited⟩ := StarterPistol.awaited_of_reachable hinv.pistol
    exact hawaited.not_leftWaiting hpistol

/-! ## The loop that is constructed -/

/-- The loop, with the workers counted that have not counted themselves yet. -/
def as_let_go (s : Starting request C Task X) : ParallelEventLoop P request.Worker C Task X :=
  s.loop.adjust (census Thread.uncounted s.workers)

omit [DecidableEq P] in
/-- Nobody is let go before all workers are counted. -/
theorem Inv.as_let_go_eq (h : Inv s) (ht : s.let_go t) : s.as_let_go = s.loop := by
  have hzero : census Thread.uncounted s.workers = 0 := by
    refine census_eq_zero_iff.mpr fun w => ?_
    have hw : (s.workers w).called := h.all_called ht (.worker w)
    cases hthread : s.workers w <;> rw [hthread] at hw <;> first | rfl | cases hw
  show s.loop.adjust (census Thread.uncounted s.workers) = s.loop
  rw [hzero]
  show { s.loop with threads_not_idle_counter := s.loop.threads_not_idle_counter + 0 } = s.loop
  rw [add_zero]

omit [DecidableEq P] in
/-- What a worker does on its way to the pistol is not seen in the loop. -/
theorem as_let_go_go {next : Thread} (hnext : next.uncounted = (s.workers w).uncounted)
    (hworkers : s'.workers = update s.workers w next) (hloop : s'.loop = s.loop) :
    s'.as_let_go = s.as_let_go := by
  show s'.loop.adjust (census Thread.uncounted s'.workers) = _
  rw [hloop, hworkers, census_update_same hnext]
  rfl

omit [DecidableEq P] in
/-- A worker counts itself. -/
theorem as_let_go_delta (hw : s.workers w = .pooled) :
    as_let_go { s.go w .counted with loop := s.loop.adjust 1 } = s.as_let_go := by
  have hmove := census_update Thread.uncounted s.workers w .counted
  rw [hw] at hmove
  have hcount : (census Thread.uncounted (update s.workers w .counted) : ℤ) + 1
      = census Thread.uncounted s.workers := by
    simp at hmove
    omega
  show (s.loop.adjust 1).adjust (census Thread.uncounted (update s.workers w .counted))
    = s.loop.adjust (census Thread.uncounted s.workers)
  rw [← hcount]
  simp only [adjust]
  rw [add_assoc, add_comm 1]

omit [DecidableEq P] in
/-- A step of the constructor is not seen in the loop. -/
theorem MakeStep.as_let_go_eq (h : Inv s) (hstep : MakeStep s s') :
    s'.as_let_go = s.as_let_go := by
  cases hstep with
  | create w hmain hw =>
    have hunborn : s.workers w = .unborn := (h.unborn w).mpr (le_of_eq hw.symm)
    exact as_let_go_go (by rw [hunborn]; rfl) rfl rfl
  | count | refuse | counted | reset | reset_throws | write | emplace | created
  | all_created => rfl

omit [DecidableEq P] in
theorem ReadyStep.as_let_go_eq (hstep : ReadyStep s s') : s'.as_let_go = s.as_let_go := by
  cases hstep with
  | set_pool w hw => exact as_let_go_go (by rw [hw]; rfl) rfl rfl
  | delta w hw => exact as_let_go_delta hw
  | ready w hw => exact as_let_go_go (by rw [hw]; rfl) rfl rfl
  | leave w hw hleaving => exact as_let_go_go (by rw [hw]; rfl) rfl rfl
  | main_ready | barrier | main_leaves => rfl

/-- A step of the loop: all workers have been counted. -/
theorem Inv.step_of_loop (h : Inv s) (ht : s.let_go t)
    {loop : ParallelEventLoop P request.Worker C Task X}
    (hstep : EventLoop.Step request.loop program s.loop loop) :
    EventLoop.Step request.loop program s.as_let_go (as_let_go { s with loop := loop }) := by
  have ht' : Starting.let_go { s with loop := loop } t := by cases t <;> exact ht
  rw [h.as_let_go_eq ht, (h.loop loop).as_let_go_eq ht']
  exact hstep

/-- **Runs from the constructor are runs of the loop** in which all workers have been let go
at once; and as soon as one thread has been let go, the loop is this one. -/
theorem runs_of_loop {state : C} (h : ReflTransGen (Step program) (start request state) s) :
    ReflTransGen (EventLoop.Step request.loop program) (ParallelEventLoop.start state) s.as_let_go ∧
      ∀ t, s.let_go t → s.as_let_go = s.loop := by
  refine ⟨?_, fun t ht => (inv_of_reachable h).as_let_go_eq ht⟩
  induction h with
  | refl =>
    have hstart : as_let_go (start request state : Starting request C Task X)
        = ParallelEventLoop.start state := by
      have hall : census Thread.uncounted (fun _ : request.Worker => .unborn)
          = Fintype.card request.Worker := census_const_true rfl
      simp only [as_let_go, start, ParallelEventLoop.start, adjust, hall, zero_add]
    rw [hstart]
  | @tail s s' hrun hstep ih =>
    have hinv := inv_of_reachable hrun
    cases hstep with
    | make hstep => rwa [hstep.as_let_go_eq hinv]
    | ready hstep => rwa [hstep.as_let_go_eq]
    | pop w hw hstep => exact ih.tail (hinv.step_of_loop (t := .worker w) hw (.pop w hstep))
    | run w hw hstep => exact ih.tail (hinv.step_of_loop (t := .worker w) hw (.run w hstep))
    | main hmain hstep => exact ih.tail (hinv.step_of_loop (t := .main) hmain (.main hstep))
    | @env state' henv =>
      have hmain : MainStep request.loop program s.as_let_go
          ({ s.as_let_go with state := state' }.push_some none) :=
        .env (fun hne => absurd rfl hne) (can_push_none _) henv
      exact ih.tail (.main hmain)

end Runs

/-! ## One worker -/

/-- A loop with a pool of one thread. -/
def one_worker : Request Unit where
  pools := [((), 1)]
  mem := by decide

/-- Its worker. -/
def only : one_worker.Worker :=
  ⟨0, by decide⟩

/-- Events that do nothing. -/
def no_program : Program Unit Unit Empty Empty where
  act _ _ _ _ _ := False
  env _ _ _ := False

theorem update_only {β : Type*} (f : one_worker.Worker → β) (x : β) :
    update f only x = fun _ => x := by
  funext w
  obtain rfl : w = only := Fin.ext (Nat.lt_one_iff.mp w.isLt)
  rw [update_self]

/-- The loop with one worker, which is at some place. -/
def one (pistol : StarterPistol (Owner one_worker.Worker)) (main : Constructor Unit)
    (thread : Thread) : Starting one_worker Unit Empty Empty where
  loop := { threads_not_idle_counter := if thread.uncounted then 0 else 1, state := () }
  starter_pistol := pistol
  queues := match main with
    | .counting .. | .threw _ | .resetting _ | .writing | .emplacing (_ :: _) => []
    | _ => [()]
  threads := if thread = .unborn then [] else [()]
  this_pool _ := if thread.placed then some () else none
  main := main
  workers _ := thread

/-- The pistol is loaded; the worker blocks; the main thread comes last. -/
def loaded : StarterPistol (Owner one_worker.Worker) :=
  (({} : StarterPistol (Owner one_worker.Worker)).reset 2).1.write 2

def worker_counted : StarterPistol (Owner one_worker.Worker) :=
  ((loaded.call (.worker only)).lock (.worker only) (.within 1 .counting)).count (.worker only) 1

def worker_blocked : StarterPistol (Owner one_worker.Worker) :=
  (worker_counted.go (.worker only) (.within 1 .waiting)).unlock (.worker only) (.within 1 .blocked)

def main_counted : StarterPistol (Owner one_worker.Worker) :=
  ((worker_blocked.call .main).lock .main (.within 1 .counting)).count .main 1

theorem one_barrier (main : Constructor Unit) (thread : Thread)
    {pistol pistol' : StarterPistol (Owner one_worker.Worker)}
    (h : StarterPistol.Step (fun _ => False) (fun _ => False) pistol pistol')
    (hcalled : pistol'.called = pistol.called) (hreturned : pistol'.returned = pistol.returned) :
    Step no_program (one pistol main thread) (one pistol' main thread) :=
  .ready (.barrier (one pistol main thread) h hcalled hreturned)

theorem reaches_emplaced : ReflTransGen (Step no_program) (start one_worker ())
    (one loaded (.creating () 1 []) .unborn) := by
  have hcount : Step no_program (start one_worker ()) (one {} (.counting [] 1) .unborn) :=
    .make (@MakeStep.count _ _ _ _ _ _ () 1 [] 0 rfl Int.one_pos)
  have hcounted : Step no_program (one {} (.counting [] 1) .unborn)
    (one {} (.resetting 1) .unborn) := .make (.counted _ rfl)
  have hreset : Step no_program (one {} (.resetting 1) .unborn)
    (one (({} : StarterPistol (Owner one_worker.Worker)).reset 2).1 .writing .unborn) :=
    .make (.reset (one {} (.resetting 1) .unborn) rfl rfl)
  have hwrite : Step no_program
    (one (({} : StarterPistol (Owner one_worker.Worker)).reset 2).1 .writing .unborn)
    (one loaded (.emplacing [((), 1)]) .unborn) := .make (.write _ rfl rfl)
  have hemplace : Step no_program (one loaded (.emplacing [((), 1)]) .unborn)
    (one loaded (.creating () 1 []) .unborn) :=
    .make (@MakeStep.emplace _ _ _ _ _ _ () 1 [] rfl)
  exact ((((ReflTransGen.single hcount).tail hcounted).tail hreset).tail hwrite).tail hemplace

theorem go_only (s : Starting one_worker Unit Empty Empty) (thread : Thread) :
    s.go only thread = { s with workers := fun _ => thread } := by
  rw [go, update_only]

theorem reaches_ready : ReflTransGen (Step no_program) (one loaded (.creating () 1 []) .unborn)
    (one loaded .ready .counted) := by
  have hcreate : Step no_program (one loaded (.creating () 1 []) .unborn)
      (one loaded (.creating () 0 []) .born) := by
    have hstep := MakeStep.create (one loaded (.creating () 1 []) .unborn) only rfl rfl
    rw [go_only] at hstep
    exact .make hstep
  have hcreated : Step no_program (one loaded (.creating () 0 []) .born)
    (one loaded (.emplacing []) .born) := .make (.created _ rfl)
  have hall : Step no_program (one loaded (.emplacing []) .born) (one loaded .ready .born) :=
    .make (.all_created _ rfl)
  have hpool : Step no_program (one loaded .ready .born) (one loaded .ready .pooled) := by
    have hstep := ReadyStep.set_pool (one loaded .ready .born) only rfl
    rw [go_only, update_only] at hstep
    exact .ready hstep
  have hdelta : Step no_program (one loaded .ready .pooled) (one loaded .ready .counted) := by
    have hstep := ReadyStep.delta (one loaded .ready .pooled) only rfl
    rw [go_only] at hstep
    exact .ready hstep
  exact ((((ReflTransGen.single hcreate).tail hcreated).tail hall).tail hpool).tail hdelta

theorem reaches_constructed : ReflTransGen (Step no_program) (one loaded .ready .counted)
    (one ((main_counted.notify_all.go .main (.within 1 .leaving)).leave .main 1) .constructed
      .waiting) := by
  have hready : Step no_program (one loaded .ready .counted)
      (one (loaded.call (.worker only)) .ready .waiting) := by
    have hstep := ReadyStep.ready (one loaded .ready .counted) only rfl
    rw [go_only] at hstep
    exact .ready hstep
  have hlock := one_barrier .ready .waiting
    (.lock (loaded.call (.worker only)) (.worker only) rfl rfl) rfl rfl
  have hcount := one_barrier .ready .waiting
    (.count ((loaded.call (.worker only)).lock (.worker only) (.within 1 .counting))
      (.worker only) rfl) rfl rfl
  have hwait := one_barrier .ready .waiting
    (.wait worker_counted (.worker only) rfl (by decide)) rfl rfl
  have hblock := one_barrier .ready .waiting
    (.block (worker_counted.go (.worker only) (.within 1 .waiting)) (.worker only) rfl) rfl rfl
  have hmain : Step no_program (one worker_blocked .ready .waiting)
    (one (worker_blocked.call .main) .waiting .waiting) := .ready (.main_ready _ rfl)
  have hlock' := one_barrier .waiting .waiting
    (.lock (worker_blocked.call .main) .main rfl rfl) rfl rfl
  have hcount' := one_barrier .waiting .waiting
    (.count ((worker_blocked.call .main).lock .main (.within 1 .counting)) .main rfl) rfl rfl
  have hnotify := one_barrier .waiting .waiting
    (.notify_all main_counted .main rfl) rfl rfl
  have hleave : Step no_program
      (one (main_counted.notify_all.go .main (.within 1 .leaving)) .waiting .waiting)
      (one ((main_counted.notify_all.go .main (.within 1 .leaving)).leave .main 1) .constructed
        .waiting) := .ready (.main_leaves _ rfl rfl)
  have hworker := (((ReflTransGen.single hready).tail hlock).tail hcount).tail hwait
  exact ((((hworker.tail hblock).tail hmain).tail hlock').tail hcount').tail hnotify |>.tail hleave

theorem reaches_one : ReflTransGen (Step no_program) (start one_worker ())
    (one ((main_counted.notify_all.go .main (.within 1 .leaving)).leave .main 1) .constructed
      .waiting) :=
  (reaches_emplaced.trans reaches_ready).trans reaches_constructed

/-- The loop is constructed, and the worker has not been let go yet. -/
theorem constructs_one :
    let s := one ((main_counted.notify_all.go .main (.within 1 .leaving)).leave .main 1)
      .constructed .waiting
    s.main = .constructed ∧ s.queues = [()] ∧ s.this_pool only = some () ∧
      (s.workers only).uncounted = false ∧
      ¬ s.starter_pistol.LeftWaiting (.worker only) := by
  obtain ⟨hmade, -, -, -, hleft⟩ := constructs reaches_one
  obtain ⟨hqueues, -, hworkers⟩ := hmade .main rfl
  exact ⟨rfl, hqueues, (hworkers only).1, (hworkers only).2, hleft (.worker only)⟩

/-- It is the loop that has one worker, which has been let go. -/
theorem runs_of_loop_one :
    ReflTransGen (EventLoop.Step one_worker.loop no_program) (ParallelEventLoop.start ())
      ({ threads_not_idle_counter := 1, state := () } :
        ParallelEventLoop Unit one_worker.Worker Unit Empty Empty) := by
  obtain ⟨hrun, hsame⟩ := runs_of_loop reaches_one
  rw [hsame .main rfl] at hrun
  exact hrun

end Starting
end EventLoop
end Kaiu
