/-
How long a stream lives, among threads.

What `call_data_callback` binds to the promise of an asynchronous consumer has captured
`this`, which keeps nothing alive, and when the promise is settled at last nobody may have
a reference to the stream any more. So a stream refers to itself from the binding of a
consumer (`make_immortal`) to its completion (`make_mortal`), in every build. As long as
a continuation waits for its promise or for the lock the stream is there
(`bound_stream_lives`), and of the two exceptions of its destructor the first is never
thrown: a stream that is bound and not completed is not destroyed.
-/
import Kaiu.Library.History
import Kaiu.StreamLock

set_option autoImplicit false

namespace Kaiu

open Exit Relation Function

namespace PromiseStreamState

variable {R D E K σ : Type*} {b : Build} {call : K → Outcome R E → σ → Ended σ (ExceptionPtr E)}
  {s s' s'' : PromiseStreamState R D E K σ}

/-- The exception of the destructor, which only the validating build has. -/
def destructor (b : Build) (s : PromiseStreamState R D E K σ) : Option String :=
  if b.SAFE_PROMISE_STREAMS then
    if s.data_callback_assigned then
      if s.state ≠ .completed then
        some "Promise stream destructor called on bound but uncompleted promise stream"
      else none
    else if s.state ≠ .pending ∧ s.state ≠ .completed then
      some "Unterminted promise chain (forgot ->discard?)"
    else none
  else none

/-! ## The self-reference -/

/-- What every function but `set_data_callback` leaves of the binding: a stream that has been
completed stays so, and the self-reference is dropped by the completion only. -/
structure Advances (s s' : PromiseStreamState R D E K σ) : Prop where
  on_data : s'.on_data = s.on_data
  assigned : s'.data_callback_assigned = s.data_callback_assigned
  completed : s.state = .completed → s'.state = .completed
  reference : s'.self_reference = s.self_reference ∨
    s'.state = .completed ∧ s'.self_reference = false

theorem Advances.refl (s : PromiseStreamState R D E K σ) : Advances s s :=
  ⟨rfl, rfl, id, .inl rfl⟩

theorem Advances.trans (h : Advances s s') (h' : Advances s' s'') : Advances s s'' where
  on_data := h'.on_data.trans h.on_data
  assigned := h'.assigned.trans h.assigned
  completed hs := h'.completed (h.completed hs)
  reference := by
    rcases h'.reference with heq | hcompleted
    · rcases h.reference with heq' | ⟨hstate, hself⟩
      · exact .inl (heq.trans heq')
      · exact .inr ⟨h'.completed hstate, heq.trans hself⟩
    · exact .inr hcompleted

theorem update_completed_advances (hs : s.state = .completed) :
    Advances s (update_completed b call s).1 := by
  unfold update_completed
  split
  · cases s.completer with
    | none => exact ⟨rfl, rfl, id, .inl rfl⟩
    | some o =>
      simp only [complete_with]
      generalize PromiseState.settle b call o _ _ = r
      -- the self-reference is kept if a callback of the result promise throws
      obtain ⟨⟨proxy, world⟩, _ | x⟩ := r
      · exact ⟨rfl, rfl, id, .inr ⟨hs, rfl⟩⟩
      · exact ⟨rfl, rfl, id, .inl rfl⟩
  · exact .refl s

/-- The state of a stream that has not been completed is set. -/
theorem set_state_then_advances {next_state : stream_state}
    {update : PromiseStreamState R D E K σ →
      Ended (PromiseStreamState R D E K σ) (ExceptionPtr E)} (hs : s.state ≠ .completed)
    (hupdate : Advances { s with state := next_state } (update { s with state := next_state }).1) :
    Advances s (set_state_then b update next_state s).1 := by
  unfold set_state_then
  split
  · exact .refl s
  · exact ⟨hupdate.on_data, hupdate.assigned, fun h => absurd h hs, hupdate.reference⟩

theorem update_streaming3_advances (hs : s.state ≠ .completed) :
    Advances s (update_streaming3 b call s).1 := by
  unfold update_streaming3
  split
  · exact set_state_then_advances hs (update_completed_advances rfl)
  · exact .refl s

theorem update_streaming2_advances (hs : s.state ≠ .completed) :
    Advances s (update_streaming2 b call s).1 := by
  unfold update_streaming2
  split
  · exact set_state_then_advances hs (update_streaming3_advances nofun)
  · exact .refl s

theorem update_streaming1_advances (hs : s.state ≠ .completed) :
    Advances s (update_streaming1 b call s).1 := by
  unfold update_streaming1
  split
  · exact set_state_then_advances hs (update_streaming2_advances nofun)
  · exact .refl s

theorem update_pending_advances (hs : s.state ≠ .completed) :
    Advances s (update_pending b call s).1 := by
  unfold update_pending
  split
  · exact set_state_then_advances hs (update_streaming1_advances nofun)
  · split
    · exact set_state_then_advances hs (update_completed_advances rfl)
    · exact .refl s

theorem update_state_advances (s : PromiseStreamState R D E K σ) :
    Advances s (update_state b call s).1 := by
  unfold update_state
  cases hs : s.state with
  | pending => exact update_pending_advances (by simp [hs])
  | streaming1 => exact update_streaming1_advances (by simp [hs])
  | streaming2 => exact update_streaming2_advances (by simp [hs])
  | streaming3 => exact update_streaming3_advances (by simp [hs])
  | completed => exact update_completed_advances hs

/-- `update_state`, after members have been written that are not looked at here. -/
theorem advances_update (hon_data : s'.on_data = s.on_data)
    (hassigned : s'.data_callback_assigned = s.data_callback_assigned)
    (hstate : s'.state = s.state) (hself : s'.self_reference = s.self_reference) :
    Advances s (update_state b call s').1 :=
  Advances.trans ⟨hon_data, hassigned, hstate.trans, .inl hself⟩ (update_state_advances s')

theorem set_stream_result_advances (result : stream_result) (o : Outcome R E) :
    Advances s (set_stream_result b call result o s).1 := by
  unfold set_stream_result
  split
  · exact .refl s
  · split
    · exact .refl s
    · exact advances_update rfl rfl rfl rfl

theorem set_buffer_is_empty_advances (s : PromiseStreamState R D E K σ) :
    Advances s (set_buffer_is_empty b call s).1 := by
  unfold set_buffer_is_empty
  split
  · exact .refl s
  · exact advances_update rfl rfl rfl rfl

theorem take_data_advances (b : Build)
    (call : K → Outcome R E → σ → Ended σ (ExceptionPtr E)) (s : PromiseStreamState R D E K σ) :
    Advances s (take_data b call s).2.1 := by
  unfold take_data
  split
  · exact .refl s
  · split
    · exact .refl s
    · split
      · exact .refl s
      · have hbuffer : ∀ buffer, Advances s { s with buffer := buffer } :=
          fun _ => ⟨rfl, rfl, id, .inl rfl⟩
        have hemptied : Advances s (if s.action ≠ .Continue then { s with buffer := [] } else s) := by
          split
          · exact hbuffer []
          · exact .refl s
        revert hemptied
        generalize (if s.action ≠ .Continue then { s with buffer := [] } else s) = t
        intro hemptied
        simp only
        split
        · exact hemptied.trans (set_buffer_is_empty_advances t)
        · exact hemptied.trans ⟨rfl, rfl, id, .inl rfl⟩

/-- A datum is taken only when a consumer has been bound. -/
theorem bound_of_take_data {d : D} {r : Ended (PromiseStreamState R D E K σ) (ExceptionPtr E)}
    (h : take_data b call s = (some d, r)) : s.on_data.isSome = true := by
  unfold take_data at h
  split at h
  · cases h
  · split at h
    · cases h
    · rename_i hbound
      simpa [Option.isSome_iff_ne_none] using hbound

/-- A stream that is bound and not completed refers to itself; one that is not bound does
not. -/
structure SelfReferring (s : PromiseStreamState R D E K σ) : Prop where
  bound : s.on_data.isSome = true → s.data_callback_assigned = true
  immortal : s.data_callback_assigned = true → s.state ≠ .completed → s.self_reference = true
  referred : s.self_reference = true → s.data_callback_assigned = true

theorem self_referring_new [Inhabited R] (world : σ) :
    SelfReferring (new world : PromiseStreamState R D E K σ) :=
  ⟨nofun, nofun, nofun⟩

theorem SelfReferring.advances (h : SelfReferring s) (ht : Advances s s') : SelfReferring s' where
  bound hs' := by
    rw [ht.on_data] at hs'
    rw [ht.assigned]
    exact h.bound hs'
  immortal hassigned hstate := by
    rw [ht.assigned] at hassigned
    rcases ht.reference with hself | ⟨hcompleted, -⟩
    · rw [hself]
      exact h.immortal hassigned fun hs => hstate (ht.completed hs)
    · exact absurd hcompleted hstate
  referred hself := by
    rw [ht.assigned]
    rcases ht.reference with heq | ⟨-, hdropped⟩
    · exact h.referred (heq ▸ hself)
    · exact absurd (hdropped.symm.trans hself) Bool.false_ne_true

/-- `make_immortal`. -/
theorem SelfReferring.set_data_callback_assigned (h : SelfReferring s)
    (consumer : Consumer D E σ) :
    SelfReferring
        (set_data_callback_assigned b { s with on_data := some consumer }).1 ∧
      (set_data_callback_assigned b { s with on_data := some consumer }).1.data_callback_assigned
        = true := by
  unfold PromiseStreamState.set_data_callback_assigned
  split
  · rename_i hassigned
    exact ⟨⟨fun _ => hassigned.2, h.immortal, h.referred⟩, hassigned.2⟩
  · refine ⟨⟨fun _ => rfl, fun _ (hstate : s.state ≠ .completed) => ?_, fun _ => rfl⟩, rfl⟩
    show (s.self_reference || s.state != .completed) = true
    simp [hstate]

end PromiseStreamState

namespace Access

open PromiseStreamState

variable {R D E K σ : Type*} {b : Build} {call : K → Outcome R E → σ → Ended σ (ExceptionPtr E)}
  {s : PromiseStreamState R D E K σ}

/-- **Every access** leaves a stream that refers to itself while it is bound and not
completed, and undoes no binding. -/
theorem run_self_referring (b : Build)
    (call : K → Outcome R E → σ → Ended σ (ExceptionPtr E)) (h : SelfReferring s)
    (access : Access R D E σ) :
    SelfReferring (access.run b call s).1 ∧ (s.data_callback_assigned = true →
      (access.run b call s).1.data_callback_assigned = true) := by
  have hadvances : Advances s (access.run b call s).1 → SelfReferring (access.run b call s).1 ∧
      (s.data_callback_assigned = true →
        (access.run b call s).1.data_callback_assigned = true) :=
    fun ht => ⟨h.advances ht, ht.assigned.trans⟩
  cases access with
  | write datum =>
    refine hadvances ?_
    rw [run, set_stream_has_been_written_to]
    split
    · split
      · exact ⟨rfl, rfl, id, .inl rfl⟩
      · exact advances_update rfl rfl rfl rfl
    · exact .refl s
  | set_data_callback consumer =>
    rw [run]
    split
    · exact ⟨h, id⟩
    · exact ⟨(h.set_data_callback_assigned consumer).1,
        fun _ => (h.set_data_callback_assigned consumer).2⟩
  | do_resolve result => exact hadvances (set_stream_result_advances ..)
  | do_reject error consumer_failed =>
    have hstop : Advances s { s with action := .Stop } := ⟨rfl, rfl, id, .inl rfl⟩
    exact hadvances (hstop.trans (set_stream_result_advances ..))
  | get_action => exact hadvances (.refl s)
  | set_action action => exact hadvances ⟨rfl, rfl, id, .inl rfl⟩
  | set_consumer_is_running value =>
    refine hadvances ?_
    rw [run, PromiseStreamState.set_consumer_is_running]
    split
    · exact .refl s
    · exact advances_update rfl rfl rfl rfl

end Access

namespace StreamThreads

open PromiseStreamState

variable {T R D E : Type*} {b : Build} {s s' : StreamThreads T R D E} {t : T}
  {rest : List (Instr R D E)}

/-- A continuation waits for the lock. -/
def Waits (call : ℕ) (todo : List (Instr R D E)) : Prop :=
  .get_lock (some call) ∈ todo

theorem Waits.tail {call : ℕ} {instr : Instr R D E} {l : List (Instr R D E)}
    (h : Waits call (instr :: l)) (hinstr : instr ≠ .get_lock (some call)) : Waits call l :=
  (List.mem_cons.mp h).resolve_left hinstr.symm

theorem waits_append {call : ℕ} {l l' : List (Instr R D E)} :
    Waits call (l ++ l') ↔ Waits call l ∨ Waits call l' :=
  List.mem_append

/-- What an operation does under the lock is no continuation, and neither is what a
continuation does under the lock. -/
theorem not_waits_body (call : ℕ) (op : Operation R D E) : ¬ Waits call op.body := by
  unfold Waits
  cases op <;> simp [Operation.body]

theorem not_waits_continuation_body (call : ℕ) (answer : Answer E) :
    ¬ Waits call (continuation_body answer : List (Instr R D E)) := by
  unfold Waits
  cases answer <;> simp [continuation_body]

theorem waits_of_after {call : ℕ} {stream : PromiseStreamState R D E Unit Unit}
    {r : Ended (PromiseStreamState R D E Unit Unit) (ExceptionPtr E)}
    (h : Waits call (after stream r rest)) : Waits call rest := by
  unfold after at h
  unfold Waits at h ⊢
  revert h
  dsimp only
  split <;> split <;> simp

/-- The stream refers to itself while it is bound and not completed; a consumer that has
been called has been bound, also when only a continuation that waits for the lock is left of
the call. -/
structure Living (s : StreamThreads T R D E) : Prop where
  stream : SelfReferring s.stream
  called : ∀ call p, s.promises call = some p → s.stream.data_callback_assigned = true
  waiting : ∀ t call, Waits call (s.todo t) → s.stream.data_callback_assigned = true

theorem living_start [Inhabited R] : Living (start : StreamThreads T R D E) :=
  ⟨self_referring_new (), nofun, nofun⟩

variable [DecidableEq T]

/-- A thread goes on, and the binding of the stream is not undone. -/
theorem Living.turn (h : Living s) {l : List (Instr R D E)} (htodo : s'.todo = update s.todo t l)
    (hstream : SelfReferring s'.stream)
    (hassigned : s.stream.data_callback_assigned = true →
      s'.stream.data_callback_assigned = true)
    (hcalled : ∀ call p, s'.promises call = some p → s.promises call ≠ none ∨
      s'.stream.data_callback_assigned = true)
    (hwaiting : ∀ call, Waits call l → Waits call (s.todo t) ∨ s.promises call ≠ none) :
    Living s' := by
  have hpromise : ∀ call, s.promises call ≠ none → s.stream.data_callback_assigned = true := by
    intro call hcall
    obtain ⟨p, hp⟩ := Option.ne_none_iff_exists'.mp hcall
    exact h.called call p hp
  refine ⟨hstream, fun call p hp => ?_, fun u call hwaits => hassigned ?_⟩
  · exact (hcalled call p hp).elim (fun hcall => hassigned (hpromise call hcall)) id
  · rw [htodo] at hwaits
    by_cases hu : u = t
    · subst hu
      rw [update_self] at hwaits
      exact (hwaiting call hwaits).elim (h.waiting u call) (hpromise call)
    · rw [update_of_ne hu] at hwaits
      exact h.waiting u call hwaits

/-- A thread goes on, and the stream stays as it is. -/
theorem Living.go (h : Living s) {l : List (Instr R D E)} (htodo : s'.todo = update s.todo t l)
    (hstream : s'.stream = s.stream)
    (hpromises : ∀ call p, s'.promises call = some p → s.promises call ≠ none)
    (hwaiting : ∀ call, Waits call l → Waits call (s.todo t) ∨ s.promises call ≠ none) :
    Living s' :=
  h.turn htodo (hstream ▸ h.stream) (hstream ▸ id) (fun call p hp => .inl (hpromises call p hp))
    hwaiting

omit [DecidableEq T] in
theorem ne_none_of_promises {call : ℕ} {p : ConsumerPromise T E} (hp : s.promises call = some p) :
    s.promises call ≠ none := by
  rw [hp]
  exact Option.some_ne_none p

omit [DecidableEq T] in
/-- A promise of the consumer changes. -/
theorem ne_none_of_set {call call' : ℕ} {p p' : ConsumerPromise T E}
    (hp : s.promises call = some p) (h : update s.promises call (some p') call' ≠ none) :
    s.promises call' ≠ none := by
  by_cases heq : call' = call
  · rw [heq]
    exact ne_none_of_promises hp
  · rwa [update_of_ne heq] at h

omit [DecidableEq T] in
/-- What is left to do is what was left to do before, without the first of it. -/
theorem waits_of_rest {instr : Instr R D E} {call : ℕ} (htodo : s.todo t = instr :: rest)
    (h : Waits call rest) : Waits call (s.todo t) ∨ s.promises call ≠ none := by
  rw [htodo]
  exact .inl (List.mem_cons_of_mem _ h)

theorem Living.step (h : Living s) (hstep : Step b t s s') : Living s' := by
  cases hstep with
  | operate op hin =>
    refine h.go rfl rfl (fun _ _ => ne_none_of_promises) fun call hwaits => .inl ?_
    have hbody := waits_append.mp (hwaits.tail (by rintro ⟨⟩))
    exact (hbody.resolve_left (not_waits_body call op)).tail (by rintro ⟨⟩)
  | settle answer hin hp hanswer =>
    refine h.go rfl rfl (fun _ _ hp' => ne_none_of_set hp (ne_none_of_promises hp'))
      fun call' hwaits => .inl ?_
    split at hwaits
    · exact hwaits.tail (by rintro ⟨⟩)
    · exact hwaits
  | access htodo =>
    rename_i access rest
    have haccess := Access.run_self_referring b no_callbacks h.stream access
    exact h.turn rfl haccess.1 haccess.2 (fun _ _ hp => .inl (ne_none_of_promises hp))
      fun _ hwaits => waits_of_rest htodo (waits_of_after hwaits)
  | process_nothing htodo htake =>
    have hadvances := take_data_advances b no_callbacks s.stream
    rw [htake] at hadvances
    exact h.turn rfl (h.stream.advances hadvances) hadvances.assigned.trans
      (fun _ _ hp => .inl (ne_none_of_promises hp))
      fun _ hwaits => waits_of_rest htodo (waits_of_after hwaits)
  | process_datum htodo htake =>
    have hadvances := take_data_advances b no_callbacks s.stream
    have hassigned := h.stream.bound (bound_of_take_data htake)
    rw [htake] at hadvances
    refine h.turn rfl (h.stream.advances hadvances) hadvances.assigned.trans
      (fun _ _ _ => .inr (hadvances.assigned.trans hassigned)) fun call hwaits => ?_
    rw [waits_append] at hwaits
    refine waits_of_rest htodo (hwaits.resolve_left ?_)
    simp [Waits, call_data_callback]
  | continuation htodo hp =>
    rename_i call p answer rest
    refine h.go rfl rfl (fun _ _ => ne_none_of_promises) fun call' hwaits => ?_
    split at hwaits
    · rw [List.cons_append, Waits, List.mem_cons] at hwaits
      rcases hwaits with heq | hwaits
      · cases heq
        exact .inr (ne_none_of_promises hp)
      · rcases waits_append.mp hwaits with hbody | hrest
        · exact absurd hbody (not_waits_continuation_body call' answer)
        · exact waits_of_rest htodo (hrest.tail (by rintro ⟨⟩))
    · rcases waits_append.mp hwaits with hbody | hrest
      · exact absurd hbody (not_waits_continuation_body call' answer)
      · exact waits_of_rest htodo hrest
  | bind_pending htodo hp | async_check htodo hp =>
    exact h.go rfl rfl (fun _ _ hp' => ne_none_of_set hp (ne_none_of_promises hp'))
      fun _ hwaits => waits_of_rest htodo hwaits
  | bind_settled htodo hp =>
    exact h.go rfl rfl (fun _ _ hp' => ne_none_of_set hp (ne_none_of_promises hp'))
      fun _ hwaits => waits_of_rest htodo (hwaits.tail (by rintro ⟨⟩))
  | user_returns htodo | get_lock htodo | unlock htodo | handler htodo =>
    exact h.go rfl rfl (fun _ _ => ne_none_of_promises) fun _ => waits_of_rest htodo
  | user_throws htodo | bind_throws htodo =>
    exact h.go rfl rfl (fun _ _ => ne_none_of_promises)
      fun _ hwaits => waits_of_rest htodo (hwaits.tail (by rintro ⟨⟩))
  | unwind_unlock htodo | unwind htodo =>
    refine h.go rfl rfl (fun _ _ => ne_none_of_promises) fun _ hwaits => waits_of_rest htodo ?_
    exact List.mem_cons_of_mem _ (hwaits.tail (by rintro ⟨⟩))
  | unwind_handler htodo =>
    refine h.go rfl rfl (fun _ _ => ne_none_of_promises) fun _ hwaits => waits_of_rest htodo ?_
    exact List.mem_cons_of_mem _ ((hwaits.tail (by rintro ⟨⟩)).tail (by rintro ⟨⟩))
  | unwind_user htodo =>
    refine h.go rfl rfl (fun _ _ => ne_none_of_promises) fun _ hwaits => waits_of_rest htodo ?_
    exact hwaits
  | unwind_end htodo =>
    refine h.go rfl rfl (fun _ _ => ne_none_of_promises) fun _ hwaits => ?_
    cases hwaits

theorem living_of_reachable [Inhabited R] (h : ReflTransGen (Steps b) start s) : Living s :=
  History.keeps (fun _ _ h ⟨_, hstep⟩ => h.step hstep) living_start h

omit [DecidableEq T] in
/-- Where a thread waits for the lock to continue, the stream is busy. -/
theorem Inv.busy_of_waits [DecidableEq T] (h : Inv s) {call : ℕ}
    (htodo : s.todo t = .get_lock (some call) :: rest) : Busy s.stream := by
  rcases h with hclear | ⟨call', harmed⟩ | ⟨u, call', hanswering⟩
  · exfalso
    by_cases ht : s.mx = some t
    · have howning := (hclear.held t).1 ht
      rw [htodo] at howning
      cases howning with
      | holding hl => cases hl with | returning hl => cases hl
    · have hout := (hclear.held t).2 ht
      rw [htodo] at hout
      cases hout
  · exact harmed.busy
  · exact hanswering.busy

/-- **A stream lives as long as it is needed.** In every state that is reached: the stream
refers to itself while a continuation has been bound to a promise that has not been settled,
and while one that has been called waits for the lock. Where it does not refer to itself, its
destructor does not complain of a stream that is bound and not completed; it complains of one
that has left the state `pending`, is not completed and is not bound. -/
theorem bound_stream_lives [Inhabited R] (h : ReflTransGen (Steps b) start s) :
    (∀ call p, s.promises call = some p → p.bound = true → p.answer = none →
      s.stream.self_reference = true) ∧
    (∀ t call rest, s.todo t = .get_lock (some call) :: rest →
      s.stream.self_reference = true) ∧
    (s.stream.self_reference = false → destructor b s.stream =
      if b.SAFE_PROMISE_STREAMS ∧ s.stream.data_callback_assigned = false ∧
          s.stream.state ≠ .pending ∧ s.stream.state ≠ .completed then
        some "Unterminted promise chain (forgot ->discard?)"
      else none) := by
  have hliving := living_of_reachable h
  have hinv := inv_of_reachable h
  refine ⟨fun call p hp hbound hanswer => ?_, fun t call rest htodo => ?_, fun hself => ?_⟩
  · have hassigned := hliving.called call p hp
    rcases hinv with hclear | ⟨call', harmed⟩ | ⟨u, call', hanswering⟩
    · exact absurd hanswer (hclear.settled call p hp hbound)
    · exact hliving.stream.immortal hassigned harmed.busy.not_completed
    · exact absurd hanswer (hanswering.settled call p hp hbound)
  · have hassigned := hliving.waiting t call (htodo ▸ List.mem_cons_self ..)
    exact hliving.stream.immortal hassigned (hinv.busy_of_waits htodo).not_completed
  · have hcompleted : s.stream.data_callback_assigned = true → s.stream.state = .completed := by
      intro hassigned
      by_contra hstate
      exact Bool.false_ne_true (hself.symm.trans (hliving.stream.immortal hassigned hstate))
    unfold destructor
    cases hassigned : s.stream.data_callback_assigned with
    | true => simp [hcompleted hassigned]
    | false => simp [ite_and]

/-- The consumer's promise has not been settled, and nobody needs to have a reference. -/
theorem bound_stream_lives_unanswered :
    ∃ s : StreamThreads Bool ℕ ℕ String, ReflTransGen (Steps .debug) start s ∧
      s.promises 0 = some { caller_id := true, bound := true } ∧
      s.stream.self_reference = true := by
  obtain ⟨s, hs, -, -, -, hp⟩ := reaches_bound
  exact ⟨s, hs, hp, (bound_stream_lives hs).1 0 _ hp rfl rfl⟩

end StreamThreads
end Kaiu
