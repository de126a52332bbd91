/-
What a consumer that does not fail is handed.

Which data a stream gives to its consumer is decided by the consumer: it is handed
the data in the order in which they are written until it answers something else than
`Continue`. When it answers, whether at once or later, has no influence. So the data
it is handed in the end are a function of the data written and of its answers alone
(`handed`), as are the state it has worked on and the result.

The answer to a call is known with the data up to this call only. An operation may
make several calls that are answered at once, so the invariant that ties the answers
to the data (`Heard`) is not one of the small steps, but of `process_data`, whose
induction is the rule `process_data_induct`.
-/
import Kaiu.StreamDelivery
import Kaiu.StreamFailure
import Kaiu.StreamStopping

set_option autoImplicit false

namespace Kaiu
namespace PromiseStreamState

open Exit Relation

variable {R D E K σ : Type*} {b : Build} {call : K → Outcome R E → σ → Ended σ (ExceptionPtr E)}
  {op : Op R D E K σ} {s s' : PromiseStreamState R D E K σ}

/-! ## The data -/

section Data

variable (policy : List D → StreamAction)

/-- The answers to the calls with `data`, after those with `past`. -/
def replies : List D → List D → List StreamAction
  | _, [] => []
  | past, d :: data => policy (past ++ [d]) :: replies (past ++ [d]) data

/-- The data out of `data` that the consumer is handed, after it has been handed
`past`. -/
def handed : List D → List D → List D
  | _, [] => []
  | past, d :: data =>
      d :: if policy (past ++ [d]) = .Continue then handed (past ++ [d]) data else []

variable {policy}

theorem replies_concat (past data : List D) (d : D) :
    replies policy past (data ++ [d])
      = replies policy past data ++ [policy (past ++ data ++ [d])] := by
  induction data generalizing past with
  | nil => simp [replies]
  | cons first data ih =>
    rw [List.cons_append, replies, replies, ih]
    simp

@[simp] theorem length_replies (past data : List D) :
    (replies policy past data).length = data.length := by
  induction data generalizing past with
  | nil => rfl
  | cons first data ih => rw [replies, List.length_cons, List.length_cons, ih]

/-- A list that goes on to its end goes on throughout. -/
theorem continues_of_dropLast {l : List StreamAction} (h : ∀ a ∈ l.dropLast, a = .Continue)
    (hlast : l.getLastD .Continue = .Continue) : ∀ a ∈ l, a = .Continue := by
  intro a ha
  rcases List.eq_nil_or_concat l with rfl | ⟨init, last, rfl⟩
  · cases ha
  · simp only [List.concat_eq_append, List.dropLast_concat, List.getLastD_concat,
      List.mem_append, List.mem_singleton] at h hlast ha
    exact ha.elim (h a) fun heq => heq.trans hlast

/-- **What is handed.** An initial part of the data, of which every answer but the
last is `Continue`, and the last one as well unless it is all of them. The induction
is on the part that is handed. -/
theorem handed_eq {past part data : List D} (hpre : part <+: data)
    (hgo : ∀ a ∈ (replies policy past part).dropLast, a = .Continue)
    (hend : part = data ∨ (replies policy past part).getLastD .Continue ≠ .Continue) :
    handed policy past data = part := by
  induction part generalizing past data with
  | nil =>
    rcases hend with rfl | hend
    · rfl
    · exact absurd rfl hend
  | cons d part ih =>
    obtain ⟨rest, rfl⟩ := hpre
    rw [replies] at hgo hend
    rw [List.cons_append, handed]
    cases part with
    | nil =>
      -- the last of the data that are handed
      rcases hend with hall | hstop
      · have hrest : rest = [] := by simpa using hall
        rw [hrest]
        simp [handed]
      · have hne : policy (past ++ [d]) ≠ .Continue := by simpa [replies] using hstop
        rw [if_neg hne]
    | cons d' part =>
      rw [replies, List.dropLast_cons_cons] at hgo
      have hfirst : policy (past ++ [d]) = .Continue := hgo _ List.mem_cons_self
      rw [if_pos hfirst, ih (List.prefix_append _ rest)]
      · intro a ha
        rw [replies] at ha
        exact hgo a (List.mem_cons_of_mem _ ha)
      · refine hend.imp (fun hall => ?_) fun hstop => ?_
        · simpa using hall
        · rw [replies]
          simpa [replies] using hstop

end Data

/-! ## The rule for `process_data` -/

/-- The consumer has neither been called nor has it answered. -/
structure Still (s s' : PromiseStreamState R D E K σ) : Prop where
  action : s'.action = s.action
  on_data : s'.on_data = s.on_data
  log : s'.log = s.log ∨ ∃ o, s'.log = s.log ++ [.settle o s.world]

/-- What `process_data` keeps: what the small steps without the consumer keep, and
the calls that are answered later or at once. -/
structure Keeps (b : Build) (call : K → Outcome R E → σ → Ended σ (ExceptionPtr E))
    (op : Op R D E K σ) (I : PromiseStreamState R D E K σ → Prop) : Prop where
  still : ∀ s s', Sane s → I s → Tick b call op s s' → Still s s' → I s'
  pending : ∀ s c d buffer, Sane s → I s → s.on_data = some c → s.state ≠ .completed →
    s.action = .Continue → s.outstanding = false → Tick b call op s (called c d buffer s) →
    (data c s.world d).2 = none → I (called c d buffer s)
  answered : ∀ s c d buffer a, Sane s → I s → s.on_data = some c → s.state ≠ .completed →
    s.action = .Continue → s.outstanding = false → Tick b call op s (called c d buffer s) →
    (data c s.world d).2 = some a → ∃ action, a = .ok action ∧
      (Tick b call op (called c d buffer s) (noted action (called c d buffer s)) →
        I (noted action (called c d buffer s)))

/-- The buffer is found empty, or is emptied. -/
theorem drain_still (b : Build) (call : K → Outcome R E → σ → Ended σ (ExceptionPtr E))
    (op : Op R D E K σ) (hs : Sane s) (hrun : s.consumer_is_running = false)
    (hst : s.state = .streaming1 ∨ s.state = .streaming2)
    (hb : s.buffer = [] ∨ s.action ≠ .Continue) :
    Tick b call op s (set_buffer_is_empty b call { s with buffer := [] }).1 ∧
      Still s (set_buffer_is_empty b call { s with buffer := [] }).1 := by
  rcases hst with hst | hst
  · rw [emptied_streaming1 b call hs hst]
    exact ⟨.drained hrun hst hb, rfl, rfl, Or.inl rfl⟩
  · obtain ⟨o, ref, ho, hfst, -⟩ := emptied_streaming2 b call hs hst hrun
    rw [hfst]
    exact ⟨.drained_completes hrun hst hb ho, rfl, rfl, Or.inr ⟨o, rfl⟩⟩

/-- `take_data` takes nothing. -/
theorem take_data_still (b : Build) (call : K → Outcome R E → σ → Ended σ (ExceptionPtr E))
    (op : Op R D E K σ) (hs : Sane s)
    {r : Ended (PromiseStreamState R D E K σ) (ExceptionPtr E)}
    (htake : take_data b call s = (none, r)) :
    r.1 = s ∨ Tick b call op s r.1 ∧ Still s r.1 := by
  cases taking s with
  | nothing h =>
    rw [take_data_nothing b call h] at htake
    cases htake
    exact Or.inl rfl
  | drains hc hrun hst hb =>
    rw [take_data_drains b call hc hrun hst hb] at htake
    cases htake
    exact Or.inr (drain_still b call op hs hrun hst hb)
  | takes hc hrun hst ha hb =>
    rw [take_data_takes b call hc hrun hst ha hb] at htake
    cases htake

/-- The handler of `call_data_callback` is as good as none. -/
theorem rethrowing_still {I : PromiseStreamState R D E K σ → Prop} (hI : Keeps b call op I)
    {r : Ended (PromiseStreamState R D E K σ) (ExceptionPtr E)} (hs : Sane r.1)
    (hst : r.1.state ≠ .pending) (hout : r.2 ≠ none → r.1.outstanding = false) (hr : I r.1) :
    I (rethrowing r (set_consumer_is_running b call false)).1 := by
  by_cases hne : r.2 = none
  · obtain ⟨t, x⟩ := r
    cases hne
    exact hr
  · have hstopped : Tick b call op r.1 { r.1 with consumer_is_running := false } :=
      .stopped (hout hne)
    rcases rethrowing_flag b call hs hst with heq | heq
    · rw [heq]
      exact hr
    · rw [heq]
      exact hI.still r.1 _ hs hr hstopped ⟨rfl, rfl, Or.inl rfl⟩

/-- **The rule for `process_data`.** The induction is on the data in the buffer. -/
theorem process_data_induct {I : PromiseStreamState R D E K σ → Prop} (hI : Keeps b call op I)
    (n : ℕ) (s : PromiseStreamState R D E K σ) (hs : Sane s) (hlen : s.buffer.length < n)
    (h : I s) : I (process_data b call n s).1 := by
  induction n generalizing s with
  | zero => omega
  | succ n ih =>
    rcases take_data_spec b call op hs with
      ⟨r, htake, -⟩ | ⟨d, buffer, c, htake, hb, hc, hrun, hst, ha⟩
    · rw [process_data, htake]
      rcases take_data_still b call op hs htake with heq | ⟨htick, hstill⟩
      · simpa [heq] using h
      · exact hI.still s _ hs h htick hstill
    · rw [process_data_cons b call n hs hc hrun hst ha hb]
      have hp : s.state ≠ .pending := by rcases hst with h | h <;> simp [h]
      have hne : s.state ≠ .completed := by rcases hst with h | h <;> simp [h]
      have hcall : Tick b call op s (called c d buffer s) := .call hc hrun hst ha hb
      have hsane := hcall.sane hs
      have hnot := hs.not_outstanding hrun
      have hout := hs.called_outstanding c d buffer
      cases hdata : (data c s.world d).2 with
      | none =>
        -- the consumer's promise is not settled yet
        exact hI.pending s c d buffer hs h hc hne ha hnot hcall hdata
      | some a =>
        obtain ⟨action, rfl, hnext⟩ :=
          hI.answered s c d buffer a hs h hc hne ha hnot hcall hdata
        have hanswer : Tick b call op (called c d buffer s) (noted action (called c d buffer s)) :=
          .answer_action hout (Or.inr ⟨c, s.world, d, hc, hdata⟩)
        have hlen' : (noted action (called c d buffer s)).buffer.length < n := by
          simp only [hb, List.length_cons] at hlen
          simp only [noted, called]
          omega
        have hcont : continuation b call (process_data b call n) (.ok action) (called c d buffer s)
            = process_data b call n (noted action (called c d buffer s)) :=
          continuation_ok b call _ hsane hout action
        have hspec : ProcessSpec b call op (noted action (called c d buffer s))
            (process_data b call n (noted action (called c d buffer s))) :=
          process_data_spec n _ (hanswer.sane hsane) hlen'
        have hI' := ih _ (hanswer.sane hsane) hlen' (hnext hanswer)
        have hnotp : (noted action (called c d buffer s)).state ≠ .pending := hp
        simp only [hcont]
        exact rethrowing_still hI (hspec.ticks.sane (hanswer.sane hsane))
          (hspec.ticks.not_pending hnotp) (fun hne => (hspec.thrown hne).1) hI'

/-! ## The answers -/

/-- The consumer does not fail. What it answers, at once or later, is `policy` of the
data that it has been handed. -/
def Replies (policy : List D → StreamAction) (world₀ : σ) (c : Consumer D E σ) : Prop :=
  ∀ past d a, (data c (past.foldl (fun world d => (c world d).1) world₀) d).2 = some a →
    a = .ok (policy (past ++ [d]))

/-- What the answers of the consumer have to do with the data. -/
structure Heard (policy : List D → StreamAction) (s : PromiseStreamState R D E K σ) : Prop where
  answers : answers s.log <+: (replies policy [] (calls s.log)).map .ok
  goes_on : ∀ a ∈ (replies policy [] (calls s.log)).dropLast, a = .Continue
  action : s.outstanding = false →
    s.action = (replies policy [] (calls s.log)).getLastD .Continue

variable {policy : List D → StreamAction} {world₀ : σ} {c : Consumer D E σ}

/-- Nothing has been called or answered. -/
theorem Heard.congr (h : Heard policy s) (hcalls : calls s'.log = calls s.log)
    (hanswers : PromiseStreamState.answers s'.log = PromiseStreamState.answers s.log)
    (haction : s'.action = s.action) : Heard policy s' := by
  obtain ⟨hans, hgo, hact⟩ := h
  refine ⟨by rwa [hanswers, hcalls], by rwa [hcalls], fun hout => ?_⟩
  rw [haction, hcalls]
  refine hact ?_
  rw [outstanding] at hout ⊢
  rwa [← hcalls, ← hanswers]

theorem Heard.still (h : Heard policy s) (hs : Still s s') : Heard policy s' := by
  rcases hs.log with hlog | ⟨o, hlog⟩
  · exact h.congr (by rw [hlog]) (by rw [hlog]) hs.action
  · exact h.congr (by rw [hlog]; simp) (by rw [hlog]; simp) hs.action

/-- A consumer that has answered `Continue` is called again. -/
theorem Heard.called (h : Heard policy s) (hout : s.outstanding = false)
    (ha : s.action = .Continue) (c : Consumer D E σ) (d : D) (buffer : List D) :
    Heard policy (called c d buffer s) := by
  have hreplies : replies policy [] (calls s.log ++ [d])
      = replies policy [] (calls s.log) ++ [policy ([] ++ calls s.log ++ [d])] :=
    replies_concat [] (calls s.log) d
  have hall := continues_of_dropLast h.goes_on ((h.action hout).symm.trans ha)
  refine ⟨?_, ?_, fun hout' => ?_⟩
  · simp only [PromiseStreamState.called, calls_append, answers_append, List.append_nil, hreplies,
      List.map_append]
    exact h.answers.trans (List.prefix_append _ _)
  · simp only [PromiseStreamState.called, calls_append, hreplies, List.dropLast_concat]
    exact hall
  · have hle := h.answers.length_le
    simp only [List.length_map, length_replies] at hle
    simp [PromiseStreamState.called, outstanding] at hout'
    omega

/-- A call that has been answered is the last one, and so is the answer. -/
theorem Heard.noted (hs : Sane s) (h : Heard policy s) (hout : s.outstanding = true) :
    Heard policy (noted (policy (calls s.log)) s) := by
  have hle := hs.calls_le
  simp only [outstanding, decide_eq_true_eq] at hout
  rcases List.eq_nil_or_concat (calls s.log) with hnil | ⟨init, d, hcalls⟩
  · rw [hnil] at hout
    exact absurd hout (Nat.not_lt_zero _)
  · rw [List.concat_eq_append] at hcalls
    have hreplies : replies policy [] (calls s.log)
        = replies policy [] init ++ [policy (calls s.log)] := by
      rw [hcalls, replies_concat, List.nil_append]
    -- all calls but the last one had been answered
    have hanswers : PromiseStreamState.answers s.log = (replies policy [] init).map .ok := by
      have hpre := h.answers
      rw [hreplies, List.map_append] at hpre
      have hlen : (PromiseStreamState.answers s.log).length = init.length := by
        rw [hcalls, List.length_append, List.length_singleton] at hout hle
        omega
      refine (List.prefix_of_prefix_length_le hpre (List.prefix_append _ _) ?_).eq_of_length ?_
      · simp [hlen]
      · simp [hlen]
    refine ⟨?_, ?_, fun _ => ?_⟩
    · simp only [PromiseStreamState.noted, calls_append, answers_append, List.append_nil, hreplies,
        hanswers, List.map_append, List.map_cons, List.map_nil]
      exact List.prefix_rfl
    · simpa [PromiseStreamState.noted] using h.goes_on
    · simp only [PromiseStreamState.noted, calls_append, List.append_nil]
      rw [hreplies, List.getLastD_concat]

/-- What `process_data` keeps. -/
structure Attends (policy : List D → StreamAction) (world₀ : σ) (c : Consumer D E σ)
    (op : Op R D E K σ) (s : PromiseStreamState R D E K σ) : Prop where
  guard : Guard op s
  delivers : Delivers world₀ s
  bound : ∀ c', s.on_data = some c' → c' = c
  heard : Heard policy s

theorem Attends.tick (hs : Sane s) (h : Attends policy world₀ c op s) (ht : Tick b call op s s')
    (hbound : s'.on_data = s.on_data) (hheard : Heard policy s') :
    Attends policy world₀ c op s' :=
  ⟨ht.guard h.guard, ht.delivers hs h.guard h.delivers, hbound ▸ h.bound, hheard⟩

/-- **Every call is answered as the data say.** -/
theorem attends_keeps (hc : Replies policy world₀ c) :
    Keeps b call op (Attends policy world₀ c op) := by
  have hpolicy : ∀ (s : PromiseStreamState R D E K σ) c' d a,
      Attends policy world₀ c op s → s.on_data = some c' → s.state ≠ .completed →
      (data c' s.world d).2 = some a → a = .ok (policy (calls s.log ++ [d])) := by
    intro s c' d a h hbound hst hdata
    obtain rfl := h.bound c' hbound
    have hworld := h.delivers.worlds.world_eq hst
    rw [hworld, consumed, hbound] at hdata
    exact hc _ d a hdata
  refine ⟨fun s s' hs h ht hstill => ?_, fun s c' d buffer hs h hbound hst ha hout ht hdata => ?_,
    fun s c' d buffer a hs h hbound hst ha hout ht hdata => ?_⟩
  · exact h.tick hs ht hstill.on_data (h.heard.still hstill)
  · exact h.tick hs ht rfl (h.heard.called hout ha c' d buffer)
  · refine ⟨_, hpolicy s c' d a h hbound hst hdata, fun ht' => ?_⟩
    have hattends := h.tick hs ht rfl (h.heard.called hout ha c' d buffer)
    have hsane := ht.sane hs
    have hout' := hs.called_outstanding c' d buffer
    have hcalls : calls (called c' d buffer s).log = calls s.log ++ [d] := by simp [called]
    refine hattends.tick hsane ht' rfl ?_
    have hnoted := hattends.heard.noted hsane hout'
    rwa [hcalls] at hnoted

/-! ## The result -/

/-- What the result promise is settled with, and in which world, as long as no call
fails. -/
structure Told (world₀ : σ) (s : PromiseStreamState R D E K σ) : Prop where
  completer : ∀ o, s.completer = some o →
    .ended o ∈ s.log ∨ ∃ e, .error e ∈ answers s.log
  settled : ∀ p ∈ settlements s.log,
    (.ended p.1 ∈ s.log ∨ ∃ e, .error e ∈ answers s.log) ∧ p.2 = consumed world₀ s

/-- A small step that settles nothing. -/
theorem Told.keep (h : Told world₀ s) (hmono : s.log ⊆ s'.log)
    (hcompleter : ∀ o, s'.completer = some o → s.completer = some o)
    (hlog : settlements s'.log = settlements s.log)
    (hworld : settlements s.log ≠ [] → consumed world₀ s' = consumed world₀ s) :
    Told world₀ s' := by
  have hanswers : ∀ a ∈ answers s.log, a ∈ answers s'.log := by
    intro a ha
    obtain ⟨event, hmem, heq⟩ := List.mem_filterMap.mp ha
    exact List.mem_filterMap.mpr ⟨event, hmono hmem, heq⟩
  have hor : ∀ o, (.ended o ∈ s.log ∨ ∃ e, .error e ∈ answers s.log) →
      .ended o ∈ s'.log ∨ ∃ e, .error e ∈ answers s'.log := fun o h =>
    h.imp (fun h => hmono h) fun ⟨e, he⟩ => ⟨e, hanswers _ he⟩
  refine ⟨fun o ho => hor o (h.completer o (hcompleter o ho)), fun p hp => ?_⟩
  rw [hlog] at hp
  obtain ⟨hfrom, hw⟩ := h.settled p hp
  rw [hworld (List.ne_nil_of_mem hp)]
  exact ⟨hor p.1 hfrom, hw⟩

/-- The result promise is settled with `o`. -/
theorem Told.complete (hd : Delivers world₀ s) (hne : s.state ≠ .completed)
    {o : Outcome R E} (ho : .ended o ∈ s.log ∨ ∃ e, .error e ∈ answers s.log)
    (hnone : s'.completer = none) (hbound : s'.on_data = s.on_data)
    (hlog : s'.log = s.log ++ [.settle o s.world]) : Told world₀ s' := by
  refine ⟨fun o' ho' => ?_, fun p hp => ?_⟩
  · rw [hnone] at ho'
    cases ho'
  · rw [hlog, settlements_append, hd.settles.unsettled hne] at hp
    obtain rfl := List.mem_singleton.mp hp
    refine ⟨?_, ?_⟩
    · rw [hlog]
      refine ho.imp (List.mem_append_left _) fun ⟨e, he⟩ => ⟨e, ?_⟩
      simpa using he
    · simp only [consumed, hbound, hlog, calls_append, List.append_nil]
      exact hd.worlds.world_eq hne

theorem Tick.told (hg : Guard op s) (hd : Delivers world₀ s) (h : Told world₀ s)
    (ht : Tick b call op s s') : Told world₀ s' := by
  have hmono : s.log ⊆ s'.log := (Ticks.log_mono (.single ht)).subset
  -- a stream that has been settled is completed
  have hcompleted : settlements s.log ≠ [] → s.state = .completed := by
    intro hne
    by_contra hst
    exact hne (hd.settles.unsettled hst)
  cases ht with
  | recorded hop hr hst hb hlog =>
    refine ⟨fun o ho => ?_, fun p hp => ?_⟩
    · cases ho
      exact Or.inl hlog
    · exact h.settled p hp
  | recorded_completes hop hr hst hlog =>
    have hne : s.state ≠ .completed := by rcases hst with h | ⟨h, -⟩ <;> simp [h]
    exact Told.complete hd hne (Or.inl hlog) rfl rfl rfl
  | drained_completes hrun hst hb ho =>
    exact Told.complete hd (by simp [hst]) (h.completer _ ho) rfl rfl rfl
  | bound hop =>
    rename_i c ref
    refine h.keep hmono (fun _ h => h) rfl fun _ => ?_
    cases hc : s.on_data with
    | none => simp [consumed, hc, hd.worlds.unbound hc]
    | some c' => simp [consumed, hc, hg.bound c c' hop hc]
  | call hc hrun hst ha hb =>
    refine h.keep hmono (fun _ h => h) (by simp) fun hne => ?_
    have := hcompleted hne
    rcases hst with hst | hst <;> simp [hst] at this
  | answer_failed hout hans hr =>
    rename_i e
    refine ⟨fun o ho => Or.inr ⟨e, by simp⟩, fun p hp => ?_⟩
    obtain ⟨-, hw⟩ := h.settled p (by simpa using hp)
    exact ⟨Or.inr ⟨e, by simp⟩, by simpa [consumed] using hw⟩
  | _ =>
    refine h.keep hmono (fun _ h => h) ?_ fun _ => ?_
    · simp [logged]
    · simp [logged, consumed]

/-! ## Operations -/

/-- What the producer and a consumer that does not fail may do now. -/
def Serves (policy : List D → StreamAction) (c : Consumer D E σ)
    (s : PromiseStreamState R D E K σ) : Op R D E K σ → Prop
  | .write _ | .resolve _ => ∀ o, .ended o ∉ s.log
  | .reject _ => False
  | .stream c' => s.on_data = none ∧ c' = c
  | .answer a => s.outstanding = true → a = .ok (policy (calls s.log))
  | .bind_result _ => True

/-- What holds of a stream between two operations. -/
structure Served (policy : List D → StreamAction) (world₀ : σ) (c : Consumer D E σ)
    (s : PromiseStreamState R D E K σ) : Prop where
  rest : AtRest s
  delivers : Delivers world₀ s
  told : Told world₀ s
  bound : ∀ c', s.on_data = some c' → c' = c
  heard : Heard policy s
  unrejected : ∀ e, .ended (.rejected e) ∉ s.log

theorem served_new [Inhabited R] :
    Served policy world₀ c (new world₀ : PromiseStreamState R D E K σ) := by
  refine ⟨atRest_new world₀, (sound_new world₀).delivers, ⟨nofun, nofun⟩, nofun, ?_, nofun⟩
  exact ⟨List.prefix_rfl, nofun, fun _ => rfl⟩

theorem Heard.noFailure (h : Heard policy s) : NoFailure s.log := by
  intro e he
  have hmem : .error e ∈ PromiseStreamState.answers s.log :=
    List.mem_filterMap.mpr ⟨_, he, rfl⟩
  obtain ⟨a, -, ha⟩ := List.mem_map.mp (h.answers.subset hmem)
  cases ha

theorem Serves.guard (h : Serves policy c s op) : Guard op s := by
  refine ⟨fun d hop o => ?_, fun o o' hop ho' => ?_, fun c' c'' hop hc'' => ?_⟩
  · subst hop
    exact h o
  · cases op with
    | resolve r => exact absurd ho' (h o')
    | reject e => exact h.elim
    | _ => cases hop
  · subst hop
    rw [h.1] at hc''
    cases hc''

/-- `process_data` in a stream that is being served. -/
theorem Attends.process (hc : Replies policy world₀ c) (hs : Sane s)
    (h : Attends policy world₀ c op s) : Heard policy (process b call s).1 :=
  have hkeeps : Keeps b call op (Attends policy world₀ c op) := attends_keeps hc
  (process_data_induct hkeeps _ s hs (Nat.lt_succ_self _) h).heard

theorem Tick.write_action {d : D} (ht : Tick b call (.write d) s s')
    (hlog : s'.log = s.log ++ [.write d]) : s'.action = s.action := by
  cases ht <;> simp_all [logged, completed, Op.ends]

/-- A consumer is bound to a stream that has none. -/
theorem set_data_callback_eq (b : Build)
    (call : K → Outcome R E → σ → Ended σ (ExceptionPtr E)) (hnone : s.on_data = none)
    (hassigned : s.data_callback_assigned = false) :
    set_data_callback b call c s = process b call { s with
      on_data := some c, data_callback_assigned := true
      self_reference := s.self_reference || s.state != .completed } := by
  simp [set_data_callback, hnone, set_data_callback_assigned, hassigned]

/-- **Every operation is heard.** -/
theorem Served.heard_step (hc : Replies policy world₀ c) (hs : Served policy world₀ c s)
    (hop : Serves policy c s op) : Heard policy (step b call op s).1 := by
  have hg := hop.guard
  have hsane := hs.rest.sane
  have hattends : Attends policy world₀ c op s := ⟨hg, hs.delivers, hs.bound, hs.heard⟩
  cases op with
  | write d =>
    -- the write itself calls nobody; then `process` goes on, or the write has been refused
    obtain ⟨t, htick, hlog, -, hdata, heq | ⟨⟨x, heq⟩, -, -⟩⟩ := write_cases b call hsane d
    all_goals
      have hheard : Heard policy t := by
        refine hs.heard.congr ?_ ?_ (htick.write_action hlog)
        · rw [hlog]
          simp
        · rw [hlog]
          simp
    · have hattends' := hattends.tick hsane htick hdata hheard
      simp only [step]
      rw [heq]
      exact hattends'.process hc (htick.sane hsane)
    · simp only [step]
      rw [heq]
      exact hheard
  | resolve r =>
    -- the result promise is settled at most: nothing is handed over
    have hspec : StepSpec b call (.resolve r) s (end_with b call (.resolved r) s) :=
      end_with_spec _ hsane rfl
    have haction := end_with_action b call (.resolved r) s
    change Heard policy (end_with b call (.resolved r) s).1
    rcases (hspec.ended _ rfl).2 with hlog | ⟨world, hlog⟩
    · exact hs.heard.congr (by rw [hlog]; simp) (by rw [hlog]; simp) haction
    · refine hs.heard.congr ?_ ?_ haction
      · rw [hlog, List.append_cons]
        simp only [calls_append, List.append_nil]
      · rw [hlog, List.append_cons]
        simp only [answers_append, List.append_nil]
  | reject e => exact hop.elim
  | stream c' =>
    obtain ⟨hnone, rfl⟩ := hop
    have hassigned := hsane.unbound hnone
    have htick : Tick b call (.stream c') s { s with
        on_data := some c', data_callback_assigned := true
        self_reference := s.self_reference || s.state != .completed } := .bound rfl
    have hattends' : Attends policy world₀ c' (.stream c') { s with
        on_data := some c', data_callback_assigned := true
        self_reference := s.self_reference || s.state != .completed } := by
      refine ⟨htick.guard hg, htick.delivers hsane hg hs.delivers, fun c'' hc'' => ?_, ?_⟩
      · cases hc''
        rfl
      · exact hs.heard.congr rfl rfl rfl
    simp only [step]
    rw [set_data_callback_eq b call hnone hassigned]
    exact hattends'.process hc (htick.sane hsane)
  | answer a =>
    simp only [step, answer]
    by_cases hout : s.outstanding = true
    -- the outstanding call is answered as the policy says, and `process_data` goes on
    · obtain rfl := hop hout
      rw [if_pos hout, continuation_ok b call _ hsane hout]
      have htick : Tick b call (.answer (.ok (policy (calls s.log)))) s
          (noted (policy (calls s.log)) s) := .answer_action hout (Or.inl rfl)
      have hattends' := hattends.tick hsane htick rfl (hs.heard.noted hsane hout)
      have hkeeps : Keeps b call (.answer (.ok (policy (calls s.log)))) _ := attends_keeps hc
      exact (process_data_induct hkeeps _ _ (htick.sane hsane) (Nat.lt_succ_self _)
        hattends').heard
    · rw [if_neg hout]
      exact hs.heard
  | bind_result k => exact hs.heard.congr rfl rfl rfl

theorem Tick.on_data_eq (hop : ∀ c', op = .stream c' → c' = c)
    (hb : ∀ c', s.on_data = some c' → c' = c) (ht : Tick b call op s s') :
    ∀ c', s'.on_data = some c' → c' = c := by
  intro c' hc'
  rcases ht.bound_or hc' with hbinds | hc'
  · exact hop c' hbinds
  · exact hb c' hc'

theorem Tick.not_rejected (hop : ∀ o, op.ends = some o → ∃ r, o = .resolved r)
    (hr : ∀ e, .ended (.rejected e) ∉ s.log) (ht : Tick b call op s s') :
    ∀ e, .ended (.rejected e) ∉ s'.log := by
  intro e he
  rcases ht.ended_or he with hends | he
  · obtain ⟨r, hr'⟩ := hop _ hends
    cases hr'
  · exact hr e he

/-- **Every operation serves.** -/
theorem Served.step (hc : Replies policy world₀ c) (hs : Served policy world₀ c s)
    (hop : Serves policy c s op) : Served policy world₀ c (step b call op s).1 := by
  have hheard : Heard policy (PromiseStreamState.step b call op s).1 := hs.heard_step hc hop
  have hg := hop.guard
  have hticks : Ticks b call op s (PromiseStreamState.step b call op s).1 :=
    (step_spec hs.rest.sane op).ticks
  have hbound : ∀ c', op = .stream c' → c' = c := by
    rintro c' rfl
    exact hop.2
  have hends : ∀ o, op.ends = some o → ∃ r, o = .resolved r := by
    intro o ho
    cases op with
    | resolve r =>
      cases ho
      exact ⟨r, rfl⟩
    | reject e => exact hop.elim
    | _ => cases ho
  obtain ⟨-, -, hd, htold, hb, hrej⟩ := History.keeps
    (I := fun t => Sane t ∧ Guard op t ∧ Delivers world₀ t ∧ Told world₀ t ∧
      (∀ c', t.on_data = some c' → c' = c) ∧ ∀ e, .ended (.rejected e) ∉ t.log)
    (fun t u ⟨hs, hg, hd, ht, hb, hr⟩ htick => ⟨htick.sane hs, htick.guard hg,
      htick.delivers hs hg hd, htick.told hg hd ht, htick.on_data_eq hbound hb,
      htick.not_rejected hends hr⟩)
    ⟨hs.rest.sane, hg, hs.delivers, hs.told, hs.bound, hs.unrejected⟩ hticks
  exact ⟨hs.rest.step op hheard.noFailure, hd, htold, hb, hheard, hrej⟩

theorem Served.not_failed (hs : Served policy world₀ c s) : s.result ≠ .consumer_failed := by
  intro hr
  obtain ⟨e, he⟩ := hs.delivers.results.failed_result hr
  obtain ⟨a, -, ha⟩ := List.mem_map.mp (hs.heard.answers.subset he)
  cases ha

/-- A stream that the producer has not ended has no result. -/
theorem Served.result_pending (hs : Served policy world₀ c s) (h : ∀ o, .ended o ∉ s.log) :
    s.result = .pending := by
  have hresults := hs.delivers.results
  cases hr : s.result with
  | pending => rfl
  | resolved =>
    obtain ⟨r, hmem, -⟩ := hresults.resolved_result hr
    exact absurd hmem (h _)
  | rejected =>
    obtain ⟨e, hmem⟩ := hresults.rejected_result hr
    exact absurd hmem (h _)
  | consumer_failed => exact absurd hr hs.not_failed

/-- **A write returns**, if the stream has not been ended. -/
theorem Served.write_returns (hc : Replies policy world₀ c) (hs : Served policy world₀ c s)
    (h : ∀ o, .ended o ∉ s.log) (d : D) : (write b call d s).2 = none := by
  have hserves : Serves policy c s (.write d) := h
  have hserved : Served policy world₀ c (write b call d s).1 := hs.step hc hserves
  have hpending := hs.result_pending h
  obtain ⟨t, htick, -, hresult, -, heq | ⟨-, hne, -⟩⟩ := write_cases b call hs.rest.sane d
  · rw [heq] at hserved ⊢
    by_contra hthrown
    have hspec : ProcessSpec b call (.write d) t (process b call t) :=
      process_spec (htick.sane hs.rest.sane)
    rcases (hspec.thrown hthrown).2 with hcompleted | hfailed
    · have hres := History.keeps
        (I := fun u => u.result = .pending ∨ u.result = .consumer_failed)
        (fun _ _ hr htick => htick.result_of_not_ends rfl hr) (Or.inl (hresult.trans hpending))
        hspec.ticks
      rcases hres with hres | hres
      · exact (hserved.rest.sane.completed_state hcompleted).2.1 hres
      · exact hserved.not_failed hres
    · exact hfailed.not_noFailure hserved.heard.noFailure
  · exact absurd hpending hne

/-! ## Streams that have finished -/

/-- The consumer has answered something else than `Continue`. -/
def Refused (log : List (StreamEvent R D E σ)) : Prop :=
  ∃ a ∈ answers log, a ≠ .ok .Continue

theorem Refused.mono {log log' : List (StreamEvent R D E σ)} (h : Refused log)
    (hpre : log <+: log') : Refused log' := by
  obtain ⟨a, ha, hne⟩ := h
  obtain ⟨event, hevent, heq⟩ := List.mem_filterMap.mp ha
  exact ⟨a, List.mem_filterMap.mpr ⟨event, hpre.subset hevent, heq⟩, hne⟩

/-- A consumer that has refused data has been handed what it is handed, whatever is
written after that. -/
theorem Served.handed_of_refused (hs : Served policy world₀ c s) (hrefused : Refused s.log)
    {data : List D} (hpre : writes s.log <+: data) :
    handed policy [] data = calls s.log := by
  refine handed_eq (hs.delivers.calls_initial.trans hpre) hs.heard.goes_on (Or.inr fun hlast => ?_)
  obtain ⟨a, ha, hne⟩ := hrefused
  obtain ⟨action, haction, rfl⟩ := List.mem_map.mp (hs.heard.answers.subset ha)
  rw [continues_of_dropLast hs.heard.goes_on hlast action haction] at hne
  exact hne rfl

/-- A stream that tells its producer to stop has been refused data. -/
theorem Served.refused_of_action (hs : Served policy world₀ c s) (ha : s.action ≠ .Continue) :
    Refused s.log := by
  rcases hs.delivers.order with ⟨-, hrejected⟩ | habandoned
  · obtain ⟨e, he⟩ := hrejected ha
    exact absurd he (hs.unrejected e)
  · refine habandoned.reason.resolve_right ?_
    rintro ⟨e, he⟩
    exact hs.unrejected e he

/-- **What a consumer that does not fail is handed**, and what its result promise is
settled with, when the producer has resolved the stream and no answer is outstanding. -/
theorem Served.finished (hs : Served policy world₀ c s) {r : R} (hbound : s.on_data.isSome)
    (hended : .ended (.resolved r) ∈ s.log) (hout : s.outstanding = false) :
    calls s.log = handed policy [] (writes s.log) ∧
    settlements s.log
      = [(.resolved r, (handed policy [] (writes s.log)).foldl (fun w d => (c w d).1) world₀)] := by
  have hcompleted := hs.rest.completed hbound ⟨_, hended⟩ hout
  obtain ⟨o, world, hlog, hfinal⟩ := hs.delivers.settles.settled hcompleted
  obtain ⟨hfrom, hworld⟩ := hs.told.settled (o, world) (by simp [hlog])
  simp only at hfrom hworld
  have hmem : .ended o ∈ s.log := by
    refine hfrom.resolve_right ?_
    rintro ⟨e, he⟩
    obtain ⟨a, -, ha⟩ := List.mem_map.mp (hs.heard.answers.subset he)
    cases ha
  obtain rfl : o = .resolved r := hs.delivers.results.ended_unique _ _ hmem hended
  have hcalls : calls s.log = handed policy [] (writes s.log) := by
    by_cases hrefused : Refused s.log
    · exact (hs.handed_of_refused hrefused List.prefix_rfl).symm
    · have hall : ∀ a ∈ answers s.log, a = .ok .Continue := by
        intro a ha
        by_contra hne
        exact hrefused ⟨a, ha, hne⟩
      have hwritten := (hfinal r hended hall).1
      exact (handed_eq (hwritten ▸ List.prefix_rfl) hs.heard.goes_on (Or.inl hwritten)).symm
  refine ⟨hcalls, ?_⟩
  obtain ⟨c', hc'⟩ := Option.isSome_iff_exists.mp hbound
  obtain rfl := hs.bound c' hc'
  rw [hlog, hworld, consumed, hc', ← hcalls]

/-- A step of the producer or of a consumer that does not fail. -/
def Serving (b : Build) (call : K → Outcome R E → σ → Ended σ (ExceptionPtr E))
    (policy : List D → StreamAction) (c : Consumer D E σ) (s s' : PromiseStreamState R D E K σ) :
    Prop :=
  ∃ op, Serves policy c s op ∧ s' = (step b call op s).1

theorem run_served [Inhabited R] (hc : Replies policy world₀ c)
    (hrun : ReflTransGen (Serving b call policy c) (new world₀) s) : Served policy world₀ c s := by
  refine History.keeps (fun s s' hs h => ?_) served_new hrun
  obtain ⟨op, hop, rfl⟩ := h
  exact hs.step hc hop

end PromiseStreamState
end Kaiu
