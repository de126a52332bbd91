/-
A stream whose consumer and whose result callbacks note what they are called with.

`task_stream` and `forward_to` feed one stream from another one. Their consumer
says, for each datum, what is to be done with it, and answers when it has been done;
their callbacks say what is to be done with the result. What is noted, in the world
of the stream that feeds, is then the data that its consumer has been called with,
and the result at the end (`Feeds`). Since a stream waits for the answer to one datum
before it gives out the next, or completes, at most one thing is to be done at any
time (`Feeds.count`).
-/
import Kaiu.PromiseSends
import Kaiu.StreamDelivery
import Kaiu.StreamHandoff

set_option autoImplicit false

namespace Kaiu
namespace PromiseStreamState

open Exit Relation

variable {R D E ε : Type*} {b : Build} {datum_sent : D → ε} {result_sent : Outcome R E → ε}
  {op : Op R D E Unit (List ε)} {s s' : PromiseStreamState R D E Unit (List ε)}

/-- A consumer that notes what is to be done with the datum, and answers later. -/
def feeding (datum_sent : D → ε) : Consumer D E (List ε) := fun sent datum =>
  (sent ++ [datum_sent datum], .pending)

theorem feeding_gives {A : Answer E → Prop} :
    Gives A (feeding datum_sent : Consumer D E (List ε)) := by
  intro world d a h
  cases h

/-- What holds of a stream that feeds. What is noted are the data that its consumer has
been called with, and then the result. -/
structure Feeds (datum_sent : D → ε) (result_sent : Outcome R E → ε)
    (s : PromiseStreamState R D E Unit (List ε)) : Prop where
  sane : Sane s
  delivers : Delivers [] s
  bound : ∀ c, s.on_data = some c → c = feeding datum_sent
  honest : Honest s
  result : Sends s.proxy_promise
  settled : PromiseState.outcome s.proxy_promise = (settlements s.log).head?.map Prod.fst
  noted : s.world = (calls s.log).map datum_sent ++ s.proxy_promise.called.map result_sent

theorem Feeds.given {A : Answer E → Prop} (hf : Feeds datum_sent result_sent s) :
    Given A s := by
  intro c hc
  rw [hf.bound c hc]
  exact feeding_gives

/-- Only the producer's operations and a binding need a guard. -/
theorem guard_of_none (hw : ∀ d, op ≠ .write d) (he : op.ends = none) (hb : ∀ c, op ≠ .stream c) :
    Guard op s := by
  refine ⟨fun d h => absurd h (hw d), fun o o' h => ?_, fun c c' h => absurd h (hb c)⟩
  rw [he] at h
  cases h

theorem Feeds.guard_stream (hf : Feeds datum_sent result_sent s) :
    Guard (.stream (feeding datum_sent)) s := by
  refine ⟨nofun, fun o o' h => ?_, fun c c' h hc' => ?_⟩
  · cases h
  · cases h
    exact hf.bound c' hc'

/-- What an operation that binds no callbacks does to a stream that feeds. -/
structure Onward (datum_sent : D → ε) (result_sent : Outcome R E → ε)
    (s s' : PromiseStreamState R D E Unit (List ε)) : Prop where
  feeds : Feeds datum_sent result_sent s'
  noted : s.world <+: s'.world
  assigned : s'.proxy_promise.callbacks_assigned = s.proxy_promise.callbacks_assigned

/-- Nothing is noted. -/
theorem Feeds.keep (hf : Feeds datum_sent result_sent s) (hs : Sane s')
    (hd : Delivers [] s') (hh : Honest s') (hbound : ∀ c, s'.on_data = some c →
      c = feeding datum_sent) (hproxy : s'.proxy_promise = s.proxy_promise)
    (hworld : s'.world = s.world) (hcalls : calls s'.log = calls s.log)
    (hsettled : settlements s'.log = settlements s.log) :
    Onward datum_sent result_sent s s' := by
  refine ⟨⟨hs, hd, hbound, hh, ?_, ?_, ?_⟩, ?_, ?_⟩
  · rw [hproxy]
    exact hf.result
  · rw [hproxy, hsettled]
    exact hf.settled
  · rw [hproxy, hworld, hcalls]
    exact hf.noted
  · exact ⟨[], by rw [hworld, List.append_nil]⟩
  · rw [hproxy]

/-- The result promise is settled. -/
theorem Feeds.complete (hf : Feeds datum_sent result_sent s) {o : Outcome R E}
    (hst : s.state ≠ .completed) (hs : Sane s') (hd : Delivers [] s') (hh : Honest s')
    (hbound : s'.on_data = s.on_data)
    (hproxy : s'.proxy_promise
      = (PromiseState.settle b (sends result_sent) o s.proxy_promise s.world).1.1)
    (hworld : s'.world
      = (PromiseState.settle b (sends result_sent) o s.proxy_promise s.world).1.2)
    (hlog : s'.log = s.log ++ [.settle o s.world]) :
    Onward datum_sent result_sent s s' := by
  have hpending := hf.sane.proxy hst
  obtain ⟨⟨new, hsends, hcalled, hsent⟩, hassigned, houtcome⟩ :=
    hf.result.settle result_sent b s.world o hpending
  rw [← hproxy] at hsends hcalled hassigned houtcome
  rw [← hworld] at hsent
  refine ⟨⟨hs, hd, hbound ▸ hf.bound, hh, hsends, ?_, ?_⟩, ?_, hassigned⟩
  · rw [houtcome, hlog, settlements_append, hf.delivers.settles.unsettled hst]
    rfl
  · rw [hsent, hcalled, hlog, calls_append, hf.noted, List.append_nil, List.map_append,
      List.append_assoc]
  · rw [hsent]
    exact List.prefix_append ..

theorem tick_onward (hg : Guard op s) (hgives : op.gives IsAction)
    (hstream : ∀ c, op = .stream c → c = feeding datum_sent)
    (hbind : ∀ k, op ≠ .bind_result k) (hf : Feeds datum_sent result_sent s)
    (ht : Tick b (sends result_sent) op s s') : Onward datum_sent result_sent s s' := by
  have hs := ht.sane hf.sane
  have hd := ht.delivers hf.sane hg hf.delivers
  have hh := ht.honest hgives hf.given hf.honest
  cases ht with
  | result_bound hop => exact absurd hop (hbind _)
  | bound hop =>
    refine hf.keep hs hd hh (fun c hc => ?_) rfl rfl rfl rfl
    cases hc
    exact hstream _ hop
  | call hc hrun hst ha hb =>
    rename_i c d buffer
    obtain rfl := hf.bound c hc
    -- no result has been sent yet
    have hnil : s.proxy_promise.called = [] := by
      have hne : s.state ≠ .completed := by rcases hst with h | h <;> simp [h]
      exact (hf.result.pending (hf.sane.proxy hne)).1
    refine ⟨⟨hs, hd, hf.bound, hh, hf.result, ?_, ?_⟩, List.prefix_append .., rfl⟩
    · simpa using hf.settled
    · simp [feeding, hf.noted, hnil]
  | recorded_completes hop hr hst hlog =>
    have hne : s.state ≠ .completed := by rcases hst with h | ⟨h, -⟩ <;> simp [h]
    exact hf.complete hne hs hd hh rfl rfl rfl rfl
  | drained_completes hrun hst hb ho =>
    exact hf.complete (by simp [hst]) hs hd hh rfl rfl rfl rfl
  | _ =>
    refine hf.keep hs hd hh hf.bound rfl rfl ?_ ?_ <;> simp [logged]

/-- **Every operation feeds.** -/
theorem Feeds.step (hf : Feeds datum_sent result_sent s) (hg : Guard op s)
    (hgives : op.gives IsAction) (hstream : ∀ c, op = .stream c → c = feeding datum_sent)
    (hbind : ∀ k, op ≠ .bind_result k) :
    Onward datum_sent result_sent s
      (PromiseStreamState.step b (sends result_sent) op s).1 := by
  have hticks : Ticks b (sends result_sent) op s _ := (step_spec hf.sane op).ticks
  refine (History.keeps (I := fun t => Guard op t ∧ Onward datum_sent result_sent s t)
    (fun t u ⟨hg, hf, hpre, hassigned⟩ htick => ?_) ⟨hg, hf, List.prefix_rfl, rfl⟩ hticks).2
  obtain ⟨hf', hpre', hassigned'⟩ := tick_onward hg hgives hstream hbind hf htick
  exact ⟨htick.guard hg, hf', hpre.trans hpre', hassigned'.trans hassigned⟩

/-- `->then(resolve, reject)`. -/
theorem Feeds.bind (hf : Feeds datum_sent result_sent s)
    (ha : s.proxy_promise.callbacks_assigned = false) :
    Feeds datum_sent result_sent
        (PromiseStreamState.step b (sends result_sent) (.bind_result ()) s).1 ∧
      s.world <+: (PromiseStreamState.step b (sends result_sent) (.bind_result ()) s).1.world ∧
      (PromiseStreamState.step b (sends result_sent) (.bind_result ()) s).1.log = s.log := by
  have hticks : Ticks b (sends result_sent) (.bind_result ()) s _ :=
    (step_spec hf.sane _).ticks
  obtain ⟨⟨new, hsends, hcalled, hsent⟩, -, houtcome⟩ :=
    hf.result.bind result_sent b s.world ha
  have hg : Guard (.bind_result ()) s := guard_of_none nofun rfl nofun
  obtain ⟨hs, -, hd⟩ := hticks.delivers hf.sane hg hf.delivers
  refine ⟨⟨hs, hd, hf.bound, ⟨hf.honest.completer, hf.honest.settled⟩, hsends, ?_, ?_⟩, ?_, rfl⟩
  · exact houtcome.trans hf.settled
  · simp only [PromiseStreamState.step, bind_result]
    rw [hsent, hcalled, hf.noted, List.map_append, List.append_assoc]
  · simp only [PromiseStreamState.step, bind_result]
    rw [hsent]
    exact List.prefix_append ..

/-- One thing is to be done at most. -/
theorem Feeds.count (hf : Feeds datum_sent result_sent s) :
    (calls s.log).length + s.proxy_promise.called.length ≤ (answers s.log).length + 1 := by
  have hle := hf.sane.calls_le
  by_cases hst : s.state = .completed
  · have hout : s.outstanding = false := by
      by_contra hne
      have := (hf.sane.running (by simpa using hne)).2.1
      simp [hst] at this
    have hone := hf.result.called_le
    simp only [outstanding, decide_eq_false_iff_not] at hout
    omega
  · rw [(hf.result.pending (hf.sane.proxy hst)).1]
    simpa using hle

end PromiseStreamState
end Kaiu
