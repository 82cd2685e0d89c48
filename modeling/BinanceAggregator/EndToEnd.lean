import BinanceAggregator.Service
import BinanceAggregator.Shutdown

/-!
From the socket to the sink.

The network stage is stopped and joined before the pipeline, so that the raw queue is open as long
as the network thread is there. No message that the thread has read is therefore refused by the
queue: the messages accepted are the messages read, in the order in which they were read. What is
then written is, window by window, the statistics of all of them.
-/

namespace BinanceAggregator.Service

open Runs

variable {C : Config} {E : Env} {R : ReconnectConfig} {s s' : St C} {a : Act C}
  {tr : List (Act C)}

/-- The messages that the network thread has read from its sockets, in order. -/
def received (tr : List (Act C)) : List Str := tr.filterMap fun a => match a with
  | .network (.read message) => some message
  | _ => none

/-- What the pipeline has done. -/
def pipelineTrace (tr : List (Act C)) : List (Pipeline.Act C) := tr.flatMap Act.forPipeline

lemma received_append (u v : List (Act C)) : received (u ++ v) = received u ++ received v :=
  List.filterMap_append

lemma pipelineTrace_append (u v : List (Act C)) :
    pipelineTrace (u ++ v) = pipelineTrace u ++ pipelineTrace v := List.flatMap_append

lemma accepted_append (u v : List (Pipeline.Act C)) :
    Pipeline.accepted (u ++ v) = Pipeline.accepted u ++ Pipeline.accepted v := List.filterMap_append

/-! ### The network thread is gone before the pipeline is stopped -/

/-- The network thread does not come back. -/
lemma network_exited {a : Network.Act} {n n' : Network.St} (h : Network.Step R n a n')
    (hn : n.pc = .exited) : n'.pc = .exited := by
  cases h with
  | policyWake _ hp => simp [hn] at hp
  | stopCall _ | storeStop _ | policyLock _ _ | policySet _ | policyNotify _ _ | clientLock _ _
  | clientStop _ _ | clientAbsent _ _ | streamLock _ _ _ | close _ _ | unlockClient _ | join _ _ =>
      exact hn
  | _ => simp_all

/-- The order in which `main` stops the two parts. -/
structure StoppedFirst (s : St C) : Prop where
  joined : s.network.stopper = .returned → s.network.pc = .exited
  gone : s.pipeline.stopper ≠ .idle → s.network.pc = .exited
  closed : s.pipeline.raw.isShutdown = true → s.pipeline.stopper ≠ .idle

lemma network_joined {a : Network.Act} {n n' : Network.St} (h : Network.Step R n a n')
    (hn : n.stopper = .returned → n.pc = .exited) (hn' : n'.stopper = .returned) :
    n'.pc = .exited := by
  cases h with
  | join _ hp => exact hp
  | stopCall _ | storeStop _ | policyLock _ _ | policySet _ | policyWake _ _ | policyNotify _ _
  | clientLock _ _ | clientStop _ _ | clientAbsent _ _ | streamLock _ _ _ | close _ _
  | unlockClient _ => cases hn'
  | testExit _ _ | checkExit _ _ | waitStopped _ _ => rfl
  | _ => simp_all

/-- Only a call of `stop` ends the rest before the first one. -/
lemma pipeline_idle {a : Pipeline.Act C} {p p' : Pipeline.St C} (h : Pipeline.Step E p a p')
    (ha : a ≠ .stopCall) (hp : p.stopper = .idle) : p'.stopper = .idle := by
  cases h with
  | stopCall _ => exact absurd rfl ha
  | @lockShard who _ _ _ _ hf _ | @extract who _ _ _ _ hf | @merge who _ _ hf
  | @write who _ _ _ hf | @finish who _ hf =>
      cases who with
      | writer => exact hp
      | stopper => simp [Pipeline.flushOf_stopper, hp] at hf
  | stopLock h _ | stopSet h | stopWake h _ | stopNotify h _ | joinWriter h _ | closeRaw h
  | joinParser h _ | closeShard h | shardsClosed h | joinAgg h _ | aggsJoined h => simp [hp] at h
  | _ => exact hp

/-- The raw queue is closed by `stop` alone. -/
lemma pipeline_closed {a : Pipeline.Act C} {p p' : Pipeline.St C} (h : Pipeline.Step E p a p')
    (hp : p.raw.isShutdown = true → p.stopper ≠ .idle) (hp' : p'.raw.isShutdown = true) :
    p'.stopper ≠ .idle := by
  have hbegun := fun hne => Pipeline.stopper_ne_idle hne h
  cases h with
  | push _ hq =>
      obtain ⟨-, hsame, -, -⟩ := BoundedQueue.push_eq_some hq
      exact hp (hsame ▸ hp')
  | popRaw _ hq | parserExit _ hq =>
      obtain ⟨-, hsame, -, -⟩ := BoundedQueue.pop_eq_some hq
      exact hp (hsame ▸ hp')
  | closeRaw _ => exact nofun
  | _ => exact hbegun (hp hp')

lemma step_stoppedFirst (hs : StoppedFirst s) (h : Step E R s a s') : StoppedFirst s' := by
  cases h with
  | network _ _ hn =>
      exact ⟨network_joined hn hs.joined, fun hp => network_exited hn (hs.gone hp), hs.closed⟩
  | @together a b n p hb hn hp =>
      refine ⟨network_joined hn hs.joined, fun hidle => ?_, pipeline_closed hp hs.closed⟩
      have hb' : b ≠ .stopCall := by
        rintro rfl
        cases a <;> cases hb
      exact network_exited hn (hs.gone fun hidle' => hidle (pipeline_idle hp hb' hidle'))
  | @pipeline a p hm hp =>
      refine ⟨hs.joined, fun hidle => ?_, pipeline_closed hp hs.closed⟩
      by_cases ha : a = .stopCall
      · subst ha
        exact hs.joined (by simpa [permits] using hm)
      · exact hs.gone fun hidle' => hidle (pipeline_idle hp ha hidle')

lemma run_stoppedFirst (h : run (step E R) (start C) tr = some s) : StoppedFirst s :=
  run_stable (P := StoppedFirst) (fun hs ha => step_stoppedFirst hs (step_cases ha))
    ⟨by simp [start, Network.start], fun hne => absurd rfl hne, by
      simp [start, Pipeline.start, BoundedQueue.empty]⟩ h

/-! ### What was read is what was accepted -/

/-- No thread but the network thread submits messages. -/
def OnlyNetwork (tr : List (Act C)) : Prop := ∀ k m, Act.pipeline (.submit k m) ∉ tr

/-- The messages read are those accepted and the one in the hands of the network thread. -/
structure Tracks (tr : List (Act C)) (s : St C) : Prop where
  messages : received tr =
    Pipeline.accepted (pipelineTrace tr) ++ (s.pipeline.submitters 0).toList
  others : ∀ k, k ≠ 0 → s.pipeline.submitters k = none

/-- Submitters other than the network thread stay without a message. -/
lemma pipeline_others {a : Pipeline.Act C} {p p' : Pipeline.St C} (h : Pipeline.Step E p a p')
    (ha : ∀ k m, a ≠ .submit k m) (hp : ∀ k, k ≠ 0 → p.submitters k = none) :
    ∀ k, k ≠ 0 → p'.submitters k = none := by
  intro k hk
  cases h with
  | submit _ => exact absurd rfl (ha _ _)
  | @push j m ok q _ _ =>
      change Function.update p.submitters j none k = none
      by_cases hj : k = j
      · rw [hj, Function.update_self]
      · rw [Function.update_of_ne hj]
        exact hp k hk
  | _ => exact hp k hk

/-- Without a message no submitter pushes. -/
lemma accepted_of_others {a : Pipeline.Act C} {p p' : Pipeline.St C} (h : Pipeline.Step E p a p')
    (hb : ofNetwork a = false) (hp : ∀ k, k ≠ 0 → p.submitters k = none) :
    Pipeline.accepted [a] = [] := by
  cases h with
  | @push j m ok q hj _ =>
      have hne : j ≠ 0 := by simpa [ofNetwork] using hb
      simp [hp j hne] at hj
  | _ => rfl

/-- The network thread as a submitter: the queue takes its message. -/
lemma tracks_together {a : Network.Act} {b : Pipeline.Act C} {n : Network.St} {p : Pipeline.St C}
    (ht : Tracks tr s) (hs : StoppedFirst s) (hb : asSubmitter a = some b)
    (hn : Network.Step R s.network a n) (hp : Pipeline.Step E s.pipeline b p) :
    Tracks (tr ++ [.network a]) ⟨n, p⟩ := by
  have hlast : pipelineTrace [Act.network (C := C) a] = [b] := by
    simp [pipelineTrace, Act.forPipeline, hb]
  cases hn with
  | @read c m _ _ _ =>
      cases hb
      cases hp with
      | submit hnone =>
          refine ⟨?_, fun k hk => ?_⟩
          · rw [received_append, pipelineTrace_append, accepted_append, hlast, ht.messages, hnone]
            simp [received, Pipeline.accepted]
          · exact (Function.update_of_ne hk _ _).trans (ht.others k hk)
  | @push m ok hpc =>
      cases hb
      cases hp with
      | push hm hq =>
          -- the network thread is there, so the queue has not been closed
          obtain ⟨-, -, hopen, -⟩ := BoundedQueue.push_eq_some hq
          have hok : ok = true := by
            by_contra hno
            rw [Bool.not_eq_true] at hno
            rw [hno] at hopen
            simp [hs.gone (hs.closed hopen)] at hpc
          refine ⟨?_, fun k hk => (Function.update_of_ne hk _ _).trans (ht.others k hk)⟩
          rw [received_append, pipelineTrace_append, accepted_append, hlast, ht.messages, hm, hok]
          simp [received, Pipeline.accepted]
  | _ => cases hb

lemma step_tracks (ht : Tracks tr s) (hs : StoppedFirst s) (honly : OnlyNetwork (tr ++ [a]))
    (h : Step E R s a s') : Tracks (tr ++ [a]) s' := by
  cases h with
  | @network a n _ hb hn =>
      have hlast : pipelineTrace [Act.network (C := C) a] = [] := by
        simp [pipelineTrace, Act.forPipeline, hb]
      have hread : received [Act.network (C := C) a] = [] := by
        cases a <;> first | rfl | cases hb
      refine ⟨?_, ht.others⟩
      rw [received_append, pipelineTrace_append, hlast, hread, List.append_nil, List.append_nil]
      exact ht.messages
  | together hb hn hp => exact tracks_together ht hs hb hn hp
  | @pipeline a p hm hp =>
      have hsubmit : ∀ k m, a ≠ .submit k m := by
        rintro k m rfl
        exact honly k m (List.mem_append_right _ (List.mem_singleton_self _))
      have hb : ofNetwork a = false := by
        cases a <;> simp_all [permits, ofNetwork]
      refine ⟨?_, pipeline_others hp hsubmit ht.others⟩
      have hlast : pipelineTrace [Act.pipeline a] = [a] := rfl
      rw [received_append, pipelineTrace_append, accepted_append, hlast,
        accepted_of_others hp hb ht.others, List.append_nil, ht.messages]
      change _ ++ [] = _ ++ (p.submitters 0).toList
      rw [pipeline_submitters hp hb, List.append_nil]

lemma run_tracks (h : run (step E R) (start C) tr = some s) (honly : OnlyNetwork tr) :
    Tracks tr s := by
  refine run_inv (P := fun tr s => OnlyNetwork tr → Tracks tr s) ?_ ?_ h honly
  · exact fun _ => ⟨rfl, fun _ _ => rfl⟩
  · intro tr s a s' hrun ih ha honly
    have hbefore : OnlyNetwork tr := fun k m hk => honly k m (List.mem_append_left _ hk)
    exact step_tracks (ih hbefore) (run_stoppedFirst hrun) honly (step_cases ha)

/-- When `stop` has returned, what was written adds up to the trades of the accepted messages. -/
lemma windowTally_of_returned {u : List (Pipeline.Act C)} {p : Pipeline.St C}
    (h : run (Pipeline.step E) (Pipeline.start C) u = some p) (hret : p.stopper = .returned) :
    windowTally (Pipeline.writtenWindows u) = tradeTally C.windowMs (Pipeline.trades E u) := by
  obtain ⟨hadded, hsum, hwritten⟩ := Pipeline.flows_of_returned h hret
  calc windowTally (Pipeline.writtenWindows u)
      = windowTally (Pipeline.extracted u) := Tally.tally_perm _ _ hwritten
    _ = tradeTally C.windowMs (Pipeline.added u) := hsum
    _ = tradeTally C.windowMs (Pipeline.trades E u) := Tally.tally_perm _ _ hadded

/-- **From the socket to the sink.** As long as only the network thread submits, the messages it
has read are those the raw queue has accepted, in order, and the one it is about to push: none is
refused. When the pipeline's `stop` has returned, the windows written for a bucket merge to the
statistics of the trades of the bucket among all messages that were read. -/
theorem end_to_end (h : run (step E R) (start C) tr = some s) (honly : OnlyNetwork tr) :
    received tr = Pipeline.accepted (pipelineTrace tr) ++ (s.pipeline.submitters 0).toList ∧
    (s.pipeline.stopper = .returned →
      received tr = Pipeline.accepted (pipelineTrace tr) ∧
      ∀ b : Bucket, mergeAll ((Pipeline.writtenWindows (pipelineTrace tr)).filter (·.bucket = b)) =
        statsOf b.1 b.2 (((received tr).filterMap (Pipeline.tradeOf E)).filter
          (·.bucket C.windowMs = b))) := by
  have htracks := run_tracks h honly
  refine ⟨htracks.messages, fun hret => ?_⟩
  have hexited : s.network.pc = .exited := (run_stoppedFirst h).gone (by rw [hret]; exact nofun)
  have hnone : s.pipeline.submitters 0 = none := by
    refine Option.eq_none_iff_forall_ne_some.mpr fun m hm => ?_
    have hpc := (run_handed h m).mpr hm
    simp [hexited] at hpc
  have hall := htracks.messages
  rw [hnone, Option.toList_none, List.append_nil] at hall
  have htally : windowTally (Pipeline.writtenWindows (pipelineTrace tr)) =
      tradeTally C.windowMs ((received tr).filterMap (Pipeline.tradeOf E)) := by
    rw [hall]
    exact windowTally_of_returned (run_pipeline h) hret
  refine ⟨hall, fun b => ?_⟩
  rw [mergeAll_filter, statsOf_filter, htally]

/-- Whether an action is a submission of another thread. -/
def Act.submits : Act C → Bool
  | .pipeline (.submit _ _) => true
  | _ => false

lemma onlyNetwork_of_check (h : tr.all (fun a => !a.submits) = true) : OnlyNetwork tr := by
  intro k m hk
  cases List.all_eq_true.mp h _ hk

/-- The network thread in the place of the first submitter. -/
def asNetwork : Pipeline.Act C → Act C
  | .submit 0 m => .network (.read m)
  | .push 0 m ok => .network (.push m ok)
  | a => .pipeline a

/-- The network thread connects and reads three messages, of two symbols and two windows, and the
writer flushes the first window. Then both parts are stopped. -/
def session : List (Act Pipeline.twoShards) :=
  ([.testStop, .lockCreate, .create, .clientStart, .succeed, .clientTest, .lockStream, .emplace,
    .succeed, .succeed, .succeed, .succeed] : List Network.Act).map .network
    ++ (Pipeline.twoSymbols _ fun i => if i.val = 0 then [Pipeline.sampleWindow "BNBUSDT" 0]
      else [Pipeline.sampleWindow "BTCUSDT" 0]).map asNetwork
    ++ ([.stopCall, .storeStop, .policyLock, .policySet, .policyNotify, .clientLock, .clientLook,
      .streamLock, .close, .unlockClient, .fail .read, .lockReset, .lockDestroy, .destroy,
      .checkStop, .join] : List Network.Act).map .network
    ++ (Pipeline.shutDown _
      (fun i => if i.val = 0 then [] else [Pipeline.sampleWindow "BTCUSDT" 500])
      [⟨500, [Pipeline.sampleWindow "BTCUSDT" 500]⟩]).map .pipeline

theorem end_to_end_session :
    received session = [Pipeline.sampleMessage "BTCUSDT" "0", Pipeline.sampleMessage "BNBUSDT" "0",
      Pipeline.sampleMessage "BTCUSDT" "500"] ∧
    Pipeline.writtenWindows (pipelineTrace session) = [Pipeline.sampleWindow "BNBUSDT" 0,
      Pipeline.sampleWindow "BTCUSDT" 0, Pipeline.sampleWindow "BTCUSDT" 500] ∧
    ∀ b : Bucket, mergeAll ((Pipeline.writtenWindows (pipelineTrace session)).filter
        (·.bucket = b)) =
      statsOf b.1 b.2 (((received session).filterMap
        (Pipeline.tradeOf Pipeline.sampleEnv)).filter (·.bucket 500 = b)) := by
  have hany : (run (step Pipeline.sampleEnv .default) (start _) session).any
      (fun s => s.pipeline.stopper.isReturned) = true := by decide +kernel
  obtain ⟨s, hs, hret⟩ := (Option.any_eq_true _ _).mp hany
  have honly : OnlyNetwork session := onlyNetwork_of_check (by decide +kernel)
  exact ⟨by decide +kernel, by decide +kernel,
    ((end_to_end hs honly).2 (Pipeline.isReturned_iff.mp hret)).2⟩

end BinanceAggregator.Service
