import BinanceAggregator.Pacing
import BinanceAggregator.Service
import BinanceAggregator.Shutdown

/-!
A service that has been built and not started.

Messages may be submitted before `start`, and `stop` may be called without it. A thread that was
never started is not joined: it is not joinable, or not in the list of the threads. Here it is one
that has exited, whose join is passed over. Until the stages are started nothing happens but what
their callers do; a call of `stop` then goes through its steps without waiting for anybody, and
finds nothing to write.
-/

namespace BinanceAggregator

open Runs Mutex

/-! ### The pipeline -/

namespace Pipeline

variable {C : Config} {E : Env} {s s' : St C} {a : Act C} {tr : List (Act C)}

/-- A pipeline that has been constructed. -/
def constructed (C : Config) : St C :=
  { start C with
    shards := fun i => { (start C).shards i with thread := .exited }
    parser := .exited
    writer := .exited }

/-- `start`: the threads stand at their beginning. -/
def launch (s : St C) : St C :=
  { s with
    shards := fun i => { s.shards i with thread := .popping }
    parser := .popping
    writer := .acquiring false }

/-- There is no thread but the one that stops, which finds nothing anywhere. -/
structure Dormant (s : St C) : Prop where
  parser : s.parser = .exited
  writer : s.writer = .exited
  threads : ∀ i, (s.shards i).thread = .exited
  tables : ∀ i, (s.shards i).aggregator.table = 0
  bare : ∀ f, s.stopper = .flushing f → f.pc.Bare
  shards : ∀ i, Held (s.shards i).mutex (HoldsShard s i)
  stop : Held s.stopMutex (HoldsStop s)

/-- What the callers have done, and nobody else. -/
structure Resting (tr : List (Act C)) (s : St C) : Prop where
  dormant : Dormant s
  written : written tr = []
  raw : s.raw.items = accepted tr
  steps : tr.countP Act.isOwn + s.stopper.work = (4 * C.shardCount + 10) * stopCalls tr

lemma dormant_constructed : Dormant (constructed C) where
  parser := rfl
  writer := rfl
  threads _ := rfl
  tables _ := Windows.table_empty
  bare := by simp [constructed, start]
  shards i p := by
    cases p with
    | aggregation => simp [constructed, start, HoldsShard]
    | flusher who => cases who <;> simp [constructed, start, HoldsShard, St.flushAt, St.flushOf]
  stop p := by cases p <;> simp [constructed, start, HoldsStop]

/-- What a step adds to this. -/
structure Idles (a : Act C) (s s' : St C) : Prop where
  written : Pipeline.written [a] = []
  raw : s'.raw.items = s.raw.items ++ accepted [a]
  steps : (if a.isOwn then 1 else 0) + s'.stopper.work =
    s.stopper.work + (4 * C.shardCount + 10) * stopCalls [a]

/-- A step of the stopping thread. -/
lemma idles_of (hw : Pipeline.written [a] = []) (hown : a.isOwn = true)
    (hraw : s'.raw.items = s.raw.items) (hsteps : 1 + s'.stopper.work = s.stopper.work) :
    Idles a s s' := by
  have haccepted : accepted [a] = [] := by
    cases a <;> first | rfl | cases hown
  have hcalls : stopCalls [a] = 0 := by
    cases a <;> first | rfl | cases hown
  exact ⟨hw, by rw [haccepted, List.append_nil, hraw], by rw [if_pos hown, hcalls]; exact hsteps⟩

/-- A thread that flushes is the stopping one, with nothing in its hands. -/
lemma Dormant.flusher (hs : Dormant s) {who : Flusher} {f : Flush C} (h : s.flushOf who = some f) :
    who = .stopper ∧ s.stopper = .flushing f ∧ f.pc.Bare := by
  cases who with
  | writer => simp [flushOf_writer, hs.writer] at h
  | stopper =>
      rw [flushOf_stopper] at h
      exact ⟨rfl, h, hs.bare f h⟩

lemma step_dormant (hs : Dormant s) (h : Step E s a s') : Dormant s' ∧ Idles a s s' := by
  have hshards := step_shardHeld hs.shards h
  have hstop := step_stopHeld hs.stop h
  have hthreads := forall_setShard (s := s) (P := fun _ x => x.thread = .exited) hs.threads
  have htables := forall_setShard (s := s) (P := fun _ x => x.aggregator.table = 0) hs.tables
  cases h with
  | popRaw h _ | parserExit h _ | parseTrade h _ | parseNone h _ | pushTrade h _ _ =>
      simp [hs.parser] at h
  | @popTrade i _ _ h _ | @aggExit i _ h _ | @aggLock i _ h _ | @aggAdd i _ h =>
      simp [hs.threads i] at h
  | writerLock h _ | writerExit h _ | writerTick h _ | writerSleep h _ | writerWake h
  | readClock h =>
      simp [hs.writer] at h
  | stopWake _ hw => simp [hs.writer] at hw
  | submit _ =>
      exact ⟨⟨hs.parser, hs.writer, hs.threads, hs.tables, hs.bare, hshards, hstop⟩, rfl,
        (List.append_nil _).symm, Nat.zero_add _⟩
  | @push k m ok q _ hq =>
      refine ⟨⟨hs.parser, hs.writer, hs.threads, hs.tables, hs.bare, hshards, hstop⟩, rfl, ?_,
        Nat.zero_add _⟩
      rw [(BoundedQueue.push_eq_some hq).2.2.2]
      cases ok with
      | true => rfl
      | false => exact (List.append_nil _).symm
  | @lockShard who i cut todo ws h _ =>
      obtain ⟨rfl, hst, hws⟩ := hs.flusher h
      refine ⟨⟨hs.parser, hs.writer, hthreads i _ (hs.threads i), htables i _ (hs.tables i), ?_,
        hshards, hstop⟩, idles_of rfl rfl rfl ?_⟩
      · rintro f ⟨rfl⟩
        exact hws
      · rw [hst]
        simp only [St.setFlush, if_true, StopPc.work, FlushPc.work, List.length_cons]
        omega
  | @extract who i cut todo ws h =>
      obtain ⟨rfl, hst, hws⟩ := hs.flusher h
      obtain ⟨hnil, hzero⟩ := extract_of_table_eq_zero (hs.tables i) cut
      refine ⟨⟨hs.parser, hs.writer, hthreads i _ (hs.threads i), htables i _ hzero, ?_,
        hshards, hstop⟩, idles_of rfl rfl rfl ?_⟩
      · rintro f ⟨rfl⟩
        exact List.append_eq_nil_iff.mpr ⟨hws, hnil⟩
      · rw [hst, hnil, List.append_nil]
        simp only [St.setFlush, if_true, StopPc.work, FlushPc.work]
        omega
  | @merge who cut ws h =>
      obtain ⟨rfl, hst, hws⟩ := hs.flusher h
      obtain rfl : ws = [] := hws
      refine ⟨⟨hs.parser, hs.writer, hs.threads, hs.tables, ?_, hshards, hstop⟩,
        idles_of rfl rfl rfl ?_⟩
      · rintro f ⟨rfl⟩
        rfl
      · rw [hst]
        rfl
  | write h => exact absurd (hs.flusher h).2.2 (List.cons_ne_nil _ _)
  | @finish who cut h =>
      obtain ⟨rfl, hst, -⟩ := hs.flusher h
      exact ⟨⟨hs.parser, hs.writer, hs.threads, hs.tables, (fun _ hf => by cases hf), hshards,
        hstop⟩, idles_of rfl rfl rfl (by rw [hst]; rfl)⟩
  | stopCall h =>
      refine ⟨⟨hs.parser, hs.writer, hs.threads, hs.tables, (fun _ hf => by cases hf), hshards,
        hstop⟩, rfl, (List.append_nil _).symm, ?_⟩
      have hrest : s.stopper.work = 0 := by rcases h with h | h <;> rw [h] <;> rfl
      rw [hrest, show stopCalls [(.stopCall : Act C)] = 1 from rfl, Nat.mul_one]
      rfl
  | @closeShard i todo h =>
      refine ⟨⟨hs.parser, hs.writer, hthreads i _ (hs.threads i), htables i _ (hs.tables i),
        (fun _ hf => by cases hf), hshards, hstop⟩, idles_of rfl rfl rfl ?_⟩
      simp only [h, StopPc.work, List.length_cons]
      omega
  | aggsJoined h =>
      refine ⟨⟨hs.parser, hs.writer, hs.threads, hs.tables, ?_, hshards, hstop⟩,
        idles_of rfl rfl rfl ?_⟩
      · rintro f ⟨rfl⟩
        rfl
      · simp only [h, StopPc.work, work_beginFlush, List.length_nil]
        omega
  | stopLock h _ | stopSet h | stopNotify h _ | joinWriter h _ | closeRaw h | joinParser h _
  | shardsClosed h | joinAgg h _ =>
      refine ⟨⟨hs.parser, hs.writer, hs.threads, hs.tables, (fun _ hf => by cases hf), hshards,
        hstop⟩, idles_of rfl rfl rfl ?_⟩
      simp only [h, StopPc.work, List.length_cons, List.length_nil, List.length_finRange]
      omega

lemma Resting.step (hr : Resting tr s) (h : Step E s a s') : Resting (tr ++ [a]) s' := by
  obtain ⟨hdormant, hidles⟩ := step_dormant hr.dormant h
  refine ⟨hdormant, ?_, ?_, ?_⟩
  · rw [written_append, hr.written, hidles.written, List.append_nil]
  · rw [hidles.raw, hr.raw, accepted, accepted, accepted, List.filterMap_append]
  · have hsteps := hr.steps
    have hidles := hidles.steps
    have hcalls : stopCalls (tr ++ [a]) = stopCalls tr + stopCalls [a] := List.countP_append ..
    rw [List.countP_append, List.countP_singleton, hcalls, Nat.mul_add]
    omega

/-- Nobody keeps the stopping thread from its next step. -/
lemma Dormant.moves (hs : Dormant s) (h : InStop s) : ∃ a s', a.isOwn = true ∧ Step E s a s' := by
  cases hst : s.stopper with
  | idle => exact absurd hst h.1
  | returned => exact absurd hst h.2
  | locking =>
      have hfree : s.stopMutex = none := hs.stop.eq_none fun p hp => by
        cases p <;> simp [HoldsStop, hs.writer, hst] at hp
      exact ⟨_, _, rfl, .stopLock hst hfree⟩
  | setting => exact ⟨_, _, rfl, .stopSet hst⟩
  | notifying => exact ⟨_, _, rfl, .stopNotify hst (by simp [hs.writer])⟩
  | joiningWriter => exact ⟨_, _, rfl, .joinWriter hst hs.writer⟩
  | closingRaw => exact ⟨_, _, rfl, .closeRaw hst⟩
  | joiningParser => exact ⟨_, _, rfl, .joinParser hst hs.parser⟩
  | closingShards todo =>
      cases todo with
      | nil => exact ⟨_, _, rfl, .shardsClosed hst⟩
      | cons i todo => exact ⟨_, _, rfl, .closeShard hst⟩
  | joiningAggs todo =>
      cases todo with
      | nil => exact ⟨_, _, rfl, .aggsJoined hst⟩
      | cons i todo => exact ⟨_, _, rfl, .joinAgg hst (hs.threads i)⟩
  | flushing f =>
      obtain ⟨cut, pc⟩ := f
      have hf := flushOf_stopper.mpr hst
      cases pc with
      | extracting i todo ws => exact ⟨_, _, rfl, .extract hf⟩
      | writing todo =>
          cases todo with
          | nil => exact ⟨_, _, rfl, .finish hf⟩
          | cons y todo => exact ⟨_, _, rfl, .write hf⟩
      | collecting todo ws =>
          cases todo with
          | nil => exact ⟨_, _, rfl, .merge hf⟩
          | cons i todo =>
              have hfree : (s.shards i).mutex = none := (hs.shards i).eq_none fun p hp => by
                cases p with
                | aggregation => simp [HoldsShard, hs.threads i] at hp
                | flusher who =>
                    cases who <;> simp [HoldsShard, St.flushAt, St.flushOf, hs.writer, hst,
                      FlushPc.at?] at hp
              exact ⟨_, _, rfl, .lockShard hf hfree⟩

/-- Before `stop` is called, what the callers do can as well be done after `start`. -/
lemma step_launch (hs : Dormant s) (hidle : s.stopper = .idle) (hcall : a ≠ .stopCall)
    (h : Step E s a s') : Step E (launch s) a (launch s') ∧ s'.stopper = .idle := by
  cases h with
  | submit h => exact ⟨.submit h, hidle⟩
  | push h hq => exact ⟨.push h hq, hidle⟩
  | popRaw h _ | parserExit h _ | parseTrade h _ | parseNone h _ | pushTrade h _ _ =>
      simp [hs.parser] at h
  | @popTrade i _ _ h _ | @aggExit i _ h _ | @aggLock i _ h _ | @aggAdd i _ h =>
      simp [hs.threads i] at h
  | writerLock h _ | writerExit h _ | writerTick h _ | writerSleep h _ | writerWake h
  | readClock h =>
      simp [hs.writer] at h
  | lockShard h _ | extract h | merge h | write h | finish h =>
      have hst := (hs.flusher h).2.1
      simp [hidle] at hst
  | stopCall _ => exact absurd rfl hcall
  | stopLock h _ | stopSet h | stopWake h _ | stopNotify h _ | joinWriter h _ | closeRaw h
  | joinParser h _ | closeShard h | shardsClosed h | joinAgg h _ | aggsJoined h =>
      simp [hidle] at h

end Pipeline

/-! ### The network stage -/

namespace Network

variable {R : ReconnectConfig} {s s' : St} {a : Act} {tr : List Act}

/-- A network stage that has been constructed. -/
def constructed : St := { start with pc := .exited }

/-- `start`: the thread stands at its beginning. -/
def launch (s : St) : St := { s with pc := .testing }

/-- The steps that are left to a call of `stop` that finds no client. -/
def StopPc.left : StopPc → ℕ
  | .idle | .returned => 0
  | .joining => 1
  | .unlocking => 2
  | .looking | .closing => 3
  | .lockingClient | .lockingStream => 4
  | .notifying => 5
  | .settingPolicy => 6
  | .lockingPolicy => 7
  | .storing => 8

/-- There is neither a thread nor a client, and the mutexes are held by the stopping thread only. -/
structure Dormant (s : St) : Prop where
  pc : s.pc = .exited
  client : s.client = none
  clientMutex : s.stopper ≠ .looking → s.stopper ≠ .unlocking → s.clientMutex = none
  policyMutex : s.stopper ≠ .settingPolicy → s.policy.mutex = none
  stopper : s.stopper ≠ .lockingStream ∧ s.stopper ≠ .closing

/-- What the stopping thread has done, and nobody else. -/
structure Resting (tr : List Act) (s : St) : Prop where
  dormant : Dormant s
  connections : connections tr = 0
  steps : tr.length + s.stopper.left = 9 * tr.count .stopCall

lemma dormant_constructed : Dormant constructed := by
  refine ⟨rfl, rfl, fun _ _ => rfl, fun _ => rfl, ?_⟩
  simp [constructed, start]

lemma step_dormant (hs : Dormant s) (h : Step R s a s') :
    Dormant s' ∧ a ≠ .create ∧ 1 + s'.stopper.left = s.stopper.left + 9 * [a].count .stopCall := by
  obtain ⟨hpc, hclient, hmutex, hpolicy, hstopper⟩ := hs
  cases h with
  | stopCall h =>
      refine ⟨⟨hpc, hclient, ?_, ?_, ?_⟩, ?_, ?_⟩ <;> rcases h with h | h <;>
        simp_all [StopPc.left]
  | storeStop h | policyLock h _ | policySet h | policyNotify h _ | clientLock h _
  | clientAbsent h _ | unlockClient h | join h _ =>
      -- a mutex is taken right before the point at which it may be held
      refine ⟨⟨hpc, hclient, ?_, ?_, ?_⟩, ?_, ?_⟩ <;> simp_all [StopPc.left]
  | policyWake _ hp => simp [hpc] at hp
  | clientStop _ hc | streamLock _ hc _ | close _ hc => simp [hclient] at hc
  | _ => simp_all

lemma Resting.step (hr : Resting tr s) (h : Step R s a s') : Resting (tr ++ [a]) s' := by
  obtain ⟨hdormant, hcreate, hpays⟩ := step_dormant hr.dormant h
  refine ⟨hdormant, ?_, ?_⟩
  · rw [Network.connections, List.count_append, List.count_singleton,
      if_neg (by simpa using hcreate)]
    exact hr.connections
  · have hsteps := hr.steps
    rw [List.length_append, List.length_singleton, List.count_append]
    omega

/-- Nobody keeps the stopping thread from its next step. -/
lemma Dormant.moves (hs : Dormant s) (hidle : s.stopper ≠ .idle) (hret : s.stopper ≠ .returned) :
    ∃ a s', a ≠ .stopCall ∧ Step R s a s' := by
  cases hst : s.stopper with
  | idle => exact absurd hst hidle
  | returned => exact absurd hst hret
  | storing => exact ⟨_, _, by simp, .storeStop hst⟩
  | lockingPolicy => exact ⟨_, _, by simp, .policyLock hst (hs.policyMutex (by simp [hst]))⟩
  | settingPolicy => exact ⟨_, _, by simp, .policySet hst⟩
  | notifying => exact ⟨_, _, by simp, .policyNotify hst (by simp [hs.pc])⟩
  | lockingClient =>
      exact ⟨_, _, by simp, .clientLock hst (hs.clientMutex (by simp [hst]) (by simp [hst]))⟩
  | looking => exact ⟨_, _, by simp, .clientAbsent hst hs.client⟩
  | lockingStream => exact absurd hst hs.stopper.1
  | closing => exact absurd hst hs.stopper.2
  | unlocking => exact ⟨_, _, by simp, .unlockClient hst⟩
  | joining => exact ⟨_, _, by simp, .join hst hs.pc⟩

/-- The stage does nothing before it is started or stopped. -/
lemma eq_stopCall (hs : Dormant s) (hidle : s.stopper = .idle) (h : Step R s a s') :
    a = .stopCall := by
  have hpc := hs.pc
  cases h with
  | stopCall _ => rfl
  | _ => simp_all

end Network

/-! ### The service -/

namespace Service

variable {C : Config} {E : Env} {R : ReconnectConfig} {s s' : St C} {a : Act C} {tr : List (Act C)}

/-- The two stages when they have been constructed. -/
def constructed (C : Config) : St C := ⟨Network.constructed, Pipeline.constructed C⟩

/-- `main` starts the two stages. -/
def launch (s : St C) : St C := ⟨Network.launch s.network, Pipeline.launch s.pipeline⟩

lemma launch_constructed : launch (constructed C) = start C := rfl

/-- What the callers have done is what has happened, and it can be done after the start. -/
structure Resting (E : Env) (R : ReconnectConfig) (tr : List (Act C)) (s : St C) : Prop where
  network : Network.Resting (tr.flatMap Act.forNetwork) s.network
  pipeline : Pipeline.Resting (tr.flatMap Act.forPipeline) s.pipeline
  launch : .network .stopCall ∉ tr → s.network.stopper = .idle ∧ s.pipeline.stopper = .idle ∧
    run (step E R) (start C) tr = some (launch s)

lemma resting_constructed : Resting E R [] (constructed C) where
  network := ⟨Network.dormant_constructed, rfl, rfl⟩
  pipeline := ⟨Pipeline.dormant_constructed, rfl, rfl, rfl⟩
  launch _ := ⟨rfl, rfl, congrArg some launch_constructed.symm⟩

/-- The network thread is not there to read a message. -/
lemma asSubmitter_of_dormant {n n' : Network.St} {a : Network.Act} (hn : Network.Dormant n)
    (h : Network.Step R n a n') : asSubmitter (C := C) a = none := by
  cases h with
  | read h _ _ | push h => simp [hn.pc] at h
  | _ => rfl

lemma Resting.step (hr : Resting E R tr s) (h : Step E R s a s') : Resting E R (tr ++ [a]) s' := by
  cases h with
  | @network a n hm hb hn =>
      refine ⟨?_, ?_, fun hcall => ?_⟩
      · rw [List.flatMap_append]
        exact hr.network.step hn
      · simpa [Act.forPipeline, hb] using hr.pipeline
      · -- before it is stopped the stage has no step
        obtain ⟨hidle, -, -⟩ := hr.launch fun hmem => hcall (List.mem_append_left _ hmem)
        obtain rfl := Network.eq_stopCall hr.network.dormant hidle hn
        simp at hcall
  | together hb hn _ => simp [asSubmitter_of_dormant hr.network.dormant hn] at hb
  | @pipeline a p hm hp =>
      refine ⟨?_, ?_, fun hcall => ?_⟩
      · simpa [Act.forNetwork] using hr.network
      · rw [List.flatMap_append]
        exact hr.pipeline.step hp
      · obtain ⟨hidle, hidle', hrun⟩ := hr.launch fun hmem => hcall (List.mem_append_left _ hmem)
        have hne : a ≠ .stopCall := by
          rintro rfl
          simp [permits, hidle] at hm
        obtain ⟨hlaunch, hp'⟩ := Pipeline.step_launch hr.pipeline.dormant hidle' hne hp
        exact ⟨hidle, hp', (run_snoc _).mpr ⟨_, hrun, step_of (.pipeline hm hlaunch)⟩⟩

/-- **Before the start.** However a service that was never started is used, it makes no connection
and writes nothing; the raw queue holds what it has accepted. A call of `stop` of the network stage
takes at most nine steps, the call itself among them, and a call of `stop` of the pipeline at most
four for each shard and ten, and nobody keeps it from the next one. As long as `stop` has not been
called, starting the service leads where the same calls lead after the start. -/
theorem unstarted (h : run (step E R) (constructed C) tr = some s) :
    (Network.connections (tr.flatMap Act.forNetwork) = 0 ∧
      Pipeline.output E (tr.flatMap Act.forPipeline) = [] ∧
      s.pipeline.raw.items = Pipeline.accepted (tr.flatMap Act.forPipeline)) ∧
    ((tr.flatMap Act.forNetwork).length + s.network.stopper.left ≤
        9 * (tr.flatMap Act.forNetwork).count .stopCall ∧
      (tr.flatMap Act.forPipeline).countP Pipeline.Act.isOwn + s.pipeline.stopper.work ≤
        (4 * C.shardCount + 10) * Pipeline.stopCalls (tr.flatMap Act.forPipeline)) ∧
    (s.network.stopper ≠ .idle → s.network.stopper ≠ .returned →
      ∃ a s', a ≠ .stopCall ∧ step E R s (.network a) = some s') ∧
    (Pipeline.InStop s.pipeline → ∃ a s', a.isOwn = true ∧ step E R s (.pipeline a) = some s') ∧
    (.network .stopCall ∉ tr → run (step E R) (start C) tr = some (launch s)) := by
  have hr : Resting E R tr s := run_inv (P := Resting E R) resting_constructed
    (fun _ hr ha => hr.step (step_cases ha)) h
  refine ⟨⟨hr.network.connections, ?_, hr.pipeline.raw⟩,
    ⟨hr.network.steps.le, hr.pipeline.steps.le⟩, fun hidle hret => ?_, fun hin => ?_,
    fun hcall => (hr.launch hcall).2.2⟩
  · rw [Pipeline.output, hr.pipeline.written, List.map_nil]
  · obtain ⟨a, n, hne, hn⟩ := hr.network.dormant.moves (R := R) hidle hret
    refine ⟨a, _, hne, step_of (.network ?_ (asSubmitter_of_dormant hr.network.dormant hn) hn)⟩
    cases a <;> first | rfl | exact absurd rfl hne
  · obtain ⟨a, p, hown, hp⟩ := hr.pipeline.dormant.moves (E := E) hin
    refine ⟨a, _, hown, step_of (.pipeline ?_ hp)⟩
    cases a <;> first | rfl | cases hown

/-- A message is submitted, and then both stages are stopped. -/
def neverStarted : List (Act (Pipeline.sampleConfig 1000)) :=
  let m := Pipeline.sampleMessage "BTCUSDT" "500"
  let shards := List.finRange (Pipeline.sampleConfig 1000).shardCount
  [.pipeline (.submit 1 m), .pipeline (.push 1 m true)]
    ++ ([.stopCall, .storeStop, .policyLock, .policySet, .policyNotify, .clientLock, .clientLook,
      .unlockClient, .join] : List Network.Act).map .network
    ++ ([.stopCall, .stopLock, .stopSet, .stopNotify, .joinWriter, .closeRaw,
      .joinParser] : List (Pipeline.Act _)).map .pipeline
    ++ shards.map (fun i => .pipeline (.closeShard i)) ++ [.pipeline .shardsClosed]
    ++ shards.map (fun i => .pipeline (.joinAgg i)) ++ [.pipeline .aggsJoined]
    ++ (Pipeline.flush _ .stopper .all (fun _ => []) []).map .pipeline

theorem unstarted_neverStarted : ∃ s,
    run (step Pipeline.sampleEnv .default) (constructed _) neverStarted = some s ∧
    s.pipeline.stopper = .returned ∧
    Pipeline.output Pipeline.sampleEnv (neverStarted.flatMap Act.forPipeline) = [] ∧
    s.pipeline.raw.items = [Pipeline.sampleMessage "BTCUSDT" "500"] := by
  have hany : (run (step Pipeline.sampleEnv .default) (constructed _) neverStarted).any
      (fun s => s.pipeline.stopper.isReturned) = true := by decide +kernel
  obtain ⟨s, hs, hret⟩ := (Option.any_eq_true _ _).mp hany
  obtain ⟨⟨-, houtput, hraw⟩, -⟩ := unstarted hs
  exact ⟨s, hs, Pipeline.isReturned_iff.mp hret, houtput, hraw.trans (by decide +kernel)⟩

end Service

end BinanceAggregator
