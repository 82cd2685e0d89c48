import BinanceAggregator.Iso8601
import BinanceAggregator.PipelineFlow

/-!
The pipeline loses nothing.

When `stop` returns every place in the pipeline is empty: the stages have drained their queues,
and the last flush has swept every shard. What was written is then all that was accepted, and
as nothing is left, whatever is called afterwards writes nothing.
-/

namespace BinanceAggregator.Pipeline

open Runs BoundedQueue MarketDataAggregator

variable {C : Config} {E : Env} {s s' : St C} {a : Act C} {tr : List (Act C)}

/-! ### The last flush sweeps every shard -/

/-- The shards a flush has still to extract from. -/
def FlushPc.remaining : FlushPc C → List (Index C)
  | .collecting todo _ => todo
  | .extracting i todo _ => i :: todo
  | .writing _ => []

/-- The last flush takes everything, so that the shards it has been to are empty. -/
def SweptAt (s : St C) : StopPc C → Prop
  | .flushing f => f.cut = .all ∧ ∀ i, i ∉ f.pc.remaining → (s.shards i).aggregator.table = 0
  | .returned => ∀ i, (s.shards i).aggregator.table = 0
  | _ => True

lemma sweptAt_congr (h : ∀ i, (s'.shards i).aggregator = (s.shards i).aggregator)
    {pc : StopPc C} (hs : SweptAt s pc) : SweptAt s' pc := by
  cases pc with
  | flushing f => exact ⟨hs.1, fun i hi => by rw [h i, hs.2 i hi]⟩
  | returned => exact fun i => by rw [h i, hs i]
  | _ => trivial

/-- There is nothing to say before the aggregation threads have exited. -/
lemma sweptAt_of_running (ho : Ordered s) (h : ¬ Quiet s) : SweptAt s' s.stopper := by
  have hstops := ho.stops
  cases hpc : s.stopper with
  | flushing f =>
      rw [hpc] at hstops
      exact absurd (ho.quiet hstops) h
  | returned =>
      rw [hpc] at hstops
      exact absurd (ho.quiet hstops) h
  | _ => trivial

lemma table_extract_all (x : MarketDataAggregator) : (x.extract .all).2.table = 0 :=
  Windows.table_empty

lemma step_sweptAt (ho : Ordered s) (hs : SweptAt s s.stopper) (h : Step E s a s') :
    SweptAt s' s'.stopper := by
  have hset := forall_setShard (s := s)
    (P := fun j x => x.aggregator = (s.shards j).aggregator) fun _ => rfl
  cases h with
  | @pushTrade _ _ i _ _ _ _ | @popTrade i _ _ _ _ | @aggExit i _ _ _ | @aggLock i _ _ _ =>
      refine sweptAt_congr (s := s) ?_ hs
      exact hset i _ rfl
  | @aggAdd i t h => exact sweptAt_of_running (s := s) ho fun hq => by simp [hq.threads i] at h
  | @lockShard who i cut todo ws h _ =>
      cases who with
      | writer =>
          refine sweptAt_congr (s := s) ?_ hs
          exact hset i _ rfl
      | stopper =>
          rw [flushOf_stopper.mp h] at hs
          refine sweptAt_congr (s := s) ?_ (show SweptAt s (.flushing ⟨cut, .extracting i todo ws⟩) from hs)
          exact hset i _ rfl
  | @extract who i cut todo ws h =>
      cases who with
      | writer =>
          rw [flushOf_writer] at h
          exact sweptAt_of_running (s := s) ho fun hq => by simp [hq.writer] at h
      | stopper =>
          rw [flushOf_stopper.mp h] at hs
          obtain ⟨hcut, htables⟩ := hs
          simp only at hcut
          subst hcut
          refine ⟨rfl, fun j hj => ?_⟩
          by_cases hji : j = i
          · subst hji
            change ((s.setShard j _).shards j).aggregator.table = 0
            rw [setShard_self]
            exact table_extract_all _
          · change ((s.setShard i _).shards j).aggregator.table = 0
            rw [setShard_of_ne hji]
            exact htables j (by simpa [FlushPc.remaining, hji] using hj)
  | @merge who _ _ h | @write who _ _ _ h =>
      cases who with
      | writer => exact hs
      | stopper =>
          rw [flushOf_stopper.mp h] at hs
          exact hs
  | @finish who cut h =>
      cases who with
      | writer => exact hs
      | stopper =>
          rw [flushOf_stopper.mp h] at hs
          exact fun i => hs.2 i (by simp [FlushPc.remaining])
  | aggsJoined _ => exact ⟨rfl, fun i hi => absurd (List.mem_finRange i) hi⟩
  | stopCall _ | stopLock _ _ | stopSet _ | stopWake _ _ | stopNotify _ _ | joinWriter _ _
  | closeRaw _ | joinParser _ _ | closeShard _ | shardsClosed _ | joinAgg _ _ => trivial
  | _ => exact hs

lemma run_sweptAt (h : run (step E) (start C) tr = some s) :
    SweptAt s s.stopper :=
  run_inv (P := fun _ s => SweptAt s s.stopper) (show SweptAt (start C) .idle from trivial)
    (fun hr hs ha => step_sweptAt (run_ordered hr) hs (step_cases ha)) h

/-! ### After the return -/

/-- A flush that has collected nothing. -/
def FlushPc.Bare : FlushPc C → Prop
  | .collecting _ windows => windows = []
  | .extracting _ _ windows => windows = []
  | .writing todo => todo = []

/-- Nothing is left anywhere, and the stopping thread has nothing in its hands. -/
structure Spent (s : St C) : Prop where
  quiet : Quiet s
  tables : ∀ i, (s.shards i).aggregator.table = 0
  bare : ∀ f, s.stopper = .flushing f → f.pc.Bare

lemma extract_of_table_eq_zero {x : MarketDataAggregator} (h : x.table = 0) (c : Cut) :
    (x.extract c).1 = [] ∧ (x.extract c).2.table = 0 := by
  have hsplit (b : Bucket) : windowTally (x.extract c).1 b = 0 ∧ (x.extract c).2.table b = 0 := by
    have hb := congrFun (x.extract_split c) b
    rw [h] at hb
    exact Tally.add_eq_zero_iff.mp hb
  refine ⟨List.eq_nil_iff_forall_not_mem.mpr fun y hy => ?_, funext fun b => (hsplit b).2⟩
  exact (Tally.tally_eq_zero_iff _ _).mp (hsplit y.bucket).1 y hy rfl

lemma spent_of_sweptAt (ho : Ordered s) (hs : SweptAt s s.stopper) (hret : s.stopper = .returned) :
    Spent s := by
  have hstops := ho.stops
  rw [hret] at hstops hs
  exact ⟨ho.quiet hstops, hs, fun f hf => by simp [hret] at hf⟩

lemma spent_of_returned (h : run (step E) (start C) tr = some s)
    (hret : s.stopper = .returned) : Spent s :=
  spent_of_sweptAt (run_ordered h) (run_sweptAt h) hret

/-- Once nothing is left, no step adds anything and none writes. -/
lemma step_spent (ho : Ordered s) (hs : Spent s) (h : Step E s a s') :
    Spent s' ∧ written [a] = [] := by
  obtain ⟨hquiet, htables, hbare⟩ := hs
  have hquiet' : Quiet s' :=
    (step_ordered ho h).quiet fun i => (step_later h).threads i (hquiet.threads i)
  have hset := forall_setShard (s := s)
    (P := fun _ x => x.aggregator.table = 0) htables
  -- the writer has exited, so a flush is one of the stopping thread
  have hflusher {who : Flusher} {f : Flush C} (hf : s.flushOf who = some f) :
      who = .stopper ∧ f.pc.Bare := by
    cases who with
    | writer => simp [flushOf_writer, hquiet.writer] at hf
    | stopper => exact ⟨rfl, hbare f (flushOf_stopper.mp hf)⟩
  cases h with
  | popRaw h _ | parserExit h _ | parseTrade h _ | parseNone h _ | pushTrade h _ _ =>
      simp [hquiet.parser] at h
  | @popTrade i _ _ h _ | @aggExit i _ h _ | @aggLock i _ h _ | @aggAdd i _ h =>
      simp [hquiet.threads i] at h
  | writerLock h _ | writerExit h _ | writerTick h _ | writerSleep h _ | writerWake h
  | readClock h =>
      simp [hquiet.writer] at h
  | stopWake _ hw => simp [hquiet.writer] at hw
  | @lockShard who i cut todo ws h _ =>
      obtain ⟨rfl, hws⟩ := hflusher h
      refine ⟨⟨hquiet', hset i _ (htables i), ?_⟩, rfl⟩
      rintro f ⟨rfl⟩
      exact hws
  | @extract who i cut todo ws h =>
      obtain ⟨rfl, hws⟩ := hflusher h
      obtain ⟨hnil, hzero⟩ := extract_of_table_eq_zero (htables i) cut
      refine ⟨⟨hquiet', hset i _ hzero, ?_⟩, rfl⟩
      rintro f ⟨rfl⟩
      exact List.append_eq_nil_iff.mpr ⟨hws, hnil⟩
  | @merge who cut ws h =>
      obtain ⟨rfl, hws⟩ := hflusher h
      refine ⟨⟨hquiet', htables, ?_⟩, rfl⟩
      rintro f ⟨rfl⟩
      change writeWindows E ws = []
      rw [show ws = [] from hws]
      rfl
  | write h => exact absurd (hflusher h).2 (List.cons_ne_nil _ _)
  | @finish who cut h =>
      obtain ⟨rfl, -⟩ := hflusher h
      exact ⟨⟨hquiet', htables, nofun⟩, rfl⟩
  | @closeShard i todo h => exact ⟨⟨hquiet', hset i _ (htables i), nofun⟩, rfl⟩
  | aggsJoined _ =>
      refine ⟨⟨hquiet', htables, ?_⟩, rfl⟩
      rintro f ⟨rfl⟩
      rfl
  | submit _ => exact ⟨⟨hquiet', htables, hbare⟩, rfl⟩
  | @push k m ok q _ _ => exact ⟨⟨hquiet', htables, hbare⟩, by cases ok <;> rfl⟩
  | _ => exact ⟨⟨hquiet', htables, nofun⟩, rfl⟩

lemma run_spent {v : List (Act C)} {s₀ : St C} (ho : Ordered s₀) (hs : Spent s₀)
    (h : run (step E) s₀ v = some s) : written v = [] := by
  refine (run_inv (P := fun v s => Ordered s ∧ Spent s ∧ written v = []) ⟨ho, hs, rfl⟩ ?_ h).2.2
  rintro v s a s' - ⟨ho, hs, hv⟩ ha
  obtain ⟨hs', ha'⟩ := step_spent ho hs (step_cases ha)
  exact ⟨step_ordered ho (step_cases ha), hs', by rw [written_append, hv, ha', List.append_nil]⟩

/-- Everything accepted has been added, and everything extracted has been written. -/
lemma flows_of_returned (h : run (step E) (start C) tr = some s) (hret : s.stopper = .returned) :
    (added tr).Perm (trades E tr) ∧ windowTally (extracted tr) = tradeTally C.windowMs (added tr) ∧
      (writtenWindows tr).Perm (extracted tr) := by
  obtain ⟨hquiet, htables, -⟩ := spent_of_returned h hret
  have htrades := run_trades h
  have hsum := run_tables h
  have hwindows := run_windows h
  rw [hquiet.inFlight_eq_zero, zero_add] at htrades
  rw [Finset.sum_eq_zero fun i _ => htables i, add_zero] at hsum
  have hhands : hands s.writer s.stopper = 0 := by
    rw [hquiet.writer, hret]
    rfl
  rw [hhands, add_zero] at hwindows
  exact ⟨Multiset.coe_eq_coe.mp htrades, hsum, Multiset.coe_eq_coe.mp hwindows⟩

/-- **Nothing is lost.** When `stop` has returned, the windows written for a bucket merge to the
statistics of the trades of the bucket among the accepted messages, no window is written for a
bucket without such a trade, and whatever happens afterwards writes nothing more. -/
theorem lossless (h : run (step E) (start C) tr = some s)
    (hret : s.stopper = .returned) :
    (∀ b : Bucket, mergeAll ((writtenWindows tr).filter fun x => x.bucket = b) =
      statsOf b.1 b.2 ((trades E tr).filter fun t => t.bucket C.windowMs = b)) ∧
    (∀ x ∈ writtenWindows tr, ∃ t ∈ trades E tr, t.bucket C.windowMs = x.bucket) ∧
    (∀ v s', run (step E) s v = some s' → output E (tr ++ v) = output E tr) := by
  have hspent := spent_of_returned h hret
  obtain ⟨hadded, hsum, hwritten⟩ := flows_of_returned h hret
  have htally : windowTally (writtenWindows tr) = tradeTally C.windowMs (trades E tr) := by
    rw [windowTally, Tally.tally_perm _ _ hwritten, ← windowTally, hsum, tradeTally,
      Tally.tally_perm _ _ hadded, ← tradeTally]
  refine ⟨fun b => ?_, fun x hx => ?_, fun v s' hv => ?_⟩
  · rw [mergeAll_filter, statsOf_filter, htally]
  · have hne : tradeTally C.windowMs (trades E tr) x.bucket ≠ 0 := by
      rw [← htally]
      exact fun hzero => (Tally.tally_eq_zero_iff _ _).mp hzero x hx rfl
    exact Tally.exists_mem_of_tally_ne _ _ hne
  · rw [output, written_append, run_spent (run_ordered h) hspent hv, List.append_nil, output]

/-! ### A run -/

/-- The text of a trade message. -/
def sampleMessage (symbol tradeTimeMs : String) : Str :=
  ascii "\x7b\"e\":\"trade\",\"s\":\"" ++ ascii symbol
    ++ ascii "\",\"t\":7,\"p\":\"2.5\",\"q\":\"4\",\"T\":"
    ++ ascii tradeTimeMs ++ ascii ",\"m\":false\x7d"

def sampleJson (symbol : String) (tradeTimeMs : UInt64) : Json :=
  .object [(ascii "e", .string (ascii "trade")), (ascii "s", .string (ascii symbol)),
    (ascii "t", .numberUnsigned 7), (ascii "p", .string (ascii "2.5")),
    (ascii "q", .string (ascii "4")), (ascii "T", .numberUnsigned tradeTimeMs),
    (ascii "m", .boolean false)]

def sampleTrade (symbol : String) (tradeTimeMs : UInt64) : TradeEvent :=
  ⟨ascii symbol, 7, ⟨250000000⟩, ⟨400000000⟩, tradeTimeMs, false⟩

/-- The window of one such trade. -/
def sampleWindow (symbol : String) (windowStartMs : UInt64) : WindowStats :=
  ⟨ascii symbol, windowStartMs, 1, ⟨1000000000⟩, ⟨250000000⟩, ⟨250000000⟩, 1, 0⟩

/-- The JSON library on the messages of the samples, `std::hash` as a sum of bytes, and the
timestamps of the program. -/
def sampleEnv : Env where
  jsonParse raw :=
    if raw = sampleMessage "BTCUSDT" "0" then some (sampleJson "BTCUSDT" 0)
    else if raw = sampleMessage "BTCUSDT" "500" then some (sampleJson "BTCUSDT" 500)
    else if raw = sampleMessage "BTCUSDT" "1000" then some (sampleJson "BTCUSDT" 1000)
    else if raw = sampleMessage "BNBUSDT" "0" then some (sampleJson "BNBUSDT" 0)
    else none
  hash symbol := symbol.foldl (fun h b => h + b.toUInt64) 0
  formatSeconds := StatsSerializer.isoText
  symbolSort := .insertion

def sampleConfig (windowMs : UInt64) : Config := ⟨windowMs, 1, 1⟩

section Scenario

variable (C : Config)

/-- A message goes all the way into its shard. -/
def feed (m : Str) (t : TradeEvent) : List (Act C) :=
  let i := shardIndexForSymbol sampleEnv C t.symbol
  [.submit 0 m, .push 0 m true, .parserPop (some m), .parserParse m, .parserPush t true,
    .aggPop i (some t), .aggLock i, .aggAdd i t]

/-- A flush that finds the windows `ws` and writes `blocks`. -/
def flush (who : Flusher) (cut : Cut) (ws : Index C → List WindowStats)
    (blocks : List StatsSnapshot) : List (Act C) :=
  (List.finRange C.shardCount).flatMap (fun i => [.lockShard who i, .extract who i cut (ws i)])
    ++ [.merge who] ++ blocks.map (.write who) ++ [.finish who]

/-- The writer wakes up at `nowMs` and flushes. -/
def tick (nowMs : UInt64) (ws : Index C → List WindowStats) (blocks : List StatsSnapshot) :
    List (Act C) :=
  [.writerLock, .writerTest, .writerWake true, .writerLock, .writerTest, .readClock nowMs]
    ++ flush C .writer (.completed (currentWindowStartMs C.windowMs nowMs)) ws blocks

/-- The stages are stopped one after the other, and what is left is flushed. -/
def shutDown (ws : Index C → List WindowStats) (blocks : List StatsSnapshot) : List (Act C) :=
  [.stopCall, .stopLock, .stopSet, .stopNotify, .writerLock, .writerTest, .joinWriter, .closeRaw,
    .parserPop none, .joinParser]
    ++ (List.finRange C.shardCount).map .closeShard ++ [.shardsClosed]
    ++ (List.finRange C.shardCount).map (.aggPop · none)
    ++ (List.finRange C.shardCount).map .joinAgg ++ [.aggsJoined]
    ++ flush C .stopper .all ws blocks

end Scenario

/-- One message, then `stop`. -/
def oneMessage : List (Act (sampleConfig 1000)) :=
  feed _ (sampleMessage "BTCUSDT" "500") (sampleTrade "BTCUSDT" 500)
    ++ shutDown _ (fun _ => [sampleWindow "BTCUSDT" 0]) [⟨0, [sampleWindow "BTCUSDT" 0]⟩]

/-- Two symbols, a tick that passes their window, and a trade of the next window. -/
def twoSymbols (C : Config) (ws : Index C → List WindowStats) : List (Act C) :=
  feed C (sampleMessage "BTCUSDT" "0") (sampleTrade "BTCUSDT" 0)
    ++ feed C (sampleMessage "BNBUSDT" "0") (sampleTrade "BNBUSDT" 0)
    ++ tick C 700 ws [⟨0, [sampleWindow "BNBUSDT" 0, sampleWindow "BTCUSDT" 0]⟩]
    ++ feed C (sampleMessage "BTCUSDT" "500") (sampleTrade "BTCUSDT" 500)

/-- With two shards the second symbol is alone in the first of them. -/
def twoShards : Config := ⟨500, 4, 2⟩

/-- Two symbols, each in a shard of its own, and `stop`. -/
def sharded : List (Act twoShards) :=
  twoSymbols _
      (fun i => if i.val = 0 then [sampleWindow "BNBUSDT" 0] else [sampleWindow "BTCUSDT" 0])
    ++ shutDown _ (fun i => if i.val = 0 then [] else [sampleWindow "BTCUSDT" 500])
      [⟨500, [sampleWindow "BTCUSDT" 500]⟩]

def StopPc.isReturned : StopPc C → Bool
  | .returned => true
  | _ => false

lemma isReturned_iff {pc : StopPc C} : pc.isReturned = true ↔ pc = .returned := by
  cases pc <;> simp [StopPc.isReturned]

/-- The run of a history that ends with `stop` returned. -/
lemma exists_returned (E : Env) (tr : List (Act C))
    (h : (run (step E) (start C) tr).any (fun s => s.stopper.isReturned) = true) :
    ∃ s, run (step E) (start C) tr = some s ∧ s.stopper = .returned := by
  obtain ⟨s, hs, hr⟩ := (Option.any_eq_true _ _).mp h
  exact ⟨s, hs, isReturned_iff.mp hr⟩

/-- A message, a tick that passes its window, another message of the same window, and `stop`. -/
def secondComesLate : List (Act (sampleConfig 500)) :=
  feed _ (sampleMessage "BTCUSDT" "0") (sampleTrade "BTCUSDT" 0)
    ++ tick _ 700 (fun _ => [sampleWindow "BTCUSDT" 0]) [⟨0, [sampleWindow "BTCUSDT" 0]⟩]
    ++ feed _ (sampleMessage "BTCUSDT" "0") (sampleTrade "BTCUSDT" 0)
    ++ shutDown _ (fun _ => [sampleWindow "BTCUSDT" 0]) [⟨0, [sampleWindow "BTCUSDT" 0]⟩]

/-- The two lines of the window merge to the statistics of both trades. -/
theorem lossless_secondComesLate :
    writtenWindows secondComesLate = [sampleWindow "BTCUSDT" 0, sampleWindow "BTCUSDT" 0] ∧
    trades sampleEnv secondComesLate = [sampleTrade "BTCUSDT" 0, sampleTrade "BTCUSDT" 0] ∧
    mergeAll ((writtenWindows secondComesLate).filter fun x => x.bucket = (ascii "BTCUSDT", 0)) =
      statsOf (ascii "BTCUSDT") 0 ((trades sampleEnv secondComesLate).filter fun t =>
        t.bucket 500 = (ascii "BTCUSDT", 0)) := by
  obtain ⟨s, hs, hret⟩ := exists_returned sampleEnv secondComesLate (by decide +kernel)
  exact ⟨by decide +kernel, by decide +kernel, (lossless hs hret).1 (ascii "BTCUSDT", 0)⟩

end BinanceAggregator.Pipeline
