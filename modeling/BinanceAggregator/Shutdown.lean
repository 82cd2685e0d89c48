import Mathlib.Algebra.Order.BigOperators.Group.List
import BinanceAggregator.Lossless
import BinanceAggregator.PipelineProgress

/-!
How long a shutdown takes.

Once the stop flag is set the pipeline has a definite amount of work left. Every message in the raw
queue is popped, parsed, routed, popped again, added and written; every window is written in a
block; each shard is closed, joined and visited by a flush. Each step of a thread of the pipeline
takes something off this work, and only a message that is still accepted, or another call of
`stop`, adds to it. As some thread of the pipeline has a step until `stop` has returned, every
schedule ends with its return.
-/

namespace BinanceAggregator.Pipeline

open Runs BoundedQueue MarketDataAggregator

variable {C : Config} {E : Env} {s s' : St C} {a : Act C} {tr v : List (Act C)}

/-! ### The work left -/

/-- The steps of the threads of the pipeline, not those of its callers. -/
def Act.isOwn : Act C → Bool
  | .submit _ _ | .push _ _ _ | .stopCall => false
  | _ => true

def ParserPc.work : ParserPc → ℕ
  | .popping => 1
  | .parsing _ => 7
  | .pushing _ => 6
  | .exited => 0

def AggPc.work : AggPc → ℕ
  | .popping => 1
  | .locking _ => 4
  | .adding _ => 3
  | .exited => 0

/-- The windows that an aggregator holds. -/
def windowCount (x : MarketDataAggregator) : ℕ := (x.extract .all).1.length

def Shard.work (x : Shard) : ℕ :=
  4 * x.queue.items.length + x.thread.work + windowCount x.aggregator

def FlushPc.work : FlushPc C → ℕ
  | .collecting todo windows => 2 * todo.length + windows.length + 2
  | .extracting _ todo windows => 2 * todo.length + windows.length + 3
  | .writing todo => todo.length + 1

/-- The writer finds the flag set at its next test. -/
def WriterPc.work : WriterPc C → ℕ
  | .exited => 0
  | .testing _ => 1
  | .acquiring _ => 2
  | .asleep => 3
  | .flushing f => f.pc.work + 2
  | .readingClock => 2 * C.shardCount + 5

def StopPc.work : StopPc C → ℕ
  | .idle | .returned => 0
  | .flushing f => f.pc.work
  | .joiningAggs todo => todo.length + (2 * C.shardCount + 3)
  | .closingShards todo => todo.length + (3 * C.shardCount + 4)
  | .joiningParser => 4 * C.shardCount + 5
  | .closingRaw => 4 * C.shardCount + 6
  | .joiningWriter => 4 * C.shardCount + 7
  | .notifying => 4 * C.shardCount + 8
  | .setting => 4 * C.shardCount + 9
  | .locking => 4 * C.shardCount + 10

/-- What is left to do once the stop flag is set. -/
def work (s : St C) : ℕ :=
  7 * s.raw.items.length + s.parser.work + ∑ i, (s.shards i).work + (s.writer.work + s.stopper.work)

/-- What an action of a caller adds. -/
def Act.adds : Act C → ℕ
  | .push _ _ true => 7
  | .stopCall => 4 * C.shardCount + 10
  | _ => 0

/-! ### The windows an aggregator holds -/

lemma nodup_extract (x : MarketDataAggregator) (c : Cut) :
    ((x.extract c).1.map WindowStats.bucket).Nodup := (x.extract_spec c).nodup

lemma mem_buckets {x : MarketDataAggregator} {c : Cut} {b : Bucket} :
    b ∈ (x.extract c).1.map WindowStats.bucket ↔ c.Takes b.2 ∧ x.table b ≠ 0 := by
  have htally := windowTally_extract x c b
  have hmem : b ∈ (x.extract c).1.map WindowStats.bucket ↔ windowTally (x.extract c).1 b ≠ 0 := by
    rw [windowTally, Ne, Tally.tally_eq_zero_iff]
    simp
  rw [hmem, htally]
  split_ifs with hc <;> simp [hc]

/-- Extracting moves windows out of the aggregator. -/
lemma length_extract_add_windowCount (x : MarketDataAggregator) (c : Cut) :
    (x.extract c).1.length + windowCount (x.extract c).2 = windowCount x := by
  -- each bucket is either taken or left
  have hperm : ((x.extract c).1.map WindowStats.bucket ++
      ((x.extract c).2.extract .all).1.map WindowStats.bucket).Perm
        ((x.extract .all).1.map WindowStats.bucket) := by
    have hdisjoint : ((x.extract c).1.map WindowStats.bucket).Disjoint
        (((x.extract c).2.extract .all).1.map WindowStats.bucket) := by
      intro b hb hb'
      have hleft := (mem_buckets.mp hb').2
      rw [table_extract, if_pos (mem_buckets.mp hb).1] at hleft
      exact hleft rfl
    refine (List.perm_ext_iff_of_nodup
      ((nodup_extract x c).append (nodup_extract _ _) hdisjoint)
      (nodup_extract x _)).mpr fun b => ?_
    rw [List.mem_append, mem_buckets, mem_buckets, mem_buckets, table_extract]
    have hall : Cut.all.Takes b.2 := trivial
    by_cases hc : c.Takes b.2 <;> simp [hc, hall]
  simpa [windowCount] using hperm.length_eq

/-- A trade opens at most one window. -/
lemma windowCount_addTrade_le (x : MarketDataAggregator) (t : TradeEvent) :
    windowCount (x.addTrade t) ≤ windowCount x + 1 := by
  have hsub : ((x.addTrade t).extract .all).1.map WindowStats.bucket ⊆
      t.bucket x.windowMs :: (x.extract .all).1.map WindowStats.bucket := by
    intro b hb
    rw [mem_buckets, table_addTrade] at hb
    rw [List.mem_cons, mem_buckets]
    by_cases hbt : b = t.bucket x.windowMs
    · exact .inl hbt
    · refine .inr ⟨hb.1, fun hzero => hb.2 ?_⟩
      have hone : tradeTally x.windowMs [t] b = 0 :=
        (Tally.tally_eq_zero_iff _ _).mpr (by simpa using Ne.symm hbt)
      simp [hzero, hone]
  simpa [windowCount] using (List.subperm_of_subset (nodup_extract _ _) hsub).length_le

/-- There are no more blocks than windows. -/
lemma length_writeWindows_le (ws : List WindowStats) : (writeWindows E ws).length ≤ ws.length := by
  rw [writeWindows_eq, ← (snapshots_perm E.symbolSort ws).length_eq, List.length_flatMap]
  have hone : ∀ y ∈ snapshots E.symbolSort ws, 1 ≤ y.windows.length := fun y hy =>
    List.length_pos_iff.mpr (snapshot_ne_nil _ hy)
  calc (snapshots E.symbolSort ws).length
      = ((snapshots E.symbolSort ws).map fun _ => 1).sum := by simp
    _ ≤ ((snapshots E.symbolSort ws).map fun y => y.windows.length).sum :=
        List.sum_le_sum hone

/-! ### Every step takes something off -/

/-- The two threads that flush, with one of them set apart. -/
lemma exists_flushers {who : Flusher} {f : Flush C} (h : s.flushOf who = some f) :
    ∃ rest, s.writer.work + s.stopper.work = f.pc.work + rest ∧
      (∀ g, (s.setFlush who g).writer.work + (s.setFlush who g).stopper.work = g.pc.work + rest) ∧
      (s.endFlush who).writer.work + (s.endFlush who).stopper.work = rest := by
  cases who with
  | writer =>
      rw [flushOf_writer] at h
      refine ⟨2 + s.stopper.work, ?_, fun g => ?_, ?_⟩
      · rw [h, WriterPc.work, add_assoc]
      · exact add_assoc _ _ _
      · rfl
  | stopper =>
      rw [flushOf_stopper] at h
      refine ⟨s.writer.work, ?_, fun g => add_comm _ _, ?_⟩
      · rw [h, StopPc.work, add_comm]
      · exact add_zero _

lemma work_beginFlush (cut : Cut) : (beginFlush C cut).pc.work = 2 * C.shardCount + 2 := by
  simp [beginFlush, FlushPc.work]

/-- The shards, with one of them set apart. -/
lemma exists_shards (s : St C) (i : Index C) (x : Shard) :
    ∃ rest, ∑ j, (s.shards j).work = (s.shards i).work + rest ∧
      ∑ j, ((s.setShard i x).shards j).work = x.work + rest := by
  obtain ⟨rest, h1, h2⟩ := exists_sum_of_eq_off (i := i) (f := fun j => (s.shards j).work)
    (g := fun j => ((s.setShard i x).shards j).work) fun j hj => by rw [setShard_of_ne hj]
  rw [setShard_self] at h2
  exact ⟨rest, h1, h2⟩

/-- A step pays for itself. -/
def Pays (a : Act C) (s s' : St C) : Prop :=
  (if a.isOwn then 1 else 0) + work s' ≤ work s + a.adds

lemma pays_of (hown : a.isOwn = true) (h : 1 + work s' ≤ work s) : Pays a s s' := by
  rw [Pays, if_pos hown]
  omega

/-- A step between the raw queue and the parser. -/
lemma pays_raw {q : BoundedQueue Str} {pc : ParserPc} (hown : a.isOwn = true)
    (h : 1 + (7 * q.items.length + pc.work) ≤ 7 * s.raw.items.length + s.parser.work) :
    Pays a s { s with raw := q, parser := pc } := by
  refine pays_of hown ?_
  simp only [work]
  omega

/-- A step within the shard `i` and the parser. -/
lemma pays_shard {i : Index C} {x : Shard} {pc : ParserPc} (hown : a.isOwn = true)
    (h : 1 + (x.work + pc.work) ≤ (s.shards i).work + s.parser.work) :
    Pays a s { s.setShard i x with parser := pc } := by
  obtain ⟨rest, h1, h2⟩ := exists_shards s i x
  refine pays_of hown ?_
  change 1 + (7 * s.raw.items.length + pc.work + ∑ j, ((s.setShard i x).shards j).work +
    (s.writer.work + s.stopper.work)) ≤ 7 * s.raw.items.length + s.parser.work +
    ∑ j, (s.shards j).work + (s.writer.work + s.stopper.work)
  omega

/-- A step of a flush in which no shard takes part. -/
lemma pays_flush {who : Flusher} {f g : Flush C} (hown : a.isOwn = true)
    (hf : s.flushOf who = some f) (h : 1 + g.pc.work ≤ f.pc.work) :
    Pays a s (s.setFlush who g) := by
  obtain ⟨rest, h1, h2, -⟩ := exists_flushers hf
  have h2 := h2 g
  refine pays_of hown ?_
  change 1 + (7 * s.raw.items.length + s.parser.work + ∑ j, (s.shards j).work +
    ((s.setFlush who g).writer.work + (s.setFlush who g).stopper.work)) ≤
    7 * s.raw.items.length + s.parser.work + ∑ j, (s.shards j).work +
    (s.writer.work + s.stopper.work)
  omega

/-- A step of a flush at the shard `i`. -/
lemma pays_visit {who : Flusher} {f g : Flush C} {i : Index C} {x : Shard} (hown : a.isOwn = true)
    (hf : s.flushOf who = some f) (h : 1 + (x.work + g.pc.work) ≤ (s.shards i).work + f.pc.work) :
    Pays a s ((s.setShard i x).setFlush who g) := by
  obtain ⟨rest, h1, h2, -⟩ := exists_flushers hf
  have h2 := h2 g
  obtain ⟨others, h3, h4⟩ := exists_shards s i x
  refine pays_of hown ?_
  change 1 + (7 * s.raw.items.length + s.parser.work + ∑ j, ((s.setShard i x).shards j).work +
    ((s.setFlush who g).writer.work + (s.setFlush who g).stopper.work)) ≤
    7 * s.raw.items.length + s.parser.work + ∑ j, (s.shards j).work +
    (s.writer.work + s.stopper.work)
  omega

/-- A step of the writer and the stopping thread. -/
lemma pays_control {w : WriterPc C} {pc : StopPc C} {m : Option Flusher} {r : Bool}
    (hown : a.isOwn = true) (h : 1 + (w.work + pc.work) ≤ s.writer.work + s.stopper.work) :
    Pays a s { s with writer := w, stopper := pc, stopMutex := m, stopRequested := r } := by
  refine pays_of hown ?_
  simp only [work]
  omega

/-- What a queue holds before a pop. -/
lemma length_pop {T : Type} {q q' : BoundedQueue T} {x : Option T} (h : q.pop = some (x, q')) :
    q.items.length = x.toList.length + q'.items.length := by
  rw [(pop_eq_some h).2.2.1, List.length_append]

/-- What a queue holds after a push. -/
lemma length_push {T : Type} {q q' : BoundedQueue T} {x : T} {ok : Bool}
    (h : q.push x = some (ok, q')) : q'.items.length = q.items.length + if ok then 1 else 0 := by
  rw [(push_eq_some h).2.2.2]
  cases ok <;> simp

lemma step_pays (hreq : s.stopRequested = true) (h : Step E s a s') : Pays a s s' := by
  cases h with
  | submit _ => exact le_of_eq (Nat.zero_add _)
  | @push k m ok q _ hq =>
      have hitems := length_push hq
      cases ok <;> simp only [Pays, Act.isOwn, Act.adds, work, hitems] <;> grind
  | popRaw h hq | parserExit h hq =>
      have hitems := length_pop hq
      refine pays_raw rfl ?_
      simp only [h, hitems, ParserPc.work, Option.toList, List.length_singleton, List.length_nil]
      omega
  | parseTrade h _ | parseNone h _ =>
      refine pays_raw rfl ?_
      simp only [h, ParserPc.work]
      omega
  | @pushTrade t ok i q h _ hq =>
      have hitems := length_push hq
      refine pays_shard rfl ?_
      simp only [Shard.work, hitems, h, ParserPc.work]
      split_ifs <;> omega
  | popTrade h hq | aggExit h hq =>
      have hitems := length_pop hq
      refine pays_shard rfl ?_
      simp only [Shard.work, h, hitems, AggPc.work, Option.toList, List.length_singleton,
        List.length_nil]
      omega
  | aggLock h _ =>
      refine pays_shard rfl ?_
      simp only [Shard.work, h, AggPc.work]
      omega
  | @aggAdd i t h =>
      have hone := windowCount_addTrade_le (s.shards i).aggregator t
      refine pays_shard rfl ?_
      simp only [Shard.work, h, AggPc.work]
      omega
  | writerTick _ hr | writerSleep _ hr => simp [hreq] at hr
  | writerLock h _ | writerExit h _ | writerWake h =>
      refine pays_control rfl ?_
      simp only [h, WriterPc.work]
      omega
  | readClock h =>
      refine pays_control rfl ?_
      simp only [h, WriterPc.work, work_beginFlush]
      omega
  | lockShard h _ =>
      refine pays_visit rfl h ?_
      simp only [Shard.work, FlushPc.work, List.length_cons]
      omega
  | @extract who i cut todo ws h =>
      -- the windows go from the shard into the hands of the thread
      have hmoved := length_extract_add_windowCount (s.shards i).aggregator cut
      refine pays_visit rfl h ?_
      simp only [Shard.work, FlushPc.work, List.length_append]
      omega
  | @merge who cut ws h =>
      have hfew := length_writeWindows_le (E := E) ws
      refine pays_flush rfl h ?_
      simp only [FlushPc.work, List.length_nil]
      omega
  | write h =>
      refine pays_flush rfl h ?_
      simp only [FlushPc.work, List.length_cons]
      omega
  | finish h =>
      obtain ⟨rest, h1, -, h2⟩ := exists_flushers h
      refine pays_control rfl ?_
      simp only [St.endFlush, FlushPc.work] at h1 h2
      omega
  | stopCall h =>
      have hzero : s.stopper.work = 0 := by rcases h with h | h <;> rw [h] <;> rfl
      simp only [Pays, Act.isOwn, Act.adds, work, StopPc.work]
      grind
  | stopWake h hw =>
      refine pays_control rfl ?_
      simp only [h, hw, WriterPc.work, StopPc.work]
      omega
  | stopLock h _ | stopSet h | stopNotify h _ | joinWriter h _ =>
      refine pays_control rfl ?_
      simp only [h, StopPc.work]
      omega
  | joinParser h _ | shardsClosed h =>
      refine pays_control rfl ?_
      simp only [h, StopPc.work, List.length_finRange, List.length_nil]
      omega
  | joinAgg h _ =>
      refine pays_control rfl ?_
      simp only [h, StopPc.work, List.length_cons]
      omega
  | aggsJoined h =>
      refine pays_control rfl ?_
      simp only [h, StopPc.work, work_beginFlush, List.length_nil]
      omega
  | closeRaw h =>
      refine pays_of rfl ?_
      simp only [work, h, StopPc.work, BoundedQueue.shutdown]
      omega
  | @closeShard i todo h =>
      have hshards : ∀ j, ((s.setShard i { s.shards i with
          queue := (s.shards i).queue.shutdown }).shards j).work = (s.shards j).work :=
        forall_setShard (P := fun j x => x.work = (s.shards j).work) (fun _ => rfl) i _ rfl
      refine pays_of rfl ?_
      simp only [work, h, StopPc.work, hshards, List.length_cons]
      simp only [St.setShard]
      omega

lemma stopRequested_stable (hreq : s.stopRequested = true) (h : Step E s a s') :
    s'.stopRequested = true := by
  cases h with
  | stopSet _ => rfl
  | _ => exact hreq

/-- The calls of `stop` in a history. -/
def stopCalls (v : List (Act C)) : ℕ := v.countP fun a => match a with
  | .stopCall => true
  | _ => false

/-- **Along a run** the steps taken and the work left are paid for by the work there was and by
what the callers add. -/
lemma run_pays (hreq : s.stopRequested = true) (h : run (step E) s v = some s') :
    v.countP Act.isOwn + work s' ≤
      work s + 7 * (accepted v).length + (4 * C.shardCount + 10) * stopCalls v := by
  refine (run_inv (P := fun v s' => s'.stopRequested = true ∧ v.countP Act.isOwn + work s' ≤
    work s + 7 * (accepted v).length + (4 * C.shardCount + 10) * stopCalls v)
    ⟨hreq, by simp [accepted, stopCalls]⟩ ?_ h).2
  rintro v m a s' - ⟨hm, ih⟩ ha
  have hpays : Pays a m s' := step_pays hm (step_cases ha)
  refine ⟨stopRequested_stable hm (step_cases ha), ?_⟩
  have hadds : a.adds = 7 * (accepted [a]).length + (4 * C.shardCount + 10) * stopCalls [a] := by
    cases a with
    | push k m ok => cases ok <;> rfl
    | _ => simp [Act.adds, accepted, stopCalls]
  rw [Pays, hadds] at hpays
  have hlen : (accepted (v ++ [a])).length = (accepted v).length + (accepted [a]).length := by
    simp [accepted]
  have hcalls : stopCalls (v ++ [a]) = stopCalls v + stopCalls [a] := List.countP_append ..
  rw [hlen, hcalls, List.countP_append, List.countP_singleton]
  grind

/-! ### Some thread of the pipeline has a step -/

/-- The state with nothing in the hands of its callers. -/
def St.alone (s : St C) : St C := { s with submitters := fun _ => none }

lemma sound_alone (hs : Sound s) : Sound s.alone :=
  ⟨⟨hs.built.raw, hs.built.shards⟩,
    ⟨hs.ordered.stops, hs.ordered.parser, hs.ordered.threads, hs.ordered.queues, hs.ordered.raw⟩,
    ⟨hs.locked.shards, hs.locked.stop, hs.locked.awake, hs.locked.told⟩⟩

/-- What the callers have in their hands does not hold up the threads of the pipeline. -/
lemma step_of_alone {t : St C} (hown : a.isOwn = true) (h : Step E s.alone a t) :
    ∃ s', Step E s a s' := by
  cases h with
  | submit _ | push _ _ | stopCall _ => cases hown
  | popRaw h hq => exact ⟨_, .popRaw h hq⟩
  | parserExit h hq => exact ⟨_, .parserExit h hq⟩
  | parseTrade h ht => exact ⟨_, .parseTrade h ht⟩
  | parseNone h ht => exact ⟨_, .parseNone h ht⟩
  | pushTrade h hi hq => exact ⟨_, .pushTrade h hi hq⟩
  | popTrade h hq => exact ⟨_, .popTrade h hq⟩
  | aggExit h hq => exact ⟨_, .aggExit h hq⟩
  | aggLock h hm => exact ⟨_, .aggLock h hm⟩
  | aggAdd h => exact ⟨_, .aggAdd h⟩
  | writerLock h hm => exact ⟨_, .writerLock h hm⟩
  | writerExit h hr => exact ⟨_, .writerExit h hr⟩
  | writerTick h hr => exact ⟨_, .writerTick h hr⟩
  | writerSleep h hr => exact ⟨_, .writerSleep h hr⟩
  | writerWake h => exact ⟨_, .writerWake h⟩
  | readClock h => exact ⟨_, .readClock h⟩
  | lockShard h hm => exact ⟨_, .lockShard h hm⟩
  | extract h => exact ⟨_, .extract h⟩
  | merge h => exact ⟨_, .merge h⟩
  | write h => exact ⟨_, .write h⟩
  | finish h => exact ⟨_, .finish h⟩
  | stopLock h hm => exact ⟨_, .stopLock h hm⟩
  | stopSet h => exact ⟨_, .stopSet h⟩
  | stopWake h hw => exact ⟨_, .stopWake h hw⟩
  | stopNotify h hw => exact ⟨_, .stopNotify h hw⟩
  | joinWriter h hw => exact ⟨_, .joinWriter h hw⟩
  | closeRaw h => exact ⟨_, .closeRaw h⟩
  | joinParser h hp => exact ⟨_, .joinParser h hp⟩
  | closeShard h => exact ⟨_, .closeShard h⟩
  | shardsClosed h => exact ⟨_, .shardsClosed h⟩
  | joinAgg h ha => exact ⟨_, .joinAgg h ha⟩
  | aggsJoined h => exact ⟨_, .aggsJoined h⟩

lemma exists_own_step (hs : Sound s) (h : InStop s) :
    ∃ a s', a.isOwn = true ∧ Step E s a s' := by
  obtain ⟨a, t, howed, hstep⟩ := moves_of_inStop (E := E) (sound_alone hs) h
  have hown : a.isOwn = true := by
    cases hstep with
    | push hk _ => cases hk
    | submit _ | stopCall _ => cases howed
    | _ => rfl
  obtain ⟨s', hs'⟩ := step_of_alone hown hstep
  exact ⟨a, s', hown, hs'⟩

/-- `stop` is not left but by its return. -/
lemma stopper_ne_idle (hs : s.stopper ≠ .idle) (h : Step E s a s') : s'.stopper ≠ .idle := by
  cases h with
  | @lockShard who _ _ _ _ _ _ | @extract who _ _ _ _ _ | @merge who _ _ _
  | @write who _ _ _ _ | @finish who _ _ =>
      cases who with
      | writer => exact hs
      | stopper => exact nofun
  | stopCall _ | stopLock _ _ | stopSet _ | stopWake _ _ | stopNotify _ _ | joinWriter _ _
  | closeRaw _ | joinParser _ _ | closeShard _ | shardsClosed _ | joinAgg _ _ | aggsJoined _ =>
      exact nofun
  | _ => exact hs

lemma stopper_ne_idle_of_requested (h : run (step E) (start C) tr = some s)
    (hreq : s.stopRequested = true) : s.stopper ≠ .idle := by
  refine run_stable (P := fun s => s.stopRequested = true → s.stopper ≠ .idle) ?_
    (by simp [start]) h hreq
  intro s a s' hs ha hreq'
  cases step_cases ha with
  | stopSet _ =>
      intro hidle
      cases hidle
  | _ => exact stopper_ne_idle (hs hreq') (step_cases ha)

/-- A raw queue that is closed accepts nothing. -/
lemma accepted_of_closed (hclosed : s.raw.isShutdown = true) (h : run (step E) s v = some s') :
    accepted v = [] := by
  refine (run_inv (P := fun v s => s.raw.isShutdown = true ∧ accepted v = [])
    ⟨hclosed, rfl⟩ ?_ h).2
  rintro v s a s' - ⟨hs, hv⟩ ha
  have hsame : s'.raw.isShutdown = true ∧ accepted [a] = [] := by
    cases step_cases ha with
    | @push k m ok q _ hq =>
        obtain ⟨-, hstill, hok, -⟩ := push_eq_some hq
        rw [hs] at hok
        obtain rfl : ok = false := by simpa using hok
        exact ⟨hstill.trans hs, rfl⟩
    | popRaw _ hq | parserExit _ hq => exact ⟨(pop_eq_some hq).2.1.trans hs, rfl⟩
    | _ => exact ⟨by first | exact hs | rfl, rfl⟩
  refine ⟨hsame.1, ?_⟩
  rw [accepted, List.filterMap_append]
  exact List.append_eq_nil_iff.mpr ⟨hv, hsame.2⟩

/-- The threads of the pipeline alone can bring `stop` to its return. -/
lemma exists_completion (h : run (step E) (start C) tr = some s) (hreq : s.stopRequested = true)
    (hs : s.stopper ≠ .idle) : ∃ v s', run (step E) s v = some s' ∧ s'.stopper = .returned ∧
      (∀ a ∈ v, a.isOwn = true) ∧ v.length ≤ work s := by
  induction hn : work s using Nat.strong_induction_on generalizing s tr with
  | _ n ih =>
      by_cases hret : s.stopper = .returned
      · exact ⟨[], s, rfl, hret, by simp, Nat.zero_le _⟩
      · obtain ⟨a, m, hown, ha⟩ := exists_own_step (E := E) (run_sound h) ⟨hs, hret⟩
        have hpays := step_pays hreq ha
        have hadds : a.adds = 0 := by
          cases a <;> first | rfl | cases hown
        rw [Pays, if_pos hown, hadds] at hpays
        obtain ⟨v, s', hv, hs', hv', hlen⟩ := ih (work m) (by omega)
          ((run_snoc _).mpr ⟨s, h, step_of ha⟩) (stopRequested_stable hreq ha)
          (stopper_ne_idle hs ha) rfl
        refine ⟨a :: v, s', ?_, hs', ?_, ?_⟩
        · rw [run_cons, step_of ha, Option.bind_some, hv]
        · exact List.forall_mem_cons.mpr ⟨hown, hv'⟩
        · rw [List.length_cons]
          omega

/-- **Shutdown ends.** Once the stop flag is set, `stop` can return after no more steps than there
is work left, taken by the threads of the pipeline alone. And whatever the schedule, as long as
`stop` is not called again the threads of the pipeline take at most that many steps, and seven for
each message that is accepted before the raw queue is closed, and have a step until `stop` has
returned. -/
theorem shutdown_bounded (h : run (step E) (start C) tr = some s) (hreq : s.stopRequested = true) :
    (∃ v s', run (step E) s v = some s' ∧ s'.stopper = .returned ∧ (∀ a ∈ v, a.isOwn = true) ∧
      v.length ≤ work s) ∧
    ∀ v s', run (step E) s v = some s' → .stopCall ∉ v →
      v.countP Act.isOwn ≤ work s + 7 * (accepted v).length ∧
      (s.raw.isShutdown = true → accepted v = []) ∧
      (s'.stopper = .returned ∨ ∃ a t, a.isOwn = true ∧ step E s' a = some t) := by
  have hs := stopper_ne_idle_of_requested h hreq
  refine ⟨exists_completion h hreq hs, fun v s' hv hcall => ⟨?_, fun hclosed => ?_, ?_⟩⟩
  · have hpays := run_pays hreq hv
    have hnone : stopCalls v = 0 := by
      refine List.countP_eq_zero.mpr fun a ha hstop => hcall ?_
      cases a <;> first | exact ha | cases hstop
    rw [hnone, Nat.mul_zero, Nat.add_zero] at hpays
    omega
  · exact accepted_of_closed hclosed hv
  · by_cases hret : s'.stopper = .returned
    · exact .inl hret
    · have hall : run (step E) (start C) (tr ++ v) = some s' := by rw [run_append, h]; exact hv
      have hs' : s'.stopper ≠ .idle := run_stable (P := fun s => s.stopper ≠ .idle)
        (fun hs ha => stopper_ne_idle hs (step_cases ha)) hs hv
      obtain ⟨a, t, hown, ha⟩ := exists_own_step (E := E) (run_sound hall) ⟨hs', hret⟩
      exact .inr ⟨a, t, hown, step_of ha⟩

/-- One trade is in its aggregator when the flag is set. -/
theorem shutdown_bounded_oneMessage : ∃ s,
    run (step sampleEnv) (start _) (oneMessage.take 11) = some s ∧ work s = 17 ∧
    ∃ v s', run (step sampleEnv) s v = some s' ∧ s'.stopper = .returned ∧ v.length ≤ 17 := by
  have hany : (run (step sampleEnv) (start _) (oneMessage.take 11)).any
      (fun s => s.stopRequested && work s == 17) = true := by decide +kernel
  obtain ⟨s, hs, hboth⟩ := (Option.any_eq_true _ _).mp hany
  obtain ⟨hreq, hwork⟩ := (Bool.and_eq_true _ _).mp hboth
  have hwork : work s = 17 := beq_iff_eq.mp hwork
  obtain ⟨⟨v, s', hv, hret, -, hlen⟩, -⟩ := shutdown_bounded hs hreq
  exact ⟨s, hs, hwork, v, s', hv, hret, hwork ▸ hlen⟩

end BinanceAggregator.Pipeline
