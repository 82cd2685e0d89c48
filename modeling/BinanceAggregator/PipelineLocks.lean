import BinanceAggregator.Mutex
import BinanceAggregator.PipelineFlush

/-!
Who holds the mutexes of the pipeline, and who sleeps.

The mutex of a shard is held by its aggregation thread while it adds a trade, and by a thread that
flushes while it extracts from the shard. The mutex of the stop flag is held by the writer while
it tests the flag and by the stopping thread while it sets it. The writer does not sleep once it
has been notified of the flag.
-/

namespace BinanceAggregator.Pipeline

open Runs Mutex MarketDataAggregator

variable {C : Config} {E : Env} {s s' : St C} {a : Act C} {tr : List (Act C)}

/-! ### The mutex of a shard -/

def FlushPc.at? : FlushPc C → Option (Index C)
  | .extracting i _ _ => some i
  | _ => none

/-- The shard a thread that flushes is extracting from. -/
def St.flushAt (s : St C) (who : Flusher) : Option (Index C) :=
  (s.flushOf who).bind fun f => f.pc.at?

/-- Where the mutex of a shard is held. -/
def HoldsShard (s : St C) (i : Index C) : Holder → Prop
  | .aggregation => ∃ t, (s.shards i).thread = .adding t
  | .flusher who => s.flushAt who = some i

/-- The actions that take a flush to a shard and away from it. -/
def Act.visits : Act C → Bool
  | .lockShard _ _ | .extract _ _ _ _ => true
  | _ => false

lemma flushAt_of_change (h : FlushChange E a s s') (hv : a.visits = false) (who : Flusher) :
    s'.flushAt who = s.flushAt who := by
  unfold St.flushAt
  cases h with
  | beside _ _ h => rw [h]
  | begun w cut _ hno h =>
      rw [h]
      split_ifs with hw
      · subst hw
        rw [hno]
        rfl
      · rfl
  | advanced w f f' hf ha h =>
      rw [h]
      split_ifs with hw
      · subst hw
        rw [hf]
        cases ha with
        | lock => cases hv
        | extract => cases hv
        | merge => rfl
        | write => rfl
      · rfl
  | finished w cut _ hf h =>
      rw [h]
      split_ifs with hw
      · subst hw
        rw [hf]
        rfl
      · rfl

/-- A step that leaves the mutexes alone leaves alone who holds them. -/
lemma shardHeld_congr (hs : ∀ i, Held (s.shards i).mutex (HoldsShard s i))
    (hm : ∀ i, (s'.shards i).mutex = (s.shards i).mutex)
    (ht : ∀ i, (∃ t, (s'.shards i).thread = .adding t) ↔ ∃ t, (s.shards i).thread = .adding t)
    (hf : ∀ who, s'.flushAt who = s.flushAt who) (i : Index C) :
    Held (s'.shards i).mutex (HoldsShard s' i) := by
  rw [hm i]
  refine (hs i).congr fun p => ?_
  cases p with
  | aggregation => exact ht i
  | flusher who => rw [HoldsShard, hf who, HoldsShard]

/-- A step that has to do with one shard. -/
lemma shardHeld_at (hs : ∀ i, Held (s.shards i).mutex (HoldsShard s i)) (i : Index C)
    (hj : ∀ j, j ≠ i → s'.shards j = s.shards j)
    (hf : ∀ who j, j ≠ i → (s'.flushAt who = some j ↔ s.flushAt who = some j))
    (hi : Held (s'.shards i).mutex (HoldsShard s' i)) (j : Index C) :
    Held (s'.shards j).mutex (HoldsShard s' j) := by
  by_cases hji : j = i
  · exact hji ▸ hi
  · rw [hj j hji]
    refine (hs j).congr fun p => ?_
    cases p with
    | aggregation => rw [HoldsShard, hj j hji, HoldsShard]
    | flusher who => exact hf who j hji

@[simp] lemma flushAt_setFlush (s : St C) (who who' : Flusher) (f : Flush C) :
    (s.setFlush who f).flushAt who' = if who' = who then f.pc.at? else s.flushAt who' := by
  unfold St.flushAt
  rw [flushOf_setFlush]
  split_ifs <;> rfl

/-- A flush goes to the shard `i` or leaves it. -/
lemma shardHeld_visit (hs : ∀ i, Held (s.shards i).mutex (HoldsShard s i)) {who : Flusher}
    {i : Index C} {x : Shard} {f : Flush C} (hx : x.thread = (s.shards i).thread)
    (hf : ∀ j, j ≠ i → f.pc.at? ≠ some j) (hs' : ∀ j, j ≠ i → s.flushAt who ≠ some j)
    (hm : Held x.mutex fun q => if q = .flusher who then f.pc.at? = some i else HoldsShard s i q) :
    ∀ j, Held (((s.setShard i x).setFlush who f).shards j).mutex
      (HoldsShard ((s.setShard i x).setFlush who f) j) := by
  have hshard : ((s.setShard i x).setFlush who f).shards i = x := setShard_self i x
  have hflush (w : Flusher) : ((s.setShard i x).setFlush who f).flushAt w =
      if w = who then f.pc.at? else s.flushAt w := flushAt_setFlush _ who w f
  refine shardHeld_at hs i (fun j hj => setShard_of_ne hj x) (fun w j hj => ?_) ?_
  · rw [hflush]
    split_ifs with hw
    · subst hw
      exact iff_of_false (hf j hj) (hs' j hj)
    · rfl
  · rw [hshard]
    refine hm.congr fun q => ?_
    cases q with
    | aggregation => rw [HoldsShard, hshard, hx, if_neg nofun, HoldsShard]
    | flusher w =>
        rw [HoldsShard, hflush]
        by_cases hw : w = who
        · rw [if_pos hw, if_pos (by rw [hw])]
        · rw [if_neg hw, if_neg fun he => hw (Holder.flusher.inj he), HoldsShard]

lemma step_shardHeld (hs : ∀ i, Held (s.shards i).mutex (HoldsShard s i)) (h : Step E s a s') :
    ∀ i, Held (s'.shards i).mutex (HoldsShard s' i) := by
  have hmutex := forall_setShard (s := s)
    (P := fun j x => x.mutex = (s.shards j).mutex) fun _ => rfl
  have hthread := forall_setShard (s := s)
    (P := fun j x => (∃ t, x.thread = .adding t) ↔ ∃ t, (s.shards j).thread = .adding t)
    fun _ => Iff.rfl
  have hchange := step_flushChange h
  cases h with
  | @aggLock i t h hm =>
      refine shardHeld_at hs i (fun j hj => setShard_of_ne hj _) (fun _ _ _ => Iff.rfl) ?_
      rw [setShard_self]
      refine (hs i).lock hm ⟨t, by rw [setShard_self]⟩ fun q hq => ?_
      cases q with
      | aggregation => exact absurd rfl hq
      | flusher who => exact Iff.rfl
  | @aggAdd i t h =>
      refine shardHeld_at hs i (fun j hj => setShard_of_ne hj _) (fun _ _ _ => Iff.rfl) ?_
      rw [setShard_self]
      refine (hs i).unlock (p := .aggregation) ⟨t, h⟩ ?_ fun q hq => ?_
      · rintro ⟨u, hu⟩
        rw [setShard_self] at hu
        cases hu
      · cases q with
        | aggregation => exact absurd rfl hq
        | flusher who => exact Iff.rfl
  | @lockShard who i cut todo ws h hm =>
      have hnone : s.flushAt who = none := by
        rw [St.flushAt, h]
        rfl
      refine shardHeld_visit hs rfl (fun j hj he => hj (Option.some.inj he).symm)
        (fun j _ he => by rw [hnone] at he; cases he) ?_
      exact (hs i).lock hm (by rw [if_pos rfl]; rfl) fun q hq => by rw [if_neg hq]
  | @extract who i cut todo ws h =>
      have hsome : s.flushAt who = some i := by
        rw [St.flushAt, h]
        rfl
      refine shardHeld_visit hs rfl (fun j _ => nofun)
        (fun j hj he => hj (Option.some.inj (hsome.symm.trans he)).symm) ?_
      exact (hs i).unlock (p := .flusher who) hsome (by rw [if_pos rfl]; nofun)
        fun q hq => by rw [if_neg hq]
  | @pushTrade t ok i q h hi hq =>
      exact shardHeld_congr hs (hmutex i _ rfl) (hthread i _ Iff.rfl)
        (flushAt_of_change hchange rfl)
  | @popTrade i t q h hq =>
      exact shardHeld_congr hs (hmutex i _ rfl) (hthread i _ (by simp [h]))
        (flushAt_of_change hchange rfl)
  | @aggExit i q h hq =>
      exact shardHeld_congr hs (hmutex i _ rfl) (hthread i _ (by simp [h]))
        (flushAt_of_change hchange rfl)
  | @closeShard i todo h =>
      exact shardHeld_congr hs (hmutex i _ rfl) (hthread i _ Iff.rfl)
        (flushAt_of_change hchange rfl)
  | _ =>
      exact shardHeld_congr hs (fun _ => rfl) (fun _ => Iff.rfl) (flushAt_of_change hchange rfl)

/-! ### The mutex of the stop flag -/

/-- Where the mutex of the stop flag is held. -/
def HoldsStop (s : St C) : Flusher → Prop
  | .writer => ∃ b, s.writer = .testing b
  | .stopper => s.stopper = .setting

lemma stopHeld_congr (hs : Held s.stopMutex (HoldsStop s)) (hm : s'.stopMutex = s.stopMutex)
    (hw : (∃ b, s'.writer = .testing b) ↔ ∃ b, s.writer = .testing b)
    (hst : s'.stopper = .setting ↔ s.stopper = .setting) : Held s'.stopMutex (HoldsStop s') := by
  rw [hm]
  refine hs.congr fun p => ?_
  cases p with
  | writer => exact hw
  | stopper => exact hst

/-- A thread that flushes is not at the stop flag, and does not come to it by flushing. -/
lemma stopHeld_flush (hs : Held s.stopMutex (HoldsStop s)) {who : Flusher} {f : Flush C}
    (h : s.flushOf who = some f) (hm : s'.stopMutex = s.stopMutex)
    (hw : who = .stopper → s'.writer = s.writer) (hst : who = .writer → s'.stopper = s.stopper)
    (hw' : ∀ b, who = .writer → s'.writer ≠ .testing b)
    (hst' : who = .stopper → s'.stopper ≠ .setting) : Held s'.stopMutex (HoldsStop s') := by
  cases who with
  | writer =>
      refine stopHeld_congr hs hm ?_ (by rw [hst rfl])
      rw [flushOf_writer.mp h]
      exact iff_of_false (fun ⟨b, hb⟩ => hw' b rfl hb) nofun
  | stopper =>
      refine stopHeld_congr hs hm (by rw [hw rfl]) ?_
      rw [flushOf_stopper.mp h]
      exact iff_of_false (hst' rfl) nofun

lemma step_stopHeld (hs : Held s.stopMutex (HoldsStop s)) (h : Step E s a s') :
    Held s'.stopMutex (HoldsStop s') := by
  cases h with
  | @writerLock b h hm =>
      refine hs.lock hm ⟨b, rfl⟩ fun q hq => ?_
      cases q with
      | writer => exact absurd rfl hq
      | stopper => exact Iff.rfl
  | writerExit h _ | writerTick h _ | writerSleep h _ =>
      refine hs.unlock (p := .writer) ⟨_, h⟩ nofun fun q hq => ?_
      cases q with
      | writer => exact absurd rfl hq
      | stopper => exact Iff.rfl
  | stopLock h hm =>
      refine hs.lock hm rfl fun q hq => ?_
      cases q with
      | writer => exact Iff.rfl
      | stopper => exact absurd rfl hq
  | stopSet h =>
      refine hs.unlock (p := .stopper) h nofun fun q hq => ?_
      cases q with
      | writer => exact Iff.rfl
      | stopper => exact absurd rfl hq
  | @lockShard who _ _ _ _ h _ | @extract who _ _ _ _ h | @merge who _ _ h | @write who _ _ _ h
  | @finish who _ h =>
      refine stopHeld_flush hs h rfl ?_ ?_ ?_ ?_
      · rintro rfl
        rfl
      · rintro rfl
        rfl
      · rintro b rfl
        exact nofun
      · rintro rfl
        exact nofun
  | writerWake h | readClock h =>
      exact stopHeld_congr hs rfl (by simp [h]) Iff.rfl
  | stopCall h =>
      refine stopHeld_congr hs rfl Iff.rfl ?_
      rcases h with h | h <;> simp [h]
  | stopWake h hw => exact stopHeld_congr hs rfl (by simp [hw]) (by simp [h])
  | stopNotify h _ | joinWriter h _ | closeRaw h | joinParser h _ | shardsClosed h | joinAgg h _
  | aggsJoined h | closeShard h =>
      exact stopHeld_congr hs rfl Iff.rfl (by simp [h])
  | _ => exact stopHeld_congr hs rfl Iff.rfl Iff.rfl

/-! ### Sleep -/

/-- The writer sleeps only before the stop flag is set, or between the setting and the
notification. -/
def Awake (s : St C) : Prop :=
  s.writer = .asleep → s.stopRequested = false ∨ s.stopper = .notifying

/-- The stopping thread is not about to notify. -/
lemma Awake.of_ne (hs : Awake s) (hn : s.stopper ≠ .notifying) (hw : s'.writer = s.writer)
    (hr : s'.stopRequested = s.stopRequested) : Awake s' := by
  intro ha
  rw [hw] at ha
  rcases hs ha with h | h
  · exact .inl (hr.trans h)
  · exact absurd h hn

lemma awake_flush (hs : Awake s) {who : Flusher} {f : Flush C} (h : s.flushOf who = some f)
    (hw : who = .stopper → s'.writer = s.writer) (hw' : who = .writer → s'.writer ≠ .asleep)
    (hr : s'.stopRequested = s.stopRequested) : Awake s' := by
  cases who with
  | writer => exact fun ha => absurd ha (hw' rfl)
  | stopper => exact hs.of_ne (by rw [flushOf_stopper.mp h]; nofun) (hw rfl) hr

lemma step_awake (hs : Awake s) (h : Step E s a s') : Awake s' := by
  cases h with
  | writerSleep _ hr => exact fun _ => .inl hr
  | stopSet _ => exact fun _ => .inr rfl
  | stopNotify _ hw => exact fun ha => absurd ha hw
  | writerLock _ _ | writerExit _ _ | writerTick _ _ | writerWake _ | readClock _ | stopWake _ _ =>
      exact nofun
  | @lockShard who _ _ _ _ h _ | @extract who _ _ _ _ h | @merge who _ _ h | @write who _ _ _ h
  | @finish who _ h =>
      refine awake_flush hs h ?_ ?_ rfl
      · rintro rfl
        rfl
      · rintro rfl
        exact nofun
  | stopCall h =>
      refine hs.of_ne ?_ rfl rfl
      rcases h with h | h <;> simp [h]
  | stopLock h _ | joinWriter h _ | closeRaw h | joinParser h _ | closeShard h | shardsClosed h
  | joinAgg h _ | aggsJoined h => exact hs.of_ne (by simp [h]) rfl rfl
  | _ => exact hs

/-- The flag is set before the notification and the join. -/
def Told (s : St C) : Prop :=
  s.stopper = .notifying ∨ s.stopper = .joiningWriter → s.stopRequested = true

lemma told_flush {who : Flusher} {pc : StopPc C} (hs : Told s)
    (hst : s'.stopper = if who = .stopper then pc else s.stopper)
    (hr : s'.stopRequested = s.stopRequested) (hn : pc ≠ .notifying) (hj : pc ≠ .joiningWriter) :
    Told s' := by
  intro h
  rw [hst] at h
  rw [hr]
  split_ifs at h with hw
  · exact absurd h (by simp [hn, hj])
  · exact hs h

lemma step_told (hs : Told s) (h : Step E s a s') : Told s' := by
  cases h with
  | stopSet _ => exact fun _ => rfl
  | stopWake h _ | stopNotify h _ => exact fun _ => hs (.inl h)
  | lockShard _ _ | extract _ | merge _ | write _ | finish _ => exact told_flush hs rfl rfl nofun nofun
  | stopCall _ | stopLock _ _ | joinWriter _ _ | closeRaw _ | joinParser _ _ | closeShard _
  | shardsClosed _ | joinAgg _ _ | aggsJoined _ => exact nofun
  | _ => exact hs

/-- The mutexes are held where the threads hold them, and nobody sleeps through the stop flag. -/
structure Locked (s : St C) : Prop where
  shards : ∀ i, Held (s.shards i).mutex (HoldsShard s i)
  stop : Held s.stopMutex (HoldsStop s)
  awake : Awake s
  told : Told s

lemma locked_start : Locked (start C) := by
  refine ⟨fun i p => ?_, fun p => ?_, nofun, nofun⟩
  · cases p with
    | aggregation => simp [start, HoldsShard]
    | flusher who => cases who <;> simp [start, HoldsShard, St.flushAt, St.flushOf]
  · cases p <;> simp [start, HoldsStop]

theorem run_locked (h : run (step E) (start C) tr = some s) : Locked s := by
  refine run_stable (P := Locked) ?_ locked_start h
  intro s a s' hl ha
  have hstep := step_cases ha
  exact ⟨step_shardHeld hl.shards hstep, step_stopHeld hl.stop hstep, step_awake hl.awake hstep,
    step_told hl.told hstep⟩

end BinanceAggregator.Pipeline
