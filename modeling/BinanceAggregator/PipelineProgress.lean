import BinanceAggregator.PipelineLocks

/-!
The pipeline is never stuck.

What waits in the pipeline waits for the stage after it: a submitter for the parser, the parser
for the aggregation thread of a shard, that thread for whoever holds the mutex of the shard. The
last of a chain never waits, so that some thread has a step, and so it is with the joins of the
stopping thread, each of which is for a thread that has been told to exit.
-/

namespace BinanceAggregator.Pipeline

open Runs Mutex BoundedQueue

variable {C : Config} {E : Env} {s s' : St C} {a : Act C} {tr : List (Act C)}

/-- The steps the threads owe: not a call from outside, and not the writer's waking up without
having been notified. -/
def Act.isOwed : Act C → Bool
  | .submit _ _ | .stopCall | .writerWake _ => false
  | _ => true

/-- Some thread has a step. -/
def Moves (E : Env) (s : St C) : Prop := ∃ a s', a.isOwed = true ∧ Step E s a s'

/-- A message or its trade is in a queue or in the hands of a thread. -/
def Loaded (s : St C) : Prop :=
  s.raw.items ≠ [] ∨ (∃ k m, s.submitters k = some m) ∨ (∃ m, s.parser = .parsing m) ∨
    (∃ t, s.parser = .pushing t) ∨ (∃ i, (s.shards i).queue.items ≠ []) ∨
    ∃ i t, (s.shards i).thread = .locking t ∨ (s.shards i).thread = .adding t

/-- `stop` has been called and has not returned. -/
def InStop (s : St C) : Prop := s.stopper ≠ .idle ∧ s.stopper ≠ .returned

/-- What is known of a state that was reached. -/
structure Sound (s : St C) : Prop where
  built : Built s
  ordered : Ordered s
  locked : Locked s

lemma run_sound (h : run (step E) (start C) tr = some s) : Sound s :=
  ⟨run_built h, run_ordered h, run_locked h⟩

/-! ### Mutexes -/

/-- The thread that holds the mutex of a shard goes on. -/
lemma moves_of_mutex (hs : Sound s) {i : Index C} (hm : (s.shards i).mutex ≠ none) :
    Moves E s := by
  obtain ⟨p, hp⟩ := Option.ne_none_iff_exists'.mp hm
  have hholds := (hs.locked.shards i p).mp hp
  cases p with
  | aggregation =>
      obtain ⟨t, ht⟩ := hholds
      exact ⟨_, _, rfl, .aggAdd ht⟩
  | flusher who =>
      obtain ⟨⟨cut, pc⟩, hf, hpc⟩ := Option.bind_eq_some_iff.mp hholds
      cases pc with
      | extracting j todo ws => exact ⟨_, _, rfl, .extract hf⟩
      | collecting todo ws => cases hpc
      | writing todo => cases hpc

/-- The writer that tests the flag goes on. -/
lemma moves_of_testing {b : Bool} (h : s.writer = .testing b) : Moves E s := by
  cases hr : s.stopRequested with
  | true => exact ⟨_, _, rfl, .writerExit h hr⟩
  | false =>
      cases b with
      | true => exact ⟨_, _, rfl, .writerTick h hr⟩
      | false => exact ⟨_, _, rfl, .writerSleep h hr⟩

lemma moves_of_stopMutex (hs : Sound s) (hm : s.stopMutex ≠ none) : Moves E s := by
  obtain ⟨p, hp⟩ := Option.ne_none_iff_exists'.mp hm
  have hholds := (hs.locked.stop p).mp hp
  cases p with
  | writer =>
      obtain ⟨b, hb⟩ := hholds
      exact moves_of_testing hb
  | stopper => exact ⟨_, _, rfl, .stopSet hholds⟩

/-! ### The stages, from the last to the first -/

lemma moves_of_trade (hs : Sound s) {i : Index C} {t : TradeEvent}
    (h : (s.shards i).thread = .locking t ∨ (s.shards i).thread = .adding t) : Moves E s := by
  rcases h with h | h
  · by_cases hm : (s.shards i).mutex = none
    · exact ⟨_, _, rfl, .aggLock h hm⟩
    · exact moves_of_mutex hs hm
  · exact ⟨_, _, rfl, .aggAdd h⟩

/-- An aggregation thread whose queue has an item or is closed goes on until it has exited. -/
lemma moves_of_thread (hs : Sound s) {i : Index C} (ht : (s.shards i).thread ≠ .exited)
    (hq : (s.shards i).queue.isShutdown = true ∨ (s.shards i).queue.items ≠ []) : Moves E s := by
  cases h : (s.shards i).thread with
  | popping =>
      obtain ⟨⟨x, q⟩, hpop⟩ := Option.isSome_iff_exists.mp ((pop_isSome_iff _).mpr hq)
      cases x with
      | none => exact ⟨_, _, rfl, .aggExit h hpop⟩
      | some t => exact ⟨_, _, rfl, .popTrade h hpop⟩
  | locking t => exact moves_of_trade hs (.inl h)
  | adding t => exact moves_of_trade hs (.inr h)
  | exited => exact absurd h ht

lemma moves_of_queue (hs : Sound s) {i : Index C} (hq : (s.shards i).queue.items ≠ []) :
    Moves E s :=
  moves_of_thread hs (fun ht => hq (hs.ordered.threads i ht).2) (.inr hq)

/-- A parser with a trade waits only for a shard that has something to do: the queue of a shard
holds at least one trade. -/
lemma moves_of_pushing (hs : Sound s) {t : TradeEvent} (h : s.parser = .pushing t) :
    Moves E s := by
  cases hpush : (s.shards (shardIndexForSymbol E C t.symbol)).queue.push t with
  | some r => exact ⟨_, _, rfl, .pushTrade h rfl hpush⟩
  | none =>
      refine moves_of_queue hs (items_ne_nil_of_push hpush ?_)
      rw [(hs.built.shards _).1, Config.perShardCapacity]
      omega

lemma moves_of_parsing {m : Str} (h : s.parser = .parsing m) : Moves E s := by
  cases ht : TradeParser.parse E.jsonParse m with
  | some t => exact ⟨_, _, rfl, .parseTrade h ht⟩
  | none => exact ⟨_, _, rfl, .parseNone h ht⟩

/-- The parser goes on, in the same way. -/
lemma moves_of_parserThread (hs : Sound s) (hp : s.parser ≠ .exited)
    (hq : s.raw.isShutdown = true ∨ s.raw.items ≠ []) : Moves E s := by
  cases h : s.parser with
  | popping =>
      obtain ⟨⟨x, q⟩, hpop⟩ := Option.isSome_iff_exists.mp ((pop_isSome_iff _).mpr hq)
      cases x with
      | none => exact ⟨_, _, rfl, .parserExit h hpop⟩
      | some m => exact ⟨_, _, rfl, .popRaw h hpop⟩
  | parsing m => exact moves_of_parsing h
  | pushing t => exact moves_of_pushing hs h
  | exited => exact absurd h hp

lemma moves_of_raw (hs : Sound s) (hq : s.raw.items ≠ []) : Moves E s :=
  moves_of_parserThread hs (fun hp => hq (hs.ordered.parser hp).2) (.inr hq)

lemma moves_of_submitter (hs : Sound s) (hcap : 1 ≤ C.queueCapacity) {k : ℕ} {m : Str}
    (h : s.submitters k = some m) : Moves E s := by
  cases hpush : s.raw.push m with
  | some r => exact ⟨_, _, rfl, .push h hpush⟩
  | none =>
      refine moves_of_raw hs (items_ne_nil_of_push hpush ?_)
      rw [hs.built.raw]
      exact hcap

theorem moves_of_loaded (hs : Sound s) (hcap : 1 ≤ C.queueCapacity) (h : Loaded s) :
    Moves E s := by
  obtain h | ⟨k, m, h⟩ | ⟨m, h⟩ | ⟨t, h⟩ | ⟨i, h⟩ | ⟨i, t, h⟩ := h
  · exact moves_of_raw hs h
  · exact moves_of_submitter hs hcap h
  · exact moves_of_parsing h
  · exact moves_of_pushing hs h
  · exact moves_of_queue hs h
  · exact moves_of_trade hs h

/-! ### Flushes and the stop -/

lemma moves_of_flush (hs : Sound s) {who : Flusher} {f : Flush C} (h : s.flushOf who = some f) :
    Moves E s := by
  obtain ⟨cut, pc⟩ := f
  cases pc with
  | collecting todo ws =>
      cases todo with
      | nil => exact ⟨_, _, rfl, .merge h⟩
      | cons i todo =>
          by_cases hm : (s.shards i).mutex = none
          · exact ⟨_, _, rfl, .lockShard h hm⟩
          · exact moves_of_mutex hs hm
  | extracting i todo ws => exact ⟨_, _, rfl, .extract h⟩
  | writing todo =>
      cases todo with
      | nil => exact ⟨_, _, rfl, .finish h⟩
      | cons snapshot todo => exact ⟨_, _, rfl, .write h⟩

/-- The writer goes on once it has been notified, until it has exited. -/
lemma moves_of_writer (hs : Sound s) (h : s.writer ≠ .exited) (hst : s.stopper = .joiningWriter) :
    Moves E s := by
  have hr := hs.locked.told (.inr hst)
  cases hw : s.writer with
  | acquiring b =>
      by_cases hm : s.stopMutex = none
      · exact ⟨_, _, rfl, .writerLock hw hm⟩
      · exact moves_of_stopMutex hs hm
  | testing b => exact moves_of_testing hw
  | asleep =>
      rcases hs.locked.awake hw with hf | hn
      · rw [hr] at hf
        cases hf
      · rw [hst] at hn
        cases hn
  | readingClock => exact ⟨.readClock 0, _, rfl, .readClock hw⟩
  | flushing f => exact moves_of_flush hs (flushOf_writer.mpr hw)
  | exited => exact absurd hw h

/-- `stop` joins a thread only when the thread is about to exit or others go on before it. -/
theorem moves_of_inStop (hs : Sound s) (h : InStop s) : Moves E s := by
  have hstops := hs.ordered.stops
  cases hst : s.stopper with
  | idle => exact absurd hst h.1
  | locking =>
      by_cases hm : s.stopMutex = none
      · exact ⟨_, _, rfl, .stopLock hst hm⟩
      · exact moves_of_stopMutex hs hm
  | setting => exact ⟨_, _, rfl, .stopSet hst⟩
  | notifying =>
      by_cases hw : s.writer = .asleep
      · exact ⟨_, _, rfl, .stopWake hst hw⟩
      · exact ⟨_, _, rfl, .stopNotify hst hw⟩
  | joiningWriter =>
      by_cases hw : s.writer = .exited
      · exact ⟨_, _, rfl, .joinWriter hst hw⟩
      · exact moves_of_writer hs hw hst
  | closingRaw => exact ⟨_, _, rfl, .closeRaw hst⟩
  | joiningParser =>
      rw [hst] at hstops
      by_cases hp : s.parser = .exited
      · exact ⟨_, _, rfl, .joinParser hst hp⟩
      · exact moves_of_parserThread hs hp (.inl hstops)
  | closingShards todo =>
      cases todo with
      | nil => exact ⟨_, _, rfl, .shardsClosed hst⟩
      | cons i todo => exact ⟨_, _, rfl, .closeShard hst⟩
  | joiningAggs todo =>
      rw [hst] at hstops
      cases todo with
      | nil => exact ⟨_, _, rfl, .aggsJoined hst⟩
      | cons i todo =>
          by_cases ht : (s.shards i).thread = .exited
          · exact ⟨_, _, rfl, .joinAgg hst ht⟩
          · exact moves_of_thread hs ht (.inl (hstops.1 i))
  | flushing f => exact moves_of_flush hs (flushOf_stopper.mpr hst)
  | returned => exact absurd hst h.2

/-! ### Where there is nothing to do -/

/-- Every thread waits for one before it, and the writer for its timer. -/
structure Waiting (s : St C) : Prop where
  submitters : ∀ k, s.submitters k = none
  raw : s.raw.pop = none
  parser : s.parser = .popping
  queues : ∀ i, (s.shards i).queue.pop = none
  threads : ∀ i, (s.shards i).thread = .popping
  writer : s.writer = .asleep
  stopper : s.stopper = .idle

lemma Waiting.flushOf (hs : Waiting s) (who : Flusher) : s.flushOf who = none := by
  cases who <;> simp [St.flushOf, hs.writer, hs.stopper]

/-- No thread has a step. -/
lemma Waiting.isOwed (hs : Waiting s) (h : Step E s a s') : a.isOwed = false := by
  cases h with
  | submit _ | stopCall _ | writerWake _ => rfl
  | push h _ => cases (hs.submitters _).symm.trans h
  | popRaw _ hq | parserExit _ hq => cases hs.raw.symm.trans hq
  | parseTrade h _ | parseNone h _ | pushTrade h _ _ => cases hs.parser.symm.trans h
  | popTrade _ hq | aggExit _ hq => cases (hs.queues _).symm.trans hq
  | aggLock h _ | aggAdd h => cases (hs.threads _).symm.trans h
  | writerLock h _ | writerExit h _ | writerTick h _ | writerSleep h _ | readClock h =>
      cases hs.writer.symm.trans h
  | lockShard h _ | extract h | merge h | write h | finish h => cases (hs.flushOf _).symm.trans h
  | stopLock h _ | stopSet h | stopWake h _ | stopNotify h _ | joinWriter h _ | closeRaw h
  | joinParser h _ | closeShard h | shardsClosed h | joinAgg h _ | aggsJoined h =>
      cases hs.stopper.symm.trans h

end BinanceAggregator.Pipeline
