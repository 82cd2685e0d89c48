import BinanceAggregator.Pipeline

/-!
The transitions of the pipeline, one by one.

The step function is turned into a relation with one case for each thing that can happen, with
what has to hold before and the state after. What follows about runs is by cases on it.
-/

namespace BinanceAggregator

namespace BoundedQueue

variable {T : Type} [DecidableEq T] {q q' : BoundedQueue T}

lemma perform_push {x : T} {ok : Bool} :
    q.perform (.push x, .pushed ok) = some q' ↔ q.push x = some (ok, q') := by
  rw [perform_eq_some, exec]
  rcases q.push x with _ | ⟨r, q''⟩ <;> simp

lemma perform_pop {x : Option T} :
    q.perform (.pop, .popped x) = some q' ↔ q.pop = some (x, q') := by
  rw [perform_eq_some, exec]
  rcases q.pop with _ | ⟨r, q''⟩ <;> simp

end BoundedQueue

namespace Pipeline

variable {C : Config} (E : Env)

/-- What can happen, with the condition under which it does. -/
inductive Step (s : St C) : Act C → St C → Prop
  | submit {k : ℕ} {m : Str} (h : s.submitters k = none) :
      Step s (.submit k m) { s with submitters := Function.update s.submitters k (some m) }
  | push {k : ℕ} {m : Str} {ok : Bool} {q : BoundedQueue Str} (h : s.submitters k = some m)
      (hq : s.raw.push m = some (ok, q)) :
      Step s (.push k m ok) { s with raw := q, submitters := Function.update s.submitters k none }
  | popRaw {m : Str} {q : BoundedQueue Str} (h : s.parser = .popping)
      (hq : s.raw.pop = some (some m, q)) :
      Step s (.parserPop (some m)) { s with raw := q, parser := .parsing m }
  | parserExit {q : BoundedQueue Str} (h : s.parser = .popping) (hq : s.raw.pop = some (none, q)) :
      Step s (.parserPop none) { s with raw := q, parser := .exited }
  | parseTrade {m : Str} {t : TradeEvent} (h : s.parser = .parsing m)
      (ht : TradeParser.parse E.jsonParse m = some t) :
      Step s (.parserParse m) { s with parser := .pushing t }
  | parseNone {m : Str} (h : s.parser = .parsing m)
      (ht : TradeParser.parse E.jsonParse m = none) :
      Step s (.parserParse m) { s with parser := .popping }
  | pushTrade {t : TradeEvent} {ok : Bool} {i : Index C} {q : BoundedQueue TradeEvent}
      (h : s.parser = .pushing t) (hi : i = shardIndexForSymbol E C t.symbol)
      (hq : (s.shards i).queue.push t = some (ok, q)) :
      Step s (.parserPush t ok) { s.setShard i { s.shards i with queue := q } with parser := .popping }
  | popTrade {i : Index C} {t : TradeEvent} {q : BoundedQueue TradeEvent}
      (h : (s.shards i).thread = .popping) (hq : (s.shards i).queue.pop = some (some t, q)) :
      Step s (.aggPop i (some t)) (s.setShard i { s.shards i with queue := q, thread := .locking t })
  | aggExit {i : Index C} {q : BoundedQueue TradeEvent}
      (h : (s.shards i).thread = .popping) (hq : (s.shards i).queue.pop = some (none, q)) :
      Step s (.aggPop i none) (s.setShard i { s.shards i with queue := q, thread := .exited })
  | aggLock {i : Index C} {t : TradeEvent} (h : (s.shards i).thread = .locking t)
      (hm : (s.shards i).mutex = none) :
      Step s (.aggLock i)
        (s.setShard i { s.shards i with mutex := some .aggregation, thread := .adding t })
  | aggAdd {i : Index C} {t : TradeEvent} (h : (s.shards i).thread = .adding t) :
      Step s (.aggAdd i t) (s.setShard i { s.shards i with
        mutex := none, aggregator := (s.shards i).aggregator.addTrade t, thread := .popping })
  | writerLock {b : Bool} (h : s.writer = .acquiring b) (hm : s.stopMutex = none) :
      Step s .writerLock { s with writer := .testing b, stopMutex := some .writer }
  | writerExit {b : Bool} (h : s.writer = .testing b) (hr : s.stopRequested = true) :
      Step s .writerTest { s with writer := .exited, stopMutex := none }
  | writerTick (h : s.writer = .testing true) (hr : s.stopRequested = false) :
      Step s .writerTest { s with writer := .readingClock, stopMutex := none }
  | writerSleep (h : s.writer = .testing false) (hr : s.stopRequested = false) :
      Step s .writerTest { s with writer := .asleep, stopMutex := none }
  | writerWake {b : Bool} (h : s.writer = .asleep) :
      Step s (.writerWake b) { s with writer := .acquiring b }
  | readClock {nowMs : UInt64} (h : s.writer = .readingClock) :
      Step s (.readClock nowMs) { s with
        writer := .flushing (beginFlush C (.completed (currentWindowStartMs C.windowMs nowMs))) }
  | lockShard {who : Flusher} {i : Index C} {cut : MarketDataAggregator.Cut} {todo : List (Index C)}
      {ws : List WindowStats} (h : s.flushOf who = some ⟨cut, .collecting (i :: todo) ws⟩)
      (hm : (s.shards i).mutex = none) :
      Step s (.lockShard who i) ((s.setShard i { s.shards i with
        mutex := some (.flusher who) }).setFlush who ⟨cut, .extracting i todo ws⟩)
  | extract {who : Flusher} {i : Index C} {cut : MarketDataAggregator.Cut} {todo : List (Index C)}
      {ws : List WindowStats} (h : s.flushOf who = some ⟨cut, .extracting i todo ws⟩) :
      Step s (.extract who i cut ((s.shards i).aggregator.extract cut).1)
        ((s.setShard i { s.shards i with
          mutex := none, aggregator := ((s.shards i).aggregator.extract cut).2 }).setFlush who
            ⟨cut, .collecting todo (ws ++ ((s.shards i).aggregator.extract cut).1)⟩)
  | merge {who : Flusher} {cut : MarketDataAggregator.Cut} {ws : List WindowStats}
      (h : s.flushOf who = some ⟨cut, .collecting [] ws⟩) :
      Step s (.merge who) (s.setFlush who ⟨cut, .writing (writeWindows E ws)⟩)
  | write {who : Flusher} {cut : MarketDataAggregator.Cut} {snapshot : StatsSnapshot}
      {todo : List StatsSnapshot} (h : s.flushOf who = some ⟨cut, .writing (snapshot :: todo)⟩) :
      Step s (.write who snapshot) (s.setFlush who ⟨cut, .writing todo⟩)
  | finish {who : Flusher} {cut : MarketDataAggregator.Cut}
      (h : s.flushOf who = some ⟨cut, .writing []⟩) :
      Step s (.finish who) (s.endFlush who)
  | stopCall (h : s.stopper = .idle ∨ s.stopper = .returned) :
      Step s .stopCall { s with stopper := .locking }
  | stopLock (h : s.stopper = .locking) (hm : s.stopMutex = none) :
      Step s .stopLock { s with stopper := .setting, stopMutex := some .stopper }
  | stopSet (h : s.stopper = .setting) :
      Step s .stopSet { s with stopper := .notifying, stopMutex := none, stopRequested := true }
  | stopWake (h : s.stopper = .notifying) (hw : s.writer = .asleep) :
      Step s .stopNotify { s with stopper := .joiningWriter, writer := .acquiring false }
  | stopNotify (h : s.stopper = .notifying) (hw : s.writer ≠ .asleep) :
      Step s .stopNotify { s with stopper := .joiningWriter }
  | joinWriter (h : s.stopper = .joiningWriter) (hw : s.writer = .exited) :
      Step s .joinWriter { s with stopper := .closingRaw }
  | closeRaw (h : s.stopper = .closingRaw) :
      Step s .closeRaw { s with stopper := .joiningParser, raw := s.raw.shutdown }
  | joinParser (h : s.stopper = .joiningParser) (hp : s.parser = .exited) :
      Step s .joinParser { s with stopper := .closingShards (List.finRange _) }
  | closeShard {i : Index C} {todo : List (Index C)} (h : s.stopper = .closingShards (i :: todo)) :
      Step s (.closeShard i)
        { s.setShard i { s.shards i with queue := (s.shards i).queue.shutdown } with
          stopper := .closingShards todo }
  | shardsClosed (h : s.stopper = .closingShards []) :
      Step s .shardsClosed { s with stopper := .joiningAggs (List.finRange _) }
  | joinAgg {i : Index C} {todo : List (Index C)} (h : s.stopper = .joiningAggs (i :: todo))
      (ha : (s.shards i).thread = .exited) :
      Step s (.joinAgg i) { s with stopper := .joiningAggs todo }
  | aggsJoined (h : s.stopper = .joiningAggs []) :
      Step s .aggsJoined { s with stopper := .flushing (beginFlush C .all) }

variable {E} {s s' : St C} {a : Act C}

/-- Each of them is a step. -/
lemma step_of (h : Step E s a s') : step E s a = some s' := by
  cases h with
  | push h hq => simp [step, h, BoundedQueue.perform_push.mpr hq]
  | popRaw h hq | parserExit h hq => simp [step, h, BoundedQueue.perform_pop.mpr hq]
  | pushTrade h hi hq =>
      subst hi
      simp [step, h, BoundedQueue.perform_push.mpr hq]
  | popTrade h hq | aggExit h hq => simp [step, h, BoundedQueue.perform_pop.mpr hq]
  | stopCall h => rcases h with h | h <;> simp [step, h]
  | stopNotify h hw => simp only [step, h]
  | _ => simp_all [step]

/-- Every step is one of them. -/
lemma step_cases (h : step E s a = some s') : Step E s a s' := by
  cases a with
  | submit k m =>
      simp only [step] at h
      split at h <;> cases h
      exact .submit ‹_›
  | push k m ok =>
      simp only [step] at h
      split_ifs at h with hk
      obtain ⟨q, hq, rfl⟩ := Option.map_eq_some_iff.mp h
      exact .push hk (BoundedQueue.perform_push.mp hq)
  | parserPop raw =>
      simp only [step] at h
      split at h
      · obtain ⟨q, hq, rfl⟩ := Option.map_eq_some_iff.mp h
        cases raw with
        | none => exact .parserExit ‹_› (BoundedQueue.perform_pop.mp hq)
        | some m => exact .popRaw ‹_› (BoundedQueue.perform_pop.mp hq)
      · cases h
  | parserParse raw =>
      simp only [step] at h
      split at h
      · split_ifs at h with hm
        cases h
        subst hm
        split
        · exact .parseTrade ‹_› ‹_›
        · exact .parseNone ‹_› ‹_›
      · cases h
  | parserPush t ok =>
      simp only [step] at h
      split at h
      · split_ifs at h with ht
        subst ht
        obtain ⟨q, hq, rfl⟩ := Option.map_eq_some_iff.mp h
        exact .pushTrade ‹_› rfl (BoundedQueue.perform_push.mp hq)
      · cases h
  | aggPop i t =>
      simp only [step] at h
      split at h
      · obtain ⟨q, hq, rfl⟩ := Option.map_eq_some_iff.mp h
        cases t with
        | none => exact .aggExit ‹_› (BoundedQueue.perform_pop.mp hq)
        | some t => exact .popTrade ‹_› (BoundedQueue.perform_pop.mp hq)
      · cases h
  | aggLock i =>
      simp only [step] at h
      split at h <;> cases h
      exact .aggLock ‹_› ‹_›
  | aggAdd i t =>
      simp only [step] at h
      split at h
      · split_ifs at h with ht
        subst ht
        cases h
        exact .aggAdd ‹_›
      · cases h
  | writerLock =>
      simp only [step] at h
      split at h <;> cases h
      exact .writerLock ‹_› ‹_›
  | writerTest =>
      simp only [step] at h
      split at h
      · rename_i timedOut hw
        cases h
        cases hr : s.stopRequested with
        | true => simpa [hr] using Step.writerExit hw hr
        | false =>
            cases timedOut with
            | true => simpa [hr] using Step.writerTick hw hr
            | false => simpa [hr] using Step.writerSleep hw hr
      · cases h
  | writerWake b =>
      simp only [step] at h
      split at h <;> cases h
      exact .writerWake ‹_›
  | readClock now =>
      simp only [step] at h
      split at h <;> cases h
      exact .readClock ‹_›
  | lockShard who i =>
      simp only [step] at h
      split at h
      · split_ifs at h with hi
        subst hi
        cases h
        exact .lockShard ‹_› ‹_›
      · cases h
  | extract who i cut l =>
      simp only [step] at h
      split at h
      · split_ifs at h with hi
        obtain ⟨rfl, rfl, rfl⟩ := hi
        cases h
        exact .extract ‹_›
      · cases h
  | merge who =>
      simp only [step] at h
      split at h <;> cases h
      exact .merge ‹_›
  | write who snapshot =>
      simp only [step] at h
      split at h
      · split_ifs at h with hs
        subst hs
        cases h
        exact .write ‹_›
      · cases h
  | finish who =>
      simp only [step] at h
      split at h <;> cases h
      exact .finish ‹_›
  | stopCall =>
      simp only [step] at h
      split at h <;> cases h
      · exact .stopCall (.inl ‹_›)
      · exact .stopCall (.inr ‹_›)
  | stopLock =>
      simp only [step] at h
      split at h <;> cases h
      exact .stopLock ‹_› ‹_›
  | stopSet =>
      simp only [step] at h
      split at h <;> cases h
      exact .stopSet ‹_›
  | stopNotify =>
      simp only [step] at h
      split at h
      · cases h
        split
        · exact .stopWake ‹_› ‹_›
        · exact .stopNotify ‹_› ‹_›
      · cases h
  | joinWriter =>
      simp only [step] at h
      split at h <;> cases h
      exact .joinWriter ‹_› ‹_›
  | closeRaw =>
      simp only [step] at h
      split at h <;> cases h
      exact .closeRaw ‹_›
  | joinParser =>
      simp only [step] at h
      split at h <;> cases h
      exact .joinParser ‹_› ‹_›
  | closeShard i =>
      simp only [step] at h
      split at h
      · split_ifs at h with hi
        subst hi
        cases h
        exact .closeShard ‹_›
      · cases h
  | shardsClosed =>
      simp only [step] at h
      split at h <;> cases h
      exact .shardsClosed ‹_›
  | joinAgg i =>
      simp only [step] at h
      split at h
      · split_ifs at h with hi
        subst hi
        cases h
        exact .joinAgg ‹_› ‹_›
      · cases h
  | aggsJoined =>
      simp only [step] at h
      split at h <;> cases h
      exact .aggsJoined ‹_›

end Pipeline

end BinanceAggregator
