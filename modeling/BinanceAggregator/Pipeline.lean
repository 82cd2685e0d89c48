import Mathlib.Logic.Function.Basic
import BinanceAggregator.Queue
import BinanceAggregator.Snapshot
import BinanceAggregator.TradeParser

/-!
The pipeline: submitters, the parser, one aggregation thread for each shard, the writer, and
the thread that stops them all.

A step is what one thread does between two points at which another could see it: an operation
on a queue, a critical section, a write to the sink. The operations on queues are whole, as the
queue under threads shows they may be taken. A thread that waits has no step until what it
waits for holds. The actions taken carry what was passed between the threads, so that the
history of a run says what was submitted, added, extracted and written.
-/

namespace BinanceAggregator

open MarketDataAggregator

/-- What the program is linked with: the JSON library, the hash of a string, the text of a
number of seconds, and the sorting. -/
structure Env where
  jsonParse : Str → Option Json
  hash : Str → UInt64
  formatSeconds : UInt64 → Str
  symbolSort : SymbolSort

/-- What a pipeline is constructed with. The flush interval is left out: a timer may fire at
any time. -/
structure Config where
  windowMs : UInt64
  queueCapacity : ℕ
  aggregatorThreads : ℕ

namespace Config

def shardCount (C : Config) : ℕ := max C.aggregatorThreads 1

def perShardCapacity (C : Config) : ℕ := max (C.queueCapacity / C.shardCount) 1

lemma shardCount_pos (C : Config) : 0 < C.shardCount := by
  unfold shardCount
  omega

end Config

namespace Pipeline

/-- The index of a shard. -/
abbrev Index (C : Config) := Fin C.shardCount

/-- The two threads that flush. -/
inductive Flusher
  | writer
  | stopper
  deriving DecidableEq

/-- The threads that lock the mutex of a shard: its own and the two that flush. -/
inductive Holder
  | aggregation
  | flusher (who : Flusher)
  deriving DecidableEq

/-- `run_parser_stage`. -/
inductive ParserPc
  | popping
  | parsing (raw : Str)
  | pushing (trade : TradeEvent)
  | exited

/-- `run_aggregation_stage`. -/
inductive AggPc
  | popping
  | locking (trade : TradeEvent)
  | adding (trade : TradeEvent)
  | exited

/-- A shard, with the thread that serves it. -/
structure Shard where
  queue : BoundedQueue TradeEvent
  mutex : Option Holder := none
  aggregator : MarketDataAggregator
  thread : AggPc := .popping

variable (C : Config)

/-- The loop over the shards and the loop over the snapshots, of both flushes. -/
inductive FlushPc
  | collecting (todo : List (Index C)) (windows : List WindowStats)
  | extracting (i : Index C) (todo : List (Index C)) (windows : List WindowStats)
  | writing (todo : List StatsSnapshot)

structure Flush where
  cut : Cut
  pc : FlushPc C

/-- `run_writer_stage`. The wait tests its predicate, sleeps, and tests again; after a timeout
the test is the last one. -/
inductive WriterPc
  | acquiring (timedOut : Bool)
  | testing (timedOut : Bool)
  | asleep
  | readingClock
  | flushing (f : Flush C)
  | exited

/-- `stop`, which may be called again once it has returned. -/
inductive StopPc
  | idle
  | locking
  | setting
  | notifying
  | joiningWriter
  | closingRaw
  | joiningParser
  | closingShards (todo : List (Index C))
  | joiningAggs (todo : List (Index C))
  | flushing (f : Flush C)
  | returned

structure St where
  raw : BoundedQueue Str
  shards : Index C → Shard
  submitters : ℕ → Option Str
  parser : ParserPc
  writer : WriterPc C
  stopper : StopPc C
  stopMutex : Option Flusher
  stopRequested : Bool

/-- The pipeline when `start` has returned. -/
def start : St C where
  raw := .empty C.queueCapacity
  shards _ := { queue := .empty C.perShardCapacity, aggregator := .ofWindowMs C.windowMs }
  submitters _ := none
  parser := .popping
  writer := .acquiring false
  stopper := .idle
  stopMutex := none
  stopRequested := false

/-- What the threads do. Submitters have numbers; the network thread is one of them. -/
inductive Act
  | submit (k : ℕ) (message : Str)
  | push (k : ℕ) (message : Str) (ok : Bool)
  | parserPop (raw : Option Str)
  | parserParse (raw : Str)
  | parserPush (trade : TradeEvent) (ok : Bool)
  | aggPop (i : Index C) (trade : Option TradeEvent)
  | aggLock (i : Index C)
  | aggAdd (i : Index C) (trade : TradeEvent)
  | writerLock
  | writerTest
  | writerWake (timedOut : Bool)
  | readClock (nowMs : UInt64)
  | lockShard (who : Flusher) (i : Index C)
  | extract (who : Flusher) (i : Index C) (cut : Cut) (windows : List WindowStats)
  | merge (who : Flusher)
  | write (who : Flusher) (snapshot : StatsSnapshot)
  | finish (who : Flusher)
  | stopCall
  | stopLock
  | stopSet
  | stopNotify
  | joinWriter
  | closeRaw
  | joinParser
  | closeShard (i : Index C)
  | shardsClosed
  | joinAgg (i : Index C)
  | aggsJoined

variable {C}

namespace St

def setShard (s : St C) (i : Index C) (shard : Shard) : St C :=
  { s with shards := Function.update s.shards i shard }

/-- The flush a thread is in. -/
def flushOf (s : St C) : Flusher → Option (Flush C)
  | .writer => match s.writer with
    | .flushing f => some f
    | _ => none
  | .stopper => match s.stopper with
    | .flushing f => some f
    | _ => none

def setFlush (s : St C) (who : Flusher) (f : Flush C) : St C :=
  { s with
    writer := if who = .writer then .flushing f else s.writer
    stopper := if who = .stopper then .flushing f else s.stopper }

/-- The writer goes back to its wait; the stopping thread returns. -/
def endFlush (s : St C) (who : Flusher) : St C :=
  { s with
    writer := if who = .writer then .acquiring false else s.writer
    stopper := if who = .stopper then .returned else s.stopper }

end St

/-- `shard_index_for_symbol`. -/
def shardIndexForSymbol (E : Env) (C : Config) (symbol : Str) : Index C :=
  ⟨(E.hash symbol).toNat % C.shardCount, Nat.mod_lt _ C.shardCount_pos⟩

/-- The start of the window that is open at `nowMs`. -/
def currentWindowStartMs (windowMs nowMs : UInt64) : UInt64 := nowMs - nowMs % windowMs

/-- The beginning of a flush. -/
def beginFlush (C : Config) (cut : Cut) : Flush C := ⟨cut, .collecting (List.finRange _) []⟩

/-- The text of a snapshot, as it is passed to the sink. -/
def text (E : Env) (snapshot : StatsSnapshot) : Str :=
  StatsSerializer.serialize E.formatSeconds snapshot

/-- `write_windows`: the snapshots whose text is passed to the sink, in order. -/
def writeWindows (E : Env) (windows : List WindowStats) : List StatsSnapshot :=
  (snapshots E.symbolSort windows).filter fun snapshot => !(text E snapshot).isEmpty

/-- One step; `none` where the thread is elsewhere or has to wait. -/
def step (E : Env) (s : St C) : Act C → Option (St C)
  | .submit k message => match s.submitters k with
    | none => some { s with submitters := Function.update s.submitters k (some message) }
    | some _ => none
  | .push k message ok => if s.submitters k = some message then
      (s.raw.perform (.push message, .pushed ok)).map fun q =>
        { s with raw := q, submitters := Function.update s.submitters k none }
    else none
  | .parserPop raw => match s.parser with
    | .popping => (s.raw.perform (.pop, .popped raw)).map fun q =>
        { s with raw := q, parser := match raw with
            | some message => .parsing message
            | none => .exited }
    | _ => none
  | .parserParse raw => match s.parser with
    | .parsing message => if message = raw then
        some { s with parser := match TradeParser.parse E.jsonParse raw with
          | some trade => .pushing trade
          | none => .popping }
      else none
    | _ => none
  | .parserPush trade ok => match s.parser with
    | .pushing t => if t = trade then
        let i := shardIndexForSymbol E C trade.symbol
        ((s.shards i).queue.perform (.push trade, .pushed ok)).map fun q =>
          { s.setShard i { s.shards i with queue := q } with parser := .popping }
      else none
    | _ => none
  | .aggPop i trade => match (s.shards i).thread with
    | .popping => ((s.shards i).queue.perform (.pop, .popped trade)).map fun q =>
        s.setShard i { s.shards i with
          queue := q
          thread := match trade with
            | some trade => .locking trade
            | none => .exited }
    | _ => none
  | .aggLock i => match (s.shards i).thread, (s.shards i).mutex with
    | .locking trade, none => some (s.setShard i { s.shards i with
        mutex := some .aggregation, thread := .adding trade })
    | _, _ => none
  | .aggAdd i trade => match (s.shards i).thread with
    | .adding t => if t = trade then
        some (s.setShard i { s.shards i with
          mutex := none
          aggregator := (s.shards i).aggregator.addTrade trade
          thread := .popping })
      else none
    | _ => none
  | .writerLock => match s.writer, s.stopMutex with
    | .acquiring timedOut, none =>
      some { s with writer := .testing timedOut, stopMutex := some .writer }
    | _, _ => none
  | .writerTest => match s.writer with
    | .testing timedOut => some { s with
        stopMutex := none
        writer := if s.stopRequested then .exited else if timedOut then .readingClock else .asleep }
    | _ => none
  | .writerWake timedOut => match s.writer with
    | .asleep => some { s with writer := .acquiring timedOut }
    | _ => none
  | .readClock nowMs => match s.writer with
    | .readingClock => some { s with
        writer := .flushing (beginFlush C (.completed (currentWindowStartMs C.windowMs nowMs))) }
    | _ => none
  | .lockShard who i => match s.flushOf who, (s.shards i).mutex with
    | some ⟨cut, .collecting (j :: todo) windows⟩, none => if j = i then
        some ((s.setShard i { s.shards i with mutex := some (.flusher who) }).setFlush who
          ⟨cut, .extracting i todo windows⟩)
      else none
    | _, _ => none
  | .extract who i cut shardWindows => match s.flushOf who with
    | some ⟨c, .extracting j todo windows⟩ =>
      if j = i ∧ c = cut ∧ ((s.shards i).aggregator.extract cut).1 = shardWindows then
        some ((s.setShard i { s.shards i with
          mutex := none, aggregator := ((s.shards i).aggregator.extract cut).2 }).setFlush who
            ⟨cut, .collecting todo (windows ++ shardWindows)⟩)
      else none
    | _ => none
  | .merge who => match s.flushOf who with
    | some ⟨cut, .collecting [] windows⟩ =>
      some (s.setFlush who ⟨cut, .writing (writeWindows E windows)⟩)
    | _ => none
  | .write who snapshot => match s.flushOf who with
    | some ⟨cut, .writing (next :: todo)⟩ => if next = snapshot then
        some (s.setFlush who ⟨cut, .writing todo⟩)
      else none
    | _ => none
  | .finish who => match s.flushOf who with
    | some ⟨_, .writing []⟩ => some (s.endFlush who)
    | _ => none
  | .stopCall => match s.stopper with
    | .idle => some { s with stopper := .locking }
    | .returned => some { s with stopper := .locking }
    | _ => none
  | .stopLock => match s.stopper, s.stopMutex with
    | .locking, none => some { s with stopper := .setting, stopMutex := some .stopper }
    | _, _ => none
  | .stopSet => match s.stopper with
    | .setting => some { s with stopper := .notifying, stopMutex := none, stopRequested := true }
    | _ => none
  | .stopNotify => match s.stopper with
    | .notifying => some { s with
        stopper := .joiningWriter
        writer := match s.writer with
          | .asleep => .acquiring false
          | pc => pc }
    | _ => none
  | .joinWriter => match s.stopper, s.writer with
    | .joiningWriter, .exited => some { s with stopper := .closingRaw }
    | _, _ => none
  | .closeRaw => match s.stopper with
    | .closingRaw => some { s with stopper := .joiningParser, raw := s.raw.shutdown }
    | _ => none
  | .joinParser => match s.stopper, s.parser with
    | .joiningParser, .exited => some { s with stopper := .closingShards (List.finRange _) }
    | _, _ => none
  | .closeShard i => match s.stopper with
    | .closingShards (j :: todo) => if j = i then
        some { s.setShard i { s.shards i with queue := (s.shards i).queue.shutdown } with
          stopper := .closingShards todo }
      else none
    | _ => none
  | .shardsClosed => match s.stopper with
    | .closingShards [] => some { s with stopper := .joiningAggs (List.finRange _) }
    | _ => none
  | .joinAgg i => match s.stopper, (s.shards i).thread with
    | .joiningAggs (j :: todo), .exited => if j = i then
        some { s with stopper := .joiningAggs todo }
      else none
    | _, _ => none
  | .aggsJoined => match s.stopper with
    | .joiningAggs [] => some { s with stopper := .flushing (beginFlush C .all) }
    | _ => none

/-! ### What the history of a run says -/

/-- The messages whose push into the raw queue returned true, in order. -/
def accepted (tr : List (Act C)) : List Str := tr.filterMap fun a => match a with
  | .push _ message true => some message
  | _ => none

/-- The trade a message stands for. -/
def tradeOf (E : Env) (message : Str) : Option TradeEvent := TradeParser.parse E.jsonParse message

/-- The trades that the parser makes of the accepted messages. -/
def trades (E : Env) (tr : List (Act C)) : List TradeEvent := (accepted tr).filterMap (tradeOf E)

/-- The trades added to the shards, in order. -/
def added (tr : List (Act C)) : List TradeEvent := tr.filterMap fun a => match a with
  | .aggAdd _ trade => some trade
  | _ => none

/-- The windows extracted from the shards, in order. -/
def extracted (tr : List (Act C)) : List WindowStats := tr.flatMap fun a => match a with
  | .extract _ _ _ windows => windows
  | _ => []

/-- The snapshots whose text was passed to the sink, in order. -/
def written (tr : List (Act C)) : List StatsSnapshot := tr.filterMap fun a => match a with
  | .write _ snapshot => some snapshot
  | _ => none

/-- The windows in the snapshots written. -/
def writtenWindows (tr : List (Act C)) : List WindowStats := (written tr).flatMap (·.windows)

/-- The texts passed to the sink, in order. -/
def output (E : Env) (tr : List (Act C)) : List Str := (written tr).map (text E)

end Pipeline

end BinanceAggregator
