import Mathlib.Algebra.BigOperators.Group.Finset.Basic
import Mathlib.Algebra.BigOperators.Pi
import Mathlib.Algebra.Order.Group.Multiset
import Mathlib.Data.Fintype.BigOperators
import Mathlib.Tactic.Abel
import BinanceAggregator.PipelineShape

/-!
What goes through the pipeline, and what it leaves on the way.

Three laws, one for each stretch of the way, say that nothing is lost or doubled. The trades
accepted are those added to the shards and those in a queue or in the hands of a thread. The
trades added are, bucket by bucket, what the windows extracted and the windows still held add up
to. The windows extracted are those written and those in the hands of a thread that flushes.
-/

namespace BinanceAggregator.Pipeline

open Runs BoundedQueue MarketDataAggregator

variable {C : Config} {E : Env} {s s' : St C} {a : Act C} {tr : List (Act C)}

/-! ### What is where -/

def ParserPc.trades (E : Env) : ParserPc → List TradeEvent
  | .parsing raw => (tradeOf E raw).toList
  | .pushing trade => [trade]
  | _ => []

def AggPc.trades : AggPc → List TradeEvent
  | .locking trade => [trade]
  | .adding trade => [trade]
  | _ => []

@[simp] def FlushPc.windows : FlushPc C → List WindowStats
  | .collecting _ windows => windows
  | .extracting _ _ windows => windows
  | .writing todo => todo.flatMap (·.windows)

@[simp] def WriterPc.windows : WriterPc C → List WindowStats
  | .flushing f => f.pc.windows
  | _ => []

@[simp] def StopPc.windows : StopPc C → List WindowStats
  | .flushing f => f.pc.windows
  | _ => []

/-- The trades on their way to the aggregator of a shard. -/
def Shard.trades (shard : Shard) : List TradeEvent := shard.queue.items ++ shard.thread.trades

/-- The trades that are accepted and not yet added. -/
def inFlight (E : Env) (s : St C) : Multiset TradeEvent :=
  (s.raw.items.filterMap (tradeOf E) : Multiset TradeEvent) + s.parser.trades E
    + ∑ i, ((s.shards i).trades : Multiset TradeEvent)

/-- The windows that are extracted and not yet written. -/
def hands (writer : WriterPc C) (stopper : StopPc C) : Multiset WindowStats :=
  (writer.windows : Multiset WindowStats) + stopper.windows

lemma Quiet.inFlight_eq_zero (h : Quiet s) : inFlight E s = 0 := by
  have hshard (i : Index C) : ((s.shards i).trades : Multiset TradeEvent) = 0 := by
    rw [Shard.trades, h.items i, h.threads i]
    rfl
  rw [inFlight, Finset.sum_eq_zero fun i _ => hshard i, h.raw.2, h.parser]
  rfl

/-- Two sums that differ in one term. -/
lemma exists_sum_of_eq_off {M : Type*} [AddCommMonoid M] {n : ℕ} {f g : Fin n → M} {i : Fin n}
    (h : ∀ j, j ≠ i → g j = f j) : ∃ rest, ∑ j, f j = f i + rest ∧ ∑ j, g j = g i + rest := by
  refine ⟨∑ j ∈ Finset.univ.erase i, f j, ?_, ?_⟩
  · exact (Finset.add_sum_erase _ _ (Finset.mem_univ i)).symm
  · rw [← Finset.add_sum_erase _ _ (Finset.mem_univ i)]
    exact congrArg (g i + ·) (Finset.sum_congr rfl fun j hj => h j (Finset.ne_of_mem_erase hj))

/-! ### From the raw queue to the aggregators -/

/-- What is in flight after a step and what the step adds is what was in flight and what the
step accepts. -/
def Carries (E : Env) (a : Act C) (s s' : St C) : Prop :=
  inFlight E s' + added [a] = inFlight E s + trades E [a]

lemma carries_of_eq (hadd : added [a] = []) (ht : trades E [a] = [])
    (h : inFlight E s' = inFlight E s) : Carries E a s s' := by
  rw [Carries, hadd, ht, h]

/-- A step between the raw queue and the parser. -/
lemma inFlight_raw {q : BoundedQueue Str} {pc : ParserPc}
    (h : (q.items.filterMap (tradeOf E) ++ pc.trades E).Perm
      (s.raw.items.filterMap (tradeOf E) ++ s.parser.trades E)) :
    inFlight E { s with raw := q, parser := pc } = inFlight E s := by
  have hbag : (q.items.filterMap (tradeOf E) : Multiset TradeEvent) + pc.trades E =
      (s.raw.items.filterMap (tradeOf E) : Multiset TradeEvent) + s.parser.trades E := by
    rw [Multiset.coe_add, Multiset.coe_add]
    exact Multiset.coe_eq_coe.mpr h
  exact congrArg (· + ∑ i, ((s.shards i).trades : Multiset TradeEvent)) hbag

/-- A step that changes one shard, and moves what the shard gains from the parser. -/
lemma inFlight_setShard (i : Index C) (shard : Shard) (pc : ParserPc) (l : List TradeEvent)
    (h : (shard.trades ++ pc.trades E ++ l).Perm ((s.shards i).trades ++ s.parser.trades E)) :
    inFlight E { s.setShard i shard with parser := pc } + l = inFlight E s := by
  obtain ⟨rest, h1, h2⟩ := exists_sum_of_eq_off (i := i)
    (f := fun j => ((s.shards j).trades : Multiset TradeEvent))
    (g := fun j => (((s.setShard i shard).shards j).trades : Multiset TradeEvent))
    fun j hj => by rw [setShard_of_ne hj]
  rw [setShard_self] at h2
  have hbag : (shard.trades : Multiset TradeEvent) + pc.trades E + l =
      ((s.shards i).trades : Multiset TradeEvent) + s.parser.trades E := by
    rw [Multiset.coe_add, Multiset.coe_add, Multiset.coe_add]
    exact Multiset.coe_eq_coe.mpr h
  calc inFlight E { s.setShard i shard with parser := pc } + l
      = (s.raw.items.filterMap (tradeOf E) : Multiset TradeEvent) + pc.trades E
        + ∑ j, (((s.setShard i shard).shards j).trades : Multiset TradeEvent) + l := rfl
    _ = (s.raw.items.filterMap (tradeOf E) : Multiset TradeEvent)
        + (shard.trades + pc.trades E + l) + rest := by rw [h2]; abel
    _ = inFlight E s := by rw [hbag, inFlight, h1]; abel

lemma filterMap_cons_tradeOf (m : Str) (l : List Str) :
    (m :: l).filterMap (tradeOf E) = (tradeOf E m).toList ++ l.filterMap (tradeOf E) := by
  cases h : tradeOf E m <;> simp [h]

lemma inFlight_eq_of_shard {i : Index C} {shard : Shard} {pc : ParserPc}
    (h : (shard.trades ++ pc.trades E).Perm ((s.shards i).trades ++ s.parser.trades E)) :
    inFlight E { s.setShard i shard with parser := pc } = inFlight E s := by
  have hl := inFlight_setShard (s := s) i shard pc [] (by simpa using h)
  rwa [Multiset.coe_nil, add_zero] at hl

lemma step_carries (ho : Ordered s) (h : Step E s a s') : Carries E a s s' := by
  cases h with
  | @push k m ok q _ hq =>
      obtain ⟨-, -, -, hitems⟩ := push_eq_some hq
      cases ok with
      | true =>
          have ht : trades E [Act.push (C := C) k m true] = [m].filterMap (tradeOf E) := rfl
          have hadd : added [Act.push (C := C) k m true] = [] := rfl
          rw [Carries, ht, hadd, inFlight, inFlight, hitems, if_pos rfl, List.filterMap_append,
            ← Multiset.coe_add, Multiset.coe_nil]
          abel
      | false => exact carries_of_eq rfl rfl (inFlight_raw (by simp [hitems]))
  | popRaw h hq =>
      obtain ⟨-, -, hitems, -⟩ := pop_eq_some hq
      refine carries_of_eq rfl rfl (inFlight_raw ?_)
      rw [hitems, h, Option.toList_some, List.singleton_append, filterMap_cons_tradeOf]
      simpa [ParserPc.trades] using List.perm_append_comm
  | parserExit h hq =>
      obtain ⟨-, -, hitems, -⟩ := pop_eq_some hq
      exact carries_of_eq rfl rfl (inFlight_raw (by simp [hitems, h, ParserPc.trades]))
  | parseTrade h ht | parseNone h ht =>
      exact carries_of_eq rfl rfl (inFlight_raw (by simp [h, ParserPc.trades, tradeOf, ht]))
  | @pushTrade t ok i q h _ hq =>
      obtain ⟨-, -, hok, hitems⟩ := push_eq_some hq
      -- the queue is open while the parser is running, so the trade is taken
      cases ok with
      | false => simp [ho.queues i hok] at h
      | true =>
          refine carries_of_eq rfl rfl (inFlight_eq_of_shard ?_)
          simpa [Shard.trades, hitems, h, ParserPc.trades] using
            (List.perm_append_singleton t _).symm.append_left _
  | popTrade h hq | aggExit h hq =>
      obtain ⟨-, -, hitems, -⟩ := pop_eq_some hq
      refine carries_of_eq rfl rfl (inFlight_eq_of_shard ?_)
      simp [Shard.trades, hitems, h, AggPc.trades]
  | aggLock h _ =>
      refine carries_of_eq rfl rfl (inFlight_eq_of_shard ?_)
      simp [Shard.trades, h, AggPc.trades]
  | @aggAdd i t h =>
      have hadd : added [Act.aggAdd (C := C) i t] = [t] := rfl
      have ht : trades E [Act.aggAdd (C := C) i t] = [] := rfl
      rw [Carries, hadd, ht, Multiset.coe_nil, add_zero]
      refine inFlight_setShard _ _ _ _ ?_
      simpa [Shard.trades, h, AggPc.trades] using
        (List.perm_append_singleton t _).append_left _
  | lockShard _ _ | extract _ | closeShard _ =>
      exact carries_of_eq rfl rfl (inFlight_eq_of_shard (.refl _))
  | _ => exact carries_of_eq rfl rfl rfl

/-! ### In the aggregators -/

/-- What a step does to the aggregators. -/
inductive AggStep (a : Act C) (s s' : St C) : Prop
  | keep (hadd : added [a] = []) (hext : extracted [a] = [])
      (hno : ∀ who i c l, a ≠ .extract who i c l) (hna : ∀ i t, a ≠ .aggAdd i t)
      (h : ∀ i, (s'.shards i).aggregator = (s.shards i).aggregator)
  | add (i : Index C) (t : TradeEvent) (ha : a = .aggAdd i t) (hpc : (s.shards i).thread = .adding t)
      (hi : (s'.shards i).aggregator = (s.shards i).aggregator.addTrade t)
      (hj : ∀ j, j ≠ i → (s'.shards j).aggregator = (s.shards j).aggregator)
  | extract (who : Flusher) (i : Index C) (f : Flush C) (todo : List (Index C))
      (ws : List WindowStats) (ha : a = .extract who i f.cut ((s.shards i).aggregator.extract f.cut).1)
      (hf : s.flushOf who = some f) (hpc : f.pc = .extracting i todo ws)
      (hi : (s'.shards i).aggregator = ((s.shards i).aggregator.extract f.cut).2)
      (hj : ∀ j, j ≠ i → (s'.shards j).aggregator = (s.shards j).aggregator)

lemma step_aggregators (h : Step E s a s') : AggStep a s s' := by
  have hset := forall_setShard (s := s)
    (P := fun j x => x.aggregator = (s.shards j).aggregator) fun _ => rfl
  cases h with
  | @push k m ok q _ _ => exact .keep (by cases ok <;> rfl) rfl nofun nofun fun _ => rfl
  | @pushTrade _ _ i _ _ _ _ | @popTrade i _ _ _ _ | @aggExit i _ _ _ | @aggLock i _ _ _
  | @lockShard _ i _ _ _ _ _ | @closeShard i _ _ =>
      exact .keep rfl rfl nofun nofun (hset i _ rfl)
  | @aggAdd i t h =>
      refine .add i t rfl h ?_ fun j hj => ?_
      · exact congrArg (·.aggregator) (setShard_self i _)
      · exact congrArg (·.aggregator) (setShard_of_ne hj _)
  | @extract who i cut todo ws h =>
      refine .extract who i ⟨cut, .extracting i todo ws⟩ todo ws rfl h rfl ?_ fun j hj => ?_
      · exact congrArg (·.aggregator) (setShard_self i _)
      · exact congrArg (·.aggregator) (setShard_of_ne hj _)
  | _ => exact .keep rfl rfl nofun nofun fun _ => rfl

lemma step_tables (hb : Built s) (h : AggStep a s s') :
    windowTally (extracted [a]) + ∑ i, (s'.shards i).aggregator.table =
      ∑ i, (s.shards i).aggregator.table + tradeTally C.windowMs (added [a]) := by
  cases h with
  | keep hadd hext _ _ h => simp [hadd, hext, h]
  | add i t ha _ hi hj =>
      obtain ⟨rest, h1, h2⟩ := exists_sum_of_eq_off
        (f := fun j => (s.shards j).aggregator.table) (g := fun j => (s'.shards j).aggregator.table)
        (fun j hne => by rw [hj j hne])
      have hext : extracted [a] = [] := by rw [ha]; rfl
      have hadd : added [a] = [t] := by rw [ha]; rfl
      rw [h1, h2, hi, table_addTrade, (hb.shards i).2, hext, hadd, windowTally_nil]
      abel
  | extract who i f todo ws ha hf _ hi hj =>
      obtain ⟨rest, h1, h2⟩ := exists_sum_of_eq_off
        (f := fun j => (s.shards j).aggregator.table) (g := fun j => (s'.shards j).aggregator.table)
        (fun j hne => by rw [hj j hne])
      have hext : extracted [a] = ((s.shards i).aggregator.extract f.cut).1 := by
        rw [ha]
        exact List.append_nil _
      have hadd : added [a] = [] := by rw [ha]; rfl
      rw [h1, h2, hi, hext, hadd, tradeTally_nil, ← (s.shards i).aggregator.extract_split f.cut]
      abel

/-! ### From the aggregators to the sink -/

/-- What the threads that flush hold, with one of them set apart. -/
lemma exists_hands {who : Flusher} {f : Flush C} (h : s.flushOf who = some f) :
    ∃ rest, hands s.writer s.stopper = f.pc.windows + rest ∧
      (∀ g, hands (s.setFlush who g).writer (s.setFlush who g).stopper = g.pc.windows + rest) ∧
      hands (s.endFlush who).writer (s.endFlush who).stopper = rest := by
  cases who with
  | writer =>
      rw [flushOf_writer] at h
      exact ⟨s.stopper.windows, by rw [hands, h]; rfl, fun g => rfl,
        by simp [hands, St.endFlush]⟩
  | stopper =>
      rw [flushOf_stopper] at h
      refine ⟨s.writer.windows, ?_, fun g => ?_, ?_⟩
      · rw [hands, h, add_comm]
        rfl
      · rw [add_comm]
        rfl
      · simp [hands, St.endFlush]

/-- What is to be written holds the windows collected. -/
lemma writeWindows_eq (E : Env) (ws : List WindowStats) :
    writeWindows E ws = snapshots E.symbolSort ws := by
  refine List.filter_eq_self.mpr fun x hx => ?_
  rw [Bool.not_eq_true', List.isEmpty_eq_false_iff, text]
  intro hnil
  exact snapshot_ne_nil _ hx ((StatsSerializer.serialize_eq_nil_iff _ _).mp hnil)

/-- What a step writes and what it leaves in the hands of the threads that flush is what they
held and what the step extracts. -/
def Delivers (a : Act C) (s s' : St C) : Prop :=
  (writtenWindows [a] : Multiset WindowStats) + hands s'.writer s'.stopper =
    hands s.writer s.stopper + extracted [a]

lemma delivers_of_eq (hw : writtenWindows [a] = []) (hx : extracted [a] = [])
    (h : hands s'.writer s'.stopper = hands s.writer s.stopper) : Delivers a s s' := by
  rw [Delivers, hw, hx, h, add_comm]

lemma step_delivers (h : Step E s a s') : Delivers a s s' := by
  cases h with
  | @push k m ok q _ _ => exact delivers_of_eq (by cases ok <;> rfl) rfl rfl
  | lockShard h _ =>
      obtain ⟨rest, h1, h2, -⟩ := exists_hands h
      exact delivers_of_eq rfl rfl ((h2 _).trans h1.symm)
  | @extract who i cut todo ws h =>
      obtain ⟨rest, h1, h2, -⟩ := exists_hands h
      have hw : writtenWindows [Act.extract who i cut ((s.shards i).aggregator.extract cut).1] = [] :=
        rfl
      have hx : extracted [Act.extract who i cut ((s.shards i).aggregator.extract cut).1] =
        ((s.shards i).aggregator.extract cut).1 := List.append_nil _
      rw [Delivers, hw, hx, h1, Multiset.coe_nil, zero_add]
      refine (h2 _).trans ?_
      simp only [FlushPc.windows, ← Multiset.coe_add]
      abel
  | @merge who cut ws h =>
      obtain ⟨rest, h1, h2, -⟩ := exists_hands h
      refine delivers_of_eq rfl rfl ((h2 _).trans (Eq.trans ?_ h1.symm))
      rw [FlushPc.windows, FlushPc.windows, writeWindows_eq]
      exact congrArg (· + rest) (Multiset.coe_eq_coe.mpr (snapshots_perm _ ws))
  | @write who cut snapshot todo h =>
      obtain ⟨rest, h1, h2, -⟩ := exists_hands h
      have hw : writtenWindows [Act.write (C := C) who snapshot] = snapshot.windows := by
        simp [writtenWindows, written]
      have hx : extracted [Act.write (C := C) who snapshot] = [] := rfl
      rw [Delivers, hw, hx, h1, h2, FlushPc.windows, FlushPc.windows, List.flatMap_cons,
        ← Multiset.coe_add, Multiset.coe_nil]
      abel
  | finish h =>
      obtain ⟨rest, h1, -, h2⟩ := exists_hands h
      refine delivers_of_eq rfl rfl (h2.trans (Eq.trans ?_ h1.symm))
      simp
  | writerLock h _ | writerExit h _ | writerTick h _ | writerSleep h _ | writerWake h
  | stopLock h _ | stopSet h | stopNotify h _ | joinWriter h _ | closeRaw h | joinParser h _
  | shardsClosed h | joinAgg h _ =>
      exact delivers_of_eq rfl rfl (by simp [hands, h])
  | closeShard h => exact delivers_of_eq rfl rfl (by simp [hands, h, St.setShard])
  | readClock h | aggsJoined h => exact delivers_of_eq rfl rfl (by simp [hands, h, beginFlush])
  | stopCall h => exact delivers_of_eq rfl rfl (by rcases h with h | h <;> simp [hands, h])
  | stopWake h hw => exact delivers_of_eq rfl rfl (by simp [hands, h, hw])
  | _ => exact delivers_of_eq rfl rfl rfl

/-! ### Whole runs -/

lemma trades_append (u v : List (Act C)) : trades E (u ++ v) = trades E u ++ trades E v := by
  simp [trades, accepted]

lemma written_append (u v : List (Act C)) : written (u ++ v) = written u ++ written v :=
  List.filterMap_append

lemma writtenWindows_append (u v : List (Act C)) :
    writtenWindows (u ++ v) = writtenWindows u ++ writtenWindows v := by
  simp [writtenWindows, written_append]

lemma added_append (u v : List (Act C)) : added (u ++ v) = added u ++ added v :=
  List.filterMap_append

lemma extracted_append (u v : List (Act C)) : extracted (u ++ v) = extracted u ++ extracted v :=
  List.flatMap_append

lemma inFlight_start : inFlight E (start C) = 0 := by
  have hshard (i : Index C) : (((start C).shards i).trades : Multiset TradeEvent) = 0 := by
    simp [start, Shard.trades, BoundedQueue.empty, AggPc.trades]
  rw [inFlight, Finset.sum_eq_zero fun i _ => hshard i]
  simp [start, BoundedQueue.empty, ParserPc.trades]

/-- **Trades**: those accepted are those added and those on their way. -/
theorem run_trades (h : run (step E) (start C) tr = some s) :
    inFlight E s + added tr = trades E tr := by
  refine run_inv (P := fun tr s => inFlight E s + added tr = trades E tr) ?_ ?_ h
  · rw [inFlight_start]
    rfl
  · intro tr s a s' hr hc ha
    have hstep : Carries E a s s' := step_carries (run_ordered hr) (step_cases ha)
    rw [added_append, trades_append, ← Multiset.coe_add, ← Multiset.coe_add, ← hc,
      add_right_comm, ← hstep]
    abel

/-- **Aggregates**: what was extracted and what the shards hold add up to what was added. -/
theorem run_tables (h : run (step E) (start C) tr = some s) :
    windowTally (extracted tr) + ∑ i, (s.shards i).aggregator.table =
      tradeTally C.windowMs (added tr) := by
  refine run_inv (P := fun tr s => windowTally (extracted tr) + ∑ i, (s.shards i).aggregator.table =
    tradeTally C.windowMs (added tr)) ?_ ?_ h
  · have hzero : ∑ i, ((start C).shards i).aggregator.table = 0 :=
      Finset.sum_eq_zero fun i _ => table_ofWindowMs _
    rw [hzero]
    rfl
  · intro tr s a s' hr hc ha
    rw [extracted_append, windowTally_append, add_assoc,
      step_tables (run_built hr) (step_aggregators (step_cases ha)), ← add_assoc, hc, added_append,
      tradeTally_append]

/-- **Windows**: those extracted are those written and those still to be written. -/
theorem run_windows (h : run (step E) (start C) tr = some s) :
    (writtenWindows tr : Multiset WindowStats) + hands s.writer s.stopper = extracted tr := by
  refine run_inv (P := fun tr s => (writtenWindows tr : Multiset WindowStats)
    + hands s.writer s.stopper = extracted tr) rfl ?_ h
  intro tr s a s' hr hc ha
  have hstep : Delivers a s s' := step_delivers (step_cases ha)
  rw [writtenWindows_append, extracted_append, ← Multiset.coe_add, ← Multiset.coe_add, ← hc,
    add_assoc, hstep, add_assoc]

end BinanceAggregator.Pipeline
