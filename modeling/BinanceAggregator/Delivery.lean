import Mathlib.Algebra.Order.BigOperators.Group.Finset
import BinanceAggregator.Unsplit

/-!
The way from the raw queue into the aggregators: in order, and with a bounded backlog.

The trades that a shard has added, those on their way to it and those that the parser will still
send it are, in this order, the trades of its symbols among the accepted messages. A trade is thus
never overtaken by another one of its symbol. What is on the way fits the queues and the hands of
the threads, so that the aggregators are behind the accepted messages by no more than that.
-/

namespace BinanceAggregator.Pipeline

open Runs BoundedQueue

variable {C : Config} {E : Env} {s s' : St C} {a : Act C} {tr : List (Act C)} {i : Index C}

/-! ### First in, first out -/

/-- The trades that an action adds to the shard `i`. -/
def addsTo (i : Index C) : Act C → Option TradeEvent
  | .aggAdd j t => if j = i then some t else none
  | _ => none

/-- The trades added to the shard `i`, in order. -/
def addedTo (i : Index C) (tr : List (Act C)) : List TradeEvent := tr.filterMap (addsTo i)

/-- The trades of the symbols of the shard `i`. -/
def routed (E : Env) (i : Index C) (ts : List TradeEvent) : List TradeEvent :=
  ts.filter fun t => shardIndexForSymbol E C t.symbol = i

/-- What the parser has and will find, the oldest first. -/
def upstream (E : Env) (s : St C) : List TradeEvent :=
  s.parser.trades E ++ s.raw.items.filterMap (tradeOf E)

/-- What the thread of a shard has and will find, the oldest first. -/
def Shard.transit (shard : Shard) : List TradeEvent := shard.thread.trades ++ shard.queue.items

/-- The trades on their way to the aggregator of the shard `i`, the oldest first. -/
def inTransit (E : Env) (s : St C) (i : Index C) : List TradeEvent :=
  (s.shards i).transit ++ routed E i (upstream E s)

lemma routed_append (i : Index C) (u v : List TradeEvent) :
    routed E i (u ++ v) = routed E i u ++ routed E i v := List.filter_append ..

lemma mem_routed {i : Index C} {t : TradeEvent} {ts : List TradeEvent} :
    t ∈ routed E i ts ↔ t ∈ ts ∧ shardIndexForSymbol E C t.symbol = i := by
  simp [routed]

/-- What a step adds and leaves on the way is what was on the way and what the step accepts. -/
def Queues (E : Env) (i : Index C) (a : Act C) (s s' : St C) : Prop :=
  addedTo i [a] ++ inTransit E s' i = inTransit E s i ++ routed E i (trades E [a])

/-- A step that adds and accepts nothing, and moves nothing past the shard `i`. -/
lemma queues_of_eq (hadd : addedTo i [a] = []) (ht : trades E [a] = [])
    (hshard : (s'.shards i).transit = (s.shards i).transit) (hup : upstream E s' = upstream E s) :
    Queues E i a s s' := by
  rw [Queues, hadd, ht, inTransit, inTransit, hshard, hup]
  exact (List.append_nil _).symm

/-- A step of another shard. -/
lemma transit_setShard {j : Index C} {x : Shard} (h : x.transit = (s.shards j).transit) :
    ((s.setShard j x).shards i).transit = (s.shards i).transit :=
  forall_setShard (s := s) (P := fun i y => y.transit = (s.shards i).transit) (fun _ => rfl) j x h i

lemma upstream_push {k : ℕ} {m : Str} {ok : Bool} {q : BoundedQueue Str}
    (hq : s.raw.push m = some (ok, q)) :
    s.parser.trades E ++ q.items.filterMap (tradeOf E) =
      upstream E s ++ trades E [Act.push (C := C) k m ok] := by
  obtain ⟨-, -, -, hitems⟩ := push_eq_some hq
  cases ok with
  | true => simp [upstream, trades, accepted, hitems]
  | false => simp [upstream, trades, accepted, hitems]

/-- The parser hands its trade on to the shard of the symbol. -/
lemma queues_pushTrade {t : TradeEvent} {j : Index C} {q : BoundedQueue TradeEvent}
    (h : s.parser = .pushing t) (hj : j = shardIndexForSymbol E C t.symbol)
    (hitems : q.items = (s.shards j).queue.items ++ [t]) :
    Queues E i (.parserPush t true) s
      { s.setShard j { s.shards j with queue := q } with parser := .popping } := by
  have hup : upstream E s = t :: s.raw.items.filterMap (tradeOf E) := by
    rw [upstream, h]
    rfl
  have hadd : addedTo i [Act.parserPush (C := C) t true] = [] := rfl
  have ht : trades E [Act.parserPush (C := C) t true] = [] := rfl
  rw [Queues, hadd, ht, inTransit, inTransit, hup]
  change ((s.setShard j { s.shards j with queue := q }).shards i).transit ++
    routed E i (s.raw.items.filterMap (tradeOf E)) = _
  by_cases hij : i = j
  · subst hij
    rw [setShard_self, Shard.transit, Shard.transit, hitems]
    simp [routed, hj]
  · rw [setShard_of_ne hij]
    simp [routed, Ne.symm (hj ▸ hij)]

lemma step_queues (ho : Ordered s) (i : Index C) (h : Step E s a s') : Queues E i a s s' := by
  cases h with
  | @push k m ok q _ hq =>
      have hup := upstream_push (E := E) (C := C) (s := s) (k := k) hq
      rw [Queues, inTransit, inTransit]
      change (s.shards i).transit ++ routed E i (s.parser.trades E ++ q.items.filterMap _) = _
      rw [hup, routed_append, List.append_assoc]
  | popRaw h hq =>
      obtain ⟨-, -, hitems, -⟩ := pop_eq_some hq
      refine queues_of_eq rfl rfl rfl ?_
      rw [upstream, upstream, h, hitems, Option.toList_some, List.singleton_append,
        filterMap_cons_tradeOf]
      rfl
  | parserExit h hq =>
      obtain ⟨-, -, hitems, -⟩ := pop_eq_some hq
      exact queues_of_eq rfl rfl rfl (by simp [upstream, hitems, h, ParserPc.trades])
  | parseTrade h ht | parseNone h ht =>
      exact queues_of_eq rfl rfl rfl (by simp [upstream, h, ParserPc.trades, tradeOf, ht])
  | @pushTrade t ok j q h hj hq =>
      obtain ⟨-, -, hok, hitems⟩ := push_eq_some hq
      -- the queue is open while the parser is running
      cases ok with
      | false => simp [ho.queues j hok] at h
      | true => exact queues_pushTrade h hj (by simpa using hitems)
  | popTrade h hq | aggExit h hq =>
      obtain ⟨-, -, hitems, -⟩ := pop_eq_some hq
      refine queues_of_eq rfl rfl (transit_setShard ?_) rfl
      simp [Shard.transit, hitems, h, AggPc.trades]
  | aggLock h _ =>
      refine queues_of_eq rfl rfl (transit_setShard ?_) rfl
      simp [Shard.transit, h, AggPc.trades]
  | @aggAdd j t h =>
      have ht : trades E [Act.aggAdd (C := C) j t] = [] := rfl
      rw [Queues, ht, inTransit, inTransit]
      change _ ++ (_ ++ routed E i (upstream E s)) = _
      by_cases hij : j = i
      · subst hij
        rw [setShard_self]
        simp [addedTo, addsTo, Shard.transit, h, AggPc.trades, routed]
      · rw [setShard_of_ne (Ne.symm hij)]
        simp [addedTo, addsTo, hij, routed]
  | lockShard _ _ | extract _ | closeShard _ =>
      exact queues_of_eq rfl rfl (transit_setShard rfl) rfl
  | _ => exact queues_of_eq rfl rfl rfl rfl

lemma run_queues (h : run (step E) (start C) tr = some s) (i : Index C) :
    addedTo i tr ++ inTransit E s i = routed E i (trades E tr) := by
  refine run_inv (P := fun tr s => addedTo i tr ++ inTransit E s i = routed E i (trades E tr))
    rfl ?_ h
  intro tr s a s' hrun hs ha
  have hstep : Queues E i a s s' := step_queues (run_ordered hrun) i (step_cases ha)
  calc addedTo i (tr ++ [a]) ++ inTransit E s' i
      = addedTo i tr ++ (addedTo i [a] ++ inTransit E s' i) := by simp [addedTo]
    _ = addedTo i tr ++ (inTransit E s i ++ routed E i (trades E [a])) := by rw [hstep]
    _ = routed E i (trades E (tr ++ [a])) := by
        rw [← List.append_assoc, hs, trades_append, routed_append]

/-- What is added to a shard is of its symbols. -/
lemma shard_of_mem_addedTo (h : run (step E) (start C) tr = some s) {t : TradeEvent}
    (ht : t ∈ addedTo i tr) : shardIndexForSymbol E C t.symbol = i := by
  have hmem : t ∈ routed E i (trades E tr) := by
    rw [← run_queues h i]
    exact List.mem_append_left _ ht
  exact (mem_routed.mp hmem).2

/-- The trades of a symbol are all added to one shard. -/
lemma filter_added (h : run (step E) (start C) tr = some s) (symbol : Str) :
    (added tr).filter (·.symbol = symbol) =
      (addedTo (shardIndexForSymbol E C symbol) tr).filter (·.symbol = symbol) := by
  refine run_inv (P := fun tr _ => (added tr).filter (·.symbol = symbol) =
      (addedTo (shardIndexForSymbol E C symbol) tr).filter (·.symbol = symbol)) rfl ?_ h
  intro tr s a s' hrun hs ha
  have hlast : (added [a]).filter (·.symbol = symbol) =
      (addedTo (shardIndexForSymbol E C symbol) [a]).filter (·.symbol = symbol) := by
    cases a with
    | aggAdd j t =>
        have hj := shard_of_mem_addedTo (i := j) ((run_snoc _).mpr ⟨s, hrun, ha⟩) (t := t)
          (by simp [addedTo, addsTo])
        by_cases hsym : t.symbol = symbol
        · subst hsym
          simp [added, addedTo, addsTo, hj]
        · by_cases hi : j = shardIndexForSymbol E C symbol <;>
            simp [added, addedTo, addsTo, hsym, hi]
    | _ => rfl
  simp only [added_append, addedTo, List.filterMap_append, List.filter_append]
  exact congrArg₂ (· ++ ·) hs hlast

/-- **No trade overtakes another one of its shard.** In every state, the trades that a shard has
added, followed by those on their way to it, are the trades of its symbols in the order in which
their messages were accepted. In particular the trades of a symbol are added in that order. -/
theorem shard_fifo (h : run (step E) (start C) tr = some s) :
    (∀ i, addedTo i tr ++ inTransit E s i = routed E i (trades E tr)) ∧
    ∀ symbol, (added tr).filter (·.symbol = symbol) <+:
      (trades E tr).filter (·.symbol = symbol) := by
  refine ⟨run_queues h, fun symbol => ?_⟩
  rw [filter_added h]
  have hself : ((trades E tr).filter (·.symbol = symbol)) =
      (routed E (shardIndexForSymbol E C symbol) (trades E tr)).filter (·.symbol = symbol) := by
    rw [routed, List.filter_filter]
    refine List.filter_congr fun t _ => ?_
    by_cases hsym : t.symbol = symbol
    · simp [hsym]
    · simp [hsym]
  rw [hself, ← run_queues h, List.filter_append]
  exact List.prefix_append _ _

/-- Two messages, with a flush between them. -/
theorem shard_fifo_twoWindows :
    ((added twoWindows).filter (·.symbol = ascii "BTCUSDT")).length = 2 ∧
    (added twoWindows).filter (·.symbol = ascii "BTCUSDT") <+:
      (trades sampleEnv twoWindows).filter (·.symbol = ascii "BTCUSDT") := by
  obtain ⟨s, hs, -⟩ := exists_returned sampleEnv twoWindows (by decide +kernel)
  exact ⟨by decide +kernel, (shard_fifo hs).2 (ascii "BTCUSDT")⟩

/-! ### The backlog -/

/-- The room in the queues of the shards is at most that of the raw queue, or one place each. -/
lemma shardCount_mul_perShardCapacity_le (C : Config) :
    C.shardCount * C.perShardCapacity ≤ C.queueCapacity + C.shardCount := by
  have hdiv : C.shardCount * (C.queueCapacity / C.shardCount) ≤ C.queueCapacity :=
    Nat.mul_div_le _ _
  have hle : C.perShardCapacity ≤ C.queueCapacity / C.shardCount + 1 := by
    exact max_le (Nat.le_add_right _ _) (Nat.le_add_left _ _)
  calc C.shardCount * C.perShardCapacity
      ≤ C.shardCount * (C.queueCapacity / C.shardCount + 1) := Nat.mul_le_mul_left _ hle
    _ ≤ C.queueCapacity + C.shardCount := by
        rw [Nat.mul_add, Nat.mul_one]
        omega

lemma length_parser_trades_le (pc : ParserPc) : (pc.trades E).length ≤ 1 := by
  cases pc with
  | parsing raw => cases h : tradeOf E raw <;> simp [ParserPc.trades, h]
  | _ => simp [ParserPc.trades]

lemma length_thread_trades_le (pc : AggPc) : pc.trades.length ≤ 1 := by
  cases pc <;> simp [AggPc.trades]

/-- What is on the way fits the queues and the hands of the threads. -/
lemma card_inFlight_le (hb : Built s) : Multiset.card (inFlight E s) ≤
    C.queueCapacity + 1 + C.shardCount * (C.perShardCapacity + 1) := by
  have hraw : (s.raw.items.filterMap (tradeOf E)).length ≤ C.queueCapacity := by
    have hitems := s.raw.bounded
    rw [hb.raw] at hitems
    exact (List.length_filterMap_le _ _).trans hitems
  have hshard (i : Index C) :
      Multiset.card ((s.shards i).trades : Multiset TradeEvent) ≤ C.perShardCapacity + 1 := by
    have hitems := (s.shards i).queue.bounded
    rw [(hb.shards i).1] at hitems
    have hthread := length_thread_trades_le (s.shards i).thread
    simp only [Shard.trades, Multiset.coe_card, List.length_append]
    omega
  have hsum : ∑ i, Multiset.card ((s.shards i).trades : Multiset TradeEvent) ≤
      C.shardCount * (C.perShardCapacity + 1) := by
    simpa using Finset.sum_le_card_nsmul Finset.univ _ _ fun i _ => hshard i
  have hparser := length_parser_trades_le (E := E) s.parser
  rw [inFlight, Multiset.card_add, Multiset.card_add, Multiset.card_sum, Multiset.coe_card,
    Multiset.coe_card]
  omega

/-- **The backlog is bounded.** However fast messages are submitted, the trades that are accepted
and not yet in an aggregator are at most twice as many as the raw queue has places, and two for each
aggregation thread and one more. -/
theorem bounded_backlog (h : run (step E) (start C) tr = some s) :
    (trades E tr).length ≤
      (added tr).length + (2 * C.queueCapacity + 2 * C.shardCount + 1) := by
  have htrades := congrArg Multiset.card (run_trades h)
  rw [Multiset.card_add, Multiset.coe_card, Multiset.coe_card] at htrades
  have hflight := card_inFlight_le (E := E) (run_built h)
  have hroom := shardCount_mul_perShardCapacity_le C
  rw [Nat.mul_add, Nat.mul_one] at hflight
  omega

/-- A message that the parser has taken. -/
theorem bounded_backlog_parsing :
    (trades sampleEnv (oneMessage.take 3)).length = 1 ∧ added (oneMessage.take 3) = [] ∧
    (trades sampleEnv (oneMessage.take 3)).length ≤ (added (oneMessage.take 3)).length + 5 := by
  obtain ⟨s, hs, -⟩ := exists_returned sampleEnv oneMessage (by decide +kernel)
  rw [← List.take_append_drop 3 oneMessage] at hs
  obtain ⟨m, hm, -⟩ := run_prefix _ hs
  exact ⟨by decide +kernel, by decide +kernel, bounded_backlog hm⟩

end BinanceAggregator.Pipeline
