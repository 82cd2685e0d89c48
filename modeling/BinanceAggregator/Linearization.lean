import BinanceAggregator.FailedWrite
import BinanceAggregator.Single

/-!
The pipeline as one aggregator that does one thing at a time.

A flush goes from shard to shard while trades are added beside it, so that it sees no one moment of
the pipeline. Still the run can be explained by an order in which every flush is over at once: a
trade that comes to a shard after the flush has been there is counted as coming after the flush.
Each shard has seen the trades of its symbols and the flushes in just this order, and what has been
written is what one aggregator writes that does the same things in this order.
-/

namespace BinanceAggregator

open AggregatorHistory MarketDataAggregator Pipeline

/-! ### One aggregator, one operation at a time -/

namespace Single

variable {E : Env} {q : Single}

/-- One operation, with the blocks that a flush writes. -/
def apply (E : Env) (q : Single) : Op → Single
  | .addTrade t => { q with aggregator := q.aggregator.addTrade t }
  | .extract c => ⟨(q.aggregator.extract c).2, q.out ++ writeWindows E (q.aggregator.extract c).1⟩

/-- What one aggregator holds and has written after the operations `ops`. -/
def serve (E : Env) (windowMs : UInt64) (ops : List Op) : Single :=
  ops.foldl (apply E) (init windowMs)

lemma serve_append (windowMs : UInt64) (u v : List Op) :
    serve E windowMs (u ++ v) = v.foldl (apply E) (serve E windowMs u) := List.foldl_append

lemma serve_aggregator (windowMs : UInt64) (ops : List Op) :
    (serve E windowMs ops).aggregator = after windowMs ops := by
  induction ops using List.reverseRecOn with
  | nil => rfl
  | append_singleton ops op ih =>
      rw [serve_append, after_snoc, ← ih]
      cases op <;> rfl

lemma out_foldl_addTrade (ts : List TradeEvent) :
    ((ts.map Op.addTrade).foldl (apply E) q).out = q.out := by
  induction ts generalizing q with
  | nil => rfl
  | cons t ts ih => exact ih

end Single

/-! ### What concerns one shard -/

namespace Pipeline

open Runs

variable {C : Config} {E : Env} {s s' : St C} {a : Act C} {tr : List (Act C)} {who : Flusher}
  {f f' : Flush C}

/-- A flush concerns every shard, a trade the shard of its symbol. -/
def touches (E : Env) (i : Index C) : Op → Bool
  | .addTrade t => shardIndexForSymbol E C t.symbol = i
  | .extract _ => true

/-- The operations that concern the shard `i`. -/
def onShard (E : Env) (i : Index C) (ops : List Op) : List Op := ops.filter (touches E i)

lemma onShard_append (i : Index C) (u v : List Op) :
    onShard E i (u ++ v) = onShard E i u ++ onShard E i v := List.filter_append ..

/-- What is live in a bucket depends only on what concerns the shard of its symbol. -/
lemma live_onShard {i : Index C} {b : Bucket} (hi : shardIndexForSymbol E C b.1 = i)
    (windowMs : UInt64) (ops : List Op) :
    live windowMs b (onShard E i ops) = live windowMs b ops := by
  induction ops using List.reverseRecOn with
  | nil => rfl
  | append_singleton ops op ih =>
      rw [onShard_append, live_snoc]
      by_cases hop : touches E i op = true
      · rw [show onShard E i [op] = [op] from List.filter_eq_self.mpr (by simpa using hop),
          live_snoc, ih]
      · rw [show onShard E i [op] = [] from List.filter_eq_nil_iff.mpr (by simpa using hop),
          List.append_nil, ih]
        cases op with
        | extract c => exact absurd rfl hop
        | addTrade t =>
            have hne : t.bucket windowMs ≠ b := by
              rintro rfl
              exact hop (decide_eq_true hi)
            simp [hne]

lemma table_onShard {i : Index C} {b : Bucket} (hi : shardIndexForSymbol E C b.1 = i)
    (windowMs : UInt64) (ops : List Op) :
    (after windowMs (onShard E i ops)).table b = (after windowMs ops).table b := by
  rw [table_after, table_after, live_onShard hi]

/-! ### The order -/

/-- The operations in the order in which they count. While a flush collects, the shards it has been
to are noted, and the trades that have been added to these since. -/
structure Order (C : Config) where
  ops : List Op
  cut : Cut
  visited : List (Index C)
  late : List TradeEvent

def Order.empty : Order C := ⟨[], .all, [], []⟩

def Order.next (o : Order C) : Act C → Order C
  | .aggAdd i t =>
    if i ∈ o.visited then { o with late := o.late ++ [t] }
    else { o with ops := o.ops ++ [.addTrade t] }
  | .extract _ i cut _ => { o with cut, visited := i :: o.visited }
  | .merge _ => ⟨o.ops ++ .extract o.cut :: o.late.map .addTrade, o.cut, [], []⟩
  | _ => o

/-- The order that explains a run. -/
def order (tr : List (Act C)) : Order C := tr.foldl Order.next .empty

lemma order_snoc (tr : List (Act C)) (a : Act C) : order (tr ++ [a]) = (order tr).next a :=
  List.foldl_concat ..

lemma next_of_visited {o : Order C} {i : Index C} (hi : i ∈ o.visited) (t : TradeEvent) :
    o.next (.aggAdd i t) = { o with late := o.late ++ [t] } := if_pos hi

lemma next_of_not_visited {o : Order C} {i : Index C} (hi : i ∉ o.visited) (t : TradeEvent) :
    o.next (.aggAdd i t) = { o with ops := o.ops ++ [.addTrade t] } := if_neg hi

lemma next_of_beside {o : Order C} (h : a.flusher = none) (hna : ∀ i t, a ≠ .aggAdd i t) :
    o.next a = o := by
  cases a with
  | aggAdd i t => exact absurd rfl (hna i t)
  | extract | merge => cases h
  | _ => rfl

/-- What a shard has seen of an order: its part of the operations, and if the flush under way has
been there, the flush and the trades since. -/
def Order.seen (E : Env) (o : Order C) (i : Index C) : List Op :=
  onShard E i o.ops ++ if i ∈ o.visited then .extract o.cut :: onShard E i (o.late.map .addTrade)
    else []

lemma Order.seen_of_visited {o : Order C} {i : Index C} (hi : i ∈ o.visited) :
    o.seen E i = onShard E i o.ops ++ .extract o.cut :: onShard E i (o.late.map .addTrade) := by
  rw [seen, if_pos hi]

lemma Order.seen_of_not_visited {o : Order C} {i : Index C} (hi : i ∉ o.visited) :
    o.seen E i = onShard E i o.ops := by
  rw [seen, if_neg hi, List.append_nil]

/-! ### What the order explains -/

/-- What a flush has collected is what one aggregator holds of the shards visited, below the cut. -/
structure Gathered (E : Env) (o : Order C) (f : Flush C) : Prop where
  visited : ∀ i, i ∈ o.visited ↔ i ∉ f.pc.remaining
  cut : o.visited ≠ [] → o.cut = f.cut
  tally : ∀ b, windowTally f.pc.windows b =
    if shardIndexForSymbol E C b.1 ∈ o.visited ∧ f.cut.Takes b.2
      then (after C.windowMs o.ops).table b else 0

/-- Where the flushes are, when `done` has been written. -/
inductive Phase (E : Env) (o : Order C) (done : List StatsSnapshot) (s : St C) : Prop
  | resting (hf : ∀ who, s.flushOf who = none) (hv : o.visited = [])
      (hout : (Single.serve E C.windowMs o.ops).out = done)
  | collecting (who : Flusher) (f : Flush C) (hf : s.flushOf who = some f)
      (hpc : ∀ todo, f.pc ≠ .writing todo) (hg : Gathered E o f)
      (hout : (Single.serve E C.windowMs o.ops).out = done)
  | writing (who : Flusher) (cut : Cut) (todo : List StatsSnapshot)
      (hf : s.flushOf who = some ⟨cut, .writing todo⟩) (hv : o.visited = [])
      (hout : (Single.serve E C.windowMs o.ops).out = done ++ todo)

/-- The order explains the run: every shard has seen its part of it, and what has been written is
what one aggregator writes in this order. -/
structure Explains (E : Env) (tr : List (Act C)) (s : St C) (o : Order C) : Prop where
  late : ∀ t ∈ o.late, shardIndexForSymbol E C t.symbol ∈ o.visited
  seen : ∀ i, shardOps i tr = o.seen E i
  phase : Phase E o (written tr) s

variable {o : Order C}

lemma explains_start : Explains E [] (start C) .empty :=
  ⟨fun _ h => absurd h List.not_mem_nil, fun _ => rfl,
    .resting (fun who => by cases who <;> rfl) rfl rfl⟩

lemma onShard_late {i : Index C}
    (hlate : ∀ t ∈ o.late, shardIndexForSymbol E C t.symbol ∈ o.visited)
    (hi : i ∉ o.visited) : onShard E i (o.late.map .addTrade) = [] := by
  refine List.filter_eq_nil_iff.mpr fun op hop => ?_
  obtain ⟨t, ht, rfl⟩ := List.mem_map.mp hop
  intro hc
  exact hi (of_decide_eq_true hc ▸ hlate t ht)

lemma onShard_addTrade {i j : Index C} {t : TradeEvent}
    (hi : shardIndexForSymbol E C t.symbol = i) :
    onShard E j [.addTrade t] = if i = j then [.addTrade t] else [] := by
  subst hi
  by_cases hj : shardIndexForSymbol E C t.symbol = j <;> simp [onShard, touches, hj]

variable {done : List StatsSnapshot}

/-- A phase is about the shards visited, and about what has been written and is held of them. -/
lemma Phase.congr {o' : Order C} (h : Phase E o done s)
    (hf : ∀ who, s'.flushOf who = s.flushOf who) (hv : o'.visited = o.visited)
    (hcut : o'.cut = o.cut)
    (hout : (Single.serve E C.windowMs o'.ops).out = (Single.serve E C.windowMs o.ops).out)
    (htable : ∀ b : Bucket, shardIndexForSymbol E C b.1 ∈ o.visited →
      (after C.windowMs o'.ops).table b = (after C.windowMs o.ops).table b) :
    Phase E o' done s' := by
  cases h with
  | resting hr hvis hdone =>
      exact .resting (fun who => (hf who).trans (hr who)) (hv.trans hvis) (hout.trans hdone)
  | collecting who f hfl hpc hg hdone =>
      refine .collecting who f ((hf who).trans hfl) hpc ⟨?_, ?_, fun b => ?_⟩ (hout.trans hdone)
      · rw [hv]
        exact hg.visited
      · rw [hv, hcut]
        exact hg.cut
      · rw [hg.tally b, hv]
        split_ifs with hb
        · exact (htable b hb.1).symm
        · rfl
  | writing who cut todo hfl hvis hdone =>
      exact .writing who cut todo ((hf who).trans hfl) (hv.trans hvis) (hout.trans hdone)

lemma ne_writing_of_collecting {remaining : List (Index C)} {ws : List WindowStats}
    (todo : List StatsSnapshot) : FlushPc.collecting remaining ws ≠ .writing todo := by
  intro h
  cases h

lemma ne_writing_of_extracting {i : Index C} {remaining : List (Index C)} {ws : List WindowStats}
    (todo : List StatsSnapshot) : FlushPc.extracting i remaining ws ≠ .writing todo := by
  intro h
  cases h

/-- The phase of a pipeline in which a flush collects. -/
lemma Phase.gathered (h : Phase E o done s) (hx : Exclusive s) (hfl : s.flushOf who = some f)
    (hpc : ∀ todo, f.pc ≠ .writing todo) :
    Gathered E o f ∧ (Single.serve E C.windowMs o.ops).out = done := by
  cases h with
  | resting hno => cases (hno who).symm.trans hfl
  | writing w cut todo hw =>
      obtain rfl := hx _ _ _ _ hw hfl
      obtain rfl := Option.some.inj (hw.symm.trans hfl)
      exact absurd rfl (hpc _)
  | collecting w g hw _ hg hout =>
      obtain rfl := hx _ _ _ _ hw hfl
      obtain rfl := Option.some.inj (hw.symm.trans hfl)
      exact ⟨hg, hout⟩

/-- The phase of a pipeline in which a flush writes. -/
lemma Phase.pending {cut : Cut} {todo : List StatsSnapshot} (h : Phase E o done s)
    (hx : Exclusive s) (hfl : s.flushOf who = some ⟨cut, .writing todo⟩) :
    o.visited = [] ∧ (Single.serve E C.windowMs o.ops).out = done ++ todo := by
  cases h with
  | resting hno => cases (hno who).symm.trans hfl
  | collecting w g hw hpc =>
      obtain rfl := hx _ _ _ _ hw hfl
      obtain rfl := Option.some.inj (hw.symm.trans hfl)
      exact absurd rfl (hpc _)
  | writing w c todo' hw hv hout =>
      obtain rfl := hx _ _ _ _ hw hfl
      cases hw.symm.trans hfl
      exact ⟨hv, hout⟩

/-! ### Steps -/

/-- A step of no flush that adds no trade. -/
lemma explains_beside (he : Explains E tr s o) (hw : written [a] = [])
    (hop : ∀ i, a.op i = none) (hf : ∀ who, s'.flushOf who = s.flushOf who) :
    Explains E (tr ++ [a]) s' o := by
  refine ⟨he.late, fun i => (shardOps_snoc (hop i)).trans (he.seen i), ?_⟩
  rw [written_append, hw, List.append_nil]
  exact he.phase.congr hf rfl rfl rfl fun _ _ => rfl

/-- A flush begins with no shard visited. -/
lemma explains_begin {cut : Cut} (he : Explains E tr s o) (hx : Exclusive s')
    (hno : s.flushOf who = none) (hw : written [a] = []) (hop : ∀ i, a.op i = none)
    (hf : ∀ w, s'.flushOf w = if w = who then some (beginFlush C cut) else s.flushOf w) :
    Explains E (tr ++ [a]) s' o := by
  have hbegun : s'.flushOf who = some (beginFlush C cut) := (hf who).trans (if_pos rfl)
  -- the other thread is not flushing
  have hnone {w : Flusher} {f : Flush C} (hw : s.flushOf w = some f) : False := by
    by_cases hwho : w = who
    · rw [hwho, hno] at hw
      cases hw
    · exact hwho (hx w f who _ (((hf w).trans (if_neg hwho)).trans hw) hbegun)
  refine ⟨he.late, fun i => (shardOps_snoc (hop i)).trans (he.seen i), ?_⟩
  rw [written_append, hw, List.append_nil]
  cases he.phase with
  | resting _ hv hout =>
      refine .collecting who _ hbegun ne_writing_of_collecting
        ⟨fun i => ?_, fun h => absurd hv h, fun b => ?_⟩ hout
      · simp [hv, beginFlush, FlushPc.remaining]
      · simp [hv, beginFlush]
  | collecting w f hfl => exact absurd (hnone hfl) id
  | writing w cut todo hfl => exact absurd (hnone hfl) id

lemma seen_aggAdd {i : Index C} {t : TradeEvent} (hi : shardIndexForSymbol E C t.symbol = i)
    (j : Index C) :
    (o.next (.aggAdd i t)).seen E j = o.seen E j ++ onShard E j [.addTrade t] := by
  have hother (hij : i ≠ j) : onShard E j [.addTrade t] = [] := by
    rw [onShard_addTrade hi, if_neg hij]
  by_cases hv : i ∈ o.visited <;> by_cases hj : j ∈ o.visited
  · simp [next_of_visited hv, Order.seen, hj, onShard_append]
  · have hij : i ≠ j := fun h => hj (h ▸ hv)
    simp [next_of_visited hv, Order.seen, hj, hother hij]
  · have hij : i ≠ j := fun h => hv (h ▸ hj)
    simp [next_of_not_visited hv, Order.seen, hj, hother hij, onShard_append]
  · simp [next_of_not_visited hv, Order.seen, hj, onShard_append]

/-- A trade is added: it counts before the flush under way, unless that has been to its shard. -/
lemma explains_add {i : Index C} {t : TradeEvent} (he : Explains E tr s o)
    (hi : shardIndexForSymbol E C t.symbol = i) (hf : ∀ who, s'.flushOf who = s.flushOf who) :
    Explains E (tr ++ [.aggAdd i t]) s' (o.next (.aggAdd i t)) := by
  have hops (j : Index C) : shardOps j [.aggAdd i t] = onShard E j [.addTrade t] := by
    rw [onShard_addTrade hi]
    by_cases hij : i = j <;> simp [shardOps, Act.op, hij]
  have hphase : written (tr ++ [.aggAdd i t]) = written tr := by
    rw [written_append]
    exact List.append_nil _
  refine ⟨?_, fun j => by rw [shardOps_append, he.seen, hops, seen_aggAdd hi], ?_⟩
  · by_cases hv : i ∈ o.visited
    · rw [next_of_visited hv]
      intro u hu
      rcases List.mem_append.mp hu with hu | hu
      · exact he.late u hu
      · rw [List.mem_singleton.mp hu, hi]
        exact hv
    · rw [next_of_not_visited hv]
      exact he.late
  · rw [hphase]
    by_cases hv : i ∈ o.visited
    · rw [next_of_visited hv]
      exact he.phase.congr hf rfl rfl rfl fun _ _ => rfl
    · rw [next_of_not_visited hv]
      refine he.phase.congr hf rfl rfl ?_ fun b hb => ?_
      · rw [Single.serve_append]
        rfl
      · -- a bucket of a shard that has been visited is not the trade's
        have hne : t.bucket C.windowMs ≠ b := by
          rintro rfl
          exact hv (hi ▸ hb)
        rw [after_snoc, apply, table_addTrade, Pi.add_apply, after_windowMs, tradeTally,
          Tally.tally_cons, if_neg hne]
        exact add_zero _

/-- A shard is extracted from: what is found there is what one aggregator holds of it. -/
lemma gathered_extract {i : Index C} {todo : List (Index C)} {ws : List WindowStats} {cut : Cut}
    (hg : Gathered E o ⟨cut, .extracting i todo ws⟩) (hi : i ∉ o.visited) (hitodo : i ∉ todo)
    (hagg : (s.shards i).aggregator = after C.windowMs (onShard E i o.ops))
    (hr : Routed E i (s.shards i)) :
    Gathered E { o with cut, visited := i :: o.visited }
      ⟨cut, .collecting todo (ws ++ ((s.shards i).aggregator.extract cut).1)⟩ := by
  refine ⟨fun j => ?_, fun _ => rfl, fun b => ?_⟩
  · have hv := hg.visited j
    simp only [FlushPc.remaining, List.mem_cons, not_or] at hv ⊢
    rw [hv]
    constructor
    · rintro (rfl | h)
      · exact hitodo
      · exact h.2
    · intro h
      by_cases hji : j = i
      · exact .inl hji
      · exact .inr ⟨hji, h⟩
  · have hold : windowTally ws b = if shardIndexForSymbol E C b.1 ∈ o.visited ∧ cut.Takes b.2
        then (after C.windowMs o.ops).table b else 0 := hg.tally b
    simp only [FlushPc.windows, windowTally_append, Pi.add_apply, hold, windowTally_extract]
    by_cases hb : shardIndexForSymbol E C b.1 = i
    · rw [hagg, table_onShard hb, hb, if_neg fun h => hi h.1, zero_add]
      simp
    · -- the shard holds nothing of a symbol that is not its own
      have hzero : (s.shards i).aggregator.table b = 0 := by
        by_contra hne
        exact hb (hr.2 b hne)
      simp [hzero, hb]

lemma explains_extract {i : Index C} {todo : List (Index C)} {ws : List WindowStats} {cut : Cut}
    (he : Explains E tr s o) (hr : run (step E) (start C) tr = some s) (hx : Exclusive s)
    (hfl : s.flushOf who = some ⟨cut, .extracting i todo ws⟩)
    (hf : s'.flushOf who =
      some ⟨cut, .collecting todo (ws ++ ((s.shards i).aggregator.extract cut).1)⟩) :
    Explains E (tr ++ [.extract who i cut ((s.shards i).aggregator.extract cut).1]) s'
      (o.next (.extract who i cut ((s.shards i).aggregator.extract cut).1)) := by
  obtain ⟨hg, hout⟩ := he.phase.gathered hx hfl ne_writing_of_extracting
  obtain ⟨hitodo, -⟩ := List.nodup_cons.mp (run_collected hr who _ hfl).remaining
  have hi : i ∉ o.visited := fun h => (hg.visited i).mp h List.mem_cons_self
  have hagg : (s.shards i).aggregator = after C.windowMs (onShard E i o.ops) := by
    rw [run_shardOps hr i, he.seen, Order.seen_of_not_visited hi]
  refine ⟨fun t ht => List.mem_cons_of_mem _ (he.late t ht), fun j => ?_, ?_⟩
  · rw [shardOps_append, he.seen]
    by_cases hij : j = i
    · subst hij
      rw [Order.seen_of_not_visited hi]
      simp [shardOps, Act.op, Order.next, Order.seen, onShard_late he.late hi]
    · have hop : shardOps j [.extract who i cut ((s.shards i).aggregator.extract cut).1] = [] := by
        simp [shardOps, Act.op, Ne.symm hij]
      rw [hop, List.append_nil]
      by_cases hj : j ∈ o.visited
      · have hc : o.cut = cut := hg.cut (List.ne_nil_of_mem hj)
        simp [Order.seen, Order.next, hj, hc]
      · simp [Order.seen, Order.next, hj, hij]
  · rw [written_append]
    refine .collecting who _ hf ne_writing_of_collecting ?_
      (hout.trans (List.append_nil _).symm)
    exact gathered_extract hg hi hitodo hagg (run_routed hr i)

/-- Every shard has been visited: the flush counts as done, and the late trades after it. -/
lemma explains_merge {ws : List WindowStats} {cut : Cut} (he : Explains E tr s o)
    (hr : run (step E) (start C) tr = some s) (hx : Exclusive s)
    (hfl : s.flushOf who = some ⟨cut, .collecting [] ws⟩)
    (hf : s'.flushOf who = some ⟨cut, .writing (writeWindows E ws)⟩) :
    Explains E (tr ++ [.merge who]) s' (o.next (.merge who)) := by
  obtain ⟨hg, hout⟩ := he.phase.gathered hx hfl ne_writing_of_collecting
  have hall (i : Index C) : i ∈ o.visited := (hg.visited i).mpr List.not_mem_nil
  have hc : o.cut = cut := hg.cut (List.ne_nil_of_mem (hall ⟨0, C.shardCount_pos⟩))
  refine ⟨fun _ h => absurd h List.not_mem_nil, fun i => ?_, .writing who cut _ hf rfl ?_⟩
  · have hop : shardOps i [Act.merge (C := C) who] = [] := rfl
    rw [shardOps_append, hop, List.append_nil, he.seen, Order.seen_of_visited (hall i)]
    simp only [Order.next, Order.seen, List.not_mem_nil, if_false, List.append_nil, onShard_append]
    rfl
  · -- one aggregator finds the windows that were collected
    have hws : writeWindows E ws = writeWindows E ((after C.windowMs o.ops).extract cut).1 := by
      refine writeWindows_congr (run_collected hr who _ hfl).nodup
        ((after C.windowMs o.ops).extract_spec cut).nodup (funext fun b => ?_)
      have htally : windowTally ws b = _ := hg.tally b
      rw [windowTally_extract, htally]
      simp [hall]
    have hwritten : written [Act.merge (C := C) who] = [] := rfl
    rw [Order.next, Single.serve_append, List.foldl_cons, Single.out_foldl_addTrade, Single.apply,
      Single.serve_aggregator, hout, written_append, hwritten, List.append_nil, hc, hws]

lemma explains_write {y : StatsSnapshot} {todo : List StatsSnapshot} {cut : Cut}
    (he : Explains E tr s o) (hx : Exclusive s)
    (hfl : s.flushOf who = some ⟨cut, .writing (y :: todo)⟩)
    (hf : s'.flushOf who = some ⟨cut, .writing todo⟩) :
    Explains E (tr ++ [.write who y]) s' o := by
  obtain ⟨hv, hout⟩ := he.phase.pending hx hfl
  refine ⟨he.late, fun i => (shardOps_snoc rfl).trans (he.seen i), .writing who cut todo hf hv ?_⟩
  rw [hout, written_append, List.append_assoc]
  rfl

lemma explains_finish {cut : Cut} (he : Explains E tr s o) (hx : Exclusive s)
    (hfl : s.flushOf who = some ⟨cut, .writing []⟩)
    (hf : ∀ w, s'.flushOf w = if w = who then none else s.flushOf w) :
    Explains E (tr ++ [.finish who]) s' o := by
  obtain ⟨hv, hout⟩ := he.phase.pending hx hfl
  refine ⟨he.late, fun i => (shardOps_snoc rfl).trans (he.seen i), .resting (fun w => ?_) hv ?_⟩
  · rw [hf]
    split_ifs with hw
    · rfl
    · refine Option.eq_none_iff_forall_ne_some.mpr fun g hother => ?_
      exact hw (hx _ _ _ _ hother hfl)
  · rw [hout, written_append]
    rfl

lemma step_explains (hr : run (step E) (start C) tr = some s) (h : Step E s a s')
    (he : Explains E tr s o) : Explains E (tr ++ [a]) s' (o.next a) := by
  have hx := (run_ordered hr).exclusive
  cases step_flushChange h with
  | beside ha _ hf =>
      cases step_aggregators h with
      | keep _ _ hno hna _ =>
          rw [next_of_beside ha hna]
          refine explains_beside he (written_of_flusher ha).1 (fun i => ?_) hf
          cases a with
          | aggAdd j t => exact absurd rfl (hna j t)
          | extract w j c l => exact absurd rfl (hno w j c l)
          | _ => rfl
      | add i t hadd hpc _ _ =>
          subst hadd
          refine explains_add he ((run_routed hr i).1 t ?_) hf
          simp [hpc, AggPc.trades]
      | extract w i f todo ws hext => exact absurd hext (ne_extract_of_flusher ha _ _ _ _)
  | begun who cut hb hno hf =>
      have hx' := (step_ordered (run_ordered hr) h).exclusive
      cases hb with
      | tick | stop => exact explains_begin he hx' hno rfl (fun _ => rfl) hf
  | advanced who f f' hfl hadv hf =>
      have hnext : s'.flushOf who = some f' := (hf who).trans (if_pos rfl)
      cases hadv with
      | lock =>
          obtain ⟨hg, hout⟩ := he.phase.gathered hx hfl ne_writing_of_collecting
          refine ⟨he.late, fun i => (shardOps_snoc rfl).trans (he.seen i), ?_⟩
          rw [written_append]
          exact .collecting who _ hnext ne_writing_of_extracting ⟨hg.visited, hg.cut, hg.tally⟩
            (hout.trans (List.append_nil _).symm)
      | extract => exact explains_extract he hr hx hfl hnext
      | merge => exact explains_merge he hr hx hfl hnext
      | write => exact explains_write he hx hfl hnext
  | finished who cut ha hfl hf =>
      subst ha
      exact explains_finish he hx hfl hf

/-! ### Whole runs -/

theorem run_explains (h : run (step E) (start C) tr = some s) : Explains E tr s (order tr) := by
  refine run_inv (P := fun tr s => Explains E tr s (order tr)) explains_start ?_ h
  intro tr s a s' hr he ha
  rw [order_snoc]
  exact step_explains hr (step_cases ha) he

/-- The trades among some operations. -/
def addedBy (ops : List Op) : List TradeEvent := ops.filterMap fun op => match op with
  | .addTrade t => some t
  | .extract _ => none

lemma addedBy_append (u v : List Op) : addedBy (u ++ v) = addedBy u ++ addedBy v :=
  List.filterMap_append

lemma addedBy_map_addTrade (ts : List TradeEvent) : addedBy (ts.map .addTrade) = ts := by
  rw [addedBy, List.filterMap_map]
  exact List.filterMap_some

/-- The order has the trades that have been added, each once. -/
lemma addedBy_order (tr : List (Act C)) :
    (addedBy (order tr).ops ++ (order tr).late).Perm (added tr) := by
  induction tr using List.reverseRecOn with
  | nil => exact .nil
  | append_singleton tr a ih =>
      rw [order_snoc, added_append]
      cases a with
      | aggAdd i t =>
          have hadd : added [Act.aggAdd i t] = [t] := rfl
          rw [hadd]
          by_cases hv : i ∈ (order tr).visited
          · rw [next_of_visited hv, ← List.append_assoc]
            exact ih.append_right _
          · rw [next_of_not_visited hv, addedBy_append, List.append_assoc]
            refine (List.Perm.append_left _ List.perm_append_comm).trans ?_
            rw [← List.append_assoc]
            exact ih.append_right _
      | merge who =>
          have hadd : added [Act.merge (C := C) who] = [] := rfl
          have hextract : addedBy (.extract (order tr).cut :: (order tr).late.map .addTrade) =
              (order tr).late := addedBy_map_addTrade _
          rw [hadd, List.append_nil, Order.next, addedBy_append, hextract, List.append_nil]
          exact ih
      | _ =>
          refine (ih.trans ?_)
          exact .of_eq (List.append_nil _).symm

/-- **The pipeline is linearizable.** However its threads are scheduled, there is an order of the
trades and the flushes in which one aggregator, doing one thing at a time, writes what the pipeline
writes. Every shard has seen the trades of its symbols and the flushes in this order. Between two
flushes the order has all that has been done, and once `stop` has returned it has the trades of all
messages accepted. -/
theorem linearizable (h : run (step E) (start C) tr = some s) : ∃ ops : List Op,
    (∀ i, onShard E i ops <+: shardOps i tr) ∧
    written tr <+: (Single.serve E C.windowMs ops).out ∧
    ((∀ who, s.flushOf who = none) → (∀ i, onShard E i ops = shardOps i tr) ∧
      (addedBy ops).Perm (added tr) ∧ written tr = (Single.serve E C.windowMs ops).out) ∧
    (s.stopper = .returned → (addedBy ops).Perm (trades E tr) ∧
      written tr = (Single.serve E C.windowMs ops).out) := by
  have he := run_explains h
  have hrest (hno : ∀ who, s.flushOf who = none) :
      (order tr).visited = [] ∧ (Single.serve E C.windowMs (order tr).ops).out = written tr := by
    cases he.phase with
    | resting _ hv hout => exact ⟨hv, hout⟩
    | collecting who f hf => cases (hno who).symm.trans hf
    | writing who cut todo hf => cases (hno who).symm.trans hf
  have hadded (hv : (order tr).visited = []) : (addedBy (order tr).ops).Perm (added tr) := by
    have hlate : (order tr).late = [] := by
      refine List.eq_nil_iff_forall_not_mem.mpr fun t ht => ?_
      have hmem := he.late t ht
      rw [hv] at hmem
      exact List.not_mem_nil hmem
    have hperm := addedBy_order tr
    rwa [hlate, List.append_nil] at hperm
  refine ⟨(order tr).ops, fun i => ?_, ?_, fun hno => ?_, fun hret => ?_⟩
  · rw [he.seen]
    exact List.prefix_append _ _
  · cases he.phase with
    | resting _ _ hout => exact hout ▸ List.prefix_rfl
    | collecting _ _ _ _ _ hout => exact hout ▸ List.prefix_rfl
    | writing _ _ todo _ _ hout => exact hout ▸ List.prefix_append _ _
  · obtain ⟨hv, hout⟩ := hrest hno
    refine ⟨fun i => ?_, hadded hv, hout.symm⟩
    rw [he.seen, Order.seen_of_not_visited (hv ▸ List.not_mem_nil)]
  · have hquiet := (spent_of_returned h hret).quiet
    obtain ⟨hv, hout⟩ := hrest fun who => by
      cases who
      · simp [St.flushOf, hquiet.writer]
      · simp [St.flushOf, hret]
    exact ⟨(hadded hv).trans (flows_of_returned h hret).1, hout.symm⟩

/-- A tick between two messages. -/
theorem linearizable_twoWindows : ∃ ops : List Op,
    (addedBy ops).Perm [sampleTrade "BTCUSDT" 0, sampleTrade "BTCUSDT" 500] ∧
    (Single.serve sampleEnv 500 ops).out =
      [⟨0, [sampleWindow "BTCUSDT" 0]⟩, ⟨500, [sampleWindow "BTCUSDT" 500]⟩] := by
  obtain ⟨s, hs, hret⟩ := exists_returned sampleEnv twoWindows (by decide +kernel)
  obtain ⟨ops, -, -, -, hreturned⟩ := linearizable hs
  obtain ⟨hadded, hout⟩ := hreturned hret
  have htrades : trades sampleEnv twoWindows =
      [sampleTrade "BTCUSDT" 0, sampleTrade "BTCUSDT" 500] := by decide +kernel
  exact ⟨ops, htrades ▸ hadded, hout.symm⟩

end Pipeline

end BinanceAggregator
