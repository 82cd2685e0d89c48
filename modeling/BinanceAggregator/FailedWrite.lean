import BinanceAggregator.AggregatorHistory
import BinanceAggregator.FileOutputSink
import BinanceAggregator.Listing
import BinanceAggregator.WellFormed

/-!
What becomes of the windows of a flush if a write fails.

A flush takes the windows out of the shards before it writes the first block, and what it has
not written yet is in a local variable. When `write` throws, these windows are in no text, and
the shards have only what came after they were taken. A trade that comes late may be equal to one
that was lost and give an equal window, so the trades are told apart by their places among the
operations on a shard.
-/

namespace BinanceAggregator

namespace Pipeline

open Runs MarketDataAggregator AggregatorHistory

variable {C : Config} {E : Env} {s s' : St C} {a : Act C} {tr : List (Act C)} {who : Flusher}

/-! ### The operations on a shard -/

/-- What an action does to the aggregator of the shard `i`. -/
def Act.op (i : Index C) : Act C → Option Op
  | .aggAdd j t => if j = i then some (.addTrade t) else none
  | .extract _ j c _ => if j = i then some (.extract c) else none
  | _ => none

/-- The operations on the aggregator of the shard `i`. -/
def shardOps (i : Index C) (tr : List (Act C)) : List Op := tr.filterMap (·.op i)

lemma shardOps_append (i : Index C) (u v : List (Act C)) :
    shardOps i (u ++ v) = shardOps i u ++ shardOps i v := List.filterMap_append

lemma shardOps_snoc {i : Index C} (h : a.op i = none) : shardOps i (tr ++ [a]) = shardOps i tr := by
  rw [shardOps_append]
  simp [shardOps, h]

lemma step_shardOps {i : Index C} (ih : (s.shards i).aggregator = after C.windowMs (shardOps i tr))
    (h : Step E s a s') :
    (s'.shards i).aggregator = after C.windowMs (shardOps i (tr ++ [a])) := by
  cases step_aggregators h with
  | keep _ _ hno hna hkeep =>
      have hop : a.op i = none := by
        cases a with
        | extract who j c l => exact absurd rfl (hno who j c l)
        | aggAdd j t => exact absurd rfl (hna j t)
        | _ => rfl
      rw [hkeep, shardOps_snoc hop, ih]
  | add j t he _ hi hj =>
      subst he
      by_cases hij : i = j
      · subst hij
        have hop : shardOps i [.aggAdd i t] = [.addTrade t] := by simp [shardOps, Act.op]
        rw [hi, shardOps_append, hop, after_snoc, ← ih]
        rfl
      · have hop : (Act.aggAdd j t).op i = none := if_neg (Ne.symm hij)
        rw [hj i hij, shardOps_snoc hop, ih]
  | extract who j f _ _ he _ _ hi hj =>
      subst he
      by_cases hij : i = j
      · subst hij
        have hop (l : List WindowStats) : shardOps i [.extract who i f.cut l] =
            [.extract f.cut] := by simp [shardOps, Act.op]
        rw [hi, shardOps_append, hop, after_snoc, ← ih]
        rfl
      · have hop (l : List WindowStats) : (Act.extract who j f.cut l).op i = none :=
          if_neg (Ne.symm hij)
        rw [hj i hij, shardOps_snoc (hop _), ih]

/-- An aggregator is what the operations on it have made of it. -/
lemma run_shardOps (h : run (step E) (start C) tr = some s) (i : Index C) :
    (s.shards i).aggregator = after C.windowMs (shardOps i tr) :=
  run_inv (P := fun tr s => (s.shards i).aggregator = after C.windowMs (shardOps i tr)) rfl
    (fun _ ih ha => step_shardOps ih (step_cases ha)) h

/-! ### What the present flush has collected -/

/-- The places, among the operations on the shard `i`, of the trades it holds for the bucket `b`. -/
def heldBy (i : Index C) (b : Bucket) (tr : List (Act C)) : List ℕ :=
  places C.windowMs b (shardOps i tr)

/-- What the aggregator has for a bucket is what the trades add up to that it holds. -/
lemma windowStats_heldBy (h : run (step E) (start C) tr = some s) (i : Index C) (b : Bucket) :
    (s.shards i).aggregator.windowStats b.1 b.2 =
      statsOf b.1 b.2 (tradesAt (shardOps i tr) (heldBy i b tr)) := by
  rw [run_shardOps h, windowStats_after, heldBy, ← live_eq_tradesAt]

/-- The present flush has taken the window `x` out of the shard `i`, after the history `u`. -/
def TakenAt (tr u : List (Act C)) (i : Index C) (x : WindowStats) : Prop :=
  ∃ who c l v, tr = u ++ .extract who i c l :: v ∧ (∀ a ∈ v, a.begins = false) ∧ x ∈ l

/-- Every window that the present flush has collected is in a text it has written, or the shard it
was taken from still holds the trades it counts. -/
def Kept (tr : List (Act C)) : Prop := ∀ u i x, TakenAt tr u i x →
  x ∈ writtenWindows (current tr) ∨ heldBy i x.bucket u ⊆ heldBy i x.bucket tr

/-- The present flush has collected a window and has not written it, and of the trades it counts
its shard holds none. -/
def Lost (tr : List (Act C)) (x : WindowStats) : Prop :=
  x ∉ writtenWindows (current tr) ∧ ∃ u i, TakenAt tr u i x ∧
    statsOf x.symbol x.windowStartMs (tradesAt (shardOps i u) (heldBy i x.bucket u)) = some x ∧
    (heldBy i x.bucket u).Disjoint (heldBy i x.bucket tr)

lemma not_kept_of_lost {x : WindowStats} (h : Lost tr x) : ¬ Kept tr := by
  obtain ⟨hnot, u, i, htaken, hstats, hdisjoint⟩ := h
  intro hkept
  have hsub := (hkept u i x htaken).resolve_left hnot
  -- a window counts at least one trade
  have hnone : heldBy i x.bucket u = [] :=
    List.eq_nil_iff_forall_not_mem.mpr fun n hn => hdisjoint hn (hsub hn)
  rw [hnone] at hstats
  cases hstats

lemma exists_takenAt {x : WindowStats} (hx : x ∈ extracted (current tr)) :
    ∃ u i, TakenAt tr u i x := by
  obtain ⟨who, i, c, l, hl, hxl⟩ := mem_extracted.mp hx
  obtain ⟨u, hu⟩ := exists_append_current tr
  obtain ⟨u', v, hv⟩ := List.append_of_mem hl
  refine ⟨u ++ u', i, who, c, l, v, ?_, fun a ha => ?_, hxl⟩
  · rw [List.append_assoc, ← hv]
    exact hu
  · have hmem : a ∈ current tr := by simp [hv, ha]
    simpa using List.mem_rtakeWhile_imp hmem

/-- What was taken out of a shard is what its trades add up to, and they are there no longer. -/
lemma of_takenAt (h : run (step E) (start C) tr = some s) {u : List (Act C)} {i : Index C}
    {x : WindowStats} (hx : TakenAt tr u i x) :
    statsOf x.symbol x.windowStartMs (tradesAt (shardOps i u) (heldBy i x.bucket u)) = some x ∧
      (heldBy i x.bucket u).Disjoint (heldBy i x.bucket tr) := by
  obtain ⟨who, c, l, v, rfl, -, hxl⟩ := hx
  obtain ⟨m, m', hm, ha, -⟩ := run_split _ h
  obtain ⟨w, k, hc, hstats⟩ : ∃ w k, c.Takes k ∧
      statsOf w k (live C.windowMs (w, k) (shardOps i u)) = some x := by
    cases step_cases ha with
    | extract _ =>
        rw [run_shardOps hm] at hxl
        exact ((extract_after C.windowMs (shardOps i u) c).mem x).mp hxl
  obtain ⟨rfl, rfl⟩ := Prod.mk.inj (statsOf_bucket hstats)
  rw [live_eq_tradesAt] at hstats
  refine ⟨hstats, fun n hn hn' => ?_⟩
  have hop : shardOps i (u ++ .extract who i c l :: v) =
      shardOps i u ++ .extract c :: shardOps i v := by
    simp [shardOps, Act.op]
  rw [heldBy, hop] at hn'
  have hbefore := lt_of_mem_places C.windowMs hn
  have hafter := le_of_mem_places C.windowMs hc hn'
  omega

/-- The windows of the blocks that a flush is going to write are collected and not written. -/
lemma pending_of_writing (h : run (step E) (start C) tr = some s) {cut : Cut}
    {todo : List StatsSnapshot} (hf : s.flushOf who = some ⟨cut, .writing todo⟩)
    {z : StatsSnapshot} (hz : z ∈ todo) {x : WindowStats} (hx : x ∈ z.windows) :
    x ∈ extracted (current tr) ∧ x ∉ writtenWindows (current tr) := by
  obtain ⟨hnodup, hblocks⟩ := run_listed h who _ hf
  have hperm : (writtenWindows (current tr) ++ todo.flatMap (·.windows)).Perm
      (extracted (current tr)) := by
    rw [writtenWindows, ← List.flatMap_append, show written (current tr) ++ todo = _ from hblocks,
      writeWindows_eq]
    exact snapshots_perm _ _
  have hmem : x ∈ todo.flatMap (·.windows) := List.mem_flatMap.mpr ⟨z, hz, hx⟩
  have hbuckets := (hperm.map WindowStats.bucket).nodup_iff.mpr hnodup
  rw [List.map_append] at hbuckets
  exact ⟨hperm.mem_iff.mp (List.mem_append_right _ hmem), fun hw =>
    (List.disjoint_of_nodup_append hbuckets) (List.mem_map_of_mem hw) (List.mem_map_of_mem hmem)⟩

/-- A flush that does not get any further loses them. -/
lemma lost_of_writing (h : run (step E) (start C) tr = some s) {cut : Cut}
    {todo : List StatsSnapshot} (hf : s.flushOf who = some ⟨cut, .writing todo⟩)
    {z : StatsSnapshot} (hz : z ∈ todo) {x : WindowStats} (hx : x ∈ z.windows) : Lost tr x := by
  obtain ⟨hcollected, hnot⟩ := pending_of_writing h hf hz hx
  obtain ⟨u, i, htaken⟩ := exists_takenAt hcollected
  exact ⟨hnot, u, i, htaken, of_takenAt h htaken⟩

end Pipeline

/-! ### A write that fails -/

namespace Process

open Runs Pipeline MarketDataAggregator AggregatorHistory FileOutputSink

variable {C : Config} {E : Env} {s : St C} {tr : List (Act C)} {who : Flusher}
  {y : StatsSnapshot} {n : ℕ} {file : Str}

lemma pipelineTrace_failed :
    pipelineTrace (tr ++ [.write who y (.failed n)]) = pipelineTrace tr := by
  rw [pipelineTrace_append]
  exact List.append_nil _

lemma pipelineTrace_map_act (u : List (Pipeline.Act C)) : pipelineTrace (u.map .act) = u := by
  simp [pipelineTrace, Act.forPipeline, List.flatMap_map]

/-- A write that fails ends the process within the flush. -/
lemma of_failed (h : run (step E) (start C file) (tr ++ [.write who y (.failed n)]) = some s) :
    run (Pipeline.step E) (Pipeline.start C) (pipelineTrace tr) = some s.pipeline ∧
      s.terminated = true ∧
      ∃ cut todo, s.pipeline.flushOf who = some ⟨cut, .writing (y :: todo)⟩ := by
  obtain ⟨torn, hs⟩ := run_holds h
  have hrun := hs.pipeline
  rw [pipelineTrace_failed] at hrun
  obtain ⟨m, -, ha⟩ := (run_snoc _).mp h
  cases step_cases ha with
  | fail _ _ hp | refused _ _ hp =>
      cases hp with
      | write hf => exact ⟨hrun, rfl, _, _, hf⟩

/-- **A failed write loses windows.** Let a process take any steps and let a write fail then, that
of whatever block of whatever flush. The statistics of a bucket in a shard are those of the trades the
shard holds. Every window of the block and of those after it is lost: it is in no text that was
written, and its shard holds none of the trades it counts. There is such a window, so the windows of
the flush are not all kept, and as the process has ended no later flush writes them. -/
theorem not_kept_of_failed
    (h : run (step E) (start C file) (tr ++ [.write who y (.failed n)]) = some s) :
    (∀ i b, (s.pipeline.shards i).aggregator.windowStats b.1 b.2 =
      statsOf b.1 b.2 (tradesAt (shardOps i (pipelineTrace tr)) (heldBy i b (pipelineTrace tr)))) ∧
    (∃ cut todo, s.pipeline.flushOf who = some ⟨cut, .writing (y :: todo)⟩ ∧ y.windows ≠ [] ∧
      ∀ z ∈ y :: todo, ∀ x ∈ z.windows, Lost (pipelineTrace tr) x) ∧
    ¬ Kept (pipelineTrace tr) ∧ ∀ a, step E s a = none := by
  obtain ⟨hrun, hterm, cut, todo, hf⟩ := of_failed h
  have hy : y.windows ≠ [] := run_inhabited hrun who _ hf y List.mem_cons_self
  have hlost : ∀ z ∈ y :: todo, ∀ x ∈ z.windows, Lost (pipelineTrace tr) x :=
    fun z hz x hx => lost_of_writing hrun hf hz hx
  obtain ⟨x, hx⟩ := List.exists_mem_of_ne_nil _ hy
  refine ⟨windowStats_heldBy hrun, ⟨cut, todo, hf, hy, hlost⟩,
    not_kept_of_lost (hlost y List.mem_cons_self x hx), fun a => ?_⟩
  simp [step, hterm]

/-- A window is about to be written when its trade comes a second time. -/
def repeatedTrade : List (Pipeline.Act (sampleConfig 1000)) :=
  feed _ (sampleMessage "BTCUSDT" "0") (sampleTrade "BTCUSDT" 0)
    ++ (tick _ 2000 (fun _ => [sampleWindow "BTCUSDT" 0])
      [⟨0, [sampleWindow "BTCUSDT" 0]⟩]).dropLast.dropLast
    ++ feed _ (sampleMessage "BTCUSDT" "0") (sampleTrade "BTCUSDT" 0)

/-- The only shard of a sample. -/
def sampleShard : Index (sampleConfig 1000) :=
  shardIndexForSymbol sampleEnv (sampleConfig 1000) (ascii "BTCUSDT")

/-- The shard has an equal window, of another trade: the first is lost. -/
theorem not_kept_repeatedTrade : ∃ s,
    run (step sampleEnv) (start _ []) (repeatedTrade.map .act
      ++ [.write .writer ⟨0, [sampleWindow "BTCUSDT" 0]⟩ (.failed 10)]) = some s ∧
    (s.pipeline.shards sampleShard).aggregator.windowStats (ascii "BTCUSDT") 0 =
      some (sampleWindow "BTCUSDT" 0) ∧
    heldBy sampleShard (ascii "BTCUSDT", 0) repeatedTrade = [2] ∧
    ¬ Kept (pipelineTrace (repeatedTrade.map .act)) := by
  have hany : (run (step sampleEnv) (start _ []) (repeatedTrade.map .act
      ++ [.write .writer ⟨0, [sampleWindow "BTCUSDT" 0]⟩ (.failed 10)])).any (fun s =>
        (s.pipeline.shards sampleShard).aggregator.windowStats (ascii "BTCUSDT") 0 =
          some (sampleWindow "BTCUSDT" 0)) = true := by decide +kernel
  obtain ⟨s, hs, hequal⟩ := (Option.any_eq_true _ _).mp hany
  exact ⟨s, hs, of_decide_eq_true hequal, by decide +kernel, (not_kept_of_failed hs).2.2.1⟩

/-- `stop` cannot write the only block: the window is in no text and in no shard. -/
theorem not_kept_lastBlock : ∃ s,
    run (step sampleEnv) (start _ []) (lastBlock.map .act
      ++ [.write .stopper ⟨0, [sampleWindow "BTCUSDT" 0]⟩ (.failed 0)]) = some s ∧
    s.terminated = true ∧ s.sink.contents = [] ∧
    (s.pipeline.shards sampleShard).aggregator.windowStats (ascii "BTCUSDT") 0 = none ∧
    Lost lastBlock (sampleWindow "BTCUSDT" 0) ∧ ¬ Kept lastBlock := by
  have hany : (run (step sampleEnv) (start _ []) (lastBlock.map .act
      ++ [.write .stopper ⟨0, [sampleWindow "BTCUSDT" 0]⟩ (.failed 0)])).any (fun s =>
        s.terminated && s.sink.contents.isEmpty &&
        ((s.pipeline.shards sampleShard).aggregator.windowStats (ascii "BTCUSDT") 0).isNone) =
          true := by decide +kernel
  obtain ⟨s, hs, hall⟩ := (Option.any_eq_true _ _).mp hany
  simp only [Bool.and_eq_true, List.isEmpty_iff, Option.isNone_iff_eq_none] at hall
  obtain ⟨⟨hterm, hempty⟩, hnone⟩ := hall
  obtain ⟨hrun, -, cut, todo, hf⟩ := of_failed hs
  rw [pipelineTrace_map_act] at hrun
  have hlost : Lost lastBlock (sampleWindow "BTCUSDT" 0) :=
    lost_of_writing hrun hf List.mem_cons_self (List.mem_singleton_self _)
  exact ⟨s, hs, hterm, hempty, hnone, hlost, not_kept_of_lost hlost⟩

end Process

end BinanceAggregator
