import BinanceAggregator.Lossless

/-!
What a run does to the shards.

Only two things change what a shard has aggregated: its own thread adds a trade, or a flush
extracts windows. The trades of a symbol all go to one shard. If no trade comes after an
extraction that has passed its window, then what a shard holds lies beyond every extraction
made of it.
-/

namespace BinanceAggregator.Pipeline

open Runs BoundedQueue MarketDataAggregator

variable {C : Config} {E : Env} {s s' : St C} {a : Act C} {tr : List (Act C)}

/-! ### What an aggregator holds -/

/-- After a trade was added: what it held, and the bucket of the trade. -/
lemma table_of_addTrade {x : MarketDataAggregator} {t : TradeEvent} {b : Bucket}
    (h : (x.addTrade t).table b ≠ 0) : x.table b ≠ 0 ∨ b = t.bucket x.windowMs := by
  rw [table_addTrade, Pi.add_apply, Ne, Tally.add_eq_zero_iff, not_and_or] at h
  rcases h with h | h
  · exact .inl h
  · obtain ⟨u, hu, rfl⟩ := Tally.exists_mem_of_tally_ne _ _ h
    rw [List.mem_singleton.mp hu]
    exact .inr rfl

/-- What an extraction takes is there and lies below its cut. -/
lemma takes_of_mem_extract {x : MarketDataAggregator} {c : Cut} {w : WindowStats}
    (h : w ∈ (x.extract c).1) : c.Takes w.windowStartMs ∧ x.table w.bucket ≠ 0 := by
  obtain ⟨hfind, htakes⟩ := ((x.extract_spec c).mem w).mp h
  refine ⟨htakes, fun hzero => ?_⟩
  rw [MarketDataAggregator.table, Windows.table_eq_zero_iff] at hzero
  simp [WindowStats.bucket, hfind] at hzero

lemma mod_of_mem_extract {x : MarketDataAggregator} {c : Cut} {w : WindowStats}
    (h : w ∈ (x.extract c).1) : w.windowStartMs % x.windowMs = 0 :=
  (x.keyed _ _ _ (((x.extract_spec c).mem w).mp h).1).2

/-- After an extraction: what it held beyond the cut. -/
lemma table_of_extract {x : MarketDataAggregator} {c : Cut} {b : Bucket}
    (h : (x.extract c).2.table b ≠ 0) : ¬ c.Takes b.2 ∧ x.table b ≠ 0 := by
  rw [table_extract] at h
  split_ifs at h with hc
  · exact absurd rfl h
  · exact ⟨hc, h⟩

/-! ### Every symbol has its shard -/

/-- A shard only has to do with the symbols that are hashed to it. -/
def Routed (E : Env) (i : Index C) (shard : Shard) : Prop :=
  (∀ t ∈ shard.queue.items ++ shard.thread.trades, shardIndexForSymbol E C t.symbol = i) ∧
    ∀ b, shard.aggregator.table b ≠ 0 → shardIndexForSymbol E C b.1 = i

lemma step_routed (hr : ∀ i, Routed E i (s.shards i)) (h : Step E s a s') :
    ∀ i, Routed E i (s'.shards i) := by
  have hset := forall_setShard (s := s)
    (P := fun j x => Routed E j x) hr
  cases h with
  | @pushTrade t ok i q _ hi hq =>
      obtain ⟨-, -, -, hitems⟩ := push_eq_some hq
      refine hset i _ ⟨fun u hu => ?_, (hr i).2⟩
      simp only [hitems] at hu
      cases ok with
      | false => exact (hr i).1 u (by simpa using hu)
      | true =>
          simp only [if_true, List.append_assoc, List.mem_append, List.mem_singleton] at hu
          rcases hu with hu | rfl | hu
          · exact (hr i).1 u (List.mem_append_left _ hu)
          · exact hi.symm
          · exact (hr i).1 u (List.mem_append_right _ hu)
  | @popTrade i t q h hq =>
      obtain ⟨-, -, hitems, -⟩ := pop_eq_some hq
      refine hset i _ ⟨fun u hu => (hr i).1 u ?_, (hr i).2⟩
      rw [hitems, h]
      simpa [AggPc.trades, or_comm] using hu
  | @aggExit i q h hq =>
      obtain ⟨-, -, hitems, -⟩ := pop_eq_some hq
      refine hset i _ ⟨fun u hu => (hr i).1 u ?_, (hr i).2⟩
      rw [hitems, h]
      simpa [AggPc.trades] using hu
  | @aggLock i t h _ =>
      refine hset i _ ⟨fun u hu => (hr i).1 u ?_, (hr i).2⟩
      rw [h]
      exact hu
  | @aggAdd i t h =>
      refine hset i _ ⟨fun u hu => (hr i).1 u ?_, fun b hb => ?_⟩
      · rw [h]
        exact List.mem_append_left _ (by simpa [AggPc.trades] using hu)
      · rcases table_of_addTrade hb with hb | rfl
        · exact (hr i).2 b hb
        · exact (hr i).1 t (by simp [h, AggPc.trades])
  | @extract who i cut todo ws _ =>
      exact hset i _ ⟨(hr i).1, fun b hb => (hr i).2 b (table_of_extract hb).2⟩
  | @lockShard _ i _ _ _ _ _ | @closeShard i _ _ => exact hset i _ (hr i)
  | _ => exact hr

lemma routed_start (i : Index C) : Routed E i ((start C).shards i) := by
  refine ⟨by simp [start, BoundedQueue.empty, AggPc.trades], fun b hb => ?_⟩
  exact absurd (congrFun (table_ofWindowMs C.windowMs) b) hb

lemma run_routed (h : run (step E) (start C) tr = some s) (i : Index C) : Routed E i (s.shards i) :=
  run_stable (P := fun s => ∀ i, Routed E i (s.shards i))
    (fun hr ha => step_routed hr (step_cases ha)) routed_start h i

/-! ### Beyond the extractions -/

/-- No trade is added to a shard after an extraction of it that has passed the trade's window. -/
def OnTime (tr : List (Act C)) : Prop :=
  ∀ u v i t, tr = u ++ .aggAdd i t :: v → ∀ who W l, .extract who i (.completed W) l ∈ u →
    W ≤ t.windowStartMs C.windowMs

lemma OnTime.of_append {u v : List (Act C)} (h : OnTime (u ++ v)) : OnTime u := by
  rintro u₁ v₁ i t rfl
  exact h u₁ (v₁ ++ v) i t (by simp)

/-- Whether an action is on time after the actions `past`. -/
def Act.isOnTime (past : List (Act C)) : Act C → Bool
  | .aggAdd i t => past.all fun e => match e with
    | .extract _ j (.completed W) _ => j ≠ i || W ≤ t.windowStartMs C.windowMs
    | _ => true
  | _ => true

def checkOnTime : List (Act C) → List (Act C) → Bool
  | _, [] => true
  | past, a :: rest => a.isOnTime past && checkOnTime (past ++ [a]) rest

lemma onTime_of_check (h : checkOnTime [] tr = true) : OnTime tr := by
  suffices hgen : ∀ tr past : List (Act C), checkOnTime past tr = true → ∀ u v i t,
      tr = u ++ .aggAdd i t :: v → (Act.aggAdd i t).isOnTime (past ++ u) = true by
    intro u v i t htr who W l hl
    have hcheck := hgen tr [] h u v i t htr
    rw [Act.isOnTime, List.all_eq_true] at hcheck
    simpa using hcheck _ hl
  intro tr
  induction tr with
  | nil => simp
  | cons a rest ih =>
      intro past hpast u v i t htr
      rw [checkOnTime, Bool.and_eq_true] at hpast
      cases u with
      | nil =>
          obtain ⟨rfl, -⟩ := List.cons.inj htr
          simpa using hpast.1
      | cons b u =>
          obtain ⟨rfl, hrest⟩ := List.cons.inj htr
          simpa using ih (past ++ [a]) hpast.2 u v i t hrest

/-- The flushes of the writer go up to a watermark. -/
def WriterPc.Partial : WriterPc C → Prop
  | .flushing f => ∃ W, f.cut = .completed W
  | _ => True

lemma step_watermark (hw : s.writer.Partial) (h : Step E s a s') : s'.writer.Partial := by
  have hflush {who : Flusher} {f : Flush C} (hf : s.flushOf who = some f) {pc : FlushPc C} :
      WriterPc.Partial (if who = .writer then .flushing ⟨f.cut, pc⟩ else s.writer) := by
    cases who with
    | stopper => exact hw
    | writer =>
        rw [flushOf_writer.mp hf] at hw
        exact hw
  cases h with
  | lockShard h _ | extract h | merge h | write h => exact hflush h
  | @finish who cut h =>
      cases who with
      | stopper => exact hw
      | writer => trivial
  | readClock _ => exact ⟨_, rfl⟩
  | writerLock _ _ | writerExit _ _ | writerTick _ _ | writerSleep _ _ | writerWake _
  | stopWake _ _ => trivial
  | _ => exact hw

/-- What the history says of the extractions: each took what lies below its cut and belongs to
its shard, and one that took everything came after the aggregation threads had exited. -/
structure Extractions (E : Env) (tr : List (Act C)) (s : St C) : Prop where
  writer : s.writer.Partial
  all : ∀ who i l, .extract who i .all l ∈ tr → ∀ j, (s.shards j).thread = .exited
  takes : ∀ who i c l, .extract who i c l ∈ tr →
    ∀ x ∈ l, c.Takes x.windowStartMs ∧ shardIndexForSymbol E C x.symbol = i

lemma extractions_start : Extractions E [] (start C) :=
  ⟨trivial, fun _ _ _ h => absurd h List.not_mem_nil, fun _ _ _ _ h => absurd h List.not_mem_nil⟩

lemma step_extractions (ho : Ordered s) (hr : ∀ i, Routed E i (s.shards i))
    (hx : Extractions E tr s) (h : Step E s a s') : Extractions E (tr ++ [a]) s' := by
  have hlater := step_later h
  refine ⟨step_watermark hx.writer h, fun who i l hl j => hlater.threads j ?_, ?_⟩
  · rcases List.mem_append.mp hl with hl | hl
    · exact hx.all who i l hl j
    · obtain rfl : a = _ := (List.mem_singleton.mp hl).symm
      cases h with
      | extract hf =>
          -- the writer's cut is a watermark, so the flush is the last one
          cases who with
          | writer =>
              have hw := hx.writer
              rw [flushOf_writer.mp hf] at hw
              obtain ⟨W, hW⟩ := hw
              cases hW
          | stopper =>
              have hstops := ho.stops
              rw [flushOf_stopper.mp hf] at hstops
              exact hstops j
  · intro who i c l hl x hxl
    rcases List.mem_append.mp hl with hl | hl
    · exact hx.takes who i c l hl x hxl
    · obtain rfl : a = _ := (List.mem_singleton.mp hl).symm
      cases h with
      | extract _ =>
          obtain ⟨htakes, hne⟩ := takes_of_mem_extract hxl
          exact ⟨htakes, (hr i).2 _ hne⟩

lemma run_extractions (h : run (step E) (start C) tr = some s) : Extractions E tr s :=
  run_inv (P := Extractions E) extractions_start
    (fun hr hx ha => step_extractions (run_ordered hr) (run_routed hr) hx (step_cases ha)) h

/-- What the shards hold lies beyond every extraction made of them. -/
def Fresh (tr : List (Act C)) (s : St C) : Prop :=
  ∀ who i c l, .extract who i c l ∈ tr →
    ∀ b, (s.shards i).aggregator.table b ≠ 0 → ¬ c.Takes b.2

/-- A trade that is on time does not come below an earlier extraction. -/
lemma fresh_add (hx : Extractions E tr s) {i : Index C} {t : TradeEvent}
    (hpc : (s.shards i).thread = .adding t) (hot : OnTime (tr ++ [.aggAdd i t])) {who : Flusher}
    {c : Cut} {l : List WindowStats} (hl : .extract who i c l ∈ tr) :
    ¬ c.Takes (t.windowStartMs C.windowMs) := by
  cases c with
  | completed W =>
      have hle := hot tr [] i t rfl who W l hl
      exact fun htakes => absurd (UInt64.lt_of_lt_of_le htakes hle) (UInt64.lt_irrefl _)
  | all =>
      have hexited := hx.all who i l hl i
      rw [hpc] at hexited
      cases hexited

lemma step_fresh (hbuilt : Built s) (hx : Extractions E tr s) (hfresh : Fresh tr s)
    (hot : OnTime (tr ++ [a])) (h : Step E s a s') : Fresh (tr ++ [a]) s' := by
  intro who i c l hl b hb
  cases step_aggregators h with
  | keep _ _ hno _ h =>
      rcases List.mem_append.mp hl with hl | hl
      · exact hfresh who i c l hl b (h i ▸ hb)
      · exact absurd (List.mem_singleton.mp hl).symm (hno who i c l)
  | add j t he hpc hi hj =>
      subst he
      replace hl : .extract who i c l ∈ tr := by simpa using hl
      by_cases hij : i = j
      · subst hij
        rw [hi] at hb
        rcases table_of_addTrade hb with hb | rfl
        · exact hfresh who i c l hl b hb
        · rw [(hbuilt.shards i).2]
          exact fresh_add hx hpc hot hl
      · exact hfresh who i c l hl b (hj i hij ▸ hb)
  | extract who' j f _ _ he hf _ hi hj =>
      by_cases hij : i = j
      · subst hij
        rw [hi] at hb
        obtain ⟨hnot, hne⟩ := table_of_extract hb
        rcases List.mem_append.mp hl with hl | hl
        · exact hfresh who i c l hl b hne
        · obtain ⟨-, -, rfl, -⟩ := Act.extract.inj ((List.mem_singleton.mp hl).trans he)
          exact hnot
      · rcases List.mem_append.mp hl with hl | hl
        · exact hfresh who i c l hl b (hj i hij ▸ hb)
        · obtain ⟨-, rfl, -, -⟩ := Act.extract.inj ((List.mem_singleton.mp hl).trans he)
          exact absurd rfl hij

theorem run_fresh (h : run (step E) (start C) tr = some s) (hot : OnTime tr) : Fresh tr s := by
  refine run_inv (P := fun tr s => OnTime tr → Fresh tr s)
    (fun _ _ _ _ _ h => absurd h List.not_mem_nil) ?_ h hot
  intro tr s a s' hr hfresh ha hot
  exact step_fresh (run_built hr) (run_extractions hr) (hfresh hot.of_append) hot (step_cases ha)

end BinanceAggregator.Pipeline
