import BinanceAggregator.PipelineShards

/-!
No window is split.

If every trade comes before the extractions that pass its window, a bucket is extracted at most
once: what a shard still holds lies beyond all its extractions so far, and no other shard has
the symbol. When `stop` has returned, what was extracted is what was written, and it adds up to
all that was added.
-/

namespace BinanceAggregator.Pipeline

open Runs MarketDataAggregator

variable {C : Config} {E : Env} {s : St C} {tr : List (Act C)}

lemma mem_extracted {x : WindowStats} :
    x ∈ extracted tr ↔ ∃ who i c l, .extract who i c l ∈ tr ∧ x ∈ l := by
  rw [extracted, List.mem_flatMap]
  constructor
  · rintro ⟨a, ha, hx⟩
    cases a with
    | extract who i c l => exact ⟨who, i, c, l, ha, hx⟩
    | _ => simp at hx
  · rintro ⟨who, i, c, l, ha, hx⟩
    exact ⟨_, ha, hx⟩

/-- A bucket that a shard holds has not been extracted before, from any shard. -/
lemma not_mem_extracted (h : run (step E) (start C) tr = some s) (hot : OnTime tr) {i : Index C}
    {b : Bucket} (hb : (s.shards i).aggregator.table b ≠ 0) :
    ∀ x ∈ extracted tr, x.bucket ≠ b := by
  rintro x hx rfl
  obtain ⟨who, j, c, l, hl, hxl⟩ := mem_extracted.mp hx
  obtain ⟨htakes, hj⟩ := (run_extractions h).takes who j c l hl x hxl
  -- the window was extracted from the shard of its symbol, which is the shard that holds it
  have hij : j = i := hj.symm.trans ((run_routed h i).2 _ hb)
  subst hij
  exact run_fresh h hot who j c l hl _ hb htakes

/-- No bucket is extracted twice. -/
theorem nodup_extracted (h : run (step E) (start C) tr = some s) (hot : OnTime tr) :
    ((extracted tr).map (·.bucket)).Nodup := by
  refine run_inv (P := fun tr _ => OnTime tr → ((extracted tr).map (·.bucket)).Nodup)
    (fun _ => List.nodup_nil) ?_ h hot
  intro tr s a s' hr hnodup ha hot
  specialize hnodup hot.of_append
  rw [extracted_append, List.map_append]
  cases step_aggregators (step_cases ha) with
  | keep _ hext _ _ _ => simpa [hext] using hnodup
  | add i t he _ _ _ =>
      have hext : extracted [a] = [] := by rw [he]; rfl
      simpa [hext] using hnodup
  | extract who i f todo ws he _ _ _ _ =>
      have hext : extracted [a] = ((s.shards i).aggregator.extract f.cut).1 := by
        rw [he]
        exact List.append_nil _
      rw [hext]
      refine hnodup.append ((s.shards i).aggregator.extract_spec f.cut).nodup ?_
      rw [List.disjoint_left]
      rintro b hb hnew
      obtain ⟨x, hx, rfl⟩ := List.mem_map.mp hb
      obtain ⟨y, hy, hyx⟩ := List.mem_map.mp hnew
      exact not_mem_extracted hr hot.of_append (takes_of_mem_extract hy).2 x hx hyx.symm

/-- **No split windows.** In a run in which no trade comes after an extraction that has passed
its window, every bucket that received a trade is written exactly once, as the statistics of
all its trades. -/
theorem unsplit (h : run (step E) (start C) tr = some s) (hret : s.stopper = .returned)
    (hot : OnTime tr) (b : Bucket) (hb : ∃ t ∈ added tr, t.bucket C.windowMs = b) :
    ∃ x, (writtenWindows tr).filter (fun y => y.bucket = b) = [x] ∧
      statsOf b.1 b.2 ((added tr).filter fun t => t.bucket C.windowMs = b) = some x := by
  obtain ⟨-, hsum, hwritten⟩ := flows_of_returned h hret
  have hnodup : ((writtenWindows tr).map (·.bucket)).Nodup :=
    (hwritten.map _).nodup_iff.mpr (nodup_extracted h hot)
  have htally : windowTally (writtenWindows tr) = tradeTally C.windowMs (added tr) := by
    rw [← hsum]
    exact Tally.tally_perm _ _ hwritten
  -- the bucket is written at all, because its tally is not zero
  have hne : windowTally (writtenWindows tr) b ≠ 0 := by
    obtain ⟨t, ht, rfl⟩ := hb
    rw [htally]
    exact fun hzero => (Tally.tally_eq_zero_iff _ _).mp hzero t ht rfl
  obtain ⟨x, hx, rfl⟩ := Tally.exists_mem_of_tally_ne _ _ hne
  have hfilter := Tally.filter_key_eq_singleton _ hnodup hx
  refine ⟨x, hfilter, ?_⟩
  rw [statsOf_filter, ← htally, ← mergeAll_filter, hfilter]
  rfl

/-- A message, a tick that passes its window, a message of the next window, and `stop`. -/
def twoWindows : List (Act (sampleConfig 500)) :=
  feed _ (sampleMessage "BTCUSDT" "0") (sampleTrade "BTCUSDT" 0)
    ++ tick _ 700 (fun _ => [sampleWindow "BTCUSDT" 0]) [⟨0, [sampleWindow "BTCUSDT" 0]⟩]
    ++ feed _ (sampleMessage "BTCUSDT" "500") (sampleTrade "BTCUSDT" 500)
    ++ shutDown _ (fun _ => [sampleWindow "BTCUSDT" 500]) [⟨500, [sampleWindow "BTCUSDT" 500]⟩]

theorem unsplit_twoWindows : ∃ x,
    (writtenWindows twoWindows).filter (fun y => y.bucket = (ascii "BTCUSDT", 0)) = [x] ∧
    statsOf (ascii "BTCUSDT") 0 ((added twoWindows).filter fun t =>
      t.bucket 500 = (ascii "BTCUSDT", 0)) = some x := by
  obtain ⟨s, hs, hret⟩ := exists_returned sampleEnv twoWindows (by decide +kernel)
  exact unsplit hs hret (onTime_of_check (by decide +kernel)) (ascii "BTCUSDT", 0)
    ⟨sampleTrade "BTCUSDT" 0, by decide +kernel, by decide +kernel⟩

end BinanceAggregator.Pipeline
