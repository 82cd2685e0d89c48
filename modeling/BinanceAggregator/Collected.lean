import BinanceAggregator.PipelineFlush

/-!
What a flush has collected.

The shards a flush has still to visit are distinct, and what it holds comes from the others. As
every symbol has its shard, no bucket is collected twice. So what is written at the end of the
collection depends only on which windows were collected, not on the order of the shards.
-/

namespace BinanceAggregator.Pipeline

open Runs MarketDataAggregator

variable {C : Config} {E : Env} {s s' : St C} {a : Act C} {tr : List (Act C)} {who : Flusher}
  {f f' : Flush C}

/-- What a flush holds, while it collects and while it writes. -/
structure Collected (E : Env) (f : Flush C) : Prop where
  remaining : f.pc.remaining.Nodup
  elsewhere : ∀ x ∈ f.pc.windows, shardIndexForSymbol E C x.symbol ∉ f.pc.remaining
  nodup : (f.pc.windows.map WindowStats.bucket).Nodup

lemma collected_begin (cut : Cut) : Collected E (beginFlush C cut) :=
  ⟨List.nodup_finRange _, fun _ h => absurd h List.not_mem_nil, List.nodup_nil⟩

/-- A flush goes to the next shard: what it finds there is all of that shard's symbols. -/
lemma collected_extract {cut : Cut} {i : Index C} {todo : List (Index C)} {ws : List WindowStats}
    (hr : Routed E i (s.shards i)) (hf : Collected E ⟨cut, .extracting i todo ws⟩) :
    Collected E ⟨cut, .collecting todo (ws ++ ((s.shards i).aggregator.extract cut).1)⟩ := by
  obtain ⟨hrem, helse, hnodup⟩ := hf
  obtain ⟨hi, htodo⟩ := List.nodup_cons.mp hrem
  have hhere : ∀ x ∈ ((s.shards i).aggregator.extract cut).1,
      shardIndexForSymbol E C x.symbol = i :=
    fun x hx => hr.2 x.bucket (takes_of_mem_extract hx).2
  refine ⟨htodo, fun x hx => ?_, ?_⟩
  · rcases List.mem_append.mp hx with hx | hx
    · exact fun hmem => helse x hx (List.mem_cons_of_mem _ hmem)
    · rw [hhere x hx]
      exact hi
  · change ((ws ++ ((s.shards i).aggregator.extract cut).1).map WindowStats.bucket).Nodup
    rw [List.map_append]
    refine List.Nodup.append hnodup ((s.shards i).aggregator.extract_spec cut).nodup ?_
    -- a bucket on both sides would have its symbol in two shards
    intro b hb hb'
    obtain ⟨x, hx, rfl⟩ := List.mem_map.mp hb
    obtain ⟨y, hy, hxy⟩ := List.mem_map.mp hb'
    have hsym : y.symbol = x.symbol := congrArg Prod.fst hxy
    refine helse x hx ?_
    rw [← hsym, hhere y hy]
    exact List.mem_cons_self

lemma collected_advance (hr : ∀ i, Routed E i (s.shards i)) (h : Advance E s who a f f')
    (hf : Collected E f) : Collected E f' := by
  cases h with
  | lock => exact ⟨hf.remaining, hf.elsewhere, hf.nodup⟩
  | extract => exact collected_extract (hr _) hf
  | @merge cut ws =>
      refine ⟨List.nodup_nil, fun _ _ => List.not_mem_nil, ?_⟩
      change (((writeWindows E ws).flatMap (·.windows)).map WindowStats.bucket).Nodup
      rw [writeWindows_eq]
      exact ((snapshots_perm E.symbolSort ws).map _).nodup_iff.mpr hf.nodup
  | @write cut y todo =>
      refine ⟨List.nodup_nil, fun _ _ => List.not_mem_nil, hf.nodup.sublist ?_⟩
      exact (List.sublist_append_right y.windows (todo.flatMap (·.windows))).map _

theorem run_collected (h : run (step E) (start C) tr = some s) :
    ∀ who f, s.flushOf who = some f → Collected E f :=
  run_flush collected_begin (fun hr hadv hf => collected_advance (run_routed hr) hadv hf) h

/-- What is written depends only on what was collected for each bucket. -/
lemma writeWindows_congr {l m : List WindowStats} (hl : (l.map WindowStats.bucket).Nodup)
    (hm : (m.map WindowStats.bucket).Nodup) (h : windowTally l = windowTally m) :
    writeWindows E l = writeWindows E m := by
  have hperm : l.Perm m :=
    Tally.perm_of_tally_eq WindowStats.bucket WindowStats.summary
      (fun _ _ hb hs => WindowStats.ext_bucket hb hs) hl hm h
  rw [writeWindows_eq, writeWindows_eq, snapshots_eq_of_perm E.symbolSort E.symbolSort hperm hl]

end BinanceAggregator.Pipeline
