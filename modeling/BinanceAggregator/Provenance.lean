import BinanceAggregator.Shutdown
import BinanceAggregator.Unsplit

/-!
Which trades each line of the output stands for.

An account is kept beside the run: the trades that each shard holds, and for every window extracted
the trades that were counted in it. Each trade added is in one place of the account. The windows
extracted are the statistics of the trades they are accounted with, no more and no fewer, all of the
symbol and the time of the window. So when `stop` has returned, the accepted trades are dealt out to
the lines of the output, each to one.
-/

namespace BinanceAggregator.Pipeline

open Runs MarketDataAggregator

variable {C : Config} {E : Env} {s s' : St C} {a : Act C} {tr : List (Act C)}

/-- A window with the trades that were counted in it. -/
structure Entry where
  window : WindowStats
  trades : List TradeEvent

/-- The trades a shard holds, and the windows extracted. -/
structure Account (C : Config) where
  pending : Index C → List TradeEvent
  entries : List Entry

/-- The entry of a window that is extracted from a shard. -/
def entryOf (windowMs : UInt64) (pending : List TradeEvent) (x : WindowStats) : Entry :=
  ⟨x, pending.filter fun t => t.bucket windowMs = x.bucket⟩

/-- What an action does to the account. -/
def Account.next (acc : Account C) : Act C → Account C
  | .aggAdd i t => { acc with pending := Function.update acc.pending i (acc.pending i ++ [t]) }
  | .extract _ i cut windows =>
    { pending := Function.update acc.pending i
        ((acc.pending i).filter fun t => ¬ cut.Takes (t.windowStartMs C.windowMs))
      entries := acc.entries ++ windows.map (entryOf C.windowMs (acc.pending i)) }
  | _ => acc

/-- The account of a history. -/
def account (tr : List (Act C)) : Account C := tr.foldl Account.next ⟨fun _ => [], []⟩

lemma account_snoc (tr : List (Act C)) (a : Act C) :
    account (tr ++ [a]) = (account tr).next a := by
  simp [account]

/-- An entry is right: the window is the statistics of its trades, which are of its bucket. -/
def Entry.Right (windowMs : UInt64) (e : Entry) : Prop :=
  statsOf e.window.symbol e.window.windowStartMs e.trades = some e.window ∧
    ∀ t ∈ e.trades, t.bucket windowMs = e.window.bucket

/-! ### One extraction -/

section Extraction

variable {x : MarketDataAggregator} {W : UInt64} {pending : List TradeEvent}
  (htable : x.table = tradeTally W pending)
include htable

/-- The window of a bucket is the statistics of the trades held for it. -/
lemma entryOf_right {cut : Cut} {w : WindowStats} (hw : w ∈ (x.extract cut).1) :
    (entryOf W pending w).Right W := by
  refine ⟨?_, fun t ht => of_decide_eq_true (List.mem_filter.mp ht).2⟩
  have hstats : x.windowStats w.bucket.1 w.bucket.2 = some w :=
    (((x.extract_spec cut).mem w).mp hw).1
  rwa [windowStats_eq, htable, ← statsOf_filter] at hstats

/-- The trades held are those counted in the windows taken and those left. -/
lemma pending_perm (cut : Cut) :
    (((x.extract cut).1.flatMap fun w => (entryOf W pending w).trades) ++
      pending.filter fun t => ¬ cut.Takes (t.windowStartMs W)).Perm pending := by
  have hkeys := Tally.flatMap_filter_perm (fun t : TradeEvent => t.bucket W)
    (nodup_extract x cut) pending
  rw [List.flatMap_map] at hkeys
  -- the bucket of a trade that is held is taken just when the cut takes its window
  have htaken : ∀ t ∈ pending, (t.bucket W ∈ (x.extract cut).1.map WindowStats.bucket ↔
      cut.Takes (t.windowStartMs W)) := by
    intro t ht
    have hne : x.table (t.bucket W) ≠ 0 := by
      rw [htable]
      exact fun hzero => (Tally.tally_eq_zero_iff _ _).mp hzero t ht rfl
    exact mem_buckets.trans ⟨And.left, fun hc => ⟨hc, hne⟩⟩
  have hsplit := List.filter_append_perm (fun t => decide (cut.Takes (t.windowStartMs W))) pending
  have htakes : ((x.extract cut).1.flatMap fun w => (entryOf W pending w).trades).Perm
      (pending.filter fun t => cut.Takes (t.windowStartMs W)) := by
    refine hkeys.trans (.of_eq (List.filter_congr fun t ht => ?_))
    exact decide_eq_decide.mpr (htaken t ht)
  refine (htakes.append_right _).trans ?_
  simpa using hsplit

/-- What is left is held for the buckets that were not taken. -/
lemma table_left (cut : Cut) : (x.extract cut).2.table =
    tradeTally W (pending.filter fun t => ¬ cut.Takes (t.windowStartMs W)) := by
  funext b
  have hfilter := Tally.tally_filter (fun t : TradeEvent => t.bucket W) TradeEvent.summary
    (fun b => ¬ cut.Takes b.2) pending b
  rw [table_extract, htable]
  refine Eq.trans ?_ hfilter.symm
  by_cases hc : cut.Takes b.2
  · simp [hc]
  · simp [hc]
    rfl

end Extraction

/-! ### The account of a run -/

/-- What an account says of a run. -/
structure Balanced (tr : List (Act C)) (s : St C) (acc : Account C) : Prop where
  windows : acc.entries.map (·.window) = extracted tr
  right : ∀ e ∈ acc.entries, e.Right C.windowMs
  held : ∀ i, (s.shards i).aggregator.table = tradeTally C.windowMs (acc.pending i)
  total : (acc.entries.flatMap (·.trades) : Multiset TradeEvent) +
    ∑ i, (acc.pending i : Multiset TradeEvent) = added tr

/-- The trades held, with one shard set apart. -/
lemma exists_held (pending : Index C → List TradeEvent) (i : Index C) (l : List TradeEvent) :
    ∃ rest : Multiset TradeEvent, ∑ j, (pending j : Multiset TradeEvent) = pending i + rest ∧
      ∑ j, (Function.update pending i l j : Multiset TradeEvent) = l + rest := by
  obtain ⟨rest, h1, h2⟩ := exists_sum_of_eq_off (i := i)
    (f := fun j => (pending j : Multiset TradeEvent))
    (g := fun j => (Function.update pending i l j : Multiset TradeEvent))
    fun j hj => by rw [Function.update_of_ne hj]
  rw [Function.update_self] at h2
  exact ⟨rest, h1, h2⟩

lemma balanced_add {acc : Account C} (hb : Built s) (h : Balanced tr s acc) {i : Index C}
    {t : TradeEvent} (hi : (s'.shards i).aggregator = (s.shards i).aggregator.addTrade t)
    (hj : ∀ j, j ≠ i → (s'.shards j).aggregator = (s.shards j).aggregator) :
    Balanced (tr ++ [.aggAdd i t]) s' (acc.next (.aggAdd i t)) := by
  obtain ⟨hwindows, hright, hheld, htotal⟩ := h
  refine ⟨?_, hright, fun j => ?_, ?_⟩
  · rw [extracted_append]
    exact hwindows.trans (List.append_nil _).symm
  · change _ = tradeTally C.windowMs (Function.update acc.pending i (acc.pending i ++ [t]) j)
    by_cases hji : j = i
    · subst hji
      rw [Function.update_self, hi, table_addTrade, hheld, (hb.shards j).2, tradeTally_append]
    · rw [Function.update_of_ne hji, hj j hji, hheld]
  · obtain ⟨rest, h1, h2⟩ := exists_held acc.pending i (acc.pending i ++ [t])
    have hadd : added [Act.aggAdd (C := C) i t] = [t] := rfl
    change (acc.entries.flatMap (·.trades) : Multiset TradeEvent) +
      ∑ j, (Function.update acc.pending i (acc.pending i ++ [t]) j : Multiset TradeEvent) = _
    rw [added_append, hadd, ← Multiset.coe_add, ← htotal, h1, h2, ← Multiset.coe_add]
    abel

lemma balanced_extract {acc : Account C} (h : Balanced tr s acc) {who : Flusher} {i : Index C}
    {cut : Cut} (hi : (s'.shards i).aggregator = ((s.shards i).aggregator.extract cut).2)
    (hj : ∀ j, j ≠ i → (s'.shards j).aggregator = (s.shards j).aggregator) :
    Balanced (tr ++ [.extract who i cut ((s.shards i).aggregator.extract cut).1]) s'
      (acc.next (.extract who i cut ((s.shards i).aggregator.extract cut).1)) := by
  obtain ⟨hwindows, hright, hheld, htotal⟩ := h
  refine ⟨?_, fun e he => ?_, fun j => ?_, ?_⟩
  · rw [extracted_append, ← hwindows]
    simp [Account.next, extracted, entryOf, Function.comp_def]
  · rcases List.mem_append.mp he with he | he
    · exact hright e he
    · obtain ⟨w, hw, rfl⟩ := List.mem_map.mp he
      exact entryOf_right (hheld i) hw
  · change _ = tradeTally C.windowMs (Function.update acc.pending i _ j)
    by_cases hji : j = i
    · subst hji
      rw [Function.update_self, hi, table_left (hheld j)]
    · rw [Function.update_of_ne hji, hj j hji, hheld]
  · obtain ⟨rest, h1, h2⟩ := exists_held acc.pending i
      ((acc.pending i).filter fun t => ¬ cut.Takes (t.windowStartMs C.windowMs))
    have hperm := Multiset.coe_eq_coe.mpr (pending_perm (hheld i) cut)
    have hadd : added (tr ++ [Act.extract who i cut ((s.shards i).aggregator.extract cut).1]) =
        added tr := by
      rw [added_append]
      exact List.append_nil _
    have hentries : (acc.entries ++ ((s.shards i).aggregator.extract cut).1.map
        (entryOf C.windowMs (acc.pending i))).flatMap (·.trades) =
        acc.entries.flatMap (·.trades) ++ ((s.shards i).aggregator.extract cut).1.flatMap
          fun w => (entryOf C.windowMs (acc.pending i) w).trades := by
      rw [List.flatMap_append, List.flatMap_map]
    rw [hadd, ← htotal, h1]
    change ((acc.entries ++ ((s.shards i).aggregator.extract cut).1.map
      (entryOf C.windowMs (acc.pending i))).flatMap (·.trades) : Multiset TradeEvent) +
      ∑ j, (Function.update acc.pending i _ j : Multiset TradeEvent) = _
    rw [h2, hentries, ← hperm, ← Multiset.coe_add, ← Multiset.coe_add]
    abel

lemma step_balanced (hb : Built s) (h : Balanced tr s (account tr)) (hstep : Step E s a s') :
    Balanced (tr ++ [a]) s' (account (tr ++ [a])) := by
  rw [account_snoc]
  cases step_aggregators hstep with
  | keep hadd hext hno hna hkeep =>
      have hnext : (account tr).next a = account tr := by
        cases a with
        | extract who i c l => exact absurd rfl (hno who i c l)
        | aggAdd i t => exact absurd rfl (hna i t)
        | _ => rfl
      rw [hnext]
      refine ⟨?_, h.right, fun i => ?_, ?_⟩
      · rw [extracted_append, hext, List.append_nil]
        exact h.windows
      · rw [hkeep]
        exact h.held i
      · rw [added_append, hadd, List.append_nil]
        exact h.total
  | add i t ha _ hi hj =>
      subst ha
      exact balanced_add hb h hi hj
  | extract who i f todo ws ha hf _ hi hj =>
      subst ha
      exact balanced_extract h hi hj

lemma run_balanced (h : run (step E) (start C) tr = some s) : Balanced tr s (account tr) := by
  refine run_inv (P := fun tr s => Balanced tr s (account tr)) ?_ ?_ h
  · refine ⟨rfl, fun e he => absurd he List.not_mem_nil, fun i => ?_, ?_⟩
    · exact table_ofWindowMs _
    · change (0 : Multiset TradeEvent) + ∑ i : Index C, (0 : Multiset TradeEvent) = 0
      simp
  · intro tr s a s' hrun hs ha
    exact step_balanced (run_built hrun) hs (step_cases ha)

/-- **Every line has its trades, every trade its line.** In every run the windows extracted can be
given lists of trades such that each window is the statistics of its own list, the list is of trades
of the window's symbol and time, and the lists together with what the shards hold are the trades
added. When `stop` has returned, the windows are those written and the lists deal out the trades of
the accepted messages. -/
theorem provenance (h : run (step E) (start C) tr = some s) :
    ∃ (entries : List Entry) (pending : Index C → List TradeEvent),
      entries.map (·.window) = extracted tr ∧ (∀ e ∈ entries, e.Right C.windowMs) ∧
      (∀ i, (s.shards i).aggregator.table = tradeTally C.windowMs (pending i)) ∧
      (entries.flatMap (·.trades) : Multiset TradeEvent) +
        ∑ i, (pending i : Multiset TradeEvent) = added tr ∧
      (s.stopper = .returned → (entries.map (·.window)).Perm (writtenWindows tr) ∧
        (entries.flatMap (·.trades)).Perm (trades E tr)) := by
  obtain ⟨hwindows, hright, hheld, htotal⟩ := run_balanced h
  refine ⟨_, _, hwindows, hright, hheld, htotal, fun hret => ?_⟩
  obtain ⟨hadded, -, hwritten⟩ := flows_of_returned h hret
  obtain ⟨-, hempty, -⟩ := spent_of_returned h hret
  refine ⟨hwindows ▸ hwritten.symm, ?_⟩
  -- an empty table holds no trade, so nothing is pending
  have hpending : ∀ i, (account tr).pending i = [] := by
    intro i
    refine List.eq_nil_iff_forall_not_mem.mpr fun t ht => ?_
    have hzero : tradeTally C.windowMs ((account tr).pending i) (t.bucket C.windowMs) = 0 := by
      rw [← hheld i, hempty i]
      rfl
    exact (Tally.tally_eq_zero_iff _ _).mp hzero t ht rfl
  rw [Finset.sum_eq_zero fun i _ => by rw [hpending i]; rfl, add_zero] at htotal
  exact (Multiset.coe_eq_coe.mp htotal).trans hadded

/-- Two trades of one symbol in two windows are two lines, each with its own trade. -/
theorem provenance_twoWindows : ∃ entries : List Entry,
    (entries.map (·.window)).Perm [sampleWindow "BTCUSDT" 0, sampleWindow "BTCUSDT" 500] ∧
    (entries.flatMap (·.trades)).Perm [sampleTrade "BTCUSDT" 0, sampleTrade "BTCUSDT" 500] ∧
    ∀ e ∈ entries, e.Right 500 := by
  obtain ⟨s, hs, hret⟩ := exists_returned sampleEnv twoWindows (by decide +kernel)
  obtain ⟨entries, -, -, hright, -, -, hreturned⟩ := provenance hs
  obtain ⟨hwritten, htrades⟩ := hreturned hret
  have hw : writtenWindows twoWindows =
      [sampleWindow "BTCUSDT" 0, sampleWindow "BTCUSDT" 500] := by decide +kernel
  have ht : trades sampleEnv twoWindows =
      [sampleTrade "BTCUSDT" 0, sampleTrade "BTCUSDT" 500] := by decide +kernel
  exact ⟨entries, hw ▸ hwritten, ht ▸ htrades, hright⟩

end BinanceAggregator.Pipeline
