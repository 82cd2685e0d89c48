import BinanceAggregator.Timestamps
import BinanceAggregator.Unsplit

/-!
The blocks of a run are written in the order of their starts.

Within a flush the blocks are ordered by the map that groups them. Across flushes the order
comes from the extractions: when a block is written every shard has been extracted past its
start, so that what the shards hold from then on, if no trade comes too late, starts later.
-/

namespace BinanceAggregator.Pipeline

open Runs MarketDataAggregator

variable {C : Config} {E : Env} {s s' : St C} {a : Act C} {tr : List (Act C)} {who : Flusher}
  {f f' : Flush C}

/-- The starts of what a flush has collected, or is going to write. -/
def FlushPc.starts : FlushPc C → List UInt64
  | .collecting _ ws => ws.map (·.windowStartMs)
  | .extracting _ _ ws => ws.map (·.windowStartMs)
  | .writing todo => todo.map (·.windowStartMs)

/-- The blocks a flush is going to write are in order. -/
def FlushPc.Sorted : FlushPc C → Prop
  | .writing todo => (todo.map (·.windowStartMs)).Pairwise (· < ·)
  | _ => True

/-- The blocks written are in order, and what a flush holds comes after them. -/
structure Ascending (tr : List (Act C)) (s : St C) : Prop where
  blocks : (blockStarts tr).Pairwise (· < ·)
  ahead : ∀ who f, s.flushOf who = some f → ∀ k ∈ blockStarts tr, ∀ j ∈ f.pc.starts, k < j
  sorted : ∀ who f, s.flushOf who = some f → f.pc.Sorted

/-- An extraction that takes a start takes every earlier one. -/
lemma Cut.takes_of_le {c : Cut} {j k : UInt64} (h : c.Takes k) (hjk : j ≤ k) : c.Takes j := by
  cases c with
  | completed W => exact UInt64.lt_of_le_of_lt hjk h
  | all => trivial

/-- A window that a shard still holds starts after everything written before. -/
lemma blockStarts_lt (hs : Stamped tr s) (hfresh : Fresh tr s) {i : Index C} {x : WindowStats}
    (hx : (s.shards i).aggregator.table x.bucket ≠ 0) :
    ∀ k ∈ blockStarts tr, k < x.windowStartMs := by
  intro k hk
  obtain ⟨y, hy, rfl⟩ := List.mem_map.mp hk
  obtain ⟨who, c, l, hl, hc⟩ := (hs.blocks y hy).2.shards i
  by_contra hle
  have htakes : c.Takes x.windowStartMs := Cut.takes_of_le hc (UInt64.not_lt.mp hle)
  exact hfresh who i c l hl x.bucket hx htakes

lemma ahead_advance (hb : Ascending tr s) (hs : Stamped tr s) (hfresh : Fresh tr s)
    (hf : s.flushOf who = some f) (ha : Advance E s who a f f') :
    ∀ k ∈ blockStarts (tr ++ [a]), ∀ j ∈ f'.pc.starts, k < j := by
  have hahead := hb.ahead who f hf
  have hsorted := hb.sorted who f hf
  cases ha with
  | lock =>
      rw [blockStarts_snoc rfl]
      exact hahead
  | @extract cut i todo ws =>
      rw [blockStarts_snoc rfl]
      intro k hk j hj
      obtain ⟨x, hx, rfl⟩ := List.mem_map.mp hj
      rcases List.mem_append.mp hx with hx | hx
      · exact hahead k hk _ (List.mem_map_of_mem hx)
      · exact blockStarts_lt hs hfresh (takes_of_mem_extract hx).2 k hk
  | @merge cut ws =>
      rw [blockStarts_snoc rfl]
      intro k hk j hj
      obtain ⟨y, hy, rfl⟩ := List.mem_map.mp hj
      rw [writeWindows_eq] at hy
      -- the start of a block is the start of one of its windows
      obtain ⟨x, hx⟩ := List.exists_mem_of_ne_nil _ (snapshot_ne_nil _ hy)
      obtain ⟨hxws, hxy⟩ := mem_of_mem_snapshots _ hy hx
      rw [← hxy]
      exact hahead k hk _ (List.mem_map_of_mem hxws)
  | @write cut y todo =>
      rw [blockStarts_append]
      intro k hk j hj
      rcases List.mem_append.mp hk with hk | hk
      · exact hahead k hk j (List.mem_cons_of_mem _ hj)
      · obtain rfl : k = y.windowStartMs := by simpa [blockStarts, written] using hk
        exact (List.pairwise_cons.mp hsorted).1 j hj

lemma sorted_advance (hb : Ascending tr s) (hf : s.flushOf who = some f)
    (ha : Advance E s who a f f') : f'.pc.Sorted := by
  cases ha with
  | lock | extract => trivial
  | @merge cut ws =>
      show ((writeWindows E ws).map _).Pairwise _
      rw [writeWindows_eq, List.pairwise_map]
      exact (snapshots_ordered E.symbolSort ws).imp fun hlt => Std.compare_eq_lt.mp hlt
  | @write cut y todo => exact (List.pairwise_cons.mp (hb.sorted who _ hf)).2

lemma ascending_start : Ascending [] (start C) where
  blocks := List.Pairwise.nil
  ahead who f h := by cases who <;> cases h
  sorted who f h := by cases who <;> cases h

lemma step_ascending (hx : Exclusive s) (hs : Stamped tr s) (hfresh : Fresh tr s)
    (hasc : Ascending tr s) (h : Step E s a s') : Ascending (tr ++ [a]) s' := by
  refine ⟨?_, fun who f' hf' => ?_, fun who f' hf' => ?_⟩
  · rcases step_written h with hw | ⟨who, cut, y, todo, rfl, hf⟩
    · rw [blockStarts_snoc hw]
      exact hasc.blocks
    · rw [blockStarts_append, List.pairwise_append]
      refine ⟨hasc.blocks, List.pairwise_singleton _ _, fun k hk j hj => ?_⟩
      obtain rfl : j = y.windowStartMs := by simpa [blockStarts, written] using hj
      exact hasc.ahead who _ hf k hk _ List.mem_cons_self
  · cases step_flush hx h hf' with
    | same hf hno =>
        rw [blockStarts_snoc (written_of_flusher hno).1]
        exact hasc.ahead who f' hf
    | begun cut hf =>
        subst hf
        exact fun k _ j hj => absurd hj List.not_mem_nil
    | advanced f hf hadv => exact ahead_advance hasc hs hfresh hf hadv
  · cases step_flush hx h hf' with
    | same hf _ => exact hasc.sorted who f' hf
    | begun cut hf =>
        subst hf
        trivial
    | advanced f hf hadv => exact sorted_advance hasc hf hadv

lemma run_ascending (h : run (step E) (start C) tr = some s) (hot : OnTime tr) :
    Ascending tr s := by
  refine run_inv (P := fun tr s => OnTime tr → Ascending tr s) (fun _ => ascending_start) ?_ h hot
  intro tr s a s' hr hasc ha hot
  have hstamped := run_stamped hr hot.of_append
  have hfresh := run_fresh hr hot.of_append
  exact step_ascending (run_ordered hr).exclusive hstamped hfresh (hasc hot.of_append)
    (step_cases ha)

/-- **The file is chronological.** In every run in which no trade comes after an extraction that
has passed its window, the starts of the blocks written, over all ticks and the final flush, are
strictly increasing, whatever the clock showed at the ticks. -/
theorem blockStarts_ascending (h : run (step E) (start C) tr = some s) (hot : OnTime tr) :
    (blockStarts tr).Pairwise (· < ·) :=
  (run_ascending h hot).blocks

/-- A block of a tick and one of the final flush. -/
theorem blockStarts_ascending_twoWindows :
    blockStarts twoWindows = [0, 500] ∧ (blockStarts twoWindows).Pairwise (· < ·) := by
  obtain ⟨s, hs, -⟩ := exists_returned sampleEnv twoWindows (by decide +kernel)
  exact ⟨by decide +kernel, blockStarts_ascending hs (onTime_of_check (by decide +kernel))⟩

end BinanceAggregator.Pipeline
