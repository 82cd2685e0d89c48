import BinanceAggregator.ClosedWindows
import BinanceAggregator.Delivery
import BinanceAggregator.Listing
import BinanceAggregator.Provenance

/-!
A trade is in the file by the end of the first tick that finds its window closed.

As a flush goes through the shards, what a visited shard holds below the cut was added since the
flush began. When all have been visited, whatever was added before is in the windows extracted; and
when the flush ends, these are written. So a trade that is in an aggregator when the clock is read
is in a line of the file when that tick has finished, if its window had ended by the clock.
-/

namespace BinanceAggregator.Pipeline

open Runs MarketDataAggregator

variable {C : Config} {E : Env} {s s' : St C} {a : Act C} {tr u v : List (Act C)} {who : Flusher}
  {f f' : Flush C} {i : Index C}

lemma addedTo_append (i : Index C) (u v : List (Act C)) :
    addedTo i (u ++ v) = addedTo i u ++ addedTo i v := List.filterMap_append ..

/-- What was added was added to some shard. -/
lemma sum_addedTo (v : List (Act C)) :
    ∑ i, (addedTo i v : Multiset TradeEvent) = (added v : Multiset TradeEvent) := by
  induction v with
  | nil => exact Finset.sum_eq_zero fun i _ => rfl
  | cons a v ih =>
      have hsplit (i : Index C) : (addedTo i (a :: v) : Multiset TradeEvent) =
          (addedTo i [a] : Multiset TradeEvent) + addedTo i v := by
        rw [← List.singleton_append, addedTo_append, Multiset.coe_add]
      have hone : ∑ i, (addedTo i [a] : Multiset TradeEvent) =
          (added [a] : Multiset TradeEvent) := by
        cases a with
        | aggAdd j t =>
            rw [Finset.sum_eq_single j]
            · simp [addedTo, addsTo, added]
            · intro i _ hi
              simp [addedTo, addsTo, hi.symm]
            · simp
        | _ => exact Finset.sum_eq_zero fun i _ => rfl
      rw [Finset.sum_congr rfl fun i _ => hsplit i, Finset.sum_add_distrib, hone, ih,
        ← List.singleton_append (l := v), added_append, Multiset.coe_add]

lemma filter_sum {K T : Type} [Fintype K] (p : T → Prop) [DecidablePred p] (m : K → Multiset T) :
    Multiset.filter p (∑ i, m i) = ∑ i, Multiset.filter p (m i) :=
  map_sum (⟨⟨Multiset.filter p, rfl⟩, Multiset.filter_add p⟩ : Multiset T →+ Multiset T) m _

/-! ### What a flush leaves behind -/

/-- The trades that a cut takes. -/
def taken (windowMs : UInt64) (cut : Cut) (ts : List TradeEvent) : List TradeEvent :=
  ts.filter fun t => cut.Takes (t.windowStartMs windowMs)

/-- What a shard that a flush has visited holds below the cut has come since the flush began. -/
def Cleared (tr : List (Act C)) (f : Flush C) : Prop :=
  ∀ i, i ∉ f.pc.remaining →
    (taken C.windowMs f.cut ((account tr).pending i)).Sublist (addedTo i (current tr))

lemma cleared_begin (cut : Cut) : Cleared tr (beginFlush C cut) :=
  fun i hi => absurd (List.mem_finRange i) hi

/-- An action beside the flush at most adds a trade. -/
lemma cleared_beside (h : Cleared tr f) (ha : a.flusher = none) (hb : a.begins = false) :
    Cleared (tr ++ [a]) f := by
  intro i hi
  have hlast := h i hi
  rw [account_snoc, current_snoc hb, addedTo_append]
  cases a with
  | aggAdd j t =>
      by_cases hij : i = j
      · subst hij
        have hadd : addedTo i [Act.aggAdd i t] = [t] := by simp [addedTo, addsTo]
        have hpending : ((account tr).next (.aggAdd i t)).pending i =
            (account tr).pending i ++ [t] := Function.update_self ..
        rw [hadd, hpending, taken, List.filter_append]
        exact hlast.append List.filter_sublist
      · have hpending : ((account tr).next (.aggAdd j t)).pending i = (account tr).pending i :=
          Function.update_of_ne hij ..
        rw [hpending]
        exact hlast.trans (List.sublist_append_left _ _)
  | extract who i c l => cases ha
  | _ => exact hlast.trans (List.sublist_append_left _ _)

/-- An action of the flush adds nothing, and clears the shard that it extracts. -/
lemma cleared_advance (h : Cleared tr f) (hadv : Advance E s who a f f') :
    Cleared (tr ++ [a]) f' := by
  intro i hi
  have hcurrent : current (tr ++ [a]) = current tr ++ [a] := current_snoc hadv.begins_eq_false
  rw [account_snoc, hcurrent, addedTo_append]
  refine List.Sublist.trans ?_ (List.sublist_append_left _ _)
  cases hadv with
  | lock | merge | write => exact h i hi
  | @extract cut j todo ws =>
      by_cases hij : i = j
      · subst hij
        have hpending : ((account tr).next (.extract who i cut
            ((s.shards i).aggregator.extract cut).1)).pending i =
            ((account tr).pending i).filter fun t => ¬ cut.Takes (t.windowStartMs C.windowMs) :=
          Function.update_self ..
        have hnone : taken C.windowMs cut (((account tr).pending i).filter fun t =>
            ¬ cut.Takes (t.windowStartMs C.windowMs)) = [] := by
          simp [taken, List.filter_filter]
        rw [hpending, hnone]
        exact List.nil_sublist _
      · have hpending : ((account tr).next (.extract who j cut
            ((s.shards j).aggregator.extract cut).1)).pending i = (account tr).pending i :=
          Function.update_of_ne hij ..
        rw [hpending]
        exact h i (by simpa [FlushPc.remaining, hij] using hi)

lemma run_cleared (h : run (step E) (start C) tr = some s) :
    ∀ who f, s.flushOf who = some f → Cleared tr f := by
  refine run_inv (P := fun tr s => ∀ who f, s.flushOf who = some f → Cleared tr f) ?_ ?_ h
  · intro who f hf
    cases who <;> cases hf
  · intro tr s a s' hrun ih ha who f' hf'
    have hstep := step_cases ha
    cases hb : a.begins with
    | true =>
        have hrun' := (run_snoc _).mpr ⟨s, hrun, ha⟩
        obtain ⟨cut, rfl⟩ := eq_beginFlush (run_ordered hrun').exclusive hstep hb hf'
        exact cleared_begin cut
    | false =>
        cases step_flush (run_ordered hrun).exclusive hstep hf' with
        | same hf hflusher => exact cleared_beside (ih who f' hf) hflusher hb
        | begun cut hf => exact hf ▸ cleared_begin cut
        | advanced f hf hadv => exact cleared_advance (ih who f hf) hadv

/-! ### When a tick has finished -/

section Tick

variable {nowMs : UInt64}

/-- The flush that began when the clock was read is the present one. -/
lemma current_readClock (hv : ∀ a ∈ v, a.begins = false) :
    current (u ++ .readClock nowMs :: v) = v ∧
      lastClock (u ++ .readClock nowMs :: v) = some nowMs := by
  induction v using List.reverseRecOn with
  | nil => exact ⟨current_begins rfl, lastClock_of_clock rfl⟩
  | append_singleton v a ih =>
      have ha := hv a (by simp)
      have hclock : a.clock = none := by
        cases a with
        | readClock n => cases ha
        | _ => rfl
      obtain ⟨hcurrent, hlast⟩ := ih fun b hb => hv b (by simp [hb])
      rw [← List.cons_append, ← List.append_assoc, current_snoc ha, lastClock_snoc hclock]
      exact ⟨by rw [hcurrent], hlast⟩

/-- A writer that has written all it collected has nothing in its hands, nor has anyone else. -/
lemma written_of_writing_nil {cut : Cut} (h : run (step E) (start C) tr = some s)
    (hf : s.flushOf .writer = some ⟨cut, .writing []⟩) :
    (writtenWindows tr).Perm (extracted tr) := by
  have hstopper : s.stopper.windows = [] := by
    cases hpc : s.stopper with
    | flushing g => cases (run_ordered h).exclusive _ _ _ _ hf (flushOf_stopper.mpr hpc)
    | _ => rfl
  have hhands : hands s.writer s.stopper = 0 := by
    rw [hands, flushOf_writer.mp hf, hstopper]
    rfl
  have hwindows := run_windows h
  rw [hhands, add_zero] at hwindows
  exact Multiset.coe_eq_coe.mp hwindows

/-- What was added before the flush began and lies below its cut is in the windows extracted. -/
lemma taken_subperm (h : run (step E) (start C) (u ++ .readClock nowMs :: v) = some s)
    (hv : ∀ a ∈ v, a.begins = false) {f : Flush C} (hf : s.flushOf .writer = some f)
    (hremaining : f.pc.remaining = []) : (taken C.windowMs f.cut (added u)).Subperm
      ((account (u ++ .readClock nowMs :: v)).entries.flatMap (·.trades)) := by
  set acc := account (u ++ .readClock nowMs :: v) with hacc
  have htotal := (run_balanced h).total
  have hadded : added (u ++ .readClock nowMs :: v) = added u ++ added v := added_append ..
  rw [← hacc, hadded, ← Multiset.coe_add] at htotal
  let T : TradeEvent → Prop := fun t => f.cut.Takes (t.windowStartMs C.windowMs)
  -- what the shards still hold below the cut was added after the clock was read
  have hpending : ∑ i, Multiset.filter T (acc.pending i) ≤ Multiset.filter T (added v) := by
    refine Multiset.le_filter.mpr ⟨?_, fun t ht => ?_⟩
    · rw [← sum_addedTo]
      refine Finset.sum_le_sum fun i _ => ?_
      have hcleared := run_cleared h _ _ hf i (by simp [hremaining])
      rw [(current_readClock hv).1] at hcleared
      rw [Multiset.filter_coe]
      exact Multiset.coe_le.mpr hcleared.subperm
    · obtain ⟨i, -, hi⟩ := Multiset.mem_sum.mp ht
      exact (Multiset.mem_filter.mp hi).2
  have hfilter := congrArg (Multiset.filter T) htotal
  rw [Multiset.filter_add, Multiset.filter_add, filter_sum] at hfilter
  have hle : Multiset.filter T (added u) + Multiset.filter T (added v) ≤
      (acc.entries.flatMap (·.trades) : Multiset TradeEvent) + Multiset.filter T (added v) := by
    rw [← hfilter]
    exact add_le_add (Multiset.filter_le _ _) hpending
  exact Multiset.coe_le.mp (le_of_add_le_add_right hle)

/-- **A tick writes all that is due.** When the flush that began with a reading of the clock has
finished, the windows in the file can be given lists of trades, each window the statistics of its
own list, that contain every trade that had been added when the clock was read and whose window had
ended by then. -/
theorem prompt (hw : 0 < C.windowMs)
    (h : run (step E) (start C) (u ++ .readClock nowMs :: v ++ [.finish .writer]) = some s)
    (hv : ∀ a ∈ v, a.begins = false) : ∃ entries : List Entry,
      (entries.map (·.window)).Perm (writtenWindows (u ++ .readClock nowMs :: v)) ∧
      (∀ e ∈ entries, e.Right C.windowMs) ∧
      ((added u).filter fun t => (t.windowStartMs C.windowMs).toNat + C.windowMs.toNat ≤
        nowMs.toNat).Subperm (entries.flatMap (·.trades)) := by
  obtain ⟨m, hm, ha⟩ := (run_snoc _).mp h
  cases step_cases ha with
  | @finish _ cut hf =>
      obtain ⟨hwindows, hright, -, -⟩ := run_balanced hm
      refine ⟨_, hwindows ▸ (written_of_writing_nil hm hf).symm, hright, ?_⟩
      obtain ⟨now, hlast, hcut⟩ := run_clocked hm _ hf
      obtain rfl := Option.some.inj ((current_readClock hv).2.symm.trans hlast)
      refine List.Subperm.trans (List.Sublist.subperm ?_) (taken_subperm hm hv hf rfl)
      refine List.monotone_filter_right _ fun t ht => ?_
      -- a window that has ended starts before the one that is open
      rw [decide_eq_true_eq] at ht ⊢
      rw [hcut]
      by_contra hnot
      exact absurd (lt_end_of_not_lt hw hnot) (by omega)

/-- The tick of a run with windows of half a second has written the trade of the first window. -/
theorem prompt_twoWindows : ∃ entries : List Entry,
    (entries.map (·.window)).Perm [sampleWindow "BTCUSDT" 0] ∧ (∀ e ∈ entries, e.Right 500) ∧
    [sampleTrade "BTCUSDT" 0].Subperm (entries.flatMap (·.trades)) := by
  obtain ⟨s, hs, -⟩ := exists_returned sampleEnv twoWindows (by decide +kernel)
  have hsplit : twoWindows = twoWindows.take 13 ++ .readClock 700 :: (twoWindows.drop 14).take 4 ++
      [.finish .writer] ++ twoWindows.drop 19 := rfl
  rw [hsplit] at hs
  obtain ⟨m, hm, -⟩ := run_prefix _ hs
  exact prompt (by decide) hm (by decide +kernel)

end Tick

end BinanceAggregator.Pipeline
