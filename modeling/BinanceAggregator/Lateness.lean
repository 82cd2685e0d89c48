import Mathlib.Algebra.Order.BigOperators.Group.Finset
import BinanceAggregator.Unsplit

/-!
How often a window is split.

A trade is late where it is added after an extraction of its shard that has passed its window. The
windows written for a bucket are at most one more than the late trades of the bucket: a bucket that
a shard holds again after it was extracted was begun anew by a trade, and that trade was late. The
file thus has no more lines than there are buckets and late trades, and a line for each bucket.
-/

namespace BinanceAggregator.Pipeline

open Runs MarketDataAggregator

variable {C : Config} {E : Env} {s s' : St C} {a : Act C} {tr : List (Act C)} {b : Bucket}

/-- The trades that the actions `rest` add late after the actions `past`. -/
def lateFrom : List (Act C) → List (Act C) → List TradeEvent
  | _, [] => []
  | past, a :: rest => (if a.isOnTime past then [] else added [a]) ++ lateFrom (past ++ [a]) rest

/-- The trades added late, in order. -/
def late (tr : List (Act C)) : List TradeEvent := lateFrom [] tr

lemma late_snoc (tr : List (Act C)) (a : Act C) :
    late (tr ++ [a]) = late tr ++ if a.isOnTime tr then [] else added [a] := by
  suffices hgen : ∀ tr past : List (Act C), lateFrom past (tr ++ [a]) =
      lateFrom past tr ++ if a.isOnTime (past ++ tr) then [] else added [a] from hgen tr []
  intro tr
  induction tr with
  | nil => simp [lateFrom]
  | cons e rest ih => simp [lateFrom, ih]

/-- The buckets of the late trades. -/
def lateBuckets (tr : List (Act C)) : List Bucket := (late tr).map (·.bucket C.windowMs)

lemma count_lateBuckets_le (tr : List (Act C)) (a : Act C) (b : Bucket) :
    (lateBuckets tr).count b ≤ (lateBuckets (tr ++ [a])).count b := by
  rw [lateBuckets, lateBuckets, late_snoc, List.map_append, List.count_append]
  exact Nat.le_add_right _ _

/-- A trade that comes late is counted. -/
lemma count_lateBuckets_add {i : Index C} {t : TradeEvent}
    (h : (Act.aggAdd i t).isOnTime tr = false) :
    (lateBuckets (tr ++ [.aggAdd i t])).count (t.bucket C.windowMs) =
      (lateBuckets tr).count (t.bucket C.windowMs) + 1 := by
  have hadd : added [Act.aggAdd (C := C) i t] = [t] := rfl
  rw [lateBuckets, lateBuckets, late_snoc, h, hadd]
  simp

/-! ### One line more than late trades -/

/-- The buckets of the windows extracted. -/
def extractedBuckets (tr : List (Act C)) : List Bucket := (extracted tr).map (·.bucket)

lemma extractedBuckets_append (u v : List (Act C)) :
    extractedBuckets (u ++ v) = extractedBuckets u ++ extractedBuckets v := by
  simp [extractedBuckets, extracted_append]

/-- A bucket has been extracted at most once more than trades of it came late; not even that while
its shard holds it. -/
structure Split (E : Env) (b : Bucket) (tr : List (Act C)) (s : St C) : Prop where
  all : (extractedBuckets tr).count b ≤ 1 + (lateBuckets tr).count b
  held : (s.shards (shardIndexForSymbol E C b.1)).aggregator.table b ≠ 0 →
    (extractedBuckets tr).count b ≤ (lateBuckets tr).count b

/-- What was extracted before a trade that is on time is not of its bucket. -/
lemma not_mem_of_isOnTime (hx : Extractions E tr s) {i : Index C} {t : TradeEvent}
    (hpc : (s.shards i).thread = .adding t) (hi : shardIndexForSymbol E C t.symbol = i)
    (h : (Act.aggAdd i t).isOnTime tr = true) : t.bucket C.windowMs ∉ extractedBuckets tr := by
  intro hb
  obtain ⟨x, hx', hxb⟩ := List.mem_map.mp hb
  obtain ⟨who, j, c, l, hl, hxl⟩ := mem_extracted.mp hx'
  obtain ⟨htakes, hj⟩ := hx.takes who j c l hl x hxl
  obtain ⟨hsymbol, hstart⟩ := Prod.mk.inj hxb
  -- the extraction was one of the same shard, and it has passed the window
  obtain rfl : j = i := by rw [← hj, hsymbol, hi]
  cases c with
  | all =>
      have hexited := hx.all who j l hl j
      rw [hpc] at hexited
      cases hexited
  | completed W =>
      have hle := List.all_eq_true.mp h _ hl
      simp only [ne_eq, not_true_eq_false, decide_false, Bool.false_or, decide_eq_true_eq] at hle
      have hlt : t.windowStartMs C.windowMs < W := hstart ▸ htakes
      exact absurd (UInt64.lt_of_lt_of_le hlt hle) (UInt64.lt_irrefl _)

lemma split_add (hb : Built s) (hr : ∀ i, Routed E i (s.shards i)) (hx : Extractions E tr s)
    (h : Split E b tr s) {i : Index C} {t : TradeEvent} (hpc : (s.shards i).thread = .adding t)
    (hi : (s'.shards i).aggregator = (s.shards i).aggregator.addTrade t)
    (hj : ∀ j, j ≠ i → (s'.shards j).aggregator = (s.shards j).aggregator) :
    Split E b (tr ++ [.aggAdd i t]) s' := by
  have hsame : extractedBuckets (tr ++ [.aggAdd i t]) = extractedBuckets tr := by
    rw [extractedBuckets_append]
    exact List.append_nil _
  have hmono := count_lateBuckets_le tr (.aggAdd i t) b
  refine ⟨hsame ▸ h.all.trans (by omega), fun hheld => ?_⟩
  rw [hsame]
  by_cases hbefore : (s.shards (shardIndexForSymbol E C b.1)).aggregator.table b = 0
  · -- the trade begins the bucket, so it is of the bucket
    have hshard : shardIndexForSymbol E C b.1 = i := by
      by_contra hne
      exact hheld (by rw [hj _ hne, hbefore])
    rw [hshard] at hbefore hheld
    rw [hi] at hheld
    obtain hzero | rfl := table_of_addTrade hheld
    · exact absurd hbefore hzero
    rw [(hb.shards i).2] at hbefore hmono ⊢
    have hall := h.all
    rw [(hb.shards i).2] at hall
    cases hot : (Act.aggAdd i t).isOnTime tr with
    | true =>
        have hnot := not_mem_of_isOnTime hx hpc
          ((hr i).1 t (by simp [hpc, AggPc.trades])) hot
        rw [List.count_eq_zero_of_not_mem hnot]
        exact Nat.zero_le _
    | false =>
        rw [count_lateBuckets_add hot]
        omega
  · exact (h.held hbefore).trans hmono

lemma split_extract (hr : ∀ i, Routed E i (s.shards i)) (h : Split E b tr s) {who : Flusher}
    {i : Index C} {c : Cut} (hi : (s'.shards i).aggregator = ((s.shards i).aggregator.extract c).2)
    (hj : ∀ j, j ≠ i → (s'.shards j).aggregator = (s.shards j).aggregator) :
    Split E b (tr ++ [.extract who i c ((s.shards i).aggregator.extract c).1]) s' := by
  set l := ((s.shards i).aggregator.extract c).1 with hl
  have hmore : extractedBuckets (tr ++ [.extract who i c l]) =
      extractedBuckets tr ++ l.map (·.bucket) := by
    rw [extractedBuckets_append]
    exact congrArg (_ ++ List.map _ ·) (List.append_nil l)
  have hmono := count_lateBuckets_le tr (.extract who i c l) b
  have hnodup := ((s.shards i).aggregator.extract_spec c).nodup
  rw [← hl] at hnodup
  by_cases hmem : b ∈ l.map (·.bucket)
  · -- the bucket is taken: it was held, and is not any more
    obtain ⟨x, hx, rfl⟩ := List.mem_map.mp hmem
    obtain ⟨htakes, hne⟩ := takes_of_mem_extract hx
    have hshard : shardIndexForSymbol E C x.bucket.1 = i := (hr i).2 _ hne
    have hheld := h.held (hshard ▸ hne)
    refine ⟨?_, fun hafter => ?_⟩
    · rw [hmore, List.count_append, List.count_eq_one_of_mem hnodup hmem]
      omega
    · rw [hshard, hi] at hafter
      exact absurd htakes (table_of_extract hafter).1
  · have hcount : (extractedBuckets (tr ++ [.extract who i c l])).count b =
        (extractedBuckets tr).count b := by
      rw [hmore, List.count_append, List.count_eq_zero_of_not_mem hmem, Nat.add_zero]
    refine ⟨hcount ▸ h.all.trans (by omega), fun hafter => ?_⟩
    rw [hcount]
    refine (h.held ?_).trans hmono
    by_cases hshard : shardIndexForSymbol E C b.1 = i
    · rw [hshard, hi] at hafter
      rw [hshard]
      exact (table_of_extract hafter).2
    · rwa [hj _ hshard] at hafter

lemma step_split (hb : Built s) (hr : ∀ i, Routed E i (s.shards i)) (hx : Extractions E tr s)
    (hs : Split E b tr s) (h : Step E s a s') : Split E b (tr ++ [a]) s' := by
  cases step_aggregators h with
  | keep _ hext _ _ hkeep =>
      have hsame : extractedBuckets (tr ++ [a]) = extractedBuckets tr := by
        rw [extractedBuckets_append, extractedBuckets, extractedBuckets, hext, List.map_nil,
          List.append_nil]
      have hmono := count_lateBuckets_le tr a b
      refine ⟨hsame ▸ hs.all.trans (by omega), fun hheld => ?_⟩
      rw [hkeep] at hheld
      rw [hsame]
      exact (hs.held hheld).trans hmono
  | add i t ha hpc hi hj =>
      subst ha
      exact split_add hb hr hx hs hpc hi hj
  | extract who i f todo ws ha _ _ hi hj =>
      subst ha
      exact split_extract hr hs hi hj

lemma run_splits (h : run (step E) (start C) tr = some s) (b : Bucket) : Split E b tr s := by
  refine run_inv (P := Split E b) ?_ ?_ h
  · exact ⟨Nat.zero_le _, fun _ => Nat.zero_le _⟩
  · intro tr s a s' hrun hs ha
    exact step_split (run_built hrun) (run_routed hrun) (run_extractions hrun) hs (step_cases ha)

/-! ### The lines of the file -/

/-- A list that has each value at most once more often than another has fewer members than its
values and the other list together. -/
lemma length_le_of_count_le {K : Type} [DecidableEq K] [BEq K] [LawfulBEq K] {l m : List K}
    (h : ∀ k, l.count k ≤ 1 + m.count k) : l.length ≤ l.toFinset.card + m.length := by
  obtain rfl : ‹BEq K› = instBEqOfDecidableEq := lawful_beq_subsingleton _ _
  calc l.length = ∑ k ∈ l.toFinset, l.count k := l.sum_toFinset_count_eq_length.symm
    _ ≤ ∑ k ∈ l.toFinset, (1 + m.count k) := Finset.sum_le_sum fun k _ => h k
    _ = l.toFinset.card + ∑ k ∈ l.toFinset, m.count k := by
        rw [Finset.sum_add_distrib, Finset.card_eq_sum_ones]
    _ ≤ l.toFinset.card + ∑ k ∈ l.toFinset ∪ m.toFinset, m.count k :=
        Nat.add_le_add_left (Finset.sum_le_sum_of_subset Finset.subset_union_left) _
    _ = l.toFinset.card + m.length := by
        have hcard := Multiset.sum_count_eq_card (s := l.toFinset ∪ m.toFinset)
          (m := (m : Multiset K)) fun k hk => by simp_all
        simpa using hcard

/-- The buckets written are those of the accepted trades. -/
lemma mem_lines_iff (h : run (step E) (start C) tr = some s) (hret : s.stopper = .returned) :
    b ∈ (writtenWindows tr).map (·.bucket) ↔ b ∈ (trades E tr).map (·.bucket C.windowMs) := by
  obtain ⟨hadded, hsum, hwritten⟩ := flows_of_returned h hret
  have hzero := congrFun hsum b
  have hlines : windowTally (extracted tr) b = 0 ↔ b ∉ (extracted tr).map (·.bucket) := by
    rw [windowTally, Tally.tally_eq_zero_iff]
    simp
  have htrades : tradeTally C.windowMs (added tr) b = 0 ↔
      b ∉ (added tr).map (·.bucket C.windowMs) := by
    rw [tradeTally, Tally.tally_eq_zero_iff]
    simp
  rw [(hwritten.map _).mem_iff, ← (hadded.map _).mem_iff, ← not_iff_not, ← hlines, ← htrades, hzero]

/-- **Splitting is bounded by lateness.** When `stop` has returned, the buckets of the lines written
are those of the trades of the accepted messages, and each has at most one line more than trades
that came late for it. So the lines are as many as the buckets, and at most as many more as there
were late trades. -/
theorem lines_bounded (h : run (step E) (start C) tr = some s) (hret : s.stopper = .returned) :
    (∀ b, (b ∈ (writtenWindows tr).map (·.bucket) ↔
        b ∈ (trades E tr).map (·.bucket C.windowMs)) ∧
      ((writtenWindows tr).map (·.bucket)).count b ≤
        1 + ((late tr).map (·.bucket C.windowMs)).count b) ∧
    ((trades E tr).map (·.bucket C.windowMs)).toFinset.card ≤ (writtenWindows tr).length ∧
    (writtenWindows tr).length ≤
      ((trades E tr).map (·.bucket C.windowMs)).toFinset.card + (late tr).length := by
  obtain ⟨-, -, hwritten⟩ := flows_of_returned h hret
  have hcount : ∀ b, ((writtenWindows tr).map (·.bucket)).count b ≤
      1 + ((late tr).map (·.bucket C.windowMs)).count b := by
    intro b
    rw [(hwritten.map _).count_eq]
    exact (run_splits h b).all
  have hbuckets : ((writtenWindows tr).map (·.bucket)).toFinset =
      ((trades E tr).map (·.bucket C.windowMs)).toFinset := by
    ext b
    rw [List.mem_toFinset, List.mem_toFinset, mem_lines_iff h hret]
  refine ⟨fun b => ⟨mem_lines_iff h hret, hcount b⟩, ?_, ?_⟩
  · rw [← hbuckets]
    simpa using List.toFinset_card_le ((writtenWindows tr).map (·.bucket))
  · rw [← hbuckets]
    simpa using length_le_of_count_le hcount

/-- The bound is reached: one bucket, one late trade, two lines. -/
theorem lines_bounded_secondComesLate :
    (writtenWindows secondComesLate).length = 2 ∧ (writtenWindows secondComesLate).length ≤
      ((trades sampleEnv secondComesLate).map (·.bucket 500)).toFinset.card +
        (late secondComesLate).length ∧
    (late secondComesLate).length = 1 := by
  obtain ⟨s, hs, hret⟩ := exists_returned sampleEnv secondComesLate (by decide +kernel)
  exact ⟨by decide +kernel, (lines_bounded hs hret).2.2, by decide +kernel⟩

end BinanceAggregator.Pipeline
