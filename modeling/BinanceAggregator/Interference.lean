import BinanceAggregator.Sharding
import BinanceAggregator.Unsplit

/-!
Symbols do not interfere.

A session whose messages of other symbols are deleted writes what the whole session writes,
without the windows of the other symbols. Both sessions follow a single aggregator, and the
table of the one is that of the other, restricted to the symbols that are kept.
-/

namespace BinanceAggregator

open Runs MarketDataAggregator

variable (S : Str → Bool)

/-! ### Snapshots restricted to some symbols -/

/-- The snapshots without the windows of other symbols, and without those left with no window. -/
def restrict (ys : List StatsSnapshot) : List StatsSnapshot :=
  (ys.map fun y => { y with windows := y.windows.filter fun x => S x.symbol }).filter
    fun y => !y.windows.isEmpty

lemma restrict_append (ys zs : List StatsSnapshot) :
    restrict S (ys ++ zs) = restrict S ys ++ restrict S zs := by
  simp [restrict]

lemma sort_ofStart_filter (sort : SymbolSort) {l : List WindowStats}
    (hl : (l.map (·.bucket)).Nodup) (k : UInt64) :
    sort.sort (ofStart k (l.filter fun x => S x.symbol)) =
      (sort.sort (ofStart k l)).filter fun x => S x.symbol := by
  have hsub : ((l.filter fun x => S x.symbol).map (·.bucket)).Nodup :=
    hl.sublist (List.filter_sublist.map _)
  refine ordered_ext (·.symbol) (sort_ofStart_lt sort hsub k) ((sort_ofStart_lt sort hl k).filter _)
    fun x => ?_
  rw [(sort.perm _).mem_iff, List.mem_filter, (sort.perm _).mem_iff]
  simp only [ofStart, List.mem_filter]
  tauto

/-- **Grouping and restricting commute**, where no bucket occurs twice. -/
theorem snapshots_filter (sort : SymbolSort) {l : List WindowStats}
    (hl : (l.map (·.bucket)).Nodup) :
    snapshots sort (l.filter fun x => S x.symbol) = restrict S (snapshots sort l) := by
  have hsort := sort_ofStart_filter S sort hl
  -- a start is kept if a window of it is kept
  have hstarts : starts (l.filter fun x => S x.symbol) = (starts l).filter fun k =>
      !((sort.sort (ofStart k l)).filter fun x => S x.symbol).isEmpty := by
    refine ordered_ext id (starts_ordered _) ((starts_ordered l).filter _) fun k => ?_
    have hkept : ((sort.sort (ofStart k l)).filter fun x => S x.symbol) ≠ [] ↔
        k ∈ starts (l.filter fun x => S x.symbol) := by
      rw [mem_starts, Ne, List.filter_eq_nil_iff]
      simp only [(sort.perm _).mem_iff, ofStart, List.mem_filter, decide_eq_true_eq]
      push Not
      exact exists_congr fun x => by tauto
    have hsub : k ∈ starts (l.filter fun x => S x.symbol) → k ∈ starts l := by
      simp only [mem_starts, List.mem_filter]
      rintro ⟨x, ⟨hx, -⟩, hk⟩
      exact ⟨x, hx, hk⟩
    rw [List.mem_filter, Bool.not_eq_true', List.isEmpty_eq_false_iff, hkept]
    exact ⟨fun hk => ⟨hsub hk, hk⟩, fun hk => hk.2⟩
  rw [snapshots_eq, snapshots_eq, restrict, List.map_map, List.filter_map, hstarts]
  exact List.map_congr_left fun k _ => by rw [hsort]; rfl

/-! ### A single aggregator restricted to some symbols -/

namespace Pipeline

variable {S} {E : Env} {q q' : Single}

/-- The message stands for a trade of one of the symbols. -/
def concerns (E : Env) (S : Str → Bool) (message : Str) : Bool :=
  (tradeOf E message).any fun trade => S trade.symbol

/-- The commands that stay when the messages of other symbols are deleted. -/
def keeps (E : Env) (S : Str → Bool) : Cmd → Bool
  | .submit message => concerns E S message
  | .tick _ => true

/-- The second aggregator holds and has written what the first has of some symbols. -/
structure Restricts (S : Str → Bool) (q q' : Single) : Prop where
  windowMs : q'.aggregator.windowMs = q.aggregator.windowMs
  table : ∀ b, q'.aggregator.table b = if S b.1 then q.aggregator.table b else 0
  out : q'.out = restrict S q.out

lemma writeWindows_extract (h : Restricts S q q') (cut : Cut) :
    writeWindows E (q'.aggregator.extract cut).1 =
      restrict S (writeWindows E (q.aggregator.extract cut).1) := by
  have hspec := q.aggregator.extract_spec cut
  have hspec' := q'.aggregator.extract_spec cut
  have hsub : (((q.aggregator.extract cut).1.filter fun x => S x.symbol).map
      WindowStats.bucket).Nodup := hspec.nodup.sublist (List.filter_sublist.map _)
  have htally : windowTally (q'.aggregator.extract cut).1 =
      windowTally ((q.aggregator.extract cut).1.filter fun x => S x.symbol) := by
    funext b
    have hfilter := Tally.tally_filter WindowStats.bucket WindowStats.summary (fun b => S b.1)
      (q.aggregator.extract cut).1 b
    refine Eq.trans ?_ hfilter.symm
    change windowTally _ b = if S b.1 then windowTally _ b else 0
    rw [windowTally_extract, windowTally_extract, h.table b]
    split_ifs <;> rfl
  rw [writeWindows_congr hspec'.nodup hsub htally, writeWindows_eq, writeWindows_eq,
    snapshots_filter S _ hspec.nodup]

/-- A trade adds nothing to the buckets of other symbols. -/
lemma tradeTally_of_symbol_ne {windowMs : UInt64} {t : TradeEvent} {b : Bucket}
    (h : t.symbol ≠ b.1) : tradeTally windowMs [t] b = 0 := by
  refine (Tally.tally_eq_zero_iff _ _).mpr fun u hu hb => h ?_
  obtain rfl := List.mem_singleton.mp hu
  exact congrArg Prod.fst hb

/-- A message of another symbol, or of none, is not seen. -/
lemma restricts_drop (h : Restricts S q q') {message : Str} (hm : concerns E S message = false) :
    Restricts S (q.exec E (.submit message)) q' := by
  refine ⟨h.windowMs.trans (Single.exec_windowMs _).symm, fun b => ?_, ?_⟩
  · rw [h.table b, Single.table_submit, Pi.add_apply]
    split_ifs with hb
    · have hzero : tradeTally q.aggregator.windowMs (tradeOf E message).toList b = 0 := by
        cases ht : tradeOf E message with
        | none => rfl
        | some t =>
            have hS : S t.symbol = false := by simpa [concerns, ht] using hm
            refine tradeTally_of_symbol_ne fun he => ?_
            rw [he, hb] at hS
            cases hS
      rw [hzero, add_zero]
    · rfl
  · rw [Single.out_submit, h.out]

lemma restricts_submit (h : Restricts S q q') {message : Str} (hm : concerns E S message) :
    Restricts S (q.exec E (.submit message)) (q'.exec E (.submit message)) := by
  refine ⟨?_, fun b => ?_, ?_⟩
  · rw [Single.exec_windowMs, Single.exec_windowMs, h.windowMs]
  · rw [Single.table_submit, Single.table_submit, Pi.add_apply, Pi.add_apply, h.table b, h.windowMs]
    split_ifs with hb
    · rfl
    · obtain ⟨t, ht, hS⟩ := (Option.any_eq_true _ _).mp hm
      have hne : t.symbol ≠ b.1 := fun he => hb (he ▸ hS)
      rw [ht, Option.toList_some, tradeTally_of_symbol_ne hne, add_zero]
  · rw [Single.out_submit, Single.out_submit, h.out]

lemma restricts_tick (h : Restricts S q q') (nowMs : UInt64) :
    Restricts S (q.exec E (.tick nowMs)) (q'.exec E (.tick nowMs)) := by
  refine ⟨?_, fun b => ?_, ?_⟩
  · rw [Single.exec_windowMs, Single.exec_windowMs, h.windowMs]
  · simp only [Single.exec, h.windowMs]
    rw [table_extract, table_extract, h.table b]
    split_ifs <;> rfl
  · simp only [Single.exec, h.windowMs]
    rw [restrict_append, h.out, writeWindows_extract h]

lemma exec_restricts (h : Restricts S q q') (c : Cmd) :
    Restricts S (q.exec E c) (([c].filter (keeps E S)).foldl (Single.exec E) q') := by
  cases c with
  | submit message =>
      cases hm : concerns E S message with
      | true => simpa [keeps, hm] using restricts_submit h hm
      | false => simpa [keeps, hm] using restricts_drop h hm
  | tick nowMs => exact restricts_tick h nowMs

lemma perform_restricts (windowMs : UInt64) (cmds : List Cmd) :
    Restricts S (.perform E windowMs cmds) (.perform E windowMs (cmds.filter (keeps E S))) := by
  induction cmds using List.reverseRecOn with
  | nil => exact ⟨rfl, fun b => by simp [Single.perform, Single.init], rfl⟩
  | append_singleton cmds c ih =>
      rw [List.filter_append]
      simp only [Single.perform, List.foldl_append]
      exact exec_restricts ih c

lemma finish_restricts (h : Restricts S q q') : q'.finish E = restrict S (q.finish E) := by
  rw [Single.finish, Single.finish, restrict_append, h.out, writeWindows_extract h]

/-! ### Two sessions -/

/-- The phases without the messages that are not of the symbols. -/
def purge (E : Env) (S : Str → Bool) (phases : List (List Str × UInt64)) :
    List (List Str × UInt64) :=
  phases.map fun p => (p.1.filter (concerns E S), p.2)

lemma script_purge (phases : List (List Str × UInt64)) (last : List Str) :
    script (purge E S phases) (last.filter (concerns E S)) =
      (script phases last).filter (keeps E S) := by
  have hsubmit : ∀ ms : List Str, (ms.filter (concerns E S)).map Cmd.submit =
      (ms.map Cmd.submit).filter (keeps E S) := fun ms => by
    rw [List.filter_map]
    rfl
  rw [script, script, List.filter_append, hsubmit, purge, List.flatMap_map]
  congr 1
  induction phases with
  | nil => rfl
  | cons p phases ih =>
      rw [List.flatMap_cons, List.flatMap_cons, List.filter_append, List.filter_append, ih, hsubmit]
      rfl

/-- **Symbols do not interfere.** A session without the messages of other symbols passes to the
sink the texts of the snapshots that the whole session writes, restricted to the symbols that are
kept. -/
theorem symbols_independent {C D : Config} (hw : C.windowMs = D.windowMs)
    {phases : List (List Str × UInt64)} {last : List Str} {tr : List (Act C)} {ur : List (Act D)}
    (ht : Session E C phases last tr)
    (hu : Session E D (purge E S phases) (last.filter (concerns E S)) ur) :
    output E ur = (restrict S (written tr)).map (text E) := by
  rw [output_eq_single hu, script_purge, ← hw, finish_restricts (perform_restricts _ _),
    written_eq_single ht]

/-- The messages of one symbol, by themselves. -/
lemma twoWindows_session : Session sampleEnv (sampleConfig 500)
    (purge sampleEnv (· == ascii "BTCUSDT")
      [([sampleMessage "BTCUSDT" "0", sampleMessage "BNBUSDT" "0"], 700)])
    ([sampleMessage "BTCUSDT" "500"].filter (concerns sampleEnv (· == ascii "BTCUSDT")))
    twoWindows :=
  ⟨exists_returned sampleEnv twoWindows (by decide +kernel), meets_of_check (by decide +kernel),
    by decide +kernel⟩

theorem symbols_independent_twoWindows :
    restrict (· == ascii "BTCUSDT") (written sharded) ≠ written sharded ∧
    output sampleEnv twoWindows =
      (restrict (· == ascii "BTCUSDT") (written sharded)).map (text sampleEnv) :=
  ⟨by decide +kernel, symbols_independent (C := ⟨500, 4, 2⟩) (D := sampleConfig 500) rfl
    sharded_session twoWindows_session⟩

end Pipeline

end BinanceAggregator
