import BinanceAggregator.Following

/-!
Sharding does not change the output.

Pipelines that are given the same phases follow the same single aggregator, and so they write the
same, however many shards they have and however their threads are scheduled.
-/

namespace BinanceAggregator.Pipeline

open Runs MarketDataAggregator

variable {C : Config} {E : Env} {s : St C} {a : Act C} {tr : List (Act C)} {q : Single}
  {done : List StatsSnapshot}

/-- The messages of each phase with the tick that ends it, and the last messages. -/
def script (phases : List (List Str × UInt64)) (last : List Str) : List Cmd :=
  phases.flatMap (fun p => p.1.map .submit ++ [.tick p.2]) ++ last.map .submit

/-- A run that is given some phases and some last messages, and ends with `stop` returned. -/
structure Session (E : Env) (C : Config) (phases : List (List Str × UInt64)) (last : List Str)
    (tr : List (Act C)) : Prop where
  returned : ∃ s, run (step E) (start C) tr = some s ∧ s.stopper = .returned
  phased : Meets (step E) (InPhase E) (start C) tr
  given : commands tr = script phases last

/-- A phased run follows the single aggregator. -/
theorem run_tracks (hr : run (step E) (start C) tr = some s)
    (hp : Meets (step E) (InPhase E) (start C) tr) : Tracks E (single E tr) (written tr) s := by
  refine run_inv (P := fun tr s => Meets (step E) (InPhase E) (start C) tr →
    Tracks E (single E tr) (written tr) s) (fun _ => tracks_start) ?_ hr hp
  intro tr s a s' hr ih ha hp
  rw [written_append]
  exact step_tracks hr (step_cases ha) (hp.last hr) (ih hp.of_append)

lemma finish_of_spent (hs : Spent s) (ht : Tracks E q done s)
    (hret : s.flushOf .stopper = none) : q.finish E = done := by
  have hwriter : s.flushOf .writer = none := by simp [St.flushOf, hs.quiet.writer]
  cases ht with
  | spent _ h => exact h
  | calm hc =>
      have hzero : q.aggregator.table = 0 := by
        rw [hc.table, flight_eq_zero hs.quiet.inFlight_eq_zero, add_zero]
        exact Finset.sum_eq_zero fun i _ => hs.tables i
      rcases hc.out with ⟨-, hout⟩ | ⟨cut, todo, hw, -⟩
      · rw [Single.finish, (extract_of_table_eq_zero hzero .all).1, hout]
        exact List.append_nil _
      · cases hwriter.symm.trans hw
  | ticking f ht => cases hwriter.symm.trans ht.flush
  | stopping f hs => cases hret.symm.trans hs.flush
  | finishing cut todo hs _ => cases hret.symm.trans hs

/-- **The snapshots of a session** are those of a single aggregator, whatever the shards and the
schedule. -/
theorem written_eq_single {phases : List (List Str × UInt64)} {last : List Str}
    (h : Session E C phases last tr) :
    written tr = (Single.perform E C.windowMs (script phases last)).finish E := by
  obtain ⟨⟨s, hr, hret⟩, hp, hgiven⟩ := h
  have hfin : (single E tr).finish E = written tr :=
    finish_of_spent (spent_of_returned hr hret) (run_tracks hr hp) (by simp [St.flushOf, hret])
  rw [← hfin, single, hgiven]

theorem output_eq_single {phases : List (List Str × UInt64)} {last : List Str}
    (h : Session E C phases last tr) :
    output E tr = ((Single.perform E C.windowMs (script phases last)).finish E).map (text E) := by
  rw [output, written_eq_single h]

/-- **Sharding preserves the output.** Two pipelines with the same windows that are given the same
phases and the same last messages pass the same texts to the sink, in the same order. -/
theorem sharding_invariant {C D : Config} (hw : C.windowMs = D.windowMs)
    {phases : List (List Str × UInt64)} {last : List Str} {tr : List (Act C)} {ur : List (Act D)}
    (ht : Session E C phases last tr) (hu : Session E D phases last ur) :
    output E tr = output E ur := by
  rw [output_eq_single ht, output_eq_single hu, hw]

/-! ### Two runs -/

/-- The run `sharded` with one shard. -/
def unsharded : List (Act (sampleConfig 500)) :=
  twoSymbols _ (fun _ => [sampleWindow "BNBUSDT" 0, sampleWindow "BTCUSDT" 0])
    ++ shutDown _ (fun _ => [sampleWindow "BTCUSDT" 500]) [⟨500, [sampleWindow "BTCUSDT" 500]⟩]

/-- Both are sessions of one phase. -/
lemma unsharded_session : Session sampleEnv (sampleConfig 500)
    [([sampleMessage "BTCUSDT" "0", sampleMessage "BNBUSDT" "0"], 700)]
    [sampleMessage "BTCUSDT" "500"] unsharded :=
  ⟨exists_returned sampleEnv unsharded (by decide +kernel), meets_of_check (by decide +kernel),
    by decide +kernel⟩

lemma sharded_session : Session sampleEnv twoShards
    [([sampleMessage "BTCUSDT" "0", sampleMessage "BNBUSDT" "0"], 700)]
    [sampleMessage "BTCUSDT" "500"] sharded :=
  ⟨exists_returned sampleEnv sharded (by decide +kernel), meets_of_check (by decide +kernel),
    by decide +kernel⟩

theorem sharding_invariant_twoSymbols : (output sampleEnv unsharded).length = 2 ∧
    output sampleEnv unsharded = output sampleEnv sharded :=
  ⟨by decide +kernel,
    sharding_invariant (C := sampleConfig 500) (D := twoShards) rfl unsharded_session sharded_session⟩

end BinanceAggregator.Pipeline
