import BinanceAggregator.Collected

/-!
What the pipeline is for, without its threads and its shards.

A single aggregator is given every message as it comes, and every tick of the clock; it has no
queue, and a tick is over at once. A pipeline that is given the same messages and the same ticks
is compared with it through what the shards hold together and what is in flight.
-/

namespace BinanceAggregator

open BoundedQueue MarketDataAggregator Pipeline

/-- What comes from outside: a message, or a tick of the writer's clock. -/
inductive Cmd
  | submit (message : Str)
  | tick (nowMs : UInt64)
  deriving DecidableEq

/-- One aggregator, and the snapshots written so far. -/
structure Single where
  aggregator : MarketDataAggregator
  out : List StatsSnapshot

namespace Single

def init (windowMs : UInt64) : Single := ⟨.ofWindowMs windowMs, []⟩

def exec (E : Env) (q : Single) : Cmd → Single
  | .submit message => match tradeOf E message with
    | some trade => { q with aggregator := q.aggregator.addTrade trade }
    | none => q
  | .tick nowMs =>
    let cut := Cut.completed (currentWindowStartMs q.aggregator.windowMs nowMs)
    ⟨(q.aggregator.extract cut).2, q.out ++ writeWindows E (q.aggregator.extract cut).1⟩

def perform (E : Env) (windowMs : UInt64) (cmds : List Cmd) : Single :=
  cmds.foldl (exec E) (init windowMs)

/-- Everything that has been written once the rest is flushed. -/
def finish (E : Env) (q : Single) : List StatsSnapshot :=
  q.out ++ writeWindows E (q.aggregator.extract .all).1

variable {E : Env} {q : Single}

lemma exec_windowMs (c : Cmd) : (q.exec E c).aggregator.windowMs = q.aggregator.windowMs := by
  cases c with
  | submit m => rw [exec]; split <;> rfl
  | tick nowMs => exact extract_windowMs _ _

lemma perform_windowMs (windowMs : UInt64) (cmds : List Cmd) :
    (perform E windowMs cmds).aggregator.windowMs = windowMs := by
  induction cmds using List.reverseRecOn with
  | nil => rfl
  | append_singleton cmds c ih => rw [perform, List.foldl_append, List.foldl_cons, List.foldl_nil,
      exec_windowMs, ← perform, ih]

lemma table_submit (m : Str) : (q.exec E (.submit m)).aggregator.table =
    q.aggregator.table + tradeTally q.aggregator.windowMs ((tradeOf E m).toList) := by
  rw [exec]
  cases tradeOf E m with
  | none => simp
  | some t => exact table_addTrade _ t

lemma out_submit (m : Str) : (q.exec E (.submit m)).out = q.out := by
  rw [exec]
  split <;> rfl

end Single

namespace Pipeline

variable {C : Config} {E : Env} {s s' : St C} {a : Act C} {tr : List (Act C)}

/-- The messages accepted and the ticks, in the order of the run. -/
def commands (tr : List (Act C)) : List Cmd := tr.filterMap fun a => match a with
  | .push _ message true => some (.submit message)
  | .readClock nowMs => some (.tick nowMs)
  | _ => none

/-- The single aggregator that is given what a run was given. -/
def single (E : Env) (tr : List (Act C)) : Single := .perform E C.windowMs (commands tr)

lemma single_snoc (tr : List (Act C)) (a : Act C) :
    single E (tr ++ [a]) = (commands [a]).foldl (Single.exec E) (single E tr) := by
  rw [single, commands, List.filterMap_append, Single.perform, List.foldl_append]
  rfl

lemma single_windowMs (tr : List (Act C)) : (single E tr).aggregator.windowMs = C.windowMs :=
  Single.perform_windowMs _ _

/-- A step that is no tick adds to the single aggregator what it accepts. -/
lemma single_of_ne_tick (tr : List (Act C)) (hc : a.clock = none) :
    (single E (tr ++ [a])).out = (single E tr).out ∧
    (single E (tr ++ [a])).aggregator.table =
      (single E tr).aggregator.table + tradeTally C.windowMs (trades E [a]) := by
  rw [single_snoc]
  cases a with
  | push k m ok =>
      cases ok with
      | false => exact ⟨rfl, by simp [commands, trades, accepted]⟩
      | true =>
          have htable := Single.table_submit (E := E) (q := single E tr) m
          rw [single_windowMs] at htable
          refine ⟨?_, htable.trans ?_⟩
          · exact Single.out_submit m
          · have ht : trades E [Act.push (C := C) k m true] = (tradeOf E m).toList := by
              rw [← List.append_nil (tradeOf E m).toList]
              exact filterMap_cons_tradeOf m []
            rw [ht]
  | readClock nowMs => cases hc
  | _ => exact ⟨rfl, (add_zero _).symm⟩

lemma single_of_flusher (who : Flusher) (h : a.flusher = some who) :
    single E (tr ++ [a]) = single E tr := by
  rw [single_snoc]
  cases a <;> first | rfl | cases h

/-! ### What the pipeline holds -/

/-- What the shards hold together. -/
def held (s : St C) : Bucket → WithZero Summary := ∑ i, (s.shards i).aggregator.table

lemma held_start : held (start C) = 0 := Finset.sum_eq_zero fun _ _ => table_ofWindowMs _

/-- What is in flight, tallied. -/
noncomputable def flight (E : Env) (s : St C) : Bucket → WithZero Summary :=
  tradeTally C.windowMs (inFlight E s).toList

lemma flight_eq_zero (h : inFlight E s = 0) : flight E s = 0 := by
  rw [flight, h, Multiset.toList_zero, tradeTally_nil]

lemma step_flight (ho : Ordered s) (h : Step E s a s') :
    flight E s' + tradeTally C.windowMs (added [a]) =
      flight E s + tradeTally C.windowMs (trades E [a]) := by
  have hc : inFlight E s' + added [a] = inFlight E s + trades E [a] := step_carries ho h
  rw [← Multiset.coe_toList (inFlight E s'), ← Multiset.coe_toList (inFlight E s),
    Multiset.coe_add, Multiset.coe_add, Multiset.coe_eq_coe] at hc
  rw [flight, flight, ← tradeTally_append, ← tradeTally_append]
  exact Tally.tally_perm _ _ hc

/-- A step that extracts nothing adds what it accepts to what is held or in flight. -/
lemma step_balance (ho : Ordered s) (hb : Built s) (h : Step E s a s') (hx : extracted [a] = []) :
    held s' + flight E s' = held s + flight E s + tradeTally C.windowMs (trades E [a]) := by
  have htables := step_tables hb (step_aggregators h)
  rw [hx, windowTally_nil, zero_add] at htables
  rw [held, htables, add_assoc, add_comm (tradeTally _ _), step_flight ho h, held, add_assoc]

/-- While nothing is in flight and nothing is accepted, no trade is added. -/
lemma step_idle (ho : Ordered s) (h : Step E s a s') (hi : inFlight E s = 0)
    (ht : trades E [a] = []) : inFlight E s' = 0 ∧ added [a] = [] := by
  have hc : inFlight E s' + added [a] = inFlight E s + trades E [a] := step_carries ho h
  rw [hi, ht, Multiset.coe_nil, add_zero] at hc
  refine ⟨Multiset.le_zero.mp (hc ▸ Multiset.le_add_right _ _), ?_⟩
  exact (Multiset.coe_eq_zero _).mp (Multiset.le_zero.mp (hc ▸ Multiset.le_add_left _ _))

/-- A step that adds no trade and extracts nothing leaves the aggregators alone. -/
lemma aggregators_of_ne (h : Step E s a s') (hadd : added [a] = [])
    (hx : ∀ who i c l, a ≠ .extract who i c l) :
    ∀ i, (s'.shards i).aggregator = (s.shards i).aggregator := by
  cases step_aggregators h with
  | keep _ _ _ _ h => exact h
  | add j t he _ _ _ =>
      rw [he] at hadd
      cases hadd
  | extract who j f todo ws he _ _ _ _ => exact absurd he (hx _ _ _ _)

lemma ne_extract_of_flusher (h : a.flusher = none) : ∀ who i c l, a ≠ .extract who i c l := by
  rintro who i c l rfl
  cases h

lemma held_congr (h : ∀ i, (s'.shards i).aggregator = (s.shards i).aggregator) :
    held s' = held s :=
  Finset.sum_congr rfl fun i _ => by rw [h i]

/-- Once the stages have exited nothing comes in. -/
lemma Quiet.commands_eq_nil (hq : Quiet s) (h : Step E s a s') : commands [a] = [] := by
  cases h with
  | @push k m ok q _ hq' =>
      obtain ⟨-, -, hok, -⟩ := push_eq_some hq'
      cases ok with
      | false => rfl
      | true => simp [hq.raw.1] at hok
  | readClock hw => simp [hq.writer] at hw
  | _ => rfl

lemma single_of_commands (h : commands [a] = []) : single E (tr ++ [a]) = single E tr := by
  rw [single_snoc, h, List.foldl_nil]

lemma trades_of_commands (h : commands [a] = []) : trades E [a] = [] := by
  cases a with
  | push k m ok =>
      cases ok with
      | false => rfl
      | true => cases h
  | _ => rfl

end Pipeline

end BinanceAggregator
