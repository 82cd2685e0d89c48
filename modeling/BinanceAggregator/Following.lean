import BinanceAggregator.Single

/-!
A pipeline that is given phase after phase, each a list of messages and then a tick once they are
all aggregated, follows the single aggregator at a distance.

Between two ticks the two hold the same, if what is in flight is counted. During a tick the
single aggregator has already written what the pipeline still collects from its shards. At the
end the last flush collects what the single aggregator is left with.
-/

namespace BinanceAggregator.Pipeline

open Runs MarketDataAggregator

variable {C : Config} {E : Env} {s s' : St C} {a : Act C} {tr : List (Act C)} {q : Single}
  {done : List StatsSnapshot} {f f' : Flush C}

/-! ### Phases -/

def FlushPc.isWriting : FlushPc C → Bool
  | .writing _ => true
  | _ => false

def WriterPc.isCollecting : WriterPc C → Bool
  | .flushing f => !f.pc.isWriting
  | _ => false

/-- What a phase asks for: the clock is read once every trade has been added, and no message of
the next phase is accepted while the writer collects. -/
def InPhase (E : Env) (s : St C) : Act C → Prop
  | .readClock _ => inFlight E s = 0
  | .push _ _ true => s.writer.isCollecting = false
  | _ => True

instance (E : Env) (s : St C) (a : Act C) : Decidable (InPhase E s a) := by
  cases a with
  | readClock nowMs => exact inferInstanceAs (Decidable (inFlight E s = 0))
  | push k m ok =>
      cases ok with
      | true => exact inferInstanceAs (Decidable (s.writer.isCollecting = false))
      | false => exact .isTrue trivial
  | _ => exact .isTrue trivial

/-! ### Following the single aggregator -/

/-- No thread collects: the pipeline holds what the single aggregator holds, and has to write what
that has written. -/
structure Calm (E : Env) (q : Single) (done : List StatsSnapshot) (s : St C) : Prop where
  stopper : s.flushOf .stopper = none
  table : q.aggregator.table = held s + flight E s
  out : (s.flushOf .writer = none ∧ q.out = done) ∨
    ∃ cut todo, s.flushOf .writer = some ⟨cut, .writing todo⟩ ∧ q.out = done ++ todo

/-- The writer collects: what the shards it has not been to hold below the cut, the single
aggregator has written already. -/
structure Ticking (E : Env) (q : Single) (done : List StatsSnapshot) (s : St C) (f : Flush C) :
    Prop where
  flush : s.flushOf .writer = some f
  collecting : f.pc.isWriting = false
  idle : inFlight E s = 0
  table : ∀ b, q.aggregator.table b = if f.cut.Takes b.2 then 0 else held s b
  swept : ∀ i, i ∉ f.pc.remaining → ∀ b, f.cut.Takes b.2 → (s.shards i).aggregator.table b = 0
  out : ∃ l : List WindowStats, (l.map WindowStats.bucket).Nodup ∧
    q.out = done ++ writeWindows E l ∧
    ∀ b, windowTally l b = windowTally f.pc.windows b + if f.cut.Takes b.2 then held s b else 0

/-- The stopping thread collects what is left. -/
structure Stopping (q : Single) (done : List StatsSnapshot) (s : St C) (f : Flush C) : Prop where
  flush : s.flushOf .stopper = some f
  collecting : f.pc.isWriting = false
  table : q.aggregator.table = held s + windowTally f.pc.windows
  out : q.out = done

/-- Where a pipeline is that has written `done`, when the single aggregator is at `q`. -/
inductive Tracks (E : Env) (q : Single) (done : List StatsSnapshot) (s : St C) : Prop
  | calm (h : Calm E q done s)
  | ticking (f : Flush C) (h : Ticking E q done s f)
  | stopping (f : Flush C) (h : Stopping q done s f)
  | finishing (cut : Cut) (todo : List StatsSnapshot)
      (hf : s.flushOf .stopper = some ⟨cut, .writing todo⟩) (h : q.finish E = done ++ todo)
  | spent (hs : Spent s) (h : q.finish E = done)

lemma tracks_start : Tracks E (single (C := C) E []) [] (start C) := by
  refine .calm ⟨rfl, ?_, .inl ⟨rfl, rfl⟩⟩
  rw [flight_eq_zero inFlight_start, add_zero, held_start]
  exact table_ofWindowMs _

/-! ### Calm -/

section Steps

variable (hr : run (step E) (start C) tr = some s) (h : Step E s a s')
include hr h

/-- A step of a calm pipeline that neither reads the clock nor begins the last flush. -/
lemma calm_table (hc : Calm E (single E tr) done s) (hn : a.clock = none)
    (hx : extracted [a] = []) :
    (single E (tr ++ [a])).aggregator.table = held s' + flight E s' := by
  rw [(single_of_ne_tick tr hn).2, hc.table, step_balance (run_ordered hr) (run_built hr) h hx]

/-- The clock is read: the single aggregator writes at once what the pipeline sets out to
collect. -/
lemma calm_tick (hc : Calm E (single E tr) done s) {nowMs : UInt64} (ha : a = .readClock nowMs)
    (hno : s.flushOf .writer = none)
    (hf : s'.flushOf .writer =
      some (beginFlush C (.completed (currentWindowStartMs C.windowMs nowMs))))
    (hidle : inFlight E s = 0) :
    Ticking E (single E (tr ++ [a])) done s'
      (beginFlush C (.completed (currentWindowStartMs C.windowMs nowMs))) := by
  have hadd : added [a] = [] := by rw [ha]; rfl
  have hagg := aggregators_of_ne h hadd (by rw [ha]; nofun)
  have hidle' := (step_idle (run_ordered hr) h hidle (by rw [ha]; rfl)).1
  have hheld : (single E tr).aggregator.table = held s' := by
    rw [hc.table, flight_eq_zero hidle, add_zero, held_congr hagg]
  have hout : (single E tr).out = done := by
    rcases hc.out with ⟨-, h⟩ | ⟨cut, todo, h, -⟩
    · exact h
    · cases hno.symm.trans h
  have hsnoc : single E (tr ++ [a]) = (single E tr).exec E (.tick nowMs) := by
    rw [single_snoc, ha]
    rfl
  rw [hsnoc]
  refine ⟨hf, rfl, hidle', fun b => ?_, fun i hi => absurd (List.mem_finRange i) hi, ?_⟩
  · rw [← hheld, Single.exec, single_windowMs]
    exact table_extract _ _ b
  · have hnodup := ((single E tr).aggregator.extract_spec
      (.completed (currentWindowStartMs C.windowMs nowMs))).nodup
    refine ⟨_, hnodup, ?_, fun b => ?_⟩
    · rw [Single.exec, single_windowMs, hout]
    · rw [← hheld]
      exact (windowTally_extract _ _ b).trans (zero_add _).symm

/-- A step beside a calm pipeline's flushes. -/
lemma calm_beside (hc : Calm E (single E tr) done s) (hn : a.clock = none)
    (hx : extracted [a] = []) (hf : ∀ who, s'.flushOf who = s.flushOf who) :
    Calm E (single E (tr ++ [a])) done s' := by
  refine ⟨(hf _).trans hc.stopper, calm_table hr h hc hn hx, ?_⟩
  rw [(single_of_ne_tick tr hn).1, hf]
  exact hc.out

/-- The stages have exited, and the last flush begins. -/
lemma calm_stop (hc : Calm E (single E tr) done s) (ha : a = .aggsJoined)
    (hf : s'.flushOf .stopper = some (beginFlush C .all)) :
    Stopping (single E (tr ++ [a])) done s' (beginFlush C .all) := by
  have ho := step_ordered (run_ordered hr) h
  have hstops := ho.stops
  rw [flushOf_stopper.mp hf] at hstops
  have hquiet := ho.quiet hstops
  have htable := calm_table hr h hc (by rw [ha]; rfl) (by rw [ha]; rfl)
  rw [flight_eq_zero hquiet.inFlight_eq_zero] at htable
  refine ⟨hf, rfl, htable, ?_⟩
  rw [(single_of_ne_tick tr (by rw [ha]; rfl)).1]
  rcases hc.out with ⟨-, hout⟩ | ⟨cut, todo, hw, -⟩
  · exact hout
  · -- the writer has exited
    have hexited := ho.exclusive .writer ⟨cut, .writing todo⟩ .stopper _ ?_ hf
    · cases hexited
    · subst ha
      cases h
      exact hw

/-! ### Ticks -/

lemma ticking_beside (ht : Ticking E (single E tr) done s f) (hn : a.clock = none)
    (hphase : InPhase E s a) (ha : a.flusher = none)
    (hf : s'.flushOf .writer = s.flushOf .writer) : Ticking E (single E (tr ++ [a])) done s' f := by
  -- no message comes in while the writer collects
  have htrades : trades E [a] = [] := by
    cases a with
    | push k m ok =>
        cases ok with
        | false => rfl
        | true =>
            have hcol : s.writer.isCollecting = false := hphase
            simp [flushOf_writer.mp ht.flush, WriterPc.isCollecting, ht.collecting] at hcol
    | _ => rfl
  obtain ⟨hidle, hadd⟩ := step_idle (run_ordered hr) h ht.idle htrades
  have hagg := aggregators_of_ne h hadd (ne_extract_of_flusher ha)
  have hsingle := single_of_ne_tick (E := E) tr hn
  rw [htrades, tradeTally_nil, add_zero] at hsingle
  refine ⟨hf.trans ht.flush, ht.collecting, hidle, ?_, fun i hi b hb => ?_, ?_⟩
  · rw [hsingle.2, held_congr hagg]
    exact ht.table
  · rw [hagg i]
    exact ht.swept i hi b hb
  · rw [hsingle.1, held_congr hagg]
    exact ht.out

/-- What an extraction changes: the table of its shard is split, and the others stay. -/
lemma step_extract {who : Flusher} {i : Index C} {cut : Cut} {l : List WindowStats}
    (ha : a = .extract who i cut l) :
    l = ((s.shards i).aggregator.extract cut).1 ∧ windowTally l + held s' = held s ∧
    ∀ j, (s'.shards j).aggregator =
      if j = i then ((s.shards i).aggregator.extract cut).2 else (s.shards j).aggregator := by
  have htables := step_tables (run_built hr) (step_aggregators h)
  have hext : extracted [a] = l := by
    rw [ha]
    exact List.append_nil _
  have hadd : added [a] = [] := by rw [ha]; rfl
  rw [hext, hadd, tradeTally_nil, add_zero] at htables
  cases step_aggregators h with
  | keep _ _ hno _ _ => exact absurd ha (hno _ _ _ _)
  | add j t he _ _ _ => cases ha.symm.trans he
  | extract who' i' g todo ws he _ _ hi hj =>
      obtain ⟨rfl, rfl, rfl, rfl⟩ := Act.extract.inj (ha.symm.trans he)
      refine ⟨rfl, htables, fun j => ?_⟩
      split_ifs with hji
      · rw [hji, hi]
      · exact hj j hji

lemma ticking_extract {cut : Cut} {i : Index C} {todo : List (Index C)} {ws l : List WindowStats}
    (ht : Ticking E (single E tr) done s ⟨cut, .extracting i todo ws⟩)
    (ha : a = .extract .writer i cut l)
    (hf : s'.flushOf .writer = some ⟨cut, .collecting todo (ws ++ l)⟩) :
    Ticking E (single E (tr ++ [a])) done s' ⟨cut, .collecting todo (ws ++ l)⟩ := by
  obtain ⟨hl, hheld, hagg⟩ := step_extract hr h ha
  have hidle := step_idle (run_ordered hr) h ht.idle (by rw [ha]; rfl)
  have htally (b : Bucket) : held s b = windowTally l b + held s' b := (congrFun hheld b).symm
  have hnone (b : Bucket) (hb : ¬ cut.Takes b.2) : windowTally l b = 0 := by
    rw [hl, windowTally_extract, if_neg hb]
  rw [single_of_flusher .writer (by rw [ha]; rfl)]
  refine ⟨hf, rfl, hidle.1, fun b => ?_, fun j hj b hb => ?_, ?_⟩
  · rw [ht.table b]
    split_ifs with hb
    · rfl
    · rw [htally b, hnone b hb, zero_add]
  · rw [hagg j]
    split_ifs with hji
    · exact (table_extract _ cut b).trans (if_pos hb)
    · exact ht.swept j (by simpa [FlushPc.remaining, hji] using hj) b hb
  · obtain ⟨m, hm, hout, hmt⟩ := ht.out
    refine ⟨m, hm, hout, fun b => (hmt b).trans ?_⟩
    rw [FlushPc.windows, FlushPc.windows, windowTally_append, Pi.add_apply, add_assoc]
    split_ifs with hb
    · rw [htally b]
    · rw [hnone b hb, zero_add]

/-- Every shard has been visited: the pipeline has collected what was written already. -/
lemma ticking_merge {cut : Cut} {ws : List WindowStats}
    (ht : Ticking E (single E tr) done s ⟨cut, .collecting [] ws⟩) (ha : a = .merge .writer)
    (hf : s'.flushOf .writer = some ⟨cut, .writing (writeWindows E ws)⟩)
    (hs : s'.flushOf .stopper = none) : Calm E (single E (tr ++ [a])) done s' := by
  have hagg := aggregators_of_ne h (by rw [ha]; rfl) (by rw [ha]; nofun)
  have hidle := step_idle (run_ordered hr) h ht.idle (by rw [ha]; rfl)
  have hzero (b : Bucket) (hb : cut.Takes b.2) : held s b = 0 := by
    rw [held, Finset.sum_apply]
    exact Finset.sum_eq_zero fun i _ => ht.swept i List.not_mem_nil b hb
  rw [single_of_flusher .writer (by rw [ha]; rfl)]
  refine ⟨hs, funext fun b => ?_, .inr ⟨cut, _, hf, ?_⟩⟩
  · rw [flight_eq_zero hidle.1, add_zero, held_congr hagg, ht.table b]
    split_ifs with hb
    · exact (hzero b hb).symm
    · rfl
  · obtain ⟨l, hl, hout, hlt⟩ := ht.out
    have hws := (run_collected hr .writer _ ht.flush).nodup
    rw [hout, writeWindows_congr hl hws (funext fun b => ?_)]
    · rfl
    · rw [hlt b]
      split_ifs with hb
      · rw [hzero b hb, add_zero]
      · rw [add_zero]

lemma ticking_advance (ht : Ticking E (single E tr) done s f) (ha : Advance E s .writer a f f')
    (hf : s'.flushOf .writer = some f') (hs : s'.flushOf .stopper = none) :
    Tracks E (single E (tr ++ [a])) (done ++ written [a]) s' := by
  cases ha with
  | @lock cut i todo ws =>
      have hagg := aggregators_of_ne h rfl nofun
      have hidle := step_idle (run_ordered hr) h ht.idle rfl
      have hdone : done ++ written [Act.lockShard .writer i] = done := List.append_nil _
      rw [hdone, single_of_flusher .writer rfl]
      refine .ticking _ ⟨hf, rfl, hidle.1, ?_, fun j hj b hb => ?_, ?_⟩
      · rw [held_congr hagg]
        exact ht.table
      · rw [hagg j]
        exact ht.swept j hj b hb
      · rw [held_congr hagg]
        exact ht.out
  | extract =>
      rw [show written _ = [] from rfl, List.append_nil]
      exact .ticking _ (ticking_extract hr h ht rfl hf)
  | merge =>
      rw [show written _ = [] from rfl, List.append_nil]
      exact .calm (ticking_merge hr h ht rfl hf hs)
  | write => cases ht.collecting

/-! ### The last flush -/

lemma stopping_beside (hs : Stopping (single E tr) done s f) (hq : Quiet s)
    (ha : a.flusher = none) (hf : s'.flushOf .stopper = s.flushOf .stopper) :
    Stopping (single E (tr ++ [a])) done s' f := by
  have hcmd := hq.commands_eq_nil h
  have hidle := step_idle (run_ordered hr) h hq.inFlight_eq_zero (trades_of_commands hcmd)
  have hagg := aggregators_of_ne h hidle.2 (ne_extract_of_flusher ha)
  rw [single_of_commands hcmd]
  exact ⟨hf.trans hs.flush, hs.collecting, by rw [held_congr hagg, hs.table], hs.out⟩

omit h in
/-- The last shard has been visited: what was collected is what the single aggregator holds. -/
lemma stopping_merge {cut : Cut} {ws : List WindowStats}
    (hs : Stopping (single E tr) done s ⟨cut, .collecting [] ws⟩) :
    (single E tr).finish E = done ++ writeWindows E ws := by
  have hswept := run_sweptAt hr
  rw [flushOf_stopper.mp hs.flush] at hswept
  have hheld : held s = 0 := Finset.sum_eq_zero fun i _ => hswept.2 i List.not_mem_nil
  have htable := hs.table
  rw [hheld, zero_add] at htable
  have hsplit := (single E tr).aggregator.extract_split .all
  rw [table_extract_all, add_zero, htable] at hsplit
  rw [Single.finish, hs.out, writeWindows_congr
    ((single E tr).aggregator.extract_spec .all).nodup
    (run_collected hr .stopper _ hs.flush).nodup hsplit]
  rfl

lemma stopping_advance (hs : Stopping (single E tr) done s f) (ha : Advance E s .stopper a f f')
    (hf : s'.flushOf .stopper = some f') :
    Tracks E (single E (tr ++ [a])) (done ++ written [a]) s' := by
  cases ha with
  | @lock cut i todo ws =>
      have hagg := aggregators_of_ne h rfl nofun
      rw [show written _ = [] from rfl, List.append_nil, single_of_flusher .stopper rfl]
      exact .stopping _ ⟨hf, rfl, by rw [held_congr hagg]; exact hs.table, hs.out⟩
  | @extract cut i todo ws =>
      obtain ⟨-, hheld, -⟩ := step_extract hr h rfl
      rw [show written _ = [] from rfl, List.append_nil, single_of_flusher .stopper rfl]
      refine .stopping _ ⟨hf, rfl, ?_, hs.out⟩
      rw [hs.table, ← hheld, FlushPc.windows, FlushPc.windows, windowTally_append]
      abel
  | merge =>
      rw [show written _ = [] from rfl, List.append_nil, single_of_flusher .stopper rfl]
      exact .finishing _ _ hf (stopping_merge hr hs)
  | write => cases hs.collecting

/-! ### All together -/

lemma calm_tracks (hphase : InPhase E s a) (hc : Calm E (single E tr) done s) :
    Tracks E (single E (tr ++ [a])) (done ++ written [a]) s' := by
  have hx := (run_ordered hr).exclusive
  -- a flush that is under way is the writer's, and it writes
  have hwriter {who : Flusher} {f : Flush C} (hf : s.flushOf who = some f) :
      who = .writer ∧ ∃ cut todo, f = ⟨cut, .writing todo⟩ ∧ (single E tr).out = done ++ todo := by
    rcases hc.out with ⟨hno, -⟩ | ⟨cut, todo, hw, hout⟩
    · cases who
      · cases hno.symm.trans hf
      · cases hc.stopper.symm.trans hf
    · obtain rfl := hx _ _ _ _ hf hw
      exact ⟨rfl, cut, todo, Option.some.inj (hf.symm.trans hw), hout⟩
  cases step_flushChange h with
  | beside ha hn hf =>
      rw [(written_of_flusher ha).1, List.append_nil]
      exact .calm (calm_beside hr h hc hn (written_of_flusher ha).2 hf)
  | begun who cut ha hno hf =>
      rw [(written_of_flusher (begins_flusher ha)).1, List.append_nil]
      cases ha with
      | tick nowMs => exact .ticking _ (calm_tick hr h hc rfl hno (hf .writer) hphase)
      | stop => exact .stopping _ (calm_stop hr h hc rfl (hf .stopper))
  | advanced who f f' hf₀ ha hf =>
      obtain ⟨rfl, cut, todo, rfl, hout⟩ := hwriter hf₀
      cases ha with
      | @write _ y todo =>
          refine .calm ⟨(hf .stopper).trans hc.stopper, calm_table hr h hc rfl rfl,
            .inr ⟨cut, todo, hf .writer, ?_⟩⟩
          rw [single_of_flusher .writer rfl, hout]
          simp [written]
  | finished who cut ha hf₀ hf =>
      obtain ⟨rfl, cut, todo, hpc, hout⟩ := hwriter hf₀
      cases hpc
      subst ha
      refine .calm ⟨(hf .stopper).trans hc.stopper, calm_table hr h hc rfl rfl,
        .inl ⟨hf .writer, ?_⟩⟩
      rw [single_of_flusher .writer rfl, hout]
      rfl

lemma ticking_tracks (hphase : InPhase E s a) (ht : Ticking E (single E tr) done s f) :
    Tracks E (single E (tr ++ [a])) (done ++ written [a]) s' := by
  have ho := run_ordered hr
  have hx' := (step_ordered ho h).exclusive
  cases step_flushChange h with
  | beside ha hn hf =>
      rw [(written_of_flusher ha).1, List.append_nil]
      exact .ticking f (ticking_beside hr h ht hn hphase ha (hf .writer))
  | begun who cut ha hno hf =>
      cases who with
      | writer => cases hno.symm.trans ht.flush
      | stopper => cases hx' .writer f .stopper _ ((hf .writer).trans ht.flush) (hf .stopper)
  | advanced who f₀ f' hf₀ ha hf =>
      obtain rfl : who = .writer := ho.exclusive _ _ _ _ hf₀ ht.flush
      obtain rfl : f₀ = f := Option.some.inj (hf₀.symm.trans ht.flush)
      refine ticking_advance hr h ht ha (hf .writer) ?_
      rcases hs : s'.flushOf .stopper with _ | g
      · rfl
      · cases hx' .writer f' .stopper g (hf .writer) hs
  | finished who cut ha hf₀ hf =>
      obtain rfl : who = .writer := ho.exclusive _ _ _ _ hf₀ ht.flush
      cases hf₀.symm.trans ht.flush
      cases ht.collecting

lemma stopping_tracks (hs : Stopping (single E tr) done s f) :
    Tracks E (single E (tr ++ [a])) (done ++ written [a]) s' := by
  have ho := run_ordered hr
  have hstops := ho.stops
  rw [flushOf_stopper.mp hs.flush] at hstops
  cases step_flushChange h with
  | beside ha hn hf =>
      rw [(written_of_flusher ha).1, List.append_nil]
      exact .stopping f (stopping_beside hr h hs (ho.quiet hstops) ha (hf .stopper))
  | begun who cut ha hno hf =>
      cases who with
      | stopper => cases hno.symm.trans hs.flush
      | writer =>
          cases (step_ordered ho h).exclusive .writer _ .stopper f (hf .writer)
            ((hf .stopper).trans hs.flush)
  | advanced who f₀ f' hf₀ ha hf =>
      obtain rfl : who = .stopper := ho.exclusive _ _ _ _ hf₀ hs.flush
      obtain rfl : f₀ = f := Option.some.inj (hf₀.symm.trans hs.flush)
      exact stopping_advance hr h hs ha (hf .stopper)
  | finished who cut ha hf₀ hf =>
      obtain rfl : who = .stopper := ho.exclusive _ _ _ _ hf₀ hs.flush
      cases hf₀.symm.trans hs.flush
      cases hs.collecting

lemma finishing_tracks {cut : Cut} {todo : List StatsSnapshot}
    (hs : s.flushOf .stopper = some ⟨cut, .writing todo⟩)
    (hfin : (single E tr).finish E = done ++ todo) :
    Tracks E (single E (tr ++ [a])) (done ++ written [a]) s' := by
  have ho := run_ordered hr
  have hstops := ho.stops
  rw [flushOf_stopper.mp hs] at hstops
  rw [single_of_commands ((ho.quiet hstops).commands_eq_nil h)]
  cases step_flushChange h with
  | beside ha hn hf =>
      rw [(written_of_flusher ha).1, List.append_nil]
      exact .finishing cut todo ((hf .stopper).trans hs) hfin
  | begun who cut ha hno hf =>
      cases who with
      | stopper => cases hno.symm.trans hs
      | writer =>
          cases (step_ordered ho h).exclusive .writer _ .stopper _ (hf .writer)
            ((hf .stopper).trans hs)
  | advanced who f₀ f' hf₀ ha hf =>
      obtain rfl : who = .stopper := ho.exclusive _ _ _ _ hf₀ hs
      obtain rfl : f₀ = ⟨cut, .writing todo⟩ := Option.some.inj (hf₀.symm.trans hs)
      cases ha with
      | @write _ y todo =>
          refine .finishing cut todo (hf .stopper) ?_
          rw [hfin]
          simp [written]
  | finished who cut ha hf₀ hf =>
      subst ha
      obtain rfl : who = .stopper := ho.exclusive _ _ _ _ hf₀ hs
      cases hf₀.symm.trans hs
      have hret : s'.stopper = .returned := by
        cases h
        rfl
      exact .spent (spent_of_sweptAt (step_ordered ho h) (step_sweptAt ho (run_sweptAt hr) h) hret)
        hfin

lemma step_tracks (hphase : InPhase E s a) (ht : Tracks E (single E tr) done s) :
    Tracks E (single E (tr ++ [a])) (done ++ written [a]) s' := by
  cases ht with
  | calm hc => exact calm_tracks hr h hphase hc
  | ticking f ht => exact ticking_tracks hr h hphase ht
  | stopping f hs => exact stopping_tracks hr h hs
  | finishing cut todo hs hfin => exact finishing_tracks hr h hs hfin
  | spent hs hfin =>
      obtain ⟨hs', hw⟩ := step_spent (run_ordered hr) hs h
      rw [hw, List.append_nil, single_of_commands (hs.quiet.commands_eq_nil h)]
      exact .spent hs' hfin

end Steps

end BinanceAggregator.Pipeline
