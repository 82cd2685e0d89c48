import BinanceAggregator.PipelineShards

/-!
The flushes of a run, one step at a time.

A flush begins with nothing collected, goes from shard to shard, groups what it has collected
and writes block after block. The two threads that flush never do so at the same time: the
stopping thread flushes once the writer has exited.
-/

namespace BinanceAggregator.Pipeline

open Runs BoundedQueue MarketDataAggregator

variable {C : Config} {E : Env} {s s' : St C} {a : Act C} {tr : List (Act C)} {who : Flusher}
  {f f' : Flush C}

/-- How a flush goes on. -/
inductive Advance (E : Env) (s : St C) (who : Flusher) : Act C → Flush C → Flush C → Prop
  | lock {cut : Cut} {i : Index C} {todo : List (Index C)} {ws : List WindowStats} :
      Advance E s who (.lockShard who i) ⟨cut, .collecting (i :: todo) ws⟩
        ⟨cut, .extracting i todo ws⟩
  | extract {cut : Cut} {i : Index C} {todo : List (Index C)} {ws : List WindowStats} :
      Advance E s who (.extract who i cut ((s.shards i).aggregator.extract cut).1)
        ⟨cut, .extracting i todo ws⟩
        ⟨cut, .collecting todo (ws ++ ((s.shards i).aggregator.extract cut).1)⟩
  | merge {cut : Cut} {ws : List WindowStats} :
      Advance E s who (.merge who) ⟨cut, .collecting [] ws⟩ ⟨cut, .writing (writeWindows E ws)⟩
  | write {cut : Cut} {y : StatsSnapshot} {todo : List StatsSnapshot} :
      Advance E s who (.write who y) ⟨cut, .writing (y :: todo)⟩ ⟨cut, .writing todo⟩

/-- The thread whose flush an action is part of. -/
def Act.flusher : Act C → Option Flusher
  | .lockShard who _ | .extract who _ _ _ | .merge who | .write who _ | .finish who => some who
  | _ => none

/-- What the clock shows where it is read. -/
def Act.clock : Act C → Option UInt64
  | .readClock nowMs => some nowMs
  | _ => none

lemma written_of_flusher (h : a.flusher = none) : written [a] = [] ∧ extracted [a] = [] := by
  cases a <;> first | exact ⟨rfl, rfl⟩ | cases h

/-- What begins a flush, and how far it goes. -/
inductive Begins : Act C → Flusher → Cut → Prop
  | tick (nowMs : UInt64) :
      Begins (.readClock nowMs) .writer (.completed (currentWindowStartMs C.windowMs nowMs))
  | stop : Begins .aggsJoined .stopper .all

/-- What a step does to the flushes. -/
inductive FlushChange (E : Env) (a : Act C) (s s' : St C) : Prop
  | beside (ha : a.flusher = none) (hc : a.clock = none)
      (h : ∀ who, s'.flushOf who = s.flushOf who)
  | begun (who : Flusher) (cut : Cut) (ha : Begins a who cut) (hno : s.flushOf who = none)
      (h : ∀ w, s'.flushOf w = if w = who then some (beginFlush C cut) else s.flushOf w)
  | advanced (who : Flusher) (f f' : Flush C) (hf : s.flushOf who = some f)
      (ha : Advance E s who a f f')
      (h : ∀ w, s'.flushOf w = if w = who then some f' else s.flushOf w)
  | finished (who : Flusher) (cut : Cut) (ha : a = .finish who)
      (hf : s.flushOf who = some ⟨cut, .writing []⟩)
      (h : ∀ w, s'.flushOf w = if w = who then none else s.flushOf w)

@[simp] lemma flushOf_setFlush (s : St C) (who who' : Flusher) (f : Flush C) :
    (s.setFlush who f).flushOf who' = if who' = who then some f else s.flushOf who' := by
  cases who <;> cases who' <;> rfl

@[simp] lemma flushOf_endFlush (s : St C) (who who' : Flusher) :
    (s.endFlush who).flushOf who' = if who' = who then none else s.flushOf who' := by
  cases who <;> cases who' <;> rfl

lemma step_flushChange (h : Step E s a s') : FlushChange E a s s' := by
  cases h with
  | lockShard h _ => exact .advanced _ _ _ h .lock fun w => flushOf_setFlush _ _ w _
  | extract h => exact .advanced _ _ _ h .extract fun w => flushOf_setFlush _ _ w _
  | merge h => exact .advanced _ _ _ h .merge fun w => flushOf_setFlush _ _ w _
  | write h => exact .advanced _ _ _ h .write fun w => flushOf_setFlush _ _ w _
  | finish h => exact .finished _ _ rfl h fun w => flushOf_endFlush _ _ w
  | readClock h =>
      refine .begun .writer _ (.tick _) (by simp [St.flushOf, h]) fun w => ?_
      cases w <;> rfl
  | aggsJoined h =>
      refine .begun .stopper _ .stop (by simp [St.flushOf, h]) fun w => ?_
      cases w <;> rfl
  | writerLock h _ | writerExit h _ | writerTick h _ | writerSleep h _ | writerWake h
  | stopLock h _ | stopSet h | stopNotify h _ | joinWriter h _ | closeRaw h | joinParser h _
  | closeShard h | shardsClosed h | joinAgg h _ =>
      refine .beside rfl rfl fun w => ?_
      cases w <;> simp [St.flushOf, h, St.setShard]
  | stopCall h =>
      refine .beside rfl rfl fun w => ?_
      cases w
      · rfl
      · rcases h with h | h <;> simp [St.flushOf, h]
  | stopWake h hw =>
      refine .beside rfl rfl fun w => ?_
      cases w <;> simp [St.flushOf, h, hw]
  | _ => exact .beside rfl rfl fun w => by cases w <;> rfl

/-- At most one thread is flushing. -/
def Exclusive (s : St C) : Prop :=
  ∀ who f who' f', s.flushOf who = some f → s.flushOf who' = some f' → who = who'

lemma Ordered.exclusive (ho : Ordered s) : Exclusive s := by
  have hone : ∀ f f', s.flushOf .writer = some f → s.flushOf .stopper = some f' → False := by
    intro f f' hw hs
    have hstops := ho.stops
    rw [flushOf_stopper.mp hs] at hstops
    rw [flushOf_writer, (ho.quiet hstops).writer] at hw
    cases hw
  intro who f who' f' h h'
  cases who <;> cases who'
  · rfl
  · exact absurd (hone f f' h h') id
  · exact absurd (hone f' f h' h) id
  · rfl

/-- Where a flush that is under way after a step comes from. -/
inductive FlushStep (E : Env) (a : Act C) (s : St C) (who : Flusher) (f' : Flush C) : Prop
  | same (h : s.flushOf who = some f') (ha : a.flusher = none)
  | begun (cut : Cut) (hf : f' = beginFlush C cut)
  | advanced (f : Flush C) (h : s.flushOf who = some f) (ha : Advance E s who a f f')

lemma begins_flusher {cut : Cut} (h : Begins a who cut) : a.flusher = none := by
  cases h <;> rfl

lemma step_flush (hx : Exclusive s) (h : Step E s a s') (hf : s'.flushOf who = some f') :
    FlushStep E a s who f' := by
  cases step_flushChange h with
  | beside ha _ h => exact .same ((h who).symm.trans hf) ha
  | begun who₀ cut ha _ h =>
      rw [h] at hf
      split_ifs at hf with hw
      · exact .begun cut (Option.some.inj hf).symm
      · exact .same hf (begins_flusher ha)
  | advanced who₀ f₀ g h₀ ha h =>
      rw [h] at hf
      split_ifs at hf with hw
      · subst hw
        exact .advanced f₀ h₀ (Option.some.inj hf ▸ ha)
      · exact absurd (hx _ _ _ _ hf h₀) hw
  | finished who₀ cut ha h₀ h =>
      rw [h] at hf
      split_ifs at hf with hw
      exact absurd (hx _ _ _ _ hf h₀) hw

/-- What holds of every flush that begins, and is kept as a flush goes on, holds of every flush. -/
lemma run_flush {P : Flush C → Prop} (hbegin : ∀ cut, P (beginFlush C cut))
    (hadvance : ∀ {tr s a who f f'}, run (step E) (start C) tr = some s →
      Advance E s who a f f' → P f → P f')
    (h : run (step E) (start C) tr = some s) : ∀ who f, s.flushOf who = some f → P f := by
  refine run_inv (P := fun _ s => ∀ who f, s.flushOf who = some f → P f) ?_ ?_ h
  · intro who f hf
    cases who <;> cases hf
  · intro tr s a s' hr ih ha who f' hf'
    cases step_flush (run_ordered hr).exclusive (step_cases ha) hf' with
    | same hf _ => exact ih who f' hf
    | begun cut hf => exact hf ▸ hbegin cut
    | advanced f hf hadv => exact hadvance hr hadv (ih who f hf)

/-- A step that writes is one of a flush that is writing. -/
lemma step_written (h : Step E s a s') : written [a] = [] ∨ ∃ who cut y todo,
    a = .write who y ∧ s.flushOf who = some ⟨cut, .writing (y :: todo)⟩ := by
  cases h with
  | @push k m ok q _ _ => exact .inl (by cases ok <;> rfl)
  | write h => exact .inr ⟨_, _, _, _, rfl, h⟩
  | _ => exact .inl rfl

/-! ### The last flush -/

/-- No trade is refused by the queue of its shard: that queue is closed only once the parser has
exited. -/
lemma not_refused (h : run (step E) (start C) tr = some s) (t : TradeEvent) :
    .parserPush t false ∉ tr := by
  refine run_inv (P := fun tr _ => .parserPush t false ∉ tr) List.not_mem_nil ?_ h
  intro tr s a s' hr hnot ha hmem
  rcases List.mem_append.mp hmem with hmem | hmem
  · exact hnot hmem
  · obtain rfl := List.mem_singleton.mp hmem
    cases step_cases ha with
    | pushTrade hpc _ hq =>
        obtain ⟨-, -, hclosed, -⟩ := push_eq_some hq
        have hexited := (run_ordered hr).queues _ hclosed
        rw [hpc] at hexited
        cases hexited

/-- **The final flush happens in quiescence.** While `stop` flushes what remains, every queue is
empty, no thread holds a message or a trade, and all the other threads have exited. The parser's
pushes are never refused, and no two threads flush at the same time. -/
theorem quiescent_of_flushing (h : run (step E) (start C) tr = some s) :
    (∀ f, s.stopper = .flushing f → s.raw.items = [] ∧ (∀ i, (s.shards i).queue.items = []) ∧
      s.parser = .exited ∧ (∀ i, (s.shards i).thread = .exited) ∧ s.writer = .exited) ∧
    (∀ t, .parserPush t false ∉ tr) ∧
    ∀ f f', ¬ (s.flushOf .writer = some f ∧ s.flushOf .stopper = some f') := by
  have ho := run_ordered h
  refine ⟨fun f hf => ?_, not_refused h, fun f f' hboth => ?_⟩
  · have hstops := ho.stops
    rw [hf] at hstops
    have hquiet := ho.quiet hstops
    exact ⟨hquiet.raw.2, hquiet.items, hquiet.parser, hquiet.threads, hquiet.writer⟩
  · cases ho.exclusive _ _ _ _ hboth.1 hboth.2

/-- `stop` is about to write the block of the only message. -/
def lastBlock : List (Act (sampleConfig 1000)) := oneMessage.dropLast.dropLast

theorem quiescent_of_flushing_lastBlock : ∃ s f,
    run (step sampleEnv) (start (sampleConfig 1000)) lastBlock = some s ∧
    s.stopper = .flushing f ∧ s.raw.items = [] ∧ s.writer = .exited := by
  have hr : (run (step sampleEnv) (start (sampleConfig 1000)) lastBlock).any
      (fun s => (s.flushOf .stopper).isSome) = true := by decide +kernel
  obtain ⟨s, hs, hsome⟩ := (Option.any_eq_true _ _).mp hr
  obtain ⟨f, hf⟩ := Option.isSome_iff_exists.mp hsome
  obtain ⟨hraw, -, -, -, hwriter⟩ := (quiescent_of_flushing hs).1 f (flushOf_stopper.mp hf)
  exact ⟨s, f, hs, flushOf_stopper.mp hf, hraw, hwriter⟩

end BinanceAggregator.Pipeline
