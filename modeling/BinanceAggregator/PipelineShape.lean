import BinanceAggregator.PipelineSteps

/-!
The order in which a pipeline comes to rest.

Nothing that has been closed is opened again and no thread that has exited starts again. The
stopping thread closes a stage only once the stage before it has exited, and a stage exits only
once its queue is closed and empty. So a stage that finds its input closed knows that no thread
before it is left.
-/

namespace BinanceAggregator.Pipeline

open Runs BoundedQueue

variable {C : Config} {E : Env} {s s' : St C} {a : Act C}

lemma flushOf_writer {f : Flush C} : s.flushOf .writer = some f ↔ s.writer = .flushing f := by
  unfold St.flushOf
  cases s.writer <;> simp

lemma flushOf_stopper {f : Flush C} : s.flushOf .stopper = some f ↔ s.stopper = .flushing f := by
  unfold St.flushOf
  cases s.stopper <;> simp

/-- What holds of every shard still does when one is replaced by another of which it holds. -/
lemma forall_setShard {P : Index C → Shard → Prop} (h : ∀ j, P j (s.shards j)) (i : Index C)
    (shard : Shard) (hi : P i shard) : ∀ j, P j ((s.setShard i shard).shards j) := by
  rw [St.setShard, Function.forall_update_iff]
  exact ⟨hi, fun j _ => h j⟩

@[simp] lemma setShard_self (i : Index C) (shard : Shard) : (s.setShard i shard).shards i = shard :=
  Function.update_self ..

lemma setShard_of_ne {i j : Index C} (h : j ≠ i) (shard : Shard) :
    (s.setShard i shard).shards j = s.shards j :=
  Function.update_of_ne h _ _

/-! ### What never changes -/

/-- The sizes of the queues and of the windows are those of the configuration. -/
structure Built (s : St C) : Prop where
  raw : s.raw.capacity = C.queueCapacity
  shards : ∀ i, (s.shards i).queue.capacity = C.perShardCapacity ∧
    (s.shards i).aggregator.windowMs = C.windowMs

lemma built_start : Built (start C) := ⟨rfl, fun _ => ⟨rfl, rfl⟩⟩

lemma step_built (hb : Built s) (h : Step E s a s') : Built s' := by
  obtain ⟨hraw, hshards⟩ := hb
  have hset := forall_setShard (s := s)
    (P := fun _ x => x.queue.capacity = C.perShardCapacity ∧ x.aggregator.windowMs = C.windowMs)
    hshards
  cases h with
  | push _ hq => exact ⟨(push_eq_some hq).1.trans hraw, hshards⟩
  | popRaw _ hq | parserExit _ hq => exact ⟨(pop_eq_some hq).1.trans hraw, hshards⟩
  | pushTrade _ _ hq =>
      exact ⟨hraw, hset _ _ ⟨(push_eq_some hq).1.trans (hshards _).1, (hshards _).2⟩⟩
  | popTrade _ hq | aggExit _ hq =>
      exact ⟨hraw, hset _ _ ⟨(pop_eq_some hq).1.trans (hshards _).1, (hshards _).2⟩⟩
  | @aggLock i | @aggAdd i | @lockShard _ i | @closeShard i => exact ⟨hraw, hset _ _ (hshards i)⟩
  | @extract who i =>
      exact ⟨hraw, hset _ _
        ⟨(hshards i).1, (MarketDataAggregator.extract_windowMs _ _).trans (hshards i).2⟩⟩
  | _ => exact ⟨hraw, hshards⟩

/-! ### What is never undone -/

/-- What is closed or exited in `s` is so in `s'`. -/
structure Later (s s' : St C) : Prop where
  writer : s.writer = .exited → s'.writer = .exited
  raw : s.raw.isShutdown = true → s'.raw.isShutdown = true
  parser : s.parser = .exited → s'.parser = .exited
  queues : ∀ i, (s.shards i).queue.isShutdown = true → (s'.shards i).queue.isShutdown = true
  threads : ∀ i, (s.shards i).thread = .exited → (s'.shards i).thread = .exited

lemma writer_setFlush {who : Flusher} {f : Flush C} (h : s.flushOf who = some f)
    (hw : s.writer = .exited) (x : WriterPc C) : (if who = .writer then x else s.writer) = .exited := by
  cases who with
  | writer =>
      rw [flushOf_writer, hw] at h
      cases h
  | stopper => exact hw

lemma step_later (h : Step E s a s') : Later s s' := by
  have hqueue := forall_setShard (s := s)
    (P := fun j x => (s.shards j).queue.isShutdown = true → x.queue.isShutdown = true) fun _ => id
  have hthread := forall_setShard (s := s)
    (P := fun j x => (s.shards j).thread = .exited → x.thread = .exited) fun _ => id
  cases h with
  | push _ hq =>
      exact ⟨id, fun hr => (push_eq_some hq).2.1.trans hr, id, fun _ => id, fun _ => id⟩
  | popRaw h hq =>
      exact ⟨id, fun hr => (pop_eq_some hq).2.1.trans hr, by simp [h], fun _ => id, fun _ => id⟩
  | parserExit _ hq =>
      exact ⟨id, fun hr => (pop_eq_some hq).2.1.trans hr, fun _ => rfl, fun _ => id, fun _ => id⟩
  | parseTrade h _ | parseNone h _ => exact ⟨id, id, by simp [h], fun _ => id, fun _ => id⟩
  | pushTrade h _ hq =>
      exact ⟨id, id, by simp [h],
        hqueue _ _ fun hr => (push_eq_some hq).2.1.trans hr,
        hthread _ _ id⟩
  | popTrade h hq =>
      exact ⟨id, id, id, hqueue _ _ fun hr => (pop_eq_some hq).2.1.trans hr,
        hthread _ _ (by simp [h])⟩
  | aggExit h hq =>
      exact ⟨id, id, id, hqueue _ _ fun hr => (pop_eq_some hq).2.1.trans hr,
        hthread _ _ fun _ => rfl⟩
  | aggLock h _ | aggAdd h => exact ⟨id, id, id, hqueue _ _ id, hthread _ _ (by simp [h])⟩
  | writerExit _ _ => exact ⟨fun _ => rfl, id, id, fun _ => id, fun _ => id⟩
  | writerLock h _ | writerTick h _ | writerSleep h _ | writerWake h | readClock h =>
      exact ⟨by simp [h], id, id, fun _ => id, fun _ => id⟩
  | lockShard h _ | extract h =>
      exact ⟨fun hw => writer_setFlush h hw _, id, id, hqueue _ _ id, hthread _ _ id⟩
  | merge h | write h | finish h =>
      exact ⟨fun hw => writer_setFlush h hw _, id, id, fun _ => id, fun _ => id⟩
  | stopWake _ hw => exact ⟨by simp [hw], id, id, fun _ => id, fun _ => id⟩
  | closeRaw _ => exact ⟨id, fun _ => rfl, id, fun _ => id, fun _ => id⟩
  | closeShard _ =>
      exact ⟨id, id, id, hqueue _ _ fun _ => rfl, hthread _ _ id⟩
  | _ => exact ⟨id, id, id, fun _ => id, fun _ => id⟩

/-! ### The order of the stages -/

/-- What the stopping thread knows where it stands. -/
def StopsAt (s : St C) : StopPc C → Prop
  | .closingRaw => s.writer = .exited
  | .joiningParser => s.raw.isShutdown = true
  | .closingShards todo => s.parser = .exited ∧
      ∀ i, i ∉ todo → (s.shards i).queue.isShutdown = true
  | .joiningAggs todo => (∀ i, (s.shards i).queue.isShutdown = true) ∧
      ∀ i, i ∉ todo → (s.shards i).thread = .exited
  | .flushing _ => ∀ i, (s.shards i).thread = .exited
  | .returned => ∀ i, (s.shards i).thread = .exited
  | _ => True

/-- What the stopping thread knows stays true. -/
lemma stopsAt_later (hl : Later s s') {pc : StopPc C} (h : StopsAt s pc) : StopsAt s' pc := by
  cases pc with
  | closingRaw => exact hl.writer h
  | joiningParser => exact hl.raw h
  | closingShards todo => exact ⟨hl.parser h.1, fun i hi => hl.queues i (h.2 i hi)⟩
  | joiningAggs todo =>
      exact ⟨fun i => hl.queues i (h.1 i), fun i hi => hl.threads i (h.2 i hi)⟩
  | flushing f => exact fun i => hl.threads i (h i)
  | returned => exact fun i => hl.threads i (h i)
  | _ => trivial

lemma step_stopsAt (hs : StopsAt s s.stopper) (h : Step E s a s') : StopsAt s' s'.stopper := by
  have hlater := stopsAt_later (step_later h) hs
  -- A flush of the stopping thread begins and goes on with every aggregation thread exited.
  have hflush {who : Flusher} {f : Flush C} (hf : s.flushOf who = some f) {pc : StopPc C}
      (hpc : (∃ f, pc = .flushing f) ∨ pc = .returned) :
      StopsAt s' (if who = .stopper then pc else s.stopper) := by
    cases who with
    | writer => exact hlater
    | stopper =>
        rw [flushOf_stopper.mp hf] at hlater
        obtain ⟨g, rfl⟩ | rfl := hpc
        · exact hlater
        · exact hlater
  cases h with
  | lockShard h _ | extract h | merge h | write h => exact hflush h (.inl ⟨_, rfl⟩)
  | finish h => exact hflush h (.inr rfl)
  | stopCall _ | stopLock _ _ | stopSet _ | stopWake _ _ | stopNotify _ _ => trivial
  | joinWriter _ hw => exact hw
  | closeRaw _ => rfl
  | joinParser _ hp => exact ⟨hp, fun i hi => absurd (List.mem_finRange i) hi⟩
  | @closeShard i todo h =>
      rw [h] at hs
      refine ⟨hs.1, fun j hj => ?_⟩
      by_cases hji : j = i
      · subst hji
        exact congrArg (fun x => x.queue.isShutdown) (setShard_self j _)
      · exact (congrArg (fun x => x.queue.isShutdown) (setShard_of_ne hji _)).trans
          (hs.2 j (by simp [hji, hj]))
  | shardsClosed h =>
      rw [h] at hs
      exact ⟨fun i => hs.2 i (by simp), fun i hi => absurd (List.mem_finRange i) hi⟩
  | @joinAgg i todo h ha =>
      rw [h] at hs
      refine ⟨hs.1, fun j hj => ?_⟩
      by_cases hji : j = i
      · exact hji ▸ ha
      · exact hs.2 j (by simp [hji, hj])
  | aggsJoined h =>
      rw [h] at hs
      exact fun i => hs.2 i (by simp)
  | _ => exact hlater

/-- A stage that has exited has found its queue closed and empty, and a queue is closed only
once the stage that fills it, or the writer, has exited. -/
structure Ordered (s : St C) : Prop where
  stops : StopsAt s s.stopper
  parser : s.parser = .exited → s.raw.isShutdown = true ∧ s.raw.items = []
  threads : ∀ i, (s.shards i).thread = .exited →
    (s.shards i).queue.isShutdown = true ∧ (s.shards i).queue.items = []
  queues : ∀ i, (s.shards i).queue.isShutdown = true → s.parser = .exited
  raw : s.raw.isShutdown = true → s.writer = .exited

lemma ordered_start : Ordered (start C) where
  stops := trivial
  parser := by simp [start]
  threads := by simp [start]
  queues := by simp [start, BoundedQueue.empty]
  raw := by simp [start, BoundedQueue.empty]

/-- Each of the four facts is kept by the steps of one stage; the others only have to leave
its stage alone. -/
lemma step_ordered (ho : Ordered s) (h : Step E s a s') : Ordered s' := by
  obtain ⟨hstops, hparser, hthreads, hqueues, hraw⟩ := ho
  have hstops' := step_stopsAt hstops h
  have hwriter := (step_later h).writer
  have hset := forall_setShard (s := s)
    (P := fun _ x => x.thread = .exited → x.queue.isShutdown = true ∧ x.queue.items = []) hthreads
  have hclosed := forall_setShard (s := s)
    (P := fun _ x => x.queue.isShutdown = true → s.parser = .exited) hqueues
  cases h with
  | push _ hq =>
      obtain ⟨-, hs, hok, hitems⟩ := push_eq_some hq
      refine ⟨hstops', fun hp => ?_, hthreads, hqueues, fun hr => hraw (hs ▸ hr)⟩
      -- once the parser has exited, pushes are refused
      obtain ⟨hr, hi⟩ := hparser hp
      rw [hr] at hok
      exact ⟨hs.trans hr, by simp_all⟩
  | popRaw h hq =>
      obtain ⟨-, hs, -, -⟩ := pop_eq_some hq
      exact ⟨hstops', nofun, hthreads, fun i hi => by simp [hqueues i hi] at h,
        fun hr => hraw (hs ▸ hr)⟩
  | parserExit h hq =>
      obtain ⟨-, hs, hitems, hnone⟩ := pop_eq_some hq
      refine ⟨hstops', fun _ => ⟨hs.trans (hnone rfl).1, ?_⟩, hthreads, fun _ _ => rfl,
        fun hr => hraw (hs ▸ hr)⟩
      simpa [(hnone rfl).2] using hitems.symm
  | parseTrade h _ | parseNone h _ =>
      exact ⟨hstops', nofun, hthreads, fun i hi => by simp [hqueues i hi] at h, hraw⟩
  | @pushTrade t ok i q h _ hq =>
      -- while the parser is running no queue of a shard is closed
      have hopen : ∀ j, (s.shards j).queue.isShutdown ≠ true := fun j hj => by
        simp [hqueues j hj] at h
      have hs := (push_eq_some hq).2.1
      refine ⟨hstops', nofun, hset _ _ fun ht => absurd (hthreads i ht).1 (hopen i), ?_, hraw⟩
      exact forall_setShard (P := fun _ x => x.queue.isShutdown = true → ParserPc.popping = .exited)
        (fun j hj => absurd hj (hopen j)) _ _ fun hj => absurd (hs ▸ hj) (hopen i)
  | popTrade _ hq =>
      have hs := (pop_eq_some hq).2.1
      exact ⟨hstops', hparser, hset _ _ nofun, hclosed _ _ fun hj => hqueues _ (hs ▸ hj), hraw⟩
  | aggExit _ hq =>
      obtain ⟨-, hs, hitems, hnone⟩ := pop_eq_some hq
      refine ⟨hstops', hparser, hset _ _ fun _ => ⟨hs.trans (hnone rfl).1, ?_⟩,
        hclosed _ _ fun hj => hqueues _ (hs ▸ hj), hraw⟩
      simpa [(hnone rfl).2] using hitems.symm
  | @aggLock i _ _ _ | @aggAdd i _ _ =>
      exact ⟨hstops', hparser, hset _ _ nofun, hclosed _ _ (hqueues i), hraw⟩
  | @lockShard who i _ _ _ _ _ | @extract who i _ _ _ _ =>
      exact ⟨hstops', hparser, hset _ _ (hthreads i), hclosed _ _ (hqueues i),
        fun hr => hwriter (hraw hr)⟩
  | closeRaw h =>
      rw [h] at hstops
      exact ⟨hstops', fun hp => ⟨rfl, (hparser hp).2⟩, hthreads, hqueues, fun _ => hstops⟩
  | @closeShard i todo h =>
      rw [h] at hstops
      exact ⟨hstops', hparser, hset _ _ fun ht => ⟨rfl, (hthreads i ht).2⟩,
        hclosed _ _ fun _ => hstops.1, hraw⟩
  | _ => exact ⟨hstops', hparser, hthreads, hqueues, fun hr => hwriter (hraw hr)⟩

/-! ### Runs -/

variable {tr : List (Act C)}

lemma run_built (h : run (step E) (start C) tr = some s) : Built s :=
  run_stable (P := Built) (fun hb ha => step_built hb (step_cases ha)) built_start h

lemma run_ordered (h : run (step E) (start C) tr = some s) : Ordered s :=
  run_stable (P := Ordered) (fun ho ha => step_ordered ho (step_cases ha)) ordered_start h

/-- Every thread that feeds the shards, or takes from them beside the stopping thread, is gone. -/
structure Quiet (s : St C) : Prop where
  threads : ∀ i, (s.shards i).thread = .exited
  items : ∀ i, (s.shards i).queue.items = []
  parser : s.parser = .exited
  raw : s.raw.isShutdown = true ∧ s.raw.items = []
  writer : s.writer = .exited

/-- **Quiescence**: once every aggregation thread has exited, nothing is left in a queue or in
the hands of a thread. -/
theorem Ordered.quiet (ho : Ordered s) (h : ∀ i, (s.shards i).thread = .exited) : Quiet s := by
  have hp : s.parser = .exited := ho.queues ⟨0, C.shardCount_pos⟩ (ho.threads _ (h _)).1
  exact ⟨h, fun i => (ho.threads i (h i)).2, hp, ho.parser hp, ho.raw (ho.parser hp).1⟩

end BinanceAggregator.Pipeline
