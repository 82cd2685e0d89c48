import BinanceAggregator.Service

/-!
What the threads of the service access, and what two of them could access at once.

The members that the threads share, apart from the queues, are the pointer to the client, its
stream, the members of the reconnect policy, the stop flag of the pipeline, the aggregators and the
sink. The accesses of a thread are read off its program counter: they are those of the step it takes
next. Two threads conflict where both access a member and one of them writes it. The mutexes and the
joins exclude all conflicts but one: the client's stream is closed by `main` while the network
thread may be in a call on it.
-/

namespace BinanceAggregator.Service

open Runs Mutex
open Pipeline (Index Flusher Holder FlushPc AggPc WriterPc)
open Network (NetPc)

variable {C : Config} {E : Env} {R : ReconnectConfig} {s : St C} {tr : List (Act C)}

inductive Thread (C : Config)
  | main
  | network
  | parser
  | aggregation (i : Index C)
  | writer

/-- The members that are neither atomic nor constant while the threads run. -/
inductive Shared (C : Config)
  | client
  | stream
  | policyStop
  | attempt
  | stopRequested
  | aggregator (i : Index C)
  | sink

inductive Mode
  | reads
  | writes

abbrev Access (C : Config) : Type := Shared C × Mode

/-! ### The accesses of the threads -/

/-- Where the network thread is in a call on the stream. -/
def onStream : NetPc → Bool
  | .running .namingHost | .running .connecting | .running .tlsHandshaking
  | .running .webSocketHandshaking | .running .reading => true
  | _ => false

/-- `NetworkStage::run`. -/
def netAccesses : NetPc → List (Access C)
  | .creating | .resetting _ => [(.client, .writes)]
  | .running .starting => [(.client, .reads)]
  | .running .emplacing | .running .namingHost | .running .connecting | .running .tlsHandshaking
  | .running .webSocketHandshaking | .running .reading => [(.stream, .writes)]
  | .destroying _ => [(.client, .writes), (.stream, .writes)]
  | .clearing => [(.attempt, .writes), (.policyStop, .writes)]
  | .delaying => [(.attempt, .reads)]
  | .waiting _ => [(.policyStop, .reads), (.attempt, .writes)]
  | _ => []

/-- `NetworkStage::stop`. -/
def netStopAccesses : Network.StopPc → List (Access C)
  | .settingPolicy => [(.policyStop, .writes)]
  | .looking => [(.client, .reads)]
  | .closing => [(.stream, .writes)]
  | _ => []

/-- `flush_completed_windows` and `flush_remaining_windows`. -/
def flushAccesses : FlushPc C → List (Access C)
  | .extracting i _ _ => [(.aggregator i, .writes)]
  | .writing (_ :: _) => [(.sink, .writes)]
  | _ => []

/-- `run_writer_stage`. -/
def writerAccesses : WriterPc C → List (Access C)
  | .testing _ => [(.stopRequested, .reads)]
  | .flushing f => flushAccesses f.pc
  | _ => []

/-- `MarketDataPipeline::stop`. -/
def stopAccesses : Pipeline.StopPc C → List (Access C)
  | .setting => [(.stopRequested, .writes)]
  | .flushing f => flushAccesses f.pc
  | _ => []

/-- `run_aggregation_stage`. -/
def aggAccesses (i : Index C) : AggPc → List (Access C)
  | .adding _ => [(.aggregator i, .writes)]
  | _ => []

/-- What the next step of a thread accesses. The parser has to do with the queues only. -/
def accesses (s : St C) : Thread C → List (Access C)
  | .main => netStopAccesses s.network.stopper ++ stopAccesses s.pipeline.stopper
  | .network => netAccesses s.network.pc
  | .parser => []
  | .aggregation i => aggAccesses i (s.pipeline.shards i).thread
  | .writer => writerAccesses s.pipeline.writer

/-- The thread `p` writes what the thread `q` accesses. -/
def Conflict (s : St C) (p q : Thread C) (x : Shared C) : Prop :=
  p ≠ q ∧ (x, .writes) ∈ accesses s p ∧ ∃ m, (x, m) ∈ accesses s q

/-! ### What an access needs -/

/-- The threads that the parties to the network stage's mutexes are. -/
def ofParty : Network.Party → Thread C
  | .network => .network
  | .stopper => .main

/-- The threads that flush. -/
def ofFlusher : Flusher → Thread C
  | .writer => .writer
  | .stopper => .main

/-- The threads that take the mutex of a shard. -/
def ofHolder (i : Index C) : Holder → Thread C
  | .aggregation => .aggregation i
  | .flusher who => ofFlusher who

/-- Where a thread has to be to access a member: at a point at which it holds the mutex of the
member, in a call on the stream, or in a flush. -/
inductive Needs (s : St C) : Thread C → Access C → Prop
  | netClient (m : Mode) (h : m = .writes → s.network.pc.holdsClient = true) :
      Needs s .network (.client, m)
  | mainClient (h : s.network.stopper.holdsClient = true) : Needs s .main (.client, .reads)
  | netStream (m : Mode)
      (h : s.network.pc.holdsStream = true ∨ onStream s.network.pc = true) :
      Needs s .network (.stream, m)
  | mainStream (m : Mode) (h : s.network.stopper = .closing) : Needs s .main (.stream, m)
  | policyStop (m : Mode) (who : Network.Party)
      (h : Network.both s.network.pc.holdsPolicy s.network.stopper.holdsPolicy who) :
      Needs s (ofParty who) (.policyStop, m)
  | attempt (m : Mode) : Needs s .network (.attempt, m)
  | stopRequested (m : Mode) (who : Flusher) (h : Pipeline.HoldsStop s.pipeline who) :
      Needs s (ofFlusher who) (.stopRequested, m)
  | aggregator (i : Index C) (m : Mode) (who : Holder)
      (h : Pipeline.HoldsShard s.pipeline i who) : Needs s (ofHolder i who) (.aggregator i, m)
  | sink (m : Mode) (who : Flusher) (f : Pipeline.Flush C)
      (h : s.pipeline.flushOf who = some f) : Needs s (ofFlusher who) (.sink, m)

lemma needs_network {e : Access C} (h : e ∈ accesses s .network) : Needs s .network e := by
  change e ∈ netAccesses s.network.pc at h
  cases hpc : s.network.pc with
  | running pc =>
      rw [hpc] at h
      cases pc <;> simp only [netAccesses, List.mem_singleton, List.not_mem_nil] at h <;> subst h
      · exact .netClient _ nofun
      all_goals exact .netStream _ (by simp [hpc, onStream])
  | creating | resetting had =>
      rw [hpc, netAccesses, List.mem_singleton] at h
      subst h
      exact .netClient _ fun _ => by simp [hpc]
  | destroying had =>
      rw [hpc, netAccesses, List.mem_pair] at h
      rcases h with rfl | rfl
      · exact .netClient _ fun _ => by simp [hpc]
      · exact .netStream _ (.inl (by simp [hpc]))
  | clearing | waiting timedOut =>
      rw [hpc, netAccesses, List.mem_pair] at h
      rcases h with rfl | rfl
      all_goals
        first
          | exact .attempt _
          | exact .policyStop _ .network (by simp [hpc, Network.both])
  | delaying =>
      rw [hpc, netAccesses, List.mem_singleton] at h
      subst h
      exact .attempt _
  | _ =>
      rw [hpc] at h
      cases h

/-- A flush is at a shard or writes. -/
lemma needs_flush {f : Pipeline.Flush C} {e : Access C} (h : e ∈ flushAccesses f.pc) :
    (∃ i, e = (.aggregator i, .writes) ∧ f.pc.at? = some i) ∨ e = (.sink, .writes) := by
  cases hpc : f.pc with
  | collecting todo ws =>
      rw [hpc] at h
      cases h
  | extracting i todo ws =>
      rw [hpc, flushAccesses, List.mem_singleton] at h
      exact .inl ⟨i, h, rfl⟩
  | writing todo =>
      rw [hpc] at h
      cases todo with
      | nil => cases h
      | cons y todo => exact .inr (List.mem_singleton.mp h)

lemma flushAt_of {who : Flusher} {f : Pipeline.Flush C} {i : Index C}
    (hf : s.pipeline.flushOf who = some f) (hi : f.pc.at? = some i) :
    Pipeline.HoldsShard s.pipeline i (.flusher who) := by
  rw [Pipeline.HoldsShard, Pipeline.St.flushAt, hf]
  exact hi

lemma needs_main {e : Access C} (h : e ∈ accesses s .main) : Needs s .main e := by
  rcases List.mem_append.mp h with h | h
  · cases hpc : s.network.stopper with
    | settingPolicy | looking | closing =>
        rw [hpc, netStopAccesses, List.mem_singleton] at h
        subst h
        first
          | exact .policyStop _ .stopper (by simp [hpc, Network.both])
          | exact .mainClient (by simp [hpc])
          | exact .mainStream _ hpc
    | _ =>
        rw [hpc] at h
        cases h
  · cases hpc : s.pipeline.stopper with
    | setting =>
        rw [hpc, stopAccesses, List.mem_singleton] at h
        subst h
        exact .stopRequested _ .stopper hpc
    | flushing f =>
        rw [hpc, stopAccesses] at h
        have hf := Pipeline.flushOf_stopper.mpr hpc
        rcases needs_flush h with ⟨i, rfl, hi⟩ | rfl
        · exact .aggregator i _ (.flusher .stopper) (flushAt_of hf hi)
        · exact .sink _ .stopper f hf
    | _ =>
        rw [hpc] at h
        cases h

lemma needs_writer {e : Access C} (h : e ∈ accesses s .writer) : Needs s .writer e := by
  change e ∈ writerAccesses s.pipeline.writer at h
  cases hpc : s.pipeline.writer with
  | testing timedOut =>
      rw [hpc, writerAccesses, List.mem_singleton] at h
      subst h
      exact .stopRequested _ .writer ⟨timedOut, hpc⟩
  | flushing f =>
      rw [hpc, writerAccesses] at h
      have hf := Pipeline.flushOf_writer.mpr hpc
      rcases needs_flush h with ⟨i, rfl, hi⟩ | rfl
      · exact .aggregator i _ (.flusher .writer) (flushAt_of hf hi)
      · exact .sink _ .writer f hf
  | _ =>
      rw [hpc] at h
      cases h

lemma needs_of_mem {p : Thread C} {e : Access C} (h : e ∈ accesses s p) : Needs s p e := by
  cases p with
  | main => exact needs_main h
  | network => exact needs_network h
  | parser => cases h
  | writer => exact needs_writer h
  | aggregation i =>
      change e ∈ aggAccesses i (s.pipeline.shards i).thread at h
      cases hpc : (s.pipeline.shards i).thread with
      | adding t =>
          rw [hpc, aggAccesses, List.mem_singleton] at h
          subst h
          exact .aggregator i _ .aggregation ⟨t, hpc⟩
      | _ =>
          rw [hpc] at h
          cases h

/-! ### What the mutexes exclude -/

/-- While `main` closes the stream, the network thread neither makes nor destroys it. -/
lemma onStream_of_closing (ho : Network.Owned s.network) (hm : s.network.stopper = .closing)
    (h : s.network.pc.holdsStream = true ∨ onStream s.network.pc = true) :
    onStream s.network.pc = true := by
  refine h.resolve_left fun hs => ?_
  obtain ⟨c, hc⟩ := Option.isSome_iff_exists.mp (ho.looked (.inr hm))
  have hfree := Network.exclusive_both (ho.stream c hc) hs
  rw [hm] at hfree
  cases hfree

lemma mem_netAccesses_of_onStream {pc : NetPc} (h : onStream pc = true) :
    ((.stream, .writes) : Access C) ∈ netAccesses pc := by
  cases pc with
  | running pc => cases pc <;> first | exact List.mem_singleton_self _ | cases h
  | _ => cases h

/-- Whoever is at the stream finds the client there. -/
lemma isSome_of_stream (ho : Network.Owned s.network) {p : Thread C} {m : Mode}
    (h : (.stream, m) ∈ accesses s p) : s.network.client.isSome = true := by
  cases needs_of_mem h with
  | mainStream _ hm => exact ho.looked (.inr hm)
  | netStream _ hs =>
      rw [ho.present]
      cases hpc : s.network.pc with
      | running pc => rfl
      | destroying had => rfl
      | _ => simp [hpc, onStream] at hs

/-- Two threads conflict on the stream while one closes it and the other is in a call on it, and at
no other time and on nothing else. -/
lemma conflict_stream (h : run (step E R) (start C) tr = some s) {p q : Thread C} {x : Shared C} :
    Conflict s p q x ↔ x = .stream ∧ s.network.stopper = .closing ∧
      onStream s.network.pc = true ∧ (p = .network ∧ q = .main ∨ p = .main ∧ q = .network) := by
  have ho := Network.run_owned (run_network h)
  have hl := Pipeline.run_locked (run_pipeline h)
  have hx := (Pipeline.run_ordered (run_pipeline h)).exclusive
  constructor
  · rintro ⟨hne, hp, m, hq⟩
    cases needs_of_mem hp with
    | netClient _ hwrite =>
        cases needs_of_mem hq with
        | netClient _ _ => exact absurd rfl hne
        | mainClient hm =>
            have hfree := Network.exclusive_both ho.client (hwrite rfl)
            rw [hm] at hfree
            cases hfree
    | netStream _ hs =>
        cases needs_of_mem hq with
        | netStream _ _ => exact absurd rfl hne
        | mainStream _ hm => exact ⟨rfl, hm, onStream_of_closing ho hm hs, .inl ⟨rfl, rfl⟩⟩
    | mainStream _ hm =>
        cases needs_of_mem hq with
        | netStream _ hs => exact ⟨rfl, hm, onStream_of_closing ho hm hs, .inr ⟨rfl, rfl⟩⟩
        | mainStream _ _ => exact absurd rfl hne
    | attempt _ =>
        cases needs_of_mem hq with
        | attempt _ => exact absurd rfl hne
    -- the other members have one mutex each, or the flushes to themselves
    | policyStop _ who hwho =>
        cases needs_of_mem hq with
        | policyStop _ who' hwho' =>
            exact absurd (congrArg ofParty (ho.policy.unique hwho hwho')) hne
    | stopRequested _ who hwho =>
        cases needs_of_mem hq with
        | stopRequested _ who' hwho' =>
            exact absurd (congrArg ofFlusher (hl.stop.unique hwho hwho')) hne
    | aggregator i _ who hwho =>
        cases needs_of_mem hq with
        | aggregator _ _ who' hwho' =>
            exact absurd (congrArg (ofHolder i) ((hl.shards i).unique hwho hwho')) hne
    | sink _ who f hf =>
        cases needs_of_mem hq with
        | sink _ who' f' hf' => exact absurd (congrArg ofFlusher (hx _ _ _ _ hf hf')) hne
  · rintro ⟨rfl, hm, hs, hpq⟩
    have hmain : ((.stream, .writes) : Access C) ∈ accesses s .main := by
      simp [accesses, hm, netStopAccesses]
    have hnetwork : ((.stream, .writes) : Access C) ∈ accesses s .network :=
      mem_netAccesses_of_onStream hs
    rcases hpq with ⟨rfl, rfl⟩ | ⟨rfl, rfl⟩
    · exact ⟨nofun, hnetwork, _, hmain⟩
    · exact ⟨nofun, hmain, _, hnetwork⟩

/-- **There is one conflict, and no other.** In every state of every run, two threads conflict on a
member just where that is the client's stream, `main` is closing it, and the network thread is in a
call on it. The client is there for whoever accesses its stream. -/
theorem conflict_iff (h : run (step E R) (start C) tr = some s) :
    (∀ p q x, Conflict s p q x ↔ x = .stream ∧ s.network.stopper = .closing ∧
      onStream s.network.pc = true ∧
        (p = .network ∧ q = .main ∨ p = .main ∧ q = .network)) ∧
    ∀ p m, (.stream, m) ∈ accesses s p → s.network.client.isSome = true :=
  ⟨fun _ _ _ => conflict_stream h,
    fun _ _ hm => isSome_of_stream (Network.run_owned (run_network h)) hm⟩

/-- A client is connected and waits for a message when the service is stopped. -/
def stopWhileReading : List (Act narrow) :=
  [.testStop, .lockCreate, .create, .clientStart, .succeed, .clientTest, .lockStream, .emplace,
    .succeed, .succeed, .succeed, .succeed, .stopCall, .storeStop, .policyLock, .policySet,
    .policyNotify, .clientLock, .clientLook, .streamLock].map .network

theorem conflict_iff_stopWhileReading : ∃ s,
    run (step Pipeline.sampleEnv .default) (start narrow) stopWhileReading = some s ∧
    Conflict s .main .network .stream ∧ s.network.client.isSome = true := by
  have hany : (run (step Pipeline.sampleEnv .default) (start narrow) stopWhileReading).any (fun s =>
      decide (s.network.stopper = .closing) && onStream s.network.pc) = true := by decide +kernel
  obtain ⟨s, hs, hboth⟩ := (Option.any_eq_true _ _).mp hany
  obtain ⟨hclosing, hstream⟩ := (Bool.and_eq_true _ _).mp hboth
  obtain ⟨hiff, halive⟩ := conflict_iff hs
  have hconflict := (hiff .main .network .stream).mpr
    ⟨rfl, of_decide_eq_true hclosing, hstream, .inr ⟨rfl, rfl⟩⟩
  exact ⟨s, hs, hconflict, halive _ _ hconflict.2.1⟩

end BinanceAggregator.Service
