import BinanceAggregator.NetworkProgress
import BinanceAggregator.PipelineProgress

/-!
The service: the network stage and the pipeline, and `main`, which stops the one and then the other.

The network thread is one of the submitters of the pipeline. Reading a message puts it into the
hands of that submitter, and the push into the raw queue is a step of both. Apart from that the two
parts run side by side, so that what holds of the runs of either holds in the service.
-/

namespace BinanceAggregator.Service

open Runs

/-- The two parts. -/
structure St (C : Config) where
  network : Network.St
  pipeline : Pipeline.St C

/-- The service when both have been started. -/
def start (C : Config) : St C := ⟨Network.start, Pipeline.start C⟩

inductive Act (C : Config)
  | network (a : Network.Act)
  | pipeline (a : Pipeline.Act C)

variable {C : Config}

/-- What the network thread does as a submitter, of number 0. -/
def asSubmitter : Network.Act → Option (Pipeline.Act C)
  | .read message => some (.submit 0 message)
  | .push message ok => some (.push 0 message ok)
  | _ => none

/-- The actions of the submitter of number 0. -/
def ofNetwork : Pipeline.Act C → Bool
  | .submit k _ | .push k _ _ => k = 0
  | _ => false

/-- No call of the pipeline's `stop` is under way. -/
def atRest : Pipeline.StopPc C → Bool
  | .idle | .returned => true
  | _ => false

/-- `main` is one thread, which calls the pipeline's `stop` after that of the network stage has
returned. The destructors call both again. -/
def permits (s : St C) : Act C → Bool
  | .network .stopCall => atRest s.pipeline.stopper
  | .network _ => true
  | .pipeline .stopCall => s.network.stopper = .returned
  | .pipeline a => !ofNetwork a

/-- One step; `none` where the thread is elsewhere or has to wait. -/
def step (E : Env) (R : ReconnectConfig) (s : St C) (a : Act C) : Option (St C) :=
  if permits s a then
    match a with
    | .network a => (Network.step R s.network a).bind fun network => match asSubmitter a with
      | some b => (Pipeline.step E s.pipeline b).map fun pipeline => ⟨network, pipeline⟩
      | none => some ⟨network, s.pipeline⟩
    | .pipeline a => (Pipeline.step E s.pipeline a).map fun pipeline => ⟨s.network, pipeline⟩
  else none

/-- What can happen, with the condition under which it does. -/
inductive Step (E : Env) (R : ReconnectConfig) (s : St C) : Act C → St C → Prop
  | network {a : Network.Act} {n : Network.St} (hm : permits s (.network a) = true)
      (hb : asSubmitter (C := C) a = none) (hn : Network.Step R s.network a n) :
      Step E R s (.network a) ⟨n, s.pipeline⟩
  | together {a : Network.Act} {b : Pipeline.Act C} {n : Network.St} {p : Pipeline.St C}
      (hb : asSubmitter a = some b) (hn : Network.Step R s.network a n)
      (hp : Pipeline.Step E s.pipeline b p) : Step E R s (.network a) ⟨n, p⟩
  | pipeline {a : Pipeline.Act C} {p : Pipeline.St C} (hm : permits s (.pipeline a) = true)
      (hp : Pipeline.Step E s.pipeline a p) : Step E R s (.pipeline a) ⟨s.network, p⟩

variable {E : Env} {R : ReconnectConfig} {s s' : St C} {a : Act C} {tr : List (Act C)}

/-- What the network thread does as a submitter is no call of `stop`. -/
lemma permits_of_asSubmitter {a : Network.Act} {b : Pipeline.Act C} (h : asSubmitter a = some b) :
    permits s (.network a) = true := by
  cases a <;> first | rfl | cases h

lemma step_of (h : Step E R s a s') : step E R s a = some s' := by
  cases h with
  | network hm hb hn => simp [step, hm, hb, Network.step_of hn]
  | together hb hn hp =>
      simp [step, permits_of_asSubmitter hb, hb, Network.step_of hn, Pipeline.step_of hp]
  | pipeline hm hp => simp [step, hm, Pipeline.step_of hp]

lemma step_cases (h : step E R s a = some s') : Step E R s a s' := by
  unfold step at h
  split_ifs at h with hm
  cases a with
  | network a =>
      obtain ⟨n, hn, h⟩ := Option.bind_eq_some_iff.mp h
      cases hb : asSubmitter (C := C) a with
      | none =>
          rw [hb] at h
          cases h
          exact .network hm hb (Network.step_cases hn)
      | some b =>
          rw [hb] at h
          obtain ⟨p, hp, rfl⟩ := Option.map_eq_some_iff.mp h
          exact .together hb (Network.step_cases hn) (Pipeline.step_cases hp)
  | pipeline a =>
      obtain ⟨p, hp, rfl⟩ := Option.map_eq_some_iff.mp h
      exact .pipeline hm (Pipeline.step_cases hp)

/-! ### The two parts of a run -/

/-- What an action is for the network stage. -/
def Act.forNetwork : Act C → List Network.Act
  | .network a => [a]
  | .pipeline _ => []

/-- What an action is for the pipeline. -/
def Act.forPipeline : Act C → List (Pipeline.Act C)
  | .network a => (asSubmitter a).toList
  | .pipeline a => [a]

/-- **The service runs the network stage.** -/
theorem run_network (h : run (step E R) (start C) tr = some s) :
    run (Network.step R) Network.start (tr.flatMap Act.forNetwork) = some s.network := by
  refine run_project (f := St.network) (fun {s a s'} ha => ?_) h
  cases step_cases ha with
  | network _ _ hn => simp [Act.forNetwork, Network.step_of hn]
  | together _ hn _ => simp [Act.forNetwork, Network.step_of hn]
  | pipeline _ _ => rfl

/-- **The service runs the pipeline.** -/
theorem run_pipeline (h : run (step E R) (start C) tr = some s) :
    run (Pipeline.step E) (Pipeline.start C) (tr.flatMap Act.forPipeline) = some s.pipeline := by
  refine run_project (f := St.pipeline) (fun {s a s'} ha => ?_) h
  cases step_cases ha with
  | network _ hb _ => simp [Act.forPipeline, hb]
  | together hb _ hp => simp [Act.forPipeline, hb, Pipeline.step_of hp]
  | pipeline _ hp => simp [Act.forPipeline, Pipeline.step_of hp]

/-! ### The message in the hands of the network thread -/

/-- The network thread has the message that its submitter has. -/
def Handed (s : St C) : Prop :=
  ∀ m, s.network.pc = .running (.pushing m) ↔ s.pipeline.submitters 0 = some m

/-- Only reading and pushing change what the network thread has. -/
lemma network_pushing {a : Network.Act} {n n' : Network.St} (h : Network.Step R n a n')
    (hb : asSubmitter (C := C) a = none) (m : Str) :
    n'.pc = .running (.pushing m) ↔ n.pc = .running (.pushing m) := by
  cases h with
  | read _ _ _ | push _ => cases hb
  | @succeed pc next c h _ hn _ =>
      have hpc : pc ≠ .pushing m := by
        rintro rfl
        cases hn
      have hnext : next ≠ .pushing m := by
        rintro rfl
        cases pc <;> cases hn
      simp [h, hpc, hnext]
  | @fail pc stage h hp =>
      have hpc : pc ≠ .pushing m := by
        rintro rfl
        cases hp
      simp [h, hpc]
  | _ => simp_all

/-- Only the submitter itself changes what it has. -/
lemma pipeline_submitters {a : Pipeline.Act C} {p p' : Pipeline.St C} (h : Pipeline.Step E p a p')
    (hb : ofNetwork a = false) : p'.submitters 0 = p.submitters 0 := by
  cases h with
  | @submit k _ _ | @push k _ _ _ _ _ =>
      have hk : k ≠ 0 := by simpa [ofNetwork] using hb
      exact Function.update_of_ne hk.symm _ _
  | _ => rfl

lemma step_handed (hs : Handed s) (h : Step E R s a s') : Handed s' := by
  intro m
  cases h with
  | network _ hb hn => exact (network_pushing hn hb m).trans (hs m)
  | @together a b n p hb hn hp =>
      cases hn with
      | read _ _ _ =>
          cases hb
          cases hp with
          | submit _ => simp
      | push _ =>
          cases hb
          cases hp with
          | push _ _ => simp
      | _ => cases hb
  | @pipeline a p hm hp =>
      have hb : ofNetwork a = false := by
        cases a <;> simp_all [permits, ofNetwork]
      change s.network.pc = _ ↔ p.submitters 0 = some m
      rw [pipeline_submitters hp hb]
      exact hs m

lemma run_handed (h : run (step E R) (start C) tr = some s) : Handed s := by
  refine run_stable (P := Handed) (fun hs ha => step_handed hs (step_cases ha)) (fun m => ?_) h
  simp [start, Network.start, Pipeline.start]

/-! ### Progress -/

/-- The steps the threads owe. -/
def Owes (s : St C) : Act C → Prop
  | .network a => Network.Owes s.network a
  | .pipeline a => a.isOwed = true

/-- Some thread has a step. -/
def Moves (E : Env) (R : ReconnectConfig) (s : St C) : Prop :=
  ∃ a s', Owes s a ∧ step E R s a = some s'

/-- A message is in a queue or in the hands of a thread, or a call of one of the two `stop` has
begun and not returned. -/
def Busy (s : St C) : Prop :=
  Pipeline.Loaded s.pipeline ∨ Pipeline.InStop s.pipeline ∨ Network.InStop s.network

/-- A step of the pipeline is one of the service; that of the network thread is a step of both. -/
lemma moves_of_pipeline (hs : Handed s) (h : Pipeline.Moves E s.pipeline) : Moves E R s := by
  obtain ⟨a, p, ha, hp⟩ := h
  cases hb : ofNetwork a with
  | false =>
      refine ⟨.pipeline a, _, ha, step_of (.pipeline ?_ hp)⟩
      cases a <;> simp_all [permits, Pipeline.Act.isOwed]
  | true =>
      cases hp with
      | @push k m ok q hk hq =>
          obtain rfl : k = 0 := by simpa [ofNetwork] using hb
          have hn : Network.Step R s.network (.push m ok) _ := .push ((hs m).mpr hk)
          exact ⟨.network (.push m ok), _, Network.owes_of_not rfl rfl,
            step_of (.together rfl hn (.push hk hq))⟩
      | submit _ => cases ha
      | _ => cases hb

/-- A step of the network stage is one of the service, but for the push into the raw queue. -/
lemma moves_of_network (hs : Handed s) (hpush : ∀ m, s.network.pc ≠ .running (.pushing m))
    (h : Network.Moves R s.network) : Moves E R s := by
  obtain ⟨a, n, ha, hn⟩ := h
  cases hb : asSubmitter (C := C) a with
  | none =>
      refine ⟨.network a, _, ha, step_of (.network ?_ hb hn)⟩
      cases a <;> first | rfl | cases ha.1
  | some b =>
      cases hn with
      | @read c m hpc hc hal =>
          -- the submitter has no message, since the network thread is reading
          have hnone : s.pipeline.submitters 0 = none := by
            refine Option.eq_none_iff_forall_ne_some.mpr fun m hm => ?_
            exact hpush m ((hs m).mpr hm)
          exact ⟨.network (.read m), _, ha, step_of (.together rfl (.read hpc hc hal) (.submit hnone))⟩
      | push hpc => exact absurd hpc (hpush _)
      | _ => cases hb

/-- **No deadlock where requests to stop are heard.** Let `stop` of the network stage never look at
the client while the network thread is between the test of its loop and the beginning of the
client's run. Then, while a message is on its way or a call of `stop` has not returned, some thread
has a step: none that a caller would have to take, none of the writer's timer, and no return of a
call on the network whose client has not been asked to stop. -/
theorem exists_step_of_busy (hcap : 1 ≤ C.queueCapacity)
    (h : run (step E R) (start C) tr = some s)
    (ht : Network.LooksInTime R (tr.flatMap Act.forNetwork)) (hb : Busy s) :
    ∃ a s', Owes s a ∧ step E R s a = some s' := by
  have hhanded := run_handed h
  have hsound := Pipeline.run_sound (run_pipeline h)
  rcases hb with hb | hb | hb
  · exact moves_of_pipeline hhanded (Pipeline.moves_of_loaded hsound hcap hb)
  · exact moves_of_pipeline hhanded (Pipeline.moves_of_inStop hsound hb)
  · by_cases hpush : ∃ m, s.network.pc = .running (.pushing m)
    · -- the network thread waits for the pipeline
      obtain ⟨m, hm⟩ := hpush
      exact moves_of_pipeline hhanded
        (Pipeline.moves_of_submitter hsound hcap ((hhanded m).mp hm))
    · have howned := Network.run_owned (run_network h)
      have hheard := Network.run_heard (run_network h) ht
      exact moves_of_network hhanded (not_exists.mp hpush)
        (Network.moves_of_inStop howned hheard hb (not_exists.mp hpush))

/-- More aggregation threads than there is room in the raw queue. -/
def narrow : Config := ⟨1000, 1, 3⟩

/-- The network thread connects, reads two messages where there is room for one, and is asked to
stop while it waits with the second. -/
def stopWhileFull : List (Act narrow) :=
  let m := Pipeline.sampleMessage "BTCUSDT" "0"
  ([.testStop, .lockCreate, .create, .clientStart, .succeed, .clientTest, .lockStream, .emplace,
    .succeed, .succeed, .succeed, .succeed, .read m, .push m true, .read m, .stopCall, .storeStop,
    .policyLock, .policySet, .policyNotify, .clientLock, .clientLook, .streamLock, .close,
    .unlockClient] : List Network.Act).map .network

theorem exists_step_stopWhileFull :
    ∃ s, run (step Pipeline.sampleEnv .default) (start narrow) stopWhileFull = some s ∧
      s.network.stopper = .joining ∧ s.pipeline.raw.items.length = 1 ∧
      ∃ a s', Owes s a ∧ step Pipeline.sampleEnv .default s a = some s' := by
  have hr : run (step Pipeline.sampleEnv .default) (start narrow) stopWhileFull = some _ := rfl
  exact ⟨_, hr, rfl, rfl, exists_step_of_busy (by decide) hr (meets_of_check (by decide))
    (.inr (.inr ⟨nofun, nofun⟩))⟩

/-! ### A deadlock -/

/-- Whether an action is the return of a call on the network. -/
def Act.comesBack : Act C → Bool
  | .network a => a.comesBack
  | .pipeline _ => false

/-- The network stage stands still unless a call on the network comes back. -/
lemma step_abandoned (hs : Network.Abandoned s.network) (ha : a.comesBack = false)
    (h : Step E R s a s') : s'.network = s.network := by
  cases h with
  | network _ _ hn | together _ hn _ =>
      rw [Act.comesBack, hs.comesBack hn] at ha
      cases ha
  | pipeline _ _ => rfl

lemma run_abandoned {v : List (Act C)} (hs : Network.Abandoned s.network)
    (hv : ∀ a ∈ v, a.comesBack = false) (h : run (step E R) s v = some s') :
    s'.network = s.network := by
  refine run_inv (P := fun v t => (∀ a ∈ v, a.comesBack = false) → t.network = s.network)
    (fun _ => rfl) ?_ h hv
  intro v t a t' _ ih ha hv
  have hsame := ih fun b hb => hv b (List.mem_append_left _ hb)
  rw [← hsame] at hs ⊢
  exact step_abandoned hs (hv a (by simp)) (step_cases ha)

/-- Where the pipeline waits too, no thread has a step. -/
lemma not_owes_of_abandoned (hs : Network.Abandoned s.network)
    (hw : Pipeline.Waiting s.pipeline) (h : Step E R s a s') : ¬ Owes s a := by
  cases h with
  | network _ _ hn | together _ hn _ => exact hs.not_owes hn
  | pipeline _ hp =>
      intro ho
      cases (hw.isOwed hp).symm.trans ho

/-- `stop` looks for a client before there is one, and all other threads come to wait. -/
def stopTooEarly : List (Act narrow) :=
  Network.stopBeforeCreate.map .network ++ [.pipeline .writerLock, .pipeline .writerTest]

lemma exists_abandoned :
    ∃ s, run (step Pipeline.sampleEnv .default) (start narrow) stopTooEarly = some s ∧
      Network.Abandoned s.network ∧ Pipeline.Waiting s.pipeline := by
  refine ⟨_, rfl, ⟨rfl, ⟨_, _, rfl, rfl⟩, ?_⟩,
    ⟨fun _ => rfl, rfl, rfl, fun _ => rfl, fun _ => rfl, rfl, rfl⟩⟩
  rintro ⟨c, hc, htold⟩
  cases hc
  cases htold

/-- A call of `stop` has not returned and no thread has a step. Whatever else happens, the writer's
ticks and messages of other submitters included, `stop` goes on waiting until the network lets go
of the client. -/
theorem stuck_stopTooEarly :
    ∃ s, run (step Pipeline.sampleEnv .default) (start narrow) stopTooEarly = some s ∧ Busy s ∧
      (∀ a s', Owes s a → step Pipeline.sampleEnv .default s a ≠ some s') ∧
      ∀ v s', (∀ a ∈ v, a.comesBack = false) →
        run (step Pipeline.sampleEnv .default) s v = some s' → s'.network.stopper = .joining := by
  obtain ⟨s, hr, hlost, hwaits⟩ := exists_abandoned
  have hbusy : Network.InStop s.network := by simp [Network.InStop, hlost.joins]
  refine ⟨s, hr, .inr (.inr hbusy), fun a s' ho ha => ?_, fun v s' hv h => ?_⟩
  · exact not_owes_of_abandoned hlost hwaits (step_cases ha) ho
  · rw [run_abandoned hlost hv h]
    exact hlost.joins

end BinanceAggregator.Service
