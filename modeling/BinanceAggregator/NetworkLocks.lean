import BinanceAggregator.Mutex
import BinanceAggregator.NetworkSteps

/-!
Who holds the mutexes of the network stage.

The stopping thread takes the mutex of the client's stream while it holds the client's mutex, and
so does the network thread when it destroys the client. As no thread waits for the client's mutex
while it holds that of a stream, the two do not wait for each other.
-/

namespace BinanceAggregator.Network

open Runs Mutex

variable {R : ReconnectConfig} {s s' : St} {a : Act} {tr : List Act}

/-! ### Where a mutex is held -/

@[simp] def NetPc.holdsClient : NetPc → Bool
  | .creating | .resetting _ | .destroying _ => true
  | _ => false

@[simp] def NetPc.holdsStream : NetPc → Bool
  | .running .emplacing | .destroying _ => true
  | _ => false

@[simp] def NetPc.holdsPolicy : NetPc → Bool
  | .clearing | .waiting _ => true
  | _ => false

/-- From the construction of the client to its end. -/
@[simp] def NetPc.hasClient : NetPc → Bool
  | .running _ | .lockingReset _ | .resetting _ | .destroying _ => true
  | _ => false

@[simp] def StopPc.holdsClient : StopPc → Bool
  | .looking | .lockingStream | .closing | .unlocking => true
  | _ => false

@[simp] def StopPc.holdsStream : StopPc → Bool
  | .closing => true
  | _ => false

@[simp] def StopPc.holdsPolicy : StopPc → Bool
  | .settingPolicy => true
  | _ => false

/-- Two conditions, one for each thread. -/
def both (network stopper : Bool) : Party → Prop
  | .network => network = true
  | .stopper => stopper = true

section Both

variable {m : Option Party} {n t : Bool}

lemma lockNetwork (h : Held m (both n t)) (hm : m = none) : Held (some .network) (both true t) := by
  refine h.lock hm rfl fun q hq => ?_
  cases q with
  | network => exact absurd rfl hq
  | stopper => exact Iff.rfl

lemma lockStopper (h : Held m (both n t)) (hm : m = none) : Held (some .stopper) (both n true) := by
  refine h.lock hm rfl fun q hq => ?_
  cases q with
  | network => exact Iff.rfl
  | stopper => exact absurd rfl hq

lemma unlockNetwork (h : Held m (both true t)) : Held none (both false t) := by
  refine h.unlock (p := .network) rfl nofun fun q hq => ?_
  cases q with
  | network => exact absurd rfl hq
  | stopper => exact Iff.rfl

lemma unlockStopper (h : Held m (both n true)) : Held none (both n false) := by
  refine h.unlock (p := .stopper) rfl nofun fun q hq => ?_
  cases q with
  | network => exact Iff.rfl
  | stopper => exact absurd rfl hq

/-- While the network thread holds a mutex, the stopping thread does not. -/
lemma exclusive_both (h : Held m (both n t)) (hn : n = true) : t = false := by
  by_contra ht
  rw [Bool.not_eq_false] at ht
  have hnetwork : both n t .network := hn
  have hstopper : both n t .stopper := ht
  cases h.unique hnetwork hstopper

lemma free_of_both (h : Held m (both n t)) (hn : n = false) (ht : t = false) : m = none := by
  refine h.eq_none fun p hp => ?_
  cases p with
  | network => exact Bool.false_ne_true (hn.symm.trans hp)
  | stopper => exact Bool.false_ne_true (ht.symm.trans hp)

end Both

/-- The mutexes are held where the threads hold them, and the client exists where the threads use
it. -/
structure Owned (s : St) : Prop where
  client : Held s.clientMutex (both s.pc.holdsClient s.stopper.holdsClient)
  policy : Held s.policy.mutex (both s.pc.holdsPolicy s.stopper.holdsPolicy)
  present : s.client.isSome = s.pc.hasClient
  stream : ∀ c, s.client = some c →
    Held c.streamMutex (both s.pc.holdsStream s.stopper.holdsStream)
  looked : s.stopper = .lockingStream ∨ s.stopper = .closing → s.client.isSome = true

lemma owned_start : Owned start :=
  ⟨fun p => by cases p <;> simp [start, both], fun p => by cases p <;> simp [start, both], rfl, nofun,
    by simp [start]⟩

lemma step_policyHeld (ho : Held s.policy.mutex (both s.pc.holdsPolicy s.stopper.holdsPolicy))
    (h : Step R s a s') :
    Held s'.policy.mutex (both s'.pc.holdsPolicy s'.stopper.holdsPolicy) := by
  cases h with
  | lockClear h hm => exact lockNetwork ho hm
  | lockWait h hm => exact lockNetwork ho hm
  | clear h => exact unlockNetwork (h ▸ ho)
  | waitStopped h _ => exact unlockNetwork (h ▸ ho)
  | waitOver h _ => exact unlockNetwork (h ▸ ho)
  | waitSleep h _ => exact unlockNetwork (h ▸ ho)
  | policyLock h hm => exact lockStopper ho hm
  | policySet h => exact unlockStopper (h ▸ ho)
  | stopCall h => rcases h with h | h <;> simp_all
  | _ => simp_all

lemma step_clientHeld (ho : Held s.clientMutex (both s.pc.holdsClient s.stopper.holdsClient))
    (h : Step R s a s') :
    Held s'.clientMutex (both s'.pc.holdsClient s'.stopper.holdsClient) := by
  cases h with
  | lockCreate h hm => exact lockNetwork ho hm
  | lockReset h hm => exact lockNetwork ho hm
  | create h => exact unlockNetwork (h ▸ ho)
  | destroy h => exact unlockNetwork (h ▸ ho)
  | clientLock h hm => exact lockStopper ho hm
  | unlockClient h => exact unlockStopper (h ▸ ho)
  | stopCall h => rcases h with h | h <;> simp_all
  | _ => simp_all

/-- While the network thread holds the client's mutex, the stopping thread is not inside. -/
lemma Owned.stopper_outside (ho : Owned s) (h : s.pc.holdsClient = true) :
    s.stopper.holdsClient = false :=
  exclusive_both ho.client h

lemma step_present (ho : Owned s) (h : Step R s a s') : s'.client.isSome = s'.pc.hasClient := by
  have hp := ho.present
  cases h with
  | policyWake h hpc => simp_all
  | _ => simp_all

lemma step_looked (ho : Owned s) (h : Step R s a s')
    (hs : s'.stopper = .lockingStream ∨ s'.stopper = .closing) : s'.client.isSome = true := by
  have hl := ho.looked
  cases h with
  | destroy h =>
      have hout := ho.stopper_outside (by simp [h])
      rcases hs with hs | hs <;> simp_all
  | _ => simp_all

lemma step_streamHeld (ho : Owned s) (h : Step R s a s') {c : Client} (hc : s'.client = some c) :
    Held c.streamMutex (both s'.pc.holdsStream s'.stopper.holdsStream) := by
  have hstream := ho.stream
  cases h with
  | @lockStream c h hc₀ hm =>
      obtain rfl := Option.some.inj hc
      exact lockNetwork (hstream _ hc₀) hm
  | @emplace c h hc₀ =>
      obtain rfl := Option.some.inj hc
      exact unlockNetwork (h ▸ hstream _ hc₀)
  | @lockDestroy had c h hc₀ hm =>
      obtain rfl := Option.some.inj hc
      exact lockNetwork (hstream _ hc₀) hm
  | @streamLock c h hc₀ hm =>
      obtain rfl := Option.some.inj hc
      exact lockStopper (hstream _ hc₀) hm
  | @close c h hc₀ =>
      obtain rfl := Option.some.inj hc
      exact unlockStopper (h ▸ hstream _ hc₀)
  | create h =>
      -- the stopping thread is not closing a stream, since it does not hold the client's mutex
      have hout := ho.stopper_outside (by simp [h])
      have hclosing : s.stopper.holdsStream = false := by
        cases hs : s.stopper <;> simp_all
      obtain rfl := Option.some.inj hc
      change Held none (both false s.stopper.holdsStream)
      rw [hclosing]
      intro p
      cases p <;> simp [both]
  | @succeed pc next c h hc₀ hn _ =>
      obtain rfl := Option.some.inj hc
      have hheld := hstream _ hc₀
      rw [h] at hheld
      cases pc <;> cases hn <;> exact hheld
  | @fail pc stage h hp =>
      have hheld := hstream _ hc
      rw [h] at hheld
      cases pc <;> first | exact hheld | cases hp
  | @clientStart c h hc₀ =>
      obtain rfl := Option.some.inj hc
      have hheld := hstream _ hc₀
      rw [h] at hheld
      exact hheld
  | @clientStop c h hc₀ =>
      obtain rfl := Option.some.inj hc
      have hheld := hstream _ hc₀
      rw [h] at hheld
      exact hheld
  | destroy _ => cases hc
  | stopCall h =>
      have hheld := hstream _ hc
      rcases h with h | h <;> (rw [h] at hheld; exact hheld)
  | _ => simp_all

theorem run_owned (h : run (step R) start tr = some s) : Owned s := by
  refine run_stable (P := Owned) ?_ owned_start h
  intro s a s' ho ha
  have hstep := step_cases ha
  exact ⟨step_clientHeld ho.client hstep, step_policyHeld ho.policy hstep, step_present ho hstep,
    fun c hc => step_streamHeld ho hstep hc, step_looked ho hstep⟩

end BinanceAggregator.Network
