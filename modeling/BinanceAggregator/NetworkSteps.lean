import BinanceAggregator.Network
import BinanceAggregator.Runs

/-!
The transitions of the network stage, one by one.

As for the pipeline, the step function is turned into a relation with one case for each thing that
can happen, with what has to hold before and the state after.
-/

namespace BinanceAggregator.Network

open Runs

lemma after_stopRequested (c : Client) (pc : ClientPc) :
    (c.after pc).stopRequested = c.stopRequested := by
  cases pc <;> rfl

/-- What can happen, with the condition under which it does. -/
inductive Step (R : ReconnectConfig) (s : St) : Act → St → Prop
  | testExit (h : s.pc = .testing) (hs : s.stopRequested = true) :
      Step R s .testStop { s with pc := .exited }
  | testLoop (h : s.pc = .testing) (hs : s.stopRequested = false) :
      Step R s .testStop { s with pc := .lockingCreate }
  | lockCreate (h : s.pc = .lockingCreate) (hm : s.clientMutex = none) :
      Step R s .lockCreate { s with pc := .creating, clientMutex := some .network }
  | create (h : s.pc = .creating) :
      Step R s .create { s with
        pc := .running .starting, client := some .fresh, clientMutex := none }
  | clientStart {c : Client} (h : s.pc = .running .starting) (hc : s.client = some c) :
      Step R s .clientStart { s with
        pc := .running .resolving, client := some { c with stopRequested := false } }
  | succeed {pc next : ClientPc} {c : Client} (h : s.pc = .running pc) (hc : s.client = some c)
      (hn : pc.next = some next) (ha : c.allows pc = true) :
      Step R s .succeed { s with pc := .running next, client := some (c.after pc) }
  | fail {pc : ClientPc} {stage : ConnectionStage} (h : s.pc = .running pc)
      (hp : pc.stage = some stage) :
      Step R s (.fail stage) { s with pc := .lockingReset (stage = .read) }
  | clientStopped {c : Client} (h : s.pc = .running .testing) (hc : s.client = some c)
      (hs : c.stopRequested = true) : Step R s .clientTest { s with pc := .lockingReset false }
  | clientGoesOn {c : Client} (h : s.pc = .running .testing) (hc : s.client = some c)
      (hs : c.stopRequested = false) :
      Step R s .clientTest { s with pc := .running .lockingStream }
  | lockStream {c : Client} (h : s.pc = .running .lockingStream) (hc : s.client = some c)
      (hm : c.streamMutex = none) :
      Step R s .lockStream { s with
        pc := .running .emplacing, client := some { c with streamMutex := some .network } }
  | emplace {c : Client} (h : s.pc = .running .emplacing) (hc : s.client = some c) :
      Step R s .emplace { s with
        pc := .running .namingHost
        client := some { c with stream := .closed, streamMutex := none } }
  | read {c : Client} {m : Str} (h : s.pc = .running .reading) (hc : s.client = some c)
      (ha : c.allows .reading = true) : Step R s (.read m) { s with pc := .running (.pushing m) }
  | push {m : Str} {ok : Bool} (h : s.pc = .running (.pushing m)) :
      Step R s (.push m ok) { s with pc := .running .reading }
  | lockReset {had : Bool} (h : s.pc = .lockingReset had) (hm : s.clientMutex = none) :
      Step R s .lockReset { s with pc := .resetting had, clientMutex := some .network }
  | lockDestroy {had : Bool} {c : Client} (h : s.pc = .resetting had) (hc : s.client = some c)
      (hm : c.streamMutex = none) :
      Step R s .lockDestroy { s with
        pc := .destroying had
        client := some { c with stopRequested := true, streamMutex := some .network } }
  | destroy {had : Bool} (h : s.pc = .destroying had) :
      Step R s .destroy { s with pc := .checking had, client := none, clientMutex := none }
  | checkExit {had : Bool} (h : s.pc = .checking had) (hs : s.stopRequested = true) :
      Step R s .checkStop { s with pc := .exited }
  | checkClear (h : s.pc = .checking true) (hs : s.stopRequested = false) :
      Step R s .checkStop { s with pc := .lockingPolicy }
  | checkWait (h : s.pc = .checking false) (hs : s.stopRequested = false) :
      Step R s .checkStop { s with pc := .delaying }
  | lockClear (h : s.pc = .lockingPolicy) (hm : s.policy.mutex = none) :
      Step R s .lockClear { s with
        pc := .clearing, policy := { s.policy with mutex := some .network } }
  | clear (h : s.pc = .clearing) :
      Step R s .clear { s with pc := .delaying, policy := ⟨0, false, none⟩ }
  | delay (h : s.pc = .delaying) :
      Step R s (.delay (Backoff.baseDelayForAttempt R s.policy.attempt))
        { s with pc := .acquiring false }
  | lockWait {timedOut : Bool} (h : s.pc = .acquiring timedOut) (hm : s.policy.mutex = none) :
      Step R s .lockWait { s with
        pc := .waiting timedOut, policy := { s.policy with mutex := some .network } }
  | waitStopped {timedOut : Bool} (h : s.pc = .waiting timedOut)
      (hs : s.policy.stopRequested = true) :
      Step R s .testWait { s with pc := .exited, policy := { s.policy with mutex := none } }
  | waitOver (h : s.pc = .waiting true) (hs : s.policy.stopRequested = false) :
      Step R s .testWait { s with
        pc := .testing
        policy := { s.policy with mutex := none, attempt := s.policy.attempt + 1 } }
  | waitSleep (h : s.pc = .waiting false) (hs : s.policy.stopRequested = false) :
      Step R s .testWait { s with pc := .asleep, policy := { s.policy with mutex := none } }
  | wake {timedOut : Bool} (h : s.pc = .asleep) :
      Step R s (.wake timedOut) { s with pc := .acquiring timedOut }
  | stopCall (h : s.stopper = .idle ∨ s.stopper = .returned) :
      Step R s .stopCall { s with stopper := .storing }
  | storeStop (h : s.stopper = .storing) :
      Step R s .storeStop { s with stopper := .lockingPolicy, stopRequested := true }
  | policyLock (h : s.stopper = .lockingPolicy) (hm : s.policy.mutex = none) :
      Step R s .policyLock { s with
        stopper := .settingPolicy, policy := { s.policy with mutex := some .stopper } }
  | policySet (h : s.stopper = .settingPolicy) :
      Step R s .policySet { s with
        stopper := .notifying, policy := { s.policy with stopRequested := true, mutex := none } }
  | policyWake (h : s.stopper = .notifying) (hp : s.pc = .asleep) :
      Step R s .policyNotify { s with stopper := .lockingClient, pc := .acquiring false }
  | policyNotify (h : s.stopper = .notifying) (hp : s.pc ≠ .asleep) :
      Step R s .policyNotify { s with stopper := .lockingClient }
  | clientLock (h : s.stopper = .lockingClient) (hm : s.clientMutex = none) :
      Step R s .clientLock { s with stopper := .looking, clientMutex := some .stopper }
  | clientStop {c : Client} (h : s.stopper = .looking) (hc : s.client = some c) :
      Step R s .clientLook { s with
        stopper := .lockingStream, client := some { c with stopRequested := true } }
  | clientAbsent (h : s.stopper = .looking) (hc : s.client = none) :
      Step R s .clientLook { s with stopper := .unlocking }
  | streamLock {c : Client} (h : s.stopper = .lockingStream) (hc : s.client = some c)
      (hm : c.streamMutex = none) :
      Step R s .streamLock { s with
        stopper := .closing, client := some { c with streamMutex := some .stopper } }
  | close {c : Client} (h : s.stopper = .closing) (hc : s.client = some c) :
      Step R s .close { s with
        stopper := .unlocking, client := some { c.close with streamMutex := none } }
  | unlockClient (h : s.stopper = .unlocking) :
      Step R s .unlockClient { s with stopper := .joining, clientMutex := none }
  | join (h : s.stopper = .joining) (hp : s.pc = .exited) :
      Step R s .join { s with stopper := .returned }

variable {R : ReconnectConfig} {s s' : St} {a : Act}

lemma step_of (h : Step R s a s') : step R s a = some s' := by
  cases h with
  | stopCall h => rcases h with h | h <;> simp [step, h]
  | policyNotify h hp => simp only [step, h]
  | _ => simp_all [step]

lemma step_cases (h : step R s a = some s') : Step R s a s' := by
  cases a with
  | testStop =>
      simp only [step] at h
      split at h <;> cases h
      split_ifs with hs
      · exact .testExit ‹_› hs
      · exact .testLoop ‹_› (Bool.not_eq_true _ ▸ hs)
  | checkStop =>
      simp only [step] at h
      split at h <;> cases h
      rename_i had hpc
      split_ifs with hs hh
      · exact .checkExit hpc hs
      · exact .checkClear (hh ▸ hpc) (Bool.not_eq_true _ ▸ hs)
      · rw [Bool.not_eq_true] at hs hh
        exact .checkWait (hh ▸ hpc) hs
  | testWait =>
      simp only [step] at h
      split at h <;> cases h
      rename_i timedOut hpc
      cases hs : s.policy.stopRequested with
      | true => simpa [hs] using Step.waitStopped (R := R) hpc hs
      | false =>
          cases timedOut with
          | true => simpa [hs] using Step.waitOver (R := R) hpc hs
          | false => simpa [hs] using Step.waitSleep (R := R) hpc hs
  | clientTest =>
      simp only [step] at h
      split at h <;> cases h
      split_ifs with hs
      · exact .clientStopped ‹_› ‹_› hs
      · exact .clientGoesOn ‹_› ‹_› (Bool.not_eq_true _ ▸ hs)
  | clientLook =>
      simp only [step] at h
      split at h <;> cases h
      · exact .clientStop ‹_› ‹_›
      · exact .clientAbsent ‹_› ‹_›
  | succeed =>
      simp only [step] at h
      split at h
      · split at h
        · split_ifs at h with ha
          cases h
          exact .succeed ‹_› ‹_› ‹_› ha
        · cases h
      · cases h
  | fail stage =>
      simp only [step] at h
      split at h
      · split_ifs at h with hp
        cases h
        exact .fail ‹_› hp
      · cases h
  | read m =>
      simp only [step] at h
      split at h
      · split_ifs at h with ha
        cases h
        exact .read ‹_› ‹_› ha
      · cases h
  | push m ok =>
      simp only [step] at h
      split at h
      · split_ifs at h with hm
        cases h
        subst hm
        exact .push ‹_›
      · cases h
  | delay delayMs =>
      simp only [step] at h
      split at h
      · split_ifs at h with hd
        cases h
        subst hd
        exact .delay ‹_›
      · cases h
  | stopCall =>
      simp only [step] at h
      split at h <;> cases h
      · exact .stopCall (.inl ‹_›)
      · exact .stopCall (.inr ‹_›)
  | policyNotify =>
      simp only [step] at h
      split at h <;> cases h
      split
      · exact .policyWake ‹_› ‹_›
      · exact .policyNotify ‹_› ‹_›
  | lockStream =>
      simp only [step] at h
      split at h
      · split_ifs at h with hm
        cases h
        exact .lockStream ‹_› ‹_› hm
      · cases h
  | lockDestroy =>
      simp only [step] at h
      split at h
      · split_ifs at h with hm
        cases h
        exact .lockDestroy ‹_› ‹_› hm
      · cases h
  | streamLock =>
      simp only [step] at h
      split at h
      · split_ifs at h with hm
        cases h
        exact .streamLock ‹_› ‹_› hm
      · cases h
  | wake timedOut =>
      simp only [step] at h
      split at h <;> cases h
      exact .wake ‹_›
  | lockCreate =>
      simp only [step] at h
      split at h <;> cases h
      exact .lockCreate ‹_› ‹_›
  | lockReset =>
      simp only [step] at h
      split at h <;> cases h
      exact .lockReset ‹_› ‹_›
  | lockClear =>
      simp only [step] at h
      split at h <;> cases h
      exact .lockClear ‹_› ‹_›
  | lockWait =>
      simp only [step] at h
      split at h <;> cases h
      exact .lockWait ‹_› ‹_›
  | policyLock =>
      simp only [step] at h
      split at h <;> cases h
      exact .policyLock ‹_› ‹_›
  | clientLock =>
      simp only [step] at h
      split at h <;> cases h
      exact .clientLock ‹_› ‹_›
  | clientStart =>
      simp only [step] at h
      split at h <;> cases h
      exact .clientStart ‹_› ‹_›
  | emplace =>
      simp only [step] at h
      split at h <;> cases h
      exact .emplace ‹_› ‹_›
  | close =>
      simp only [step] at h
      split at h <;> cases h
      exact .close ‹_› ‹_›
  | join =>
      simp only [step] at h
      split at h <;> cases h
      exact .join ‹_› ‹_›
  | create =>
      simp only [step] at h
      split at h <;> cases h
      exact .create ‹_›
  | destroy =>
      simp only [step] at h
      split at h <;> cases h
      exact .destroy ‹_›
  | clear =>
      simp only [step] at h
      split at h <;> cases h
      exact .clear ‹_›
  | storeStop =>
      simp only [step] at h
      split at h <;> cases h
      exact .storeStop ‹_›
  | policySet =>
      simp only [step] at h
      split at h <;> cases h
      exact .policySet ‹_›
  | unlockClient =>
      simp only [step] at h
      split at h <;> cases h
      exact .unlockClient ‹_›

end BinanceAggregator.Network
