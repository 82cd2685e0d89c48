import BinanceAggregator.Reconnects
import BinanceAggregator.StopRequest

/-!
Whether the policy stays stopped.

`stop` sets the flag of the policy so that the waits to come end at once. The network thread clears
the same flag when it resets the policy after an attempt that ended in the read loop. As it tests
the flag of the stage before, it does not come to the reset once `stop` has begun, but it may be on
its way there already.
-/

namespace BinanceAggregator.Network

open Runs Mutex

variable {R : ReconnectConfig} {s s' : St} {a : Act} {tr : List Act}

/-- From a state in which `stop` is about to set the flag of the policy: the flag stays set, and no
wait that begins later is waited out, that is, returns to the test of the loop. -/
structure StaysStopped (R : ReconnectConfig) (s : St) : Prop where
  flag : ∀ v s', run (step R) s (.policySet :: v) = some s' → s'.policy.stopRequested = true
  waits : ∀ v delayMs s', .delay delayMs ∈ v →
    run (step R) s (.policySet :: (v ++ [.testWait])) = some s' → s'.pc ≠ .testing

/-- Both flags are set, and the network thread is not on its way to clear that of the policy. -/
structure Interrupted (s : St) : Prop where
  stored : s.stopRequested = true
  flag : s.policy.stopRequested = true
  locking : s.pc ≠ .lockingPolicy
  clearing : s.pc ≠ .clearing

lemma step_interrupted (hi : Interrupted s) (h : Step R s a s') : Interrupted s' := by
  obtain ⟨hs, hf, hl, hc⟩ := hi
  cases h with
  -- the reset is reached only past a test of the flag of the stage
  | checkClear _ hs' => cases hs.symm.trans hs'
  | lockClear h _ => exact absurd h hl
  | clear h => exact absurd h hc
  | storeStop _ => exact ⟨rfl, hf, hl, hc⟩
  | policySet _ => exact ⟨hs, rfl, hl, hc⟩
  -- the stopping thread leaves both flags and the network thread where they are
  | stopCall _ | policyLock _ _ | policyNotify _ _ | clientLock _ _ | clientStop _ _
  | clientAbsent _ _ | streamLock _ _ _ | close _ _ | unlockClient _ | join _ _ =>
      exact ⟨hs, hf, hl, hc⟩
  | _ => exact ⟨hs, hf, nofun, nofun⟩

lemma run_interrupted (hi : Interrupted s) (hr : run (step R) s tr = some s') : Interrupted s' :=
  run_stable (P := Interrupted) (fun hi ha => step_interrupted hi (step_cases ha)) hi hr

/-- The flag is set under the mutex, so the network thread is not just clearing it. -/
lemma not_clearing (hr : run (step R) start tr = some s) (hs : s.stopper = .settingPolicy) :
    s.pc ≠ .clearing := by
  intro hc
  have hout := exclusive_both (run_owned hr).policy (by simp [hc])
  simp [hs] at hout

lemma interrupted_of_set (hr : run (step R) start tr = some s) (hs : s.stopper = .settingPolicy)
    (hl : s.pc ≠ .lockingPolicy) {v : List Act}
    (hv : run (step R) s (.policySet :: v) = some s') : Interrupted s' := by
  rw [run_cons, step_of (.policySet hs), Option.bind_some] at hv
  have hstored : s.stopRequested = true := run_stored hr (by simp [hs])
  have hclearing := not_clearing hr hs
  exact run_interrupted (s := { s with stopper := .notifying, policy := ⟨_, true, none⟩ })
    ⟨hstored, rfl, hl, hclearing⟩ hv

/-- A wait that finds the flag set does not go round the loop. -/
lemma testWait_pc (hi : Interrupted s) (h : Step R s .testWait s') : s'.pc = .exited := by
  cases h with
  | waitStopped _ _ => rfl
  | waitOver _ hf | waitSleep _ hf => cases hi.flag.symm.trans hf

/-- The reset of the policy, and a wait of the first delay. -/
def resetThenWait (R : ReconnectConfig) : List Act :=
  [.lockClear, .clear, .delay (Backoff.baseDelayForAttempt R 0), .lockWait, .testWait, .wake true,
    .lockWait]

/-- On its way to the reset, the network thread clears the flag and waits. -/
lemma exists_waitedOut (hs : s.stopper = .settingPolicy) (hl : s.pc = .lockingPolicy) :
    ∃ s', run (step R) s (.policySet :: (resetThenWait R ++ [.testWait])) = some s' ∧
      s'.pc = .testing := by
  refine ⟨{ s with pc := .testing, stopper := .notifying, policy := ⟨1, false, none⟩ }, ?_, rfl⟩
  simp [resetThenWait, step, hs, hl]

/-- **The policy stays stopped** exactly if `stop` does not set its flag while the network thread is
between its test of the flag of the stage and the reset of the policy. -/
theorem staysStopped_iff (hr : run (step R) start tr = some s) (hs : s.stopper = .settingPolicy) :
    StaysStopped R s ↔ s.pc ≠ .lockingPolicy := by
  constructor
  · intro h hl
    obtain ⟨s', hv, hpc⟩ := exists_waitedOut (R := R) hs hl
    exact h.waits _ (Backoff.baseDelayForAttempt R 0) s' (by simp [resetThenWait]) hv hpc
  · intro hl
    refine ⟨fun v s' hv => (interrupted_of_set hr hs hl hv).flag, fun v _ s' _ hv => ?_⟩
    rw [← List.cons_append, run_snoc] at hv
    obtain ⟨t, ht, hlast⟩ := hv
    have hpc := testWait_pc (interrupted_of_set hr hs hl ht) (step_cases hlast)
    rw [hpc]
    nofun

/-- `stop` up to the point where it is about to set the flag of the policy. -/
def toPolicySet : List Act := [.stopCall, .storeStop, .policyLock]

theorem staysStopped_whileResolving :
    ∃ s, run (step .default) start ([.testStop, .lockCreate, .create, .clientStart] ++ toPolicySet) =
      some s ∧ StaysStopped .default s := by
  have hr : run (step .default) start
    ([.testStop, .lockCreate, .create, .clientStart] ++ toPolicySet) = some _ := rfl
  exact ⟨_, hr, (staysStopped_iff hr rfl).mpr nofun⟩

/-- The connection is dropped and the network thread tests the flag of the stage just before `stop`
sets it. -/
def stopBeforeReset : List Act :=
  toConnect ++ [.succeed, .succeed, .succeed, .fail .read, .lockReset, .lockDestroy, .destroy,
    .checkStop] ++ toPolicySet

/-- The network thread clears the flag that `stop` has set, waits for the whole delay and goes on
to another attempt. -/
theorem stopBeforeReset_waits : ∃ s s',
    run (step .default) start stopBeforeReset = some s ∧ s.stopper = .settingPolicy ∧
    run (step .default) s
      [.policySet, .policyNotify, .lockClear, .clear, .delay 500, .lockWait, .testWait, .wake true,
        .lockWait, .testWait] = some s' ∧
    s'.pc = .testing ∧ s'.policy.stopRequested = false ∧ ¬ StaysStopped .default s := by
  refine ⟨_, _, rfl, rfl, rfl, rfl, rfl, fun h => ?_⟩
  exact h.waits [.policyNotify, .lockClear, .clear, .delay 500, .lockWait, .testWait, .wake true,
    .lockWait] 500 _ (by decide) rfl rfl

end BinanceAggregator.Network
