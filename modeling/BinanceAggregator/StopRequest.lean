import BinanceAggregator.NetworkLocks

/-!
Whether a stop request reaches the connection.

`stop` sets the flag of the stage, then passes the request on to the client it finds. A network
thread that has tested the flag before and has not begun the client's run is missed: either there
is no client yet, or the client's run clears the flag that was set. At any other point the request
is heard.
-/

namespace BinanceAggregator.Network

open Runs Mutex

variable {R : ReconnectConfig} {s s' : St} {a : Act} {tr : List Act}

/-- `stop` has looked at the client. -/
@[simp] def StopPc.hasLooked : StopPc → Bool
  | .lockingStream | .closing | .unlocking | .joining | .returned => true
  | _ => false

/-- `stop` has set the flag of the stage. -/
@[simp] def StopPc.hasStored : StopPc → Bool
  | .idle | .storing => false
  | _ => true

/-- From the test of the loop to the beginning of the client's run. -/
@[simp] def NetPc.between : NetPc → Bool
  | .lockingCreate | .creating | .running .starting => true
  | _ => false

/-- `stop` waits for a client's run that has not been asked to stop since it began. -/
def StopLost (s : St) : Prop :=
  s.stopper = .joining ∧ ∃ pc c, s.pc = .running pc ∧ pc ≠ .starting ∧ s.client = some c ∧
    c.stopRequested = false

/-- Whenever `stop` looks at the client, the network thread is not between the test of its loop
and the beginning of the client's run. -/
def LooksInTime (R : ReconnectConfig) (tr : List Act) : Prop :=
  Meets (step R) (fun s a => a = .clientLook → s.pc.between = false) start tr

lemma step_stored (hs : s.stopper.hasStored = true → s.stopRequested = true) (h : Step R s a s') :
    s'.stopper.hasStored = true → s'.stopRequested = true := by
  cases h with
  | _ => simp_all

lemma run_stored (h : run (step R) start tr = some s) :
    s.stopper.hasStored = true → s.stopRequested = true :=
  run_stable (P := fun s => s.stopper.hasStored = true → s.stopRequested = true)
    (fun hs ha => step_stored hs (step_cases ha)) (by simp [start]) h

/-- After `stop` has looked in time, the network thread begins no run, and a run that is under way
has been asked to stop. -/
structure Heard (s : St) : Prop where
  stored : s.stopRequested = true
  between : s.pc.between = false
  client : ∀ pc c, s.pc = .running pc → s.client = some c → c.stopRequested = true

/-- Nothing is left to hear outside the client's run. -/
lemma Heard.outside (hh : Heard s) (hs : s'.stopRequested = s.stopRequested)
    (hb : s'.pc.between = false) (hr : ∀ pc, s'.pc ≠ .running pc) : Heard s' :=
  ⟨hs.trans hh.stored, hb, fun pc _ hpc => absurd hpc (hr pc)⟩

lemma step_heard (hs : s.stopper.hasStored = true → s.stopRequested = true)
    (hh : s.stopper.hasLooked = true → Heard s) (h : Step R s a s')
    (hlook : a = .clientLook → s.pc.between = false) : s'.stopper.hasLooked = true → Heard s' := by
  intro hl
  cases h with
  | @clientStop c h hc =>
      refine ⟨hs (by simp [h]), hlook rfl, fun pc c' _ hc' => ?_⟩
      obtain rfl := Option.some.inj hc'
      rfl
  | clientAbsent h hc =>
      refine ⟨hs (by simp [h]), hlook rfl, fun pc c _ hc' => ?_⟩
      cases hc.symm.trans hc'
  -- the network thread does not come to the beginning of a run
  | testLoop _ hf => simp [(hh hl).stored] at hf
  | lockCreate h _ | create h | clientStart h _ => simpa [h] using (hh hl).between
  -- a run that goes on has been asked to stop
  | @succeed pc next c h hc hn _ =>
      refine ⟨(hh hl).stored, by cases pc <;> cases hn <;> rfl, fun p c' _ hc' => ?_⟩
      obtain rfl := Option.some.inj hc'
      rw [after_stopRequested]
      exact (hh hl).client pc c h hc
  | clientGoesOn h hc hf => simp [(hh hl).client _ _ h hc] at hf
  | @lockStream c h hc _ | @emplace c h hc =>
      refine ⟨(hh hl).stored, rfl, fun p c' _ hc' => ?_⟩
      obtain rfl := Option.some.inj hc'
      exact (hh hl).client _ c h hc
  | @read c m h hc _ => exact ⟨(hh hl).stored, rfl, fun p c' _ hc' => (hh hl).client _ c' h hc'⟩
  | push h => exact ⟨(hh hl).stored, rfl, fun p c' _ hc' => (hh hl).client _ c' h hc'⟩
  -- the stopping thread goes on
  | @streamLock c h hc _ | @close c h hc =>
      have hheard := hh (by simp [h])
      refine ⟨hheard.stored, hheard.between, fun p c' hp hc' => ?_⟩
      obtain rfl := Option.some.inj hc'
      exact hheard.client p c hp hc
  | unlockClient h | join h _ =>
      have hheard := hh (by simp [h])
      exact ⟨hheard.stored, hheard.between, hheard.client⟩
  | stopCall _ | storeStop _ | policyLock _ _ | policySet _ | policyWake _ _ | policyNotify _ _
  | clientLock _ _ => cases hl
  | checkClear _ hf | checkWait _ hf => simp [(hh hl).stored] at hf
  | _ => exact (hh hl).outside rfl rfl nofun

theorem run_heard (h : run (step R) start tr = some s) (ht : LooksInTime R tr) :
    s.stopper.hasLooked = true → Heard s := by
  refine run_inv (P := fun tr s => LooksInTime R tr → s.stopper.hasLooked = true → Heard s)
    (fun _ => by simp [start]) ?_ h ht
  intro tr s a s' hr ih ha ht
  exact step_heard (run_stored hr) (ih ht.of_append) (step_cases ha) (ht.last hr)

/-- **A stop request in time is not lost.** If `stop` never looks at the client while the network
thread is between the test of its loop and the beginning of the client's run, it never waits for
a run that was not asked to stop. -/
theorem not_stopLost (h : run (step R) start tr = some s) (ht : LooksInTime R tr) :
    ¬ StopLost s := by
  rintro ⟨hj, pc, c, hpc, -, hc, hf⟩
  have hheard := run_heard h ht (by simp [hj])
  rw [hheard.client pc c hpc hc] at hf
  cases hf

/-- `stop` up to the point where it has looked at the client. -/
def callStop : List Act :=
  [.stopCall, .storeStop, .policyLock, .policySet, .policyNotify, .clientLock, .clientLook]

/-- `stop` is called while the client resolves the host. -/
def stopWhileResolving : List Act :=
  [.testStop, .lockCreate, .create, .clientStart] ++ callStop ++ [.streamLock, .close, .unlockClient]

theorem not_stopLost_whileResolving :
    ∃ s, run (step .default) start stopWhileResolving = some s ∧ s.stopper = .joining ∧
      ¬ StopLost s := by
  have hr : run (step .default) start stopWhileResolving = some _ := rfl
  exact ⟨_, hr, rfl, not_stopLost hr (meets_of_check (by decide))⟩

/-- `stop` looks for a client after the loop was entered and before there is one. -/
def stopBeforeCreate : List Act :=
  [.testStop] ++ callStop ++ [.unlockClient, .lockCreate, .create, .clientStart]

theorem stopBeforeCreate_lost :
    ∃ s, run (step .default) start stopBeforeCreate = some s ∧ StopLost s :=
  ⟨_, rfl, rfl, _, _, rfl, nofun, rfl, rfl⟩

/-- The condition is exact: where `stop` looks too early, the request can be lost. -/
theorem exists_stopLost (h : run (step R) start tr = some s) (hl : s.stopper = .looking)
    (hb : s.pc.between = true) :
    ∃ v s', run (step R) start (tr ++ .clientLook :: v) = some s' ∧ StopLost s' := by
  have ho := run_owned h
  have hpresent := ho.present
  cases hpc : s.pc with
  | lockingCreate =>
      -- there is no client yet
      rw [hpc] at hpresent
      have hc : s.client = none := by simpa using hpresent
      refine ⟨[.unlockClient, .lockCreate, .create, .clientStart],
        ⟨.running .resolving, .joining, s.stopRequested, some ⟨false, .absent, none⟩, none, s.policy⟩,
        ?_, rfl, _, _, rfl, nofun, rfl, rfl⟩
      rw [run_append, h, Option.bind_some]
      simp [step, hl, hpc, hc, Client.fresh]
  | creating =>
      have hout := ho.stopper_outside (by simp [hpc])
      simp [hl] at hout
  | running pc =>
      obtain rfl : pc = .starting := by
        rw [hpc] at hb
        cases pc <;> first | rfl | cases hb
      -- the client is there, and its run will clear the flag
      rw [hpc] at hpresent
      obtain ⟨c, hc⟩ := Option.isSome_iff_exists.mp hpresent
      have hfree : c.streamMutex = none := by
        refine (ho.stream c hc).eq_none fun p hp => ?_
        rw [hpc, hl] at hp
        cases p <;> cases hp
      refine ⟨[.streamLock, .close, .unlockClient, .clientStart],
        ⟨.running .resolving, .joining, s.stopRequested, some ⟨false, c.close.stream, none⟩, none,
          s.policy⟩, ?_, rfl, _, _, rfl, nofun, rfl, rfl⟩
      rw [run_append, h, Option.bind_some]
      simp [step, hl, hpc, hc, hfree, Client.close]
  | _ =>
      rw [hpc] at hb
      cases hb

end BinanceAggregator.Network
