import BinanceAggregator.StopRequest

/-!
`stop` of the network stage is not stuck if its request is heard.

The stopping thread waits for the two mutexes, for that of a stream and for the exit of the network
thread. The network thread holds a mutex only between two steps of its own, and takes that of a
stream only where nobody who waits for it holds the client's. What it waits for itself, apart from
mutexes, is the network, the timer of the reconnect policy and room in the raw queue. A call on the
network is only sure to come back once the client has been asked to stop, so that a `stop` whose
request was lost waits for nothing that is going to happen.
-/

namespace BinanceAggregator.Network

open Runs Mutex

variable {R : ReconnectConfig} {s s' : St} {a : Act} {tr : List Act}

/-- Not a call from outside. -/
def Act.isOwed : Act → Bool
  | .stopCall => false
  | _ => true

/-- A call on the network comes back. -/
def Act.comesBack : Act → Bool
  | .succeed | .fail _ | .read _ => true
  | _ => false

/-- The client has been asked to stop. -/
def Told (s : St) : Prop := ∃ c, s.client = some c ∧ c.stopRequested = true

/-- The steps the two threads owe. A call on the network need not come back unless the client has
been asked to stop. -/
def Owes (s : St) (a : Act) : Prop := a.isOwed = true ∧ (a.comesBack = true → Told s)

/-- One of the two threads has a step. -/
def Moves (R : ReconnectConfig) (s : St) : Prop := ∃ a s', Owes s a ∧ Step R s a s'

/-- `stop` has been called and has not returned. -/
def InStop (s : St) : Prop := s.stopper ≠ .idle ∧ s.stopper ≠ .returned

lemma owes_of_not (hc : a.isOwed = true) (hb : a.comesBack = false) : Owes s a :=
  ⟨hc, fun h => by rw [hb] at h; cases h⟩

/-- A step that is not on the network. -/
lemma moves_of (h : Step R s a s') (hc : a.isOwed = true) (hb : a.comesBack = false) : Moves R s :=
  ⟨a, s', owes_of_not hc hb, h⟩

lemma Owned.exists_client (ho : Owned s) (h : s.pc.hasClient = true) : ∃ c, s.client = some c :=
  Option.isSome_iff_exists.mp (ho.present.trans h)

/-! ### The network thread at a mutex -/

lemma moves_of_testWait {b : Bool} (h : s.pc = .waiting b) : Moves R s := by
  cases hr : s.policy.stopRequested with
  | true => exact moves_of (.waitStopped h hr) rfl rfl
  | false =>
      cases b with
      | true => exact moves_of (.waitOver h hr) rfl rfl
      | false => exact moves_of (.waitSleep h hr) rfl rfl

/-- The network thread gives the mutex of the policy back. -/
lemma moves_of_holdsPolicy (h : s.pc.holdsPolicy = true) : Moves R s := by
  cases hpc : s.pc with
  | clearing => exact moves_of (.clear hpc) rfl rfl
  | waiting b => exact moves_of_testWait hpc
  | _ =>
      rw [hpc] at h
      cases h

/-- The network thread that holds the client's mutex goes on, as nobody holds that of the stream. -/
lemma moves_of_holdsClient (ho : Owned s) (h : s.pc.holdsClient = true) : Moves R s := by
  have hout := ho.stopper_outside h
  cases hpc : s.pc with
  | creating => exact moves_of (.create hpc) rfl rfl
  | resetting had =>
      obtain ⟨c, hc⟩ := ho.exists_client (by rw [hpc]; rfl)
      have hstream : s.stopper.holdsStream = false := by
        cases hst : s.stopper <;> simp_all
      have hfree := free_of_both (ho.stream c hc) (by rw [hpc]; rfl) hstream
      exact moves_of (.lockDestroy hpc hc hfree) rfl rfl
  | destroying had => exact moves_of (.destroy hpc) rfl rfl
  | _ =>
      rw [hpc] at h
      cases h

lemma moves_of_holdsStream (ho : Owned s) (h : s.pc.holdsStream = true) : Moves R s := by
  cases hpc : s.pc with
  | destroying had => exact moves_of (.destroy hpc) rfl rfl
  | running pc =>
      obtain ⟨c, hc⟩ := ho.exists_client (by rw [hpc]; rfl)
      cases pc with
      | emplacing => exact moves_of (.emplace hpc hc) rfl rfl
      | _ =>
          rw [hpc] at h
          cases h
  | _ =>
      rw [hpc] at h
      cases h

/-! ### The network thread while `stop` waits for its exit -/

/-- A call on the network comes back, as the client has been asked to stop. -/
lemma moves_of_call {pc : ClientPc} {stage : ConnectionStage} (ho : Owned s) (hh : Heard s)
    (hpc : s.pc = .running pc) (hp : pc.stage = some stage) : Moves R s := by
  obtain ⟨c, hc⟩ := ho.exists_client (by rw [hpc]; rfl)
  exact ⟨.fail stage, _, ⟨rfl, fun _ => ⟨c, hc, hh.client pc c hpc hc⟩⟩, .fail hpc hp⟩

/-- The client's run goes on, except that it may have to wait for room in the raw queue. -/
lemma moves_of_running {pc : ClientPc} (ho : Owned s) (hh : Heard s) (hj : s.stopper = .joining)
    (hpc : s.pc = .running pc) (hpush : ∀ m, pc ≠ .pushing m) : Moves R s := by
  obtain ⟨c, hc⟩ := ho.exists_client (by rw [hpc]; rfl)
  cases pc with
  | starting => exact moves_of (.clientStart hpc hc) rfl rfl
  | testing => exact moves_of (.clientStopped hpc hc (hh.client _ c hpc hc)) rfl rfl
  | lockingStream =>
      have hfree := free_of_both (ho.stream c hc) (by rw [hpc]; rfl) (by rw [hj]; rfl)
      exact moves_of (.lockStream hpc hc hfree) rfl rfl
  | emplacing => exact moves_of (.emplace hpc hc) rfl rfl
  | pushing m => exact absurd rfl (hpush m)
  | _ => exact moves_of_call ho hh hpc rfl

/-- So does the network thread until it has exited. -/
lemma moves_of_joining (ho : Owned s) (hh : Heard s) (hj : s.stopper = .joining)
    (hpush : ∀ m, s.pc ≠ .running (.pushing m)) : Moves R s := by
  have hclient (h : s.pc.holdsClient = false) : s.clientMutex = none :=
    free_of_both ho.client h (by rw [hj]; rfl)
  have hpolicy (h : s.pc.holdsPolicy = false) : s.policy.mutex = none :=
    free_of_both ho.policy h (by rw [hj]; rfl)
  cases hpc : s.pc with
  | testing =>
      cases hr : s.stopRequested with
      | true => exact moves_of (.testExit hpc hr) rfl rfl
      | false => exact moves_of (.testLoop hpc hr) rfl rfl
  | lockingCreate => exact moves_of (.lockCreate hpc (hclient (by rw [hpc]; rfl))) rfl rfl
  | creating => exact moves_of_holdsClient ho (by rw [hpc]; rfl)
  | running pc => exact moves_of_running ho hh hj hpc fun m hm => hpush m (hpc.trans (by rw [hm]))
  | lockingReset had => exact moves_of (.lockReset hpc (hclient (by rw [hpc]; rfl))) rfl rfl
  | resetting had => exact moves_of_holdsClient ho (by rw [hpc]; rfl)
  | destroying had => exact moves_of_holdsClient ho (by rw [hpc]; rfl)
  | checking had =>
      cases hr : s.stopRequested with
      | true => exact moves_of (.checkExit hpc hr) rfl rfl
      | false =>
          cases had with
          | true => exact moves_of (.checkClear hpc hr) rfl rfl
          | false => exact moves_of (.checkWait hpc hr) rfl rfl
  | lockingPolicy => exact moves_of (.lockClear hpc (hpolicy (by rw [hpc]; rfl))) rfl rfl
  | clearing => exact moves_of_holdsPolicy (by rw [hpc]; rfl)
  | delaying => exact moves_of (.delay hpc) rfl rfl
  | acquiring b => exact moves_of (.lockWait hpc (hpolicy (by rw [hpc]; rfl))) rfl rfl
  | waiting b => exact moves_of_testWait hpc
  -- the timer of the policy: a client that was reading may have cleared the flag again
  | asleep => exact ⟨.wake true, _, owes_of_not rfl rfl, .wake hpc⟩
  | exited => exact moves_of (.join hj hpc) rfl rfl

/-- A `stop` that is heard waits only while one of the two threads goes on, or while the network
thread waits for room in the raw queue. -/
theorem moves_of_inStop (ho : Owned s) (hh : s.stopper.hasLooked = true → Heard s) (h : InStop s)
    (hpush : ∀ m, s.pc ≠ .running (.pushing m)) : Moves R s := by
  cases hst : s.stopper with
  | idle => exact absurd hst h.1
  | storing => exact moves_of (.storeStop hst) rfl rfl
  | lockingPolicy =>
      cases hn : s.pc.holdsPolicy with
      | true => exact moves_of_holdsPolicy hn
      | false =>
          have hfree := free_of_both ho.policy hn (by rw [hst]; rfl)
          exact moves_of (.policyLock hst hfree) rfl rfl
  | settingPolicy => exact moves_of (.policySet hst) rfl rfl
  | notifying =>
      by_cases hpc : s.pc = .asleep
      · exact moves_of (.policyWake hst hpc) rfl rfl
      · exact moves_of (.policyNotify hst hpc) rfl rfl
  | lockingClient =>
      cases hn : s.pc.holdsClient with
      | true => exact moves_of_holdsClient ho hn
      | false =>
          have hfree := free_of_both ho.client hn (by rw [hst]; rfl)
          exact moves_of (.clientLock hst hfree) rfl rfl
  | looking =>
      cases hc : s.client with
      | some c => exact moves_of (.clientStop hst hc) rfl rfl
      | none => exact moves_of (.clientAbsent hst hc) rfl rfl
  | lockingStream =>
      obtain ⟨c, hc⟩ := Option.isSome_iff_exists.mp (ho.looked (.inl hst))
      cases hn : s.pc.holdsStream with
      | true => exact moves_of_holdsStream ho hn
      | false =>
          have hfree := free_of_both (ho.stream c hc) hn (by rw [hst]; rfl)
          exact moves_of (.streamLock hst hc hfree) rfl rfl
  | closing =>
      obtain ⟨c, hc⟩ := Option.isSome_iff_exists.mp (ho.looked (.inr hst))
      exact moves_of (.close hst hc) rfl rfl
  | unlocking => exact moves_of (.unlockClient hst) rfl rfl
  | joining => exact moves_of_joining ho (hh (by rw [hst]; rfl)) hst hpush
  | returned => exact absurd hst h.2

/-! ### Where the request was lost -/

/-- `stop` waits for the exit of a thread that is in a call on the network, and the client has not
been asked to stop. -/
structure Abandoned (s : St) : Prop where
  joins : s.stopper = .joining
  calls : ∃ pc stage, s.pc = .running pc ∧ pc.stage = some stage
  untold : ¬ Told s

/-- Nothing happens but the return of the call. -/
lemma Abandoned.comesBack (hs : Abandoned s) (h : Step R s a s') : a.comesBack = true := by
  obtain ⟨hj, ⟨pc, stage, hpc, hp⟩, -⟩ := hs
  cases h with
  | succeed _ _ _ _ | fail _ _ | read _ _ _ => rfl
  | stopCall h => rcases h with h | h <;> cases hj.symm.trans h
  | storeStop h | policyLock h _ | policySet h | policyWake h _ | policyNotify h _
  | clientLock h _ | clientStop h _ | clientAbsent h _ | streamLock h _ _ | close h _
  | unlockClient h => cases hj.symm.trans h
  | join _ h | testExit h _ | testLoop h _ | lockCreate h _ | create h | lockReset h _
  | lockDestroy h _ _ | destroy h | checkExit h _ | checkClear h _ | checkWait h _
  | lockClear h _ | clear h | delay h | lockWait h _ | waitStopped h _ | waitOver h _
  | waitSleep h _ | wake h => cases hpc.symm.trans h
  | clientStart h _ | clientStopped h _ _ | clientGoesOn h _ _ | lockStream h _ _ | emplace h _
  | push h =>
      cases hpc.symm.trans h
      cases hp

lemma Abandoned.not_owes (hs : Abandoned s) (h : Step R s a s') : ¬ Owes s a :=
  fun ho => hs.untold (ho.2 (hs.comesBack h))

end BinanceAggregator.Network
