import BinanceAggregator.NetworkSteps

/-!
The delays over a whole run of the network stage.

Without a stop request the network thread goes round its loop: an attempt, the test of the flag,
the reset of the policy if the attempt ended in the read loop, and the wait. The counter of the
policy is followed through the loop, and the delays of a run are read off how its attempts ended.
-/

namespace BinanceAggregator.Network

open Runs Backoff

variable {R : ReconnectConfig} {s s' : St} {a : Act} {tr : List Act}

/-! ### Without a stop request -/

/-- No flag is set. -/
structure Unstopped (s : St) : Prop where
  stopper : s.stopper = .idle
  stage : s.stopRequested = false
  policy : s.policy.stopRequested = false
  client : ∀ pc c, s.pc = .running pc → s.client = some c → c.stopRequested = false

/-- No client is asked outside its run. -/
lemma Unstopped.outside (hu : Unstopped s) (hst : s'.stopper = s.stopper)
    (hs : s'.stopRequested = s.stopRequested) (hp : s'.policy.stopRequested = false)
    (hr : ∀ pc, s'.pc ≠ .running pc) : Unstopped s' :=
  ⟨hst.trans hu.stopper, hs.trans hu.stage, hp, fun pc _ hpc => absurd hpc (hr pc)⟩

lemma step_unstopped (hu : Unstopped s) (h : Step R s a s') (ha : a ≠ .stopCall) :
    Unstopped s' := by
  obtain ⟨hst, hs, hp, hc⟩ := id hu
  cases h with
  | stopCall _ => exact absurd rfl ha
  | storeStop h | policyLock h _ | policySet h | policyWake h _ | policyNotify h _ | clientLock h _
  | clientStop h _ | clientAbsent h _ | streamLock h _ _ | close h _ | unlockClient h | join h _ =>
      cases hst.symm.trans h
  | create _ =>
      refine ⟨hst, hs, hp, fun pc c _ hc' => ?_⟩
      obtain rfl := Option.some.inj hc'
      rfl
  | clientStart _ _ =>
      refine ⟨hst, hs, hp, fun pc c _ hc' => ?_⟩
      obtain rfl := Option.some.inj hc'
      rfl
  | @succeed pc next c h hc₀ _ _ =>
      refine ⟨hst, hs, hp, fun p c' _ hc' => ?_⟩
      obtain rfl := Option.some.inj hc'
      have hflag := hc pc c h hc₀
      cases pc <;> exact hflag
  | @lockStream c h hc₀ _ | @emplace c h hc₀ =>
      refine ⟨hst, hs, hp, fun p c' _ hc' => ?_⟩
      obtain rfl := Option.some.inj hc'
      exact hc _ c h hc₀
  | clientGoesOn h _ _ | read h _ _ | push h =>
      exact ⟨hst, hs, hp, fun p c' _ hc' => hc _ c' h hc'⟩
  | clear _ => exact hu.outside rfl rfl rfl nofun
  | _ => exact hu.outside rfl rfl hp nofun

lemma run_unstopped (h : run (step R) start tr = some s) (ht : .stopCall ∉ tr) : Unstopped s := by
  refine run_inv (P := fun tr s => .stopCall ∉ tr → Unstopped s)
    (fun _ => ⟨rfl, rfl, rfl, fun _ _ hpc => by cases hpc⟩) ?_ h ht
  intro tr s a s' _ ih ha ht
  rw [List.mem_append, List.mem_singleton, not_or] at ht
  exact step_unstopped (ih ht.1) (step_cases ha) (Ne.symm ht.2)

/-! ### The counter of the policy -/

lemma outcomes_snoc (tr : List Act) (a : Act) :
    outcomes (tr ++ [a]) = (record (attempts tr) a).2 := by
  rw [outcomes, attempts, List.foldl_append]
  rfl

lemma delays_snoc (tr : List Act) (a : Act) : delays (tr ++ [a]) = delays tr ++ delays [a] :=
  List.filterMap_append

/-- Where the counter of the policy stands, when the attempts so far ended as `os` says and `n`
delays have been waited for. -/
def CountAt (os : List Outcome) (n : ℕ) (attempt : UInt32) : NetPc → Prop
  | .testing | .lockingCreate | .creating | .running _ => os.length = n ∧ attempt = before os n
  | .lockingReset had | .resetting had | .destroying had | .checking had =>
    os.length = n + 1 ∧ attempt = before os n ∧ (had = true ↔ ∃ k, os[n]? = some (.read k))
  | .lockingPolicy | .clearing => os.length = n + 1 ∧ ∃ k, os[n]? = some (.read k)
  | .delaying => os.length = n + 1 ∧ attempt = attemptAt os n
  | .acquiring _ | .waiting _ | .asleep =>
    ∃ m, n = m + 1 ∧ os.length = n ∧ attempt = attemptAt os m
  | .exited => False

/-- The delays so far are those of the counters, and the counter is where it should be. -/
structure Counted (R : ReconnectConfig) (tr : List Act) (s : St) : Prop where
  counter : CountAt (outcomes tr) (delays tr).length s.policy.attempt s.pc
  delays : ∀ n d, (delays tr)[n]? = some d →
    d = baseDelayForAttempt R (attemptAt (outcomes tr) n)

lemma CountAt.length_le {os : List Outcome} {n : ℕ} {attempt : UInt32} {pc : NetPc}
    (h : CountAt os n attempt pc) : n ≤ os.length := by
  cases pc <;> simp only [CountAt] at h <;> omega

/-- A step that neither ends an attempt nor begins a wait. -/
lemma Counted.step (hc : Counted R tr s) (ho : (record (attempts tr) a).2 = outcomes tr)
    (hd : Network.delays [a] = [])
    (h : CountAt (outcomes tr) (Network.delays tr).length s'.policy.attempt s'.pc) :
    Counted R (tr ++ [a]) s' := by
  have hout : outcomes (tr ++ [a]) = outcomes tr := (outcomes_snoc tr a).trans ho
  have hdel : Network.delays (tr ++ [a]) = Network.delays tr := by
    rw [delays_snoc, hd, List.append_nil]
  refine ⟨?_, ?_⟩
  · rw [hout, hdel]
    exact h
  · rw [hout, hdel]
    exact hc.delays

/-- An attempt ends: its outcome is the one the flag for the reset is made of. -/
lemma counted_fail {pc : ClientPc} {stage : ConnectionStage} (hc : Counted R tr s)
    (h : s.pc = .running pc) :
    Counted R (tr ++ [.fail stage]) { s with pc := .lockingReset (stage = .read) } := by
  obtain ⟨hcount, hdelays⟩ := hc
  rw [h] at hcount
  obtain ⟨hlen, hattempt⟩ := hcount
  obtain ⟨o, hout, hread⟩ : ∃ o, outcomes (tr ++ [.fail stage]) = outcomes tr ++ [o] ∧
      (decide (stage = .read) = true ↔ ∃ k, o = .read k) := by
    rw [outcomes_snoc]
    cases stage with
    | read => exact ⟨_, rfl, by simp⟩
    | _ => exact ⟨_, rfl, by simp⟩
  have hdel : delays (tr ++ [.fail stage]) = delays tr := by
    rw [delays_snoc]
    exact List.append_nil _
  refine ⟨?_, fun n d hd => ?_⟩
  · rw [hdel, hout]
    refine ⟨by simp [hlen], ?_, ?_⟩
    · rw [before_append _ hlen.ge]
      exact hattempt
    · rw [hread, ← hlen]
      simp
  · rw [hdel] at hd
    have hlt : n < (delays tr).length := (List.getElem?_eq_some_iff.mp hd).1
    rw [hdelays n d hd, hout, attemptAt_append _ (by omega)]

/-- A wait begins: its delay is that of the counter. -/
lemma counted_delay (hc : Counted R tr s) (h : s.pc = .delaying) :
    Counted R (tr ++ [.delay (baseDelayForAttempt R s.policy.attempt)])
      { s with pc := .acquiring false } := by
  obtain ⟨hcount, hdelays⟩ := hc
  rw [h] at hcount
  obtain ⟨hlen, hattempt⟩ := hcount
  have hout : outcomes (tr ++ [.delay (baseDelayForAttempt R s.policy.attempt)]) = outcomes tr :=
    outcomes_snoc _ _
  have hdel : delays (tr ++ [.delay (baseDelayForAttempt R s.policy.attempt)]) =
      delays tr ++ [baseDelayForAttempt R s.policy.attempt] := delays_snoc _ _
  refine ⟨?_, fun n d hd => ?_⟩
  · rw [hout, hdel, List.length_append]
    exact ⟨(delays tr).length, rfl, hlen, hattempt⟩
  · rw [hdel] at hd
    rw [hout]
    rcases Nat.lt_or_ge n (delays tr).length with hn | hn
    · rw [List.getElem?_append_left hn] at hd
      exact hdelays n d hd
    · rw [List.getElem?_append_right hn] at hd
      obtain ⟨hz, rfl⟩ := List.getElem?_eq_some_iff.mp hd
      have hn' : n = (delays tr).length := by
        simp only [List.length_singleton] at hz
        omega
      subst hn'
      rw [← hattempt]
      simp

lemma step_counted (hc : Counted R tr s) (hu : Unstopped s) (h : Step R s a s')
    (ha : a ≠ .stopCall) : Counted R (tr ++ [a]) s' := by
  have hcount := hc.counter
  have hst := hu.stopper
  cases h with
  | stopCall _ => exact absurd rfl ha
  | storeStop h | policyLock h _ | policySet h | policyWake h _ | policyNotify h _ | clientLock h _
  | clientStop h _ | clientAbsent h _ | streamLock h _ _ | close h _ | unlockClient h | join h _ =>
      cases hst.symm.trans h
  | clientStopped h hc₀ hs => simp [hu.client _ _ h hc₀] at hs
  | checkExit _ hs | testExit _ hs => simp [hu.stage] at hs
  | waitStopped _ hs => simp [hu.policy] at hs
  | fail h _ => exact counted_fail hc h
  | delay h => exact counted_delay hc h
  | checkClear h _ =>
      rw [h] at hcount
      exact hc.step rfl rfl ⟨hcount.1, hcount.2.2.mp rfl⟩
  | checkWait h _ =>
      -- the attempt did not end in the read loop, so the counter stays as it was
      rw [h] at hcount
      obtain ⟨hlen, hattempt, hread⟩ := hcount
      obtain ⟨o, ho⟩ : ∃ o, (outcomes tr)[(delays tr).length]? = some o :=
        ⟨_, List.getElem?_eq_getElem (by omega)⟩
      refine hc.step rfl rfl ⟨hlen, ?_⟩
      cases o with
      | read k => exact absurd (hread.mpr ⟨k, ho⟩) (by simp)
      | failed stage => rw [attemptAt_of_failed ho, hattempt]
  | clear h =>
      rw [h] at hcount
      obtain ⟨hlen, k, hk⟩ := hcount
      exact hc.step rfl rfl ⟨hlen, (attemptAt_of_read hk).symm⟩
  | waitOver h _ =>
      rw [h] at hcount
      obtain ⟨m, hm, hlen, hattempt⟩ := hcount
      refine hc.step rfl rfl ⟨hlen, ?_⟩
      rw [hm, before, hattempt]
  | testLoop h _ | lockCreate h _ | create h | clientStart h _ | succeed h _ _ _
  | clientGoesOn h _ _ | lockStream h _ _ | emplace h _ | read h _ _ | push h | lockReset h _
  | lockDestroy h _ _ | destroy h | lockClear h _ | lockWait h _ | waitSleep h _ | wake h =>
      rw [h] at hcount
      exact hc.step rfl rfl hcount

lemma counted_start : Counted R [] start :=
  ⟨show CountAt [] 0 0 .testing from ⟨rfl, rfl⟩, by simp [delays]⟩

lemma run_counted (h : run (step R) start tr = some s) (ht : .stopCall ∉ tr) : Counted R tr s := by
  refine run_inv (P := fun tr s => .stopCall ∉ tr → Counted R tr s)
    (fun _ => counted_start) ?_ h ht
  intro tr s a s' hr ih ha ht
  rw [List.mem_append, List.mem_singleton, not_or] at ht
  exact step_counted (ih ht.1) (run_unstopped hr ht.1) (step_cases ha) (Ne.symm ht.2)

/-- **When every delay is the intended one.** In a run without a stop request the delay after the
`n`-th attempt is that of the number of attempts since one that read a message, for every `n`, if
and only if all delays are the same anyway or no attempt fails its first read while this number
is not zero. -/
theorem delays_intended_iff (h : run (step R) start tr = some s) (ht : .stopCall ∉ tr) :
    (∀ n d, (delays tr)[n]? = some d →
      d = baseDelayForAttempt R (UInt32.ofNat (since (outcomes tr) n))) ↔
    R.initialBackoffMs = R.maxBackoffMs ∨ ∀ n < (delays tr).length,
      (outcomes tr)[n]? = some (.read 0) → 2 ^ 32 ∣ since (outcomes tr) n := by
  obtain ⟨hcount, hdelays⟩ := run_counted h ht
  rw [← delays_iff R hcount.length_le]
  constructor
  · intro hall n hn
    have hd : (delays tr)[n]? = some ((delays tr)[n]) := List.getElem?_eq_getElem hn
    rw [← hdelays n _ hd, ← hall n _ hd]
  · intro hall n d hd
    have hn : n < (delays tr).length := (List.getElem?_eq_some_iff.mp hd).1
    rw [hdelays n d hd, hall n hn]

/-! ### Two runs -/

/-- An attempt up to the connection. -/
def toConnect : List Act :=
  [.testStop, .lockCreate, .create, .clientStart, .succeed, .clientTest, .lockStream, .emplace,
    .succeed]

/-- From the end of the client's run to the end of a wait of `delayMs`. -/
def thenWait (had : Bool) (delayMs : UInt64) : List Act :=
  [.lockReset, .lockDestroy, .destroy, .checkStop] ++ (if had then [.lockClear, .clear] else [])
    ++ [.delay delayMs, .lockWait, .testWait, .wake true, .lockWait, .testWait]

/-- The connection is refused. -/
def refused (delayMs : UInt64) : List Act :=
  toConnect ++ [.fail .tcpConnect] ++ thenWait false delayMs

/-- The connection is made, the messages are read, and the next read fails. -/
def dropped (messages : List Str) (delayMs : UInt64) : List Act :=
  toConnect ++ [.succeed, .succeed, .succeed] ++ messages.flatMap (fun m => [.read m, .push m true])
    ++ [.fail .read] ++ thenWait true delayMs

/-- A refused connection, then one that is dropped after a message. -/
def dropAfterMessage : List Act := refused 500 ++ dropped [ascii "x"] 500

theorem delays_intended_dropAfterMessage : outcomes dropAfterMessage = [.failed .tcpConnect, .read 1] ∧
    ∀ n d, (delays dropAfterMessage)[n]? = some d →
      d = baseDelayForAttempt .default (UInt32.ofNat (since (outcomes dropAfterMessage) n)) := by
  have hr : run (step .default) start dropAfterMessage = some _ := rfl
  exact ⟨by decide, (delays_intended_iff hr (by decide)).mpr (.inr (by decide))⟩

/-- A refused connection, then one whose first read fails. -/
def dropAtOnce : List Act := refused 500 ++ dropped [] 500

/-- The second delay is the first one again, although no message was read. -/
theorem dropAtOnce_delays : (∃ s, run (step .default) start dropAtOnce = some s) ∧
    .stopCall ∉ dropAtOnce ∧ outcomes dropAtOnce = [.failed .tcpConnect, .read 0] ∧
    delays dropAtOnce = [500, 500] ∧ since (outcomes dropAtOnce) 1 = 1 ∧
    baseDelayForAttempt .default 1 = 1000 ∧
    ¬ ∀ n d, (delays dropAtOnce)[n]? = some d →
      d = baseDelayForAttempt .default (UInt32.ofNat (since (outcomes dropAtOnce) n)) := by
  refine ⟨⟨_, rfl⟩, by decide, by decide, by decide, by decide, by decide, fun hall => ?_⟩
  exact absurd (hall 1 500 (by decide)) (by decide)

end BinanceAggregator.Network
