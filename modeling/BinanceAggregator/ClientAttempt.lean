import BinanceAggregator.ErrorHandler

/-!
The client within the network stage.

From the construction of a client to the end of its run, what the two threads of the stage do to it
is a run of the client by itself. The stage resets its policy after an attempt exactly if the
handler was told of a failed read.
-/

namespace BinanceAggregator.ClientRun

open Runs
open Network (Client ClientPc NetPc)

variable {R : ReconnectConfig} {n n' : Network.St} {b : Network.Act} {c : Client} {ec : ErrorCode}
  {tr v : List Network.Act}

/-- Where the network thread is, for its client. -/
def ofNetPc : NetPc → RunPc
  | .running pc => .inside pc
  | _ => .returned

/-- Where the stopping thread is, for the client. -/
def ofStopPc : Network.StopPc → StopPc
  | .lockingStream => .locking
  | .closing => .closing
  | _ => .idle

/-- The client of the stage, by itself. -/
def view (n : Network.St) (c : Client) : St := ⟨ofNetPc n.pc, ofStopPc n.stopper, c⟩

/-- What a step of the stage is to the client, if a call that fails does so with the code `ec`. -/
def clientActs (ec : ErrorCode) : Network.Act → List Act
  | .clientStart => [.clientStart]
  | .succeed => [.succeed]
  | .fail stage => [.fail stage ec, .report (report stage ec)]
  | .clientTest => [.clientTest]
  | .lockStream => [.lockStream]
  | .emplace => [.emplace]
  | .read message => [.read message]
  | .push message ok => [.push message ok]
  | .clientLook => [.stopCall, .storeStop]
  | .streamLock => [.streamLock]
  | .close => [.close]
  | _ => []

/-- The run of the client is under way or has just returned, and the stage remembers of it whether
the handler was told of a failed read. -/
inductive Attempt (rs : List Report) : NetPc → Prop
  | running (pc : ClientPc) : Attempt rs (.running pc)
  | ended (had : Bool) (h : had = rs.any fun r => r.stage = .read) : Attempt rs (.lockingReset had)

/-- The client has been run through `v` and is where the stage says. -/
structure Mirrors (ec : ErrorCode) (v : List Network.Act) (n : Network.St) (c : Client) : Prop where
  client : n.client = some c
  attempt : Attempt (reports (v.flatMap (clientActs ec))) n.pc
  mirrored : run (step true) start (v.flatMap (clientActs ec)) = some (view n c)

/-- A step that the client does not see. -/
lemma Mirrors.unseen (hm : Mirrors ec v n c) (hb : clientActs ec b = []) (hpc : n'.pc = n.pc)
    (hc : n'.client = n.client) (hs : ofStopPc n'.stopper = ofStopPc n.stopper) :
    Mirrors ec (v ++ [b]) n' c := by
  have hv : (v ++ [b]).flatMap (clientActs ec) = v.flatMap (clientActs ec) := by
    rw [List.flatMap_append, List.flatMap_singleton, hb, List.append_nil]
  refine ⟨hc.trans hm.client, ?_, ?_⟩
  · rw [hv, hpc]
    exact hm.attempt
  · rw [hv, hm.mirrored, view, view, hpc, hs]

/-- A step that the client makes too, while its run is under way. -/
lemma Mirrors.seen (hm : Mirrors ec v n c) {c' : Client} (hc : n'.client = some c')
    (hrep : reports (clientActs ec b) = []) (hpc : n'.pc = n.pc ∨ ∃ pc, n'.pc = .running pc)
    (hrun : run (step true) (view n c) (clientActs ec b) = some (view n' c')) :
    Mirrors ec (v ++ [b]) n' c' := by
  refine ⟨hc, ?_, ?_⟩
  · rcases hpc with hpc | ⟨pc, hpc⟩
    · have hreps : reports ((v ++ [b]).flatMap (clientActs ec)) =
          reports (v.flatMap (clientActs ec)) := by
        rw [List.flatMap_append, List.flatMap_singleton, reports, List.filterMap_append]
        exact (congrArg _ hrep).trans (List.append_nil _)
      rw [hreps, hpc]
      exact hm.attempt
    · rw [hpc]
      exact .running pc
  · rw [List.flatMap_append, run_append, hm.mirrored, List.flatMap_singleton]
    exact hrun

lemma reports_of_running (hm : Mirrors ec v n c) {pc : ClientPc} (h : n.pc = .running pc) :
    reports (v.flatMap (clientActs ec)) = [] := by
  have htold := run_told hm.mirrored
  rw [view, h] at htold
  exact htold.2

/-- The run of the client ends. -/
lemma Mirrors.ends (hm : Mirrors ec v n c) {had : Bool} (hc : n'.client = some c)
    (hpc : n'.pc = .lockingReset had)
    (hhad : had = (reports (v.flatMap (clientActs ec)) ++ reports (clientActs ec b)).any
      fun r => r.stage = .read)
    (hrun : run (step true) (view n c) (clientActs ec b) = some (view n' c)) :
    Mirrors ec (v ++ [b]) n' c := by
  refine ⟨hc, ?_, ?_⟩
  · rw [hpc, List.flatMap_append, List.flatMap_singleton, reports, List.filterMap_append]
    exact .ended had hhad
  · rw [List.flatMap_append, run_append, hm.mirrored, List.flatMap_singleton]
    exact hrun

lemma step_mirrors (hec : ec ≠ .success) (hm : Mirrors ec v n c) (h : Network.Step R n b n')
    (hb : b ≠ .lockReset) : ∃ c', Mirrors ec (v ++ [b]) n' c' := by
  have hattempt := hm.attempt
  have hclient := hm.client
  cases h with
  | clientStart h hc | clientGoesOn h hc hs | lockStream h hc hs | emplace h hc | read h hc hs =>
      cases hclient.symm.trans hc
      refine ⟨_, hm.seen (by first | rfl | exact hc) rfl (.inr ⟨_, rfl⟩) ?_⟩
      simp_all [view, clientActs, step, ofNetPc]
  | push h =>
      refine ⟨c, hm.seen hclient rfl (.inr ⟨_, rfl⟩) ?_⟩
      simp [view, h, clientActs, step, ofNetPc]
  | succeed h hc hn ha =>
      cases hclient.symm.trans hc
      refine ⟨_, hm.seen rfl rfl (.inr ⟨_, rfl⟩) ?_⟩
      simp [view, h, hn, ha, clientActs, step, ofNetPc]
  | @fail pc stage h hp =>
      have hfails : failsWith pc ec = true := by
        cases pc <;> simp [failsWith, hec]
      refine ⟨c, hm.ends hclient rfl ?_ ?_⟩
      · rw [reports_of_running hm h]
        simp [clientActs, reports, report]
      · simp [view, h, hp, hfails, clientActs, step, ofNetPc]
  | clientStopped h hc hs =>
      cases hclient.symm.trans hc
      refine ⟨c, hm.ends hclient rfl ?_ ?_⟩
      · rw [reports_of_running hm h]
        rfl
      · simp [view, h, hs, clientActs, step, ofNetPc]
  -- `stop` finds the client, and closes its stream
  | clientStop h hc | streamLock h hc hs | close h hc =>
      cases hclient.symm.trans hc
      refine ⟨_, hm.seen rfl rfl (.inl rfl) ?_⟩
      simp_all [view, clientActs, step, ofStopPc]
  | clientAbsent _ hc => cases hclient.symm.trans hc
  | stopCall h =>
      refine ⟨c, hm.unseen rfl rfl rfl ?_⟩
      rcases h with h | h <;> simp [h, ofStopPc]
  | storeStop h | policyLock h _ | policySet h | policyNotify h _ | clientLock h _ | unlockClient h =>
      exact ⟨c, hm.unseen rfl rfl rfl (by simp [h, ofStopPc])⟩
  | lockReset _ _ => exact absurd rfl hb
  -- the other steps of the network thread are made outside the attempt
  | testExit h _ | testLoop h _ | lockCreate h _ | create h | lockDestroy h _ _ | destroy h
  | checkExit h _ | checkClear h _ | checkWait h _ | lockClear h _ | clear h | delay h | lockWait h _
  | waitStopped h _ | waitOver h _ | waitSleep h _ | wake h | policyWake _ h | join _ h =>
      rw [h] at hattempt
      cases hattempt

/-- **An attempt of the stage is a run of the client.** From the construction of a client to the end
of its run, the stage does to it what can be done to a client by itself. -/
theorem attempt_mirrors (hec : ec ≠ .success)
    (hr : run (Network.step R) Network.start (tr ++ [.create]) = some n)
    (hv : run (Network.step R) n v = some n') (hno : .lockReset ∉ v) :
    ∃ c, Mirrors ec v n' c := by
  have hstart : Mirrors ec [] n .fresh := by
    obtain ⟨m, hm, hcreate⟩ := (run_snoc _).mp hr
    cases Network.step_cases hcreate with
    | create h =>
        -- the stopping thread is not inside, so it has nothing under way with this client
        have hout := (Network.run_owned hm).stopper_outside (by simp [h])
        refine ⟨rfl, .running _, ?_⟩
        cases hs : m.stopper <;> simp_all [view, ofNetPc, ofStopPc, start]
  refine run_inv (P := fun v n' => .lockReset ∉ v → ∃ c, Mirrors ec v n' c)
    (fun _ => ⟨_, hstart⟩) ?_ hv hno
  intro v n b n' _ ih hb hno
  rw [List.mem_append, List.mem_singleton, not_or] at hno
  obtain ⟨c, hm⟩ := ih hno.1
  exact step_mirrors hec hm (Network.step_cases hb) fun h => hno.2 h.symm

/-- **The reset of the policy**: the stage remembers a successful read exactly if the handler was
told of a failed one, whether or not a message had come before. -/
theorem had_iff_told (hec : ec ≠ .success)
    (hr : run (Network.step R) Network.start (tr ++ [.create]) = some n)
    (hv : run (Network.step R) n v = some n') (hno : .lockReset ∉ v) {had : Bool}
    (hpc : n'.pc = .lockingReset had) :
    had = true ↔ ∃ r ∈ reports (v.flatMap (clientActs ec)), r.stage = .read := by
  obtain ⟨c, hm⟩ := attempt_mirrors hec hr hv hno
  have hattempt := hm.attempt
  rw [hpc] at hattempt
  cases hattempt with
  | ended _ h =>
      rw [h, List.any_eq_true]
      simp only [decide_eq_true_eq]

end BinanceAggregator.ClientRun
