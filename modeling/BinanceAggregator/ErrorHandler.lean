import BinanceAggregator.ClientStop

/-!
When the error handler is called.

The handler is told of the call that failed, once, whoever made it fail: `run` does not look at the
flag again, and a call that fails because `stop` has closed the socket is reported like any other,
be it a read or the call to connect.
-/

namespace BinanceAggregator.ClientRun

open Runs
open Network (Client ClientPc after_stopRequested)

variable {s s' : St} {a : Act} {tr v : List Act}

/-! ### What the history of a run says -/

/-- The calls on the network that failed, in order. -/
def failures (tr : List Act) : List (ConnectionStage × ErrorCode) := tr.filterMap fun a => match a with
  | .fail stage ec => some (stage, ec)
  | _ => none

/-- The calls of the handler, in order. -/
def reports (tr : List Act) : List Report := tr.filterMap fun a => match a with
  | .report r => some r
  | _ => none

lemma failures_snoc (tr : List Act) (a : Act) : failures (tr ++ [a]) = failures tr ++ failures [a] :=
  List.filterMap_append

lemma reports_snoc (tr : List Act) (a : Act) : reports (tr ++ [a]) = reports tr ++ reports [a] :=
  List.filterMap_append

lemma mem_failures_iff {stage : ConnectionStage} {ec : ErrorCode} :
    (stage, ec) ∈ failures tr ↔ .fail stage ec ∈ tr := by
  refine ⟨fun h => ?_, fun h => List.mem_filterMap.mpr ⟨_, h, rfl⟩⟩
  obtain ⟨a, ha, heq⟩ := List.mem_filterMap.mp h
  cases a <;> cases heq
  exact ha

/-! ### The failure is reported once -/

/-- What has failed and what has been reported, by where the run is. -/
def ToldAt (tr : List Act) : RunPc → Prop
  | .inside _ => failures tr = [] ∧ reports tr = []
  | .reporting stage ec => failures tr = [(stage, ec)] ∧ reports tr = []
  | .returned =>
    (∃ stage ec, failures tr = [(stage, ec)] ∧ reports tr = [report stage ec]) ∨
      failures tr = [] ∧ reports tr = [] ∧ .stopCall ∈ tr

/-- A step that neither fails nor reports changes nothing. -/
lemma ToldAt.snoc {pc : RunPc} (h : ToldAt tr pc) (hf : failures [a] = []) (hr : reports [a] = []) :
    ToldAt (tr ++ [a]) pc := by
  have hfs : failures (tr ++ [a]) = failures tr := by rw [failures_snoc, hf, List.append_nil]
  have hrs : reports (tr ++ [a]) = reports tr := by rw [reports_snoc, hr, List.append_nil]
  rcases pc with pc | _ | _
  · exact ⟨hfs.trans h.1, hrs.trans h.2⟩
  · exact ⟨hfs.trans h.1, hrs.trans h.2⟩
  · rcases h with ⟨stage, ec, h⟩ | h
    · exact .inl ⟨stage, ec, hfs.trans h.1, hrs.trans h.2⟩
    · exact .inr ⟨hfs.trans h.1, hrs.trans h.2.1, List.mem_append_left _ h.2.2⟩

lemma ToldAt.goesOn {pc next : ClientPc} (h : ToldAt tr (.inside pc)) (hf : failures [a] = [])
    (hr : reports [a] = []) : ToldAt (tr ++ [a]) (.inside next) := by
  have hnext : ToldAt tr (.inside next) := h
  exact hnext.snoc hf hr

/-- Without a call of `stop` the flag is not set. -/
lemma run_unasked (hr : run (step true) start tr = some s) (ht : .stopCall ∉ tr) :
    s.stopper = .idle ∧ s.client.stopRequested = false := by
  refine run_inv (P := fun tr s => .stopCall ∉ tr → s.stopper = .idle ∧
    s.client.stopRequested = false) (fun _ => ⟨rfl, rfl⟩) ?_ hr ht
  intro tr s a s' _ ih ha hmem
  rw [List.mem_append, List.mem_singleton, not_or] at hmem
  obtain ⟨hidle, hflag⟩ := ih hmem.1
  cases step_cases ha with
  | stopCall _ => exact absurd rfl hmem.2
  | storeStop h | streamLock h _ | close h => cases hidle.symm.trans h
  | clientStart _ => exact ⟨hidle, rfl⟩
  | @succeed pc _ _ _ _ => exact ⟨hidle, (after_stopRequested s.client pc).trans hflag⟩
  | _ => exact ⟨hidle, hflag⟩

lemma step_told (hu : .stopCall ∉ tr → s.client.stopRequested = false) (ht : ToldAt tr s.pc)
    (h : Step true s a s') : ToldAt (tr ++ [a]) s'.pc := by
  cases h with
  | @fail pc stage ec h _ _ =>
      rw [h] at ht
      obtain ⟨hf, hr⟩ := ht
      exact ⟨by rw [failures_snoc, hf]; rfl, by rw [reports_snoc, hr]; rfl⟩
  | @report stage ec h =>
      rw [h] at ht
      obtain ⟨hf, hr⟩ := ht
      exact .inl ⟨stage, ec, by rw [failures_snoc, hf]; rfl, by rw [reports_snoc, hr]; rfl⟩
  | clientStopped h hs =>
      -- the flag was set by a call of `stop`
      have hmem : .stopCall ∈ tr := by
        by_contra hmem
        cases hs.symm.trans (hu hmem)
      rw [h] at ht
      have hnone : ToldAt (tr ++ [.clientTest]) (.inside .testing) := ht.snoc rfl rfl
      exact .inr ⟨hnone.1, hnone.2, List.mem_append_left _ hmem⟩
  | clientStart h | succeed h _ _ | clientGoesOn h _ | lockStream h _ | emplace h | read h _
  | push h =>
      rw [h] at ht
      exact ht.goesOn rfl rfl
  | stopCall _ | storeStop _ | streamLock _ _ | close _ => exact ht.snoc rfl rfl

/-- **One report**: the handler has been told of the call that failed, and of nothing else. -/
theorem run_told (hr : run (step true) start tr = some s) : ToldAt tr s.pc := by
  have hstart : ToldAt [] start.pc := ⟨rfl, rfl⟩
  refine run_inv (P := fun tr s => ToldAt tr s.pc) hstart ?_ hr
  intro tr s a s' hr ht ha
  exact step_told (fun hmem => (run_unasked hr hmem).2) ht (step_cases ha)

/-! ### A connection that `stop` closes -/

/-- From the connection on. -/
def connected : ClientPc → Bool
  | .tlsHandshaking | .webSocketHandshaking | .reading | .pushing _ => true
  | _ => false

@[simp] def RunPc.isInside : RunPc → Bool
  | .inside _ => true
  | _ => false

/-- A stream is opened by connecting it. -/
lemma step_opened (ho : s.client.stream = .opened → ∀ pc, s.pc = .inside pc → connected pc = true)
    (h : Step true s a s') :
    s'.client.stream = .opened → ∀ pc, s'.pc = .inside pc → connected pc = true := by
  intro hs pc hpc
  cases h with
  | @succeed pc₀ next h hn _ =>
      cases hpc
      cases pc₀ with
      | resolving | namingHost => cases ho hs _ h
      | connecting | tlsHandshaking | webSocketHandshaking =>
          cases hn
          rfl
      | _ => cases hn
  | clientStart h | lockStream h _ | clientGoesOn h _ => cases ho hs _ h
  | read _ _ | push _ =>
      cases hpc
      rfl
  | emplace _ => cases hs
  | fail _ _ _ | clientStopped _ _ | report _ => cases hpc
  | stopCall _ | storeStop _ | streamLock _ _ => exact ho hs pc hpc
  | close _ => exact absurd hs (close_stream_ne s.client)

lemma run_opened (hr : run (step true) start tr = some s) :
    s.client.stream = .opened → ∀ pc, s.pc = .inside pc → connected pc = true := by
  refine run_stable (P := fun s => s.client.stream = .opened → ∀ pc, s.pc = .inside pc →
    connected pc = true) (fun ho ha => step_opened ho (step_cases ha)) ?_ hr
  intro hs
  cases hs

/-- The connection has been closed under a run. -/
structure Severed (s : St) (pc : ClientPc) : Prop where
  inside : s.pc = .inside pc
  connected : connected pc = true
  closed : s.client.stream ≠ .opened

/-- Such a run goes on until a call fails. -/
lemma step_severed {pc : ClientPc} (hc : Severed s pc) (h : Step true s a s') :
    (∃ pc', Severed s' pc') ∨ ∃ stage ec, a = .fail stage ec := by
  obtain ⟨hpc, hconn, hclosed⟩ := hc
  cases h with
  | @fail _ stage ec _ _ _ => exact .inr ⟨stage, ec, rfl⟩
  | @succeed pc₀ next h hn ha =>
      cases hpc.symm.trans h
      cases pc with
      | tlsHandshaking => exact absurd rfl (not_allows hclosed ha).1
      | webSocketHandshaking => exact absurd rfl (not_allows hclosed ha).2.1
      | reading | pushing _ => cases hn
      | _ => cases hconn
  | read h ha => exact absurd rfl (not_allows hclosed ha).2.2
  | push h => exact .inl ⟨.reading, rfl, rfl, hclosed⟩
  | clientStart h | clientStopped h _ | clientGoesOn h _ | lockStream h _ | emplace h =>
      cases hpc.symm.trans h
      cases hconn
  | report h => cases hpc.symm.trans h
  | stopCall _ | storeStop _ | streamLock _ _ => exact .inl ⟨pc, hpc, hconn, hclosed⟩
  | close _ => exact .inl ⟨pc, hpc, hconn, close_stream_ne s.client⟩

lemma exists_fail {pc : ClientPc} (hc : Severed s pc) (hr : run (step true) s v = some s')
    (hret : s'.pc = .returned) : ∃ stage ec, .fail stage ec ∈ v := by
  have h : (∃ pc, Severed s' pc) ∨ ∃ stage ec, .fail stage ec ∈ v := by
    refine run_inv (P := fun v t => (∃ pc, Severed t pc) ∨ ∃ stage ec, .fail stage ec ∈ v)
      (.inl ⟨pc, hc⟩) ?_ hr
    rintro v t b t' - (⟨pc, ht⟩ | ⟨stage, ec, hmem⟩) hb
    · refine (step_severed ht (step_cases hb)).imp_right ?_
      rintro ⟨stage, ec, rfl⟩
      exact ⟨stage, ec, List.mem_append_right _ (List.mem_singleton_self _)⟩
    · exact .inr ⟨stage, ec, List.mem_append_left _ hmem⟩
  rcases h with ⟨pc, h⟩ | h
  · cases hret.symm.trans h.inside
  · exact h

/-- A run that has failed does not fail again. -/
lemma no_fail (hs : s.pc.isInside = false) (hr : run (step true) s v = some s') :
    ∀ stage ec, .fail stage ec ∉ v := by
  refine (run_inv (P := fun v t => t.pc.isInside = false ∧ ∀ stage ec, .fail stage ec ∉ v)
    ⟨hs, nofun⟩ ?_ hr).2
  rintro v t b t' - ⟨hin, hno⟩ hb
  have hstep : t'.pc.isInside = false ∧ ∀ stage ec, b ≠ .fail stage ec := by
    cases step_cases hb with
    | clientStart h | succeed h _ _ | fail h _ _ | clientStopped h _ | clientGoesOn h _
    | lockStream h _ | emplace h | read h _ | push h =>
        rw [h] at hin
        cases hin
    | report _ => exact ⟨rfl, nofun⟩
    | stopCall _ | storeStop _ | streamLock _ _ | close _ => exact ⟨hin, nofun⟩
  refine ⟨hstep.1, fun stage ec hmem => ?_⟩
  rcases List.mem_append.mp hmem with hmem | hmem
  · exact hno stage ec hmem
  · exact hstep.2 stage ec (List.mem_singleton.mp hmem).symm

/-! ### The contract -/

/-- The call to connect is under way. Its socket is open by then. -/
@[simp] def RunPc.isConnecting : RunPc → Bool
  | .inside .connecting => true
  | _ => false

/-- A call failed after `stop` had closed its socket: any call after an open connection was closed,
or the call to connect that was under way. -/
def EndedByStop (tr : List Act) : Prop :=
  ∃ u v s stage ec, tr = u ++ .close :: v ∧ run (step true) start u = some s ∧
    .fail stage ec ∈ v ∧
    (s.client.stream = .opened ∨ s.pc.isConnecting = true ∧ stage = .tcpConnect)

/-- What the handler is promised: one call, with the stage that failed, where `stop` was not
called, and no call where `stop` has ended the run by closing the connection. -/
structure Contract (tr : List Act) : Prop where
  unstopped : .stopCall ∉ tr →
    ∃ stage ec, failures tr = [(stage, ec)] ∧ reports tr = [report stage ec]
  stopped : EndedByStop tr → reports tr = []

/-- Whenever `stop` closes an open connection, the run has already failed, and whenever it closes
the socket of the call to connect, the call succeeds all the same, with a further endpoint. -/
def ClosesHarmlessly (tr : List Act) : Prop :=
  Meets (step true) (fun s a => a = .close → (s.client.stream = .opened → s.pc.isInside = false) ∧
    (s.pc.isConnecting = true → ∀ f ∈ failures tr, f.1 ≠ .tcpConnect)) start tr

/-- A failure is reported by the time the run is over. -/
lemma reports_ne_nil (ht : ToldAt tr .returned) {stage : ConnectionStage} {ec : ErrorCode}
    (hf : .fail stage ec ∈ tr) : reports tr ≠ [] := by
  rcases ht with ⟨stage', ec', -, hr⟩ | ⟨hnone, -, -⟩
  · rw [hr]
    nofun
  · exact absurd (mem_failures_iff.mpr hf) (hnone ▸ List.not_mem_nil)

/-- An open connection that is closed under a run makes it fail. -/
lemma fail_of_close {u : List Act} (hu : run (step true) start u = some s)
    (hv : run (step true) s (.close :: v) = some s') (hret : s'.pc = .returned)
    (hopen : s.client.stream = .opened) (hin : s.pc.isInside = true) :
    ∃ stage ec, .fail stage ec ∈ v := by
  obtain ⟨pc, hpc⟩ : ∃ pc, s.pc = .inside pc := by
    rcases hs : s.pc with pc | _ | _
    · exact ⟨pc, rfl⟩
    · simp [hs] at hin
    · simp [hs] at hin
  rw [run_cons, Option.bind_eq_some_iff] at hv
  obtain ⟨t, ht, hv⟩ := hv
  have hsevered : Severed t pc := by
    cases step_cases ht with
    | close _ => exact ⟨hpc, run_opened hu hopen pc hpc, close_stream_ne s.client⟩
  exact exists_fail hsevered hv hret

/-- A run that connects has not failed: the failure comes later. -/
lemma fail_after_connecting {u : List Act} {stage : ConnectionStage} {ec : ErrorCode}
    (hu : run (step true) start u = some s) (hc : s.pc.isConnecting = true)
    (hf : .fail stage ec ∈ u ++ .close :: v) : .fail stage ec ∈ v := by
  have htold := run_told hu
  rcases List.mem_append.mp hf with hf | hf
  · rcases hs : s.pc with pc | _ | _
    · rw [hs] at htold
      exact absurd (mem_failures_iff.mpr hf) (htold.1 ▸ List.not_mem_nil)
    · simp [hs] at hc
    · simp [hs] at hc
  · exact (List.mem_cons.mp hf).resolve_left (fun h => by cases h)

/-- **The contract of the error handler** is met exactly by the runs in which `stop` closes no open
connection before the run has failed of itself, and no socket of a call to connect that then
fails. -/
theorem contract_iff (hr : run (step true) start tr = some s) (hret : s.pc = .returned) :
    Contract tr ↔ ClosesHarmlessly tr := by
  have htold : ToldAt tr .returned := hret ▸ run_told hr
  constructor
  · rintro hc u a v t htr hu rfl
    subst htr
    -- whatever fails after a close that counts has been reported
    have hnot (stage : ConnectionStage) (ec : ErrorCode) (hf : .fail stage ec ∈ v)
        (hwhy : t.client.stream = .opened ∨ t.pc.isConnecting = true ∧ stage = .tcpConnect) :
        False :=
      reports_ne_nil htold (List.mem_append_right _ (List.mem_cons_of_mem _ hf))
        (hc.stopped ⟨u, v, t, stage, ec, rfl, hu, hf, hwhy⟩)
    refine ⟨fun hopen => ?_, ?_⟩
    · by_contra hin
      rw [Bool.not_eq_false] at hin
      obtain ⟨stage, ec, hf⟩ := fail_of_close hu (run_suffix _ hr hu) hret hopen hin
      exact hnot stage ec hf (.inl hopen)
    · rintro hconn ⟨stage, ec⟩ hf rfl
      have hlater := fail_after_connecting hu hconn (mem_failures_iff.mp hf)
      exact hnot _ ec hlater (.inr ⟨hconn, rfl⟩)
  · intro hharmless
    refine ⟨fun hmem => htold.resolve_right fun h => hmem h.2.2, ?_⟩
    rintro ⟨u, v, t, stage, ec, htr, hu, hf, hwhy⟩
    obtain ⟨hopened, hconn⟩ := hharmless u .close v t htr hu rfl
    have hmem : .fail stage ec ∈ tr := by
      rw [htr]
      exact List.mem_append_right _ (List.mem_cons_of_mem _ hf)
    rcases hwhy with hopen | ⟨hc, rfl⟩
    · have hno := no_fail (hopened hopen) (run_suffix _ (htr ▸ hr) hu) stage ec
      exact absurd (List.mem_cons_of_mem _ hf) hno
    · exact absurd rfl (hconn hc _ (mem_failures_iff.mpr hmem))

/-- `stop` closes the socket while the run connects, a further endpoint answers, and much later the
server ends the connection. -/
def furtherEndpoint : List Act :=
  toTest ++ [.lockStream, .emplace, .succeed] ++ toClose ++ [.close, .succeed, .succeed, .succeed,
    .read (ascii "x"), .push (ascii "x") true, .fail .read .eof,
    .report ⟨.read, .serverDisconnect, .eof⟩]

theorem contract_furtherEndpoint : .close ∈ furtherEndpoint ∧ Contract furtherEndpoint := by
  have hr : run (step true) start furtherEndpoint = some _ := rfl
  exact ⟨by decide, (contract_iff hr rfl).mpr (meets_of_check (by decide))⟩

/-- `stop` closes the connection while the run waits for a message, and the read fails. -/
def stoppedWhileReading : List Act :=
  stopWhileReading ++ [.close, .fail .read (.other 125), .report ⟨.read, .readFailure, .other 125⟩]

/-- The handler is told of a failed read, although `stop` has ended the run. -/
theorem stoppedWhileReading_reports :
    (∃ s, run (step true) start stoppedWhileReading = some s ∧ s.pc = .returned) ∧
    EndedByStop stoppedWhileReading ∧
    reports stoppedWhileReading = [⟨.read, .readFailure, .other 125⟩] ∧
    ¬ Contract stoppedWhileReading := by
  have hended : EndedByStop stoppedWhileReading :=
    ⟨stopWhileReading, _, _, .read, .other 125, rfl, rfl, by decide, .inl rfl⟩
  refine ⟨⟨_, rfl, rfl⟩, hended, rfl, fun hc => ?_⟩
  cases hc.stopped hended

end BinanceAggregator.ClientRun
