import BinanceAggregator.ClientRun

/-!
Whether a stop of the client reaches its run.

`run` tests the flag once, before there is a stream. From then on `stop` acts on the stream alone,
and as long as the stream is not connected there is nothing to close: the run connects afterwards
and reads. Once the stream is connected, closing it makes the next call on it fail.
-/

namespace BinanceAggregator.ClientRun

open Runs Mutex
open Network (Client ClientPc Party after_stopRequested both exclusive_both lockNetwork lockStopper
  unlockNetwork unlockStopper)

variable {handled : Bool} {s s' : St} {a : Act} {tr u v w : List Act}

/-! ### The mutex of the stream -/

@[simp] def RunPc.holdsStream : RunPc → Bool
  | .inside .emplacing => true
  | _ => false

@[simp] def StopPc.holdsStream : StopPc → Bool
  | .closing => true
  | _ => false

/-- The mutex is held where the threads hold it. -/
def Owned (s : St) : Prop :=
  Held s.client.streamMutex (both s.pc.holdsStream s.stopper.holdsStream)

lemma step_owned (ho : Owned s) (h : Step handled s a s') : Owned s' := by
  unfold Owned at ho ⊢
  cases h with
  | lockStream h hm => exact lockNetwork ho hm
  | emplace h => exact unlockNetwork (h ▸ ho)
  | streamLock h hm => exact lockStopper ho hm
  | close h => exact unlockStopper (h ▸ ho)
  | @succeed pc next h hn _ =>
      rw [h] at ho
      cases pc <;> cases hn <;> exact ho
  | @fail pc stage ec h hp _ =>
      rw [h] at ho
      cases handled <;> cases pc <;> first | exact ho | cases hp
  | clientStart h | clientStopped h _ | clientGoesOn h _ | read h _ | push h | report h =>
      rw [h] at ho
      exact ho
  | stopCall h | storeStop h =>
      rw [h] at ho
      exact ho

lemma run_owned (hr : run (step handled) start tr = some s) : Owned s := by
  refine run_stable (P := Owned) (fun ho ha => step_owned ho (step_cases ha)) ?_ hr
  intro p
  cases p <;> simp [start, both, Client.fresh]

lemma not_emplacing (hr : run (step handled) start tr = some s) (hs : s.stopper = .closing) :
    s.pc ≠ .inside .emplacing := by
  intro hpc
  have hout := exclusive_both (run_owned hr) (by simp [hpc])
  simp [hs] at hout

/-! ### A stop that begins after the run -/

/-- The run has begun, and `stop` has set its flag or is about to. -/
structure Asked (s : St) : Prop where
  begun : s.pc ≠ .inside .starting
  flag : s.stopper = .storing ∨ s.client.stopRequested = true

lemma step_begun (hb : s.pc ≠ .inside .starting) (h : Step handled s a s') :
    s'.pc ≠ .inside .starting := by
  cases h with
  | @succeed pc next h hn _ => cases pc <;> cases hn <;> nofun
  | fail _ _ _ => cases handled <;> nofun
  | stopCall _ | storeStop _ | streamLock _ _ | close _ => exact hb
  | _ => nofun

lemma run_begun (hr : run (step handled) start tr = some s) (ht : .clientStart ∈ tr) :
    s.pc ≠ .inside .starting := by
  refine run_inv (P := fun tr s => .clientStart ∈ tr → s.pc ≠ .inside .starting) nofun ?_ hr ht
  intro tr s a s' _ ih ha hmem
  rcases List.mem_append.mp hmem with hmem | hmem
  · exact step_begun (ih hmem) (step_cases ha)
  · obtain rfl := List.mem_singleton.mp hmem
    cases step_cases ha with
    | clientStart _ => nofun

lemma step_asked (hk : Asked s) (h : Step handled s a s') : Asked s' := by
  refine ⟨step_begun hk.begun h, ?_⟩
  have hflag := hk.flag
  cases h with
  | clientStart h => exact absurd h hk.begun
  | @succeed pc _ _ _ _ => exact hflag.imp_right (after_stopRequested s.client pc).trans
  | stopCall _ => exact .inl rfl
  | storeStop _ => exact .inr rfl
  | streamLock h _ | close h =>
      refine .inr (hflag.resolve_left ?_)
      rw [h]
      nofun
  | _ => exact hflag

/-- A `stop` that begins after the run has set the flag when it comes to close the stream. -/
lemma asked_of_stopCall (hr : run (step handled) start (u ++ .stopCall :: w) = some s)
    (hu : .clientStart ∈ u) (hs : s.stopper = .closing) :
    s.pc ≠ .inside .starting ∧ s.client.stopRequested = true := by
  obtain ⟨s₁, s₂, hr₁, hcall, hrest⟩ := run_split _ hr
  have hbegun := run_begun hr₁ hu
  have hasked : Asked s₂ := by
    cases step_cases hcall with
    | stopCall _ => exact ⟨hbegun, .inl rfl⟩
  have hlast : Asked s :=
    run_stable (P := Asked) (fun hk ha => step_asked hk (step_cases ha)) hasked hrest
  refine ⟨hlast.begun, hlast.flag.resolve_left ?_⟩
  rw [hs]
  nofun

/-! ### A run that is over -/

/-- The steps of the run, as opposed to those of `stop`. -/
def Act.ofRun : Act → Bool
  | .stopCall | .storeStop | .streamLock | .close => false
  | _ => true

/-- How many steps a run has left that reads nothing more. -/
def RunPc.left : RunPc → ℕ
  | .inside (.pushing _) => 3
  | .inside .testing => 1
  | .inside _ => 2
  | .reporting _ _ => 1
  | .returned => 0

/-- Where a run cannot come to read from an open stream any more. -/
def QuietAt (c : Client) : RunPc → Prop
  | .inside .resolving | .inside .testing => c.stopRequested = true
  | .inside .tlsHandshaking | .inside .webSocketHandshaking | .inside .reading
  | .inside (.pushing _) => c.stream ≠ .opened
  | .inside _ => False
  | .reporting _ _ | .returned => True

/-- A step of such a run, or of `stop` beside it. -/
structure Winds (a : Act) (s s' : St) : Prop where
  quiet : QuietAt s'.client s'.pc
  unread : ∀ m, a ≠ .read m
  left : (if a.ofRun then 1 else 0) + s'.pc.left ≤ s.pc.left

/-- Setting the flag and closing the stream do not disturb. -/
lemma QuietAt.mono {c c' : Client} {pc : RunPc} (hq : QuietAt c pc)
    (hf : c.stopRequested = true → c'.stopRequested = true)
    (hs : c.stream ≠ .opened → c'.stream ≠ .opened) : QuietAt c' pc := by
  rcases pc with pc | _ | _
  · cases pc <;> first | exact hf hq | exact hs hq | exact hq
  · trivial
  · trivial

lemma close_stream_ne (c : Client) : c.close.stream ≠ .opened := by
  unfold Client.close
  split <;> nofun

lemma not_allows {c : Client} (hc : c.stream ≠ .opened) {pc : ClientPc}
    (ha : c.allows pc = true) :
    pc ≠ .tlsHandshaking ∧ pc ≠ .webSocketHandshaking ∧ pc ≠ .reading := by
  refine ⟨?_, ?_, ?_⟩ <;> (rintro rfl; exact hc (of_decide_eq_true ha))

lemma step_quiet (hq : QuietAt s.client s.pc) (h : Step handled s a s') : Winds a s s' := by
  cases h with
  -- the run does not come to connect
  | clientStart h | lockStream h _ | emplace h =>
      rw [h] at hq
      exact hq.elim
  | clientGoesOn h hf =>
      rw [h] at hq
      cases hq.symm.trans hf
  | clientStopped h _ => exact ⟨trivial, nofun, by simp [h, Act.ofRun, RunPc.left]⟩
  | @succeed pc next h hn ha =>
      rw [h] at hq
      cases pc with
      | resolving =>
          cases hn
          exact ⟨hq, nofun, by simp [h, Act.ofRun, RunPc.left]⟩
      | tlsHandshaking => exact absurd rfl (not_allows hq ha).1
      | webSocketHandshaking => exact absurd rfl (not_allows hq ha).2.1
      | namingHost | connecting => exact hq.elim
      | _ => cases hn
  -- no call on the closed stream succeeds
  | read h ha =>
      rw [h] at hq
      exact absurd rfl (not_allows hq ha).2.2
  | push h =>
      rw [h] at hq
      exact ⟨hq, nofun, by simp [h, Act.ofRun, RunPc.left]⟩
  | @fail pc stage ec h hp _ =>
      have hleft : 2 ≤ s.pc.left := by
        rw [h]
        cases pc <;> first | exact Nat.le_refl 2 | cases hp
      have hright : RunPc.left (if handled then .reporting stage ec else .returned) ≤ 1 := by
        cases handled <;> simp [RunPc.left]
      refine ⟨?_, nofun, (Nat.add_le_add_left hright 1).trans hleft⟩
      cases handled <;> trivial
  | report h => exact ⟨trivial, nofun, by simp [h, Act.ofRun, RunPc.left]⟩
  | stopCall _ => exact ⟨hq, nofun, by simp [Act.ofRun]⟩
  | storeStop _ => exact ⟨hq.mono (fun _ => rfl) id, nofun, by simp [Act.ofRun]⟩
  | streamLock _ _ => exact ⟨hq.mono id id, nofun, by simp [Act.ofRun]⟩
  | close _ =>
      exact ⟨hq.mono id fun _ => close_stream_ne s.client, nofun, by simp [Act.ofRun]⟩

/-- What follows the return of a `stop` that takes effect: no read on an open stream, no message,
and a run that is not held up and has at most three steps to its end. -/
structure Silenced (handled : Bool) (v : List Act) (s : St) : Prop where
  closed : s.pc = .inside .reading → s.client.stream ≠ .opened
  unread : ∀ m, .read m ∉ v
  short : (v.filter Act.ofRun).length + s.pc.left ≤ 3
  goesOn : s.pc = .returned ∨ ∃ a s', a.ofRun = true ∧ Step handled s a s'

/-- `stop`, about to close the stream, takes effect whatever comes. -/
def TakesEffect (handled : Bool) (s : St) : Prop :=
  ∀ v s', run (step handled) s (.close :: v) = some s' → Silenced handled v s'

/-- A quiet run can go on until it has returned. -/
lemma exists_step_of_quiet (hq : QuietAt s.client s.pc) :
    s.pc = .returned ∨ ∃ a s', a.ofRun = true ∧ Step handled s a s' := by
  rcases hpc : s.pc with pc | ⟨stage, ec⟩ | _
  · rw [hpc] at hq
    right
    cases pc with
    | starting | lockingStream | emplacing | namingHost | connecting => exact hq.elim
    | testing => exact ⟨.clientTest, _, rfl, .clientStopped hpc hq⟩
    | pushing m => exact ⟨.push m true, _, rfl, .push hpc⟩
    | resolving | tlsHandshaking | webSocketHandshaking | reading =>
        exact ⟨.fail _ .eof, _, rfl, .fail hpc rfl rfl⟩
  · exact .inr ⟨.report _, _, rfl, .report hpc⟩
  · exact .inl rfl

/-- The history and the state of a run that winds up. -/
structure Winding (v : List Act) (s : St) : Prop where
  quiet : QuietAt s.client s.pc
  unread : ∀ m, .read m ∉ v
  short : (v.filter Act.ofRun).length + s.pc.left ≤ 3

lemma winding_nil (hq : QuietAt s.client s.pc) : Winding [] s := by
  refine ⟨hq, nofun, ?_⟩
  rcases s.pc with pc | _ | _
  · cases pc <;> simp [RunPc.left]
  · simp [RunPc.left]
  · simp [RunPc.left]

lemma Winding.snoc (hv : Winding v s) (h : Step handled s a s') : Winding (v ++ [a]) s' := by
  have hw := step_quiet hv.quiet h
  refine ⟨hw.quiet, fun m hm => ?_, ?_⟩
  · rcases List.mem_append.mp hm with hm | hm
    · exact hv.unread m hm
    · exact hw.unread m (List.mem_singleton.mp hm).symm
  · have hone : ([a].filter Act.ofRun).length = if a.ofRun then 1 else 0 := by
      cases hof : a.ofRun <;> simp [hof]
    have hleft := hw.left
    have hshort := hv.short
    rw [List.filter_append, List.length_append, hone]
    omega

lemma run_silenced (hq : QuietAt s.client s.pc) (hr : run (step handled) s v = some s') :
    Silenced handled v s' := by
  obtain ⟨hquiet, hunread, hshort⟩ : Winding v s' :=
    run_inv (P := Winding) (winding_nil hq) (fun _ hv ha => hv.snoc (step_cases ha)) hr
  refine ⟨fun hpc => ?_, hunread, hshort, exists_step_of_quiet hquiet⟩
  rw [hpc] at hquiet
  exact hquiet

/-! ### When it takes effect -/

/-- From the test of the flag to the connection. -/
def RunPc.connects : RunPc → Bool
  | .inside .lockingStream | .inside .emplacing | .inside .namingHost | .inside .connecting => true
  | _ => false

/-- Outside that stretch, what `stop` has done keeps the run from reading. -/
lemma quietAt_close {c : Client} {pc : RunPc} (hb : pc ≠ .inside .starting)
    (hf : c.stopRequested = true) (hc : pc.connects = false) :
    QuietAt { c.close with streamMutex := none } pc := by
  rcases pc with pc | _ | _
  · cases pc with
    | starting => exact absurd rfl hb
    | resolving | testing => exact hf
    | lockingStream | emplacing | namingHost | connecting => cases hc
    | tlsHandshaking | webSocketHandshaking | reading | pushing _ => exact close_stream_ne c
  · trivial
  · trivial

/-- The run can come to read from an open stream. -/
def CanRead (handled : Bool) (s : St) : Prop :=
  ∃ v s', run (step handled) s v = some s' ∧ s'.pc = .inside .reading ∧ s'.client.stream = .opened

lemma CanRead.of_step (h : Step handled s a s') (hs : CanRead handled s') : CanRead handled s := by
  obtain ⟨v, t, hv, hpc, hopen⟩ := hs
  refine ⟨a :: v, t, ?_, hpc, hopen⟩
  rw [run_cons, step_of h, Option.bind_some, hv]

lemma canRead_of_connecting (h : s.pc = .inside .connecting) : CanRead handled s := by
  refine .of_step (.succeed h rfl rfl) ?_
  refine .of_step (.succeed rfl rfl rfl) ?_
  refine .of_step (.succeed rfl rfl rfl) ?_
  exact ⟨[], _, rfl, rfl, rfl⟩

lemma canRead_of_namingHost (h : s.pc = .inside .namingHost) : CanRead handled s :=
  .of_step (.succeed h rfl rfl) (canRead_of_connecting rfl)

lemma canRead_of_lockingStream (h : s.pc = .inside .lockingStream)
    (hm : s.client.streamMutex = none) : CanRead handled s := by
  refine .of_step (.lockStream h hm) ?_
  refine .of_step (.emplace rfl) ?_
  exact canRead_of_namingHost rfl

/-- Within it, the run goes on to connect and to read. -/
lemma canRead_of_connects (hc : s.pc.connects = true) (he : s.pc ≠ .inside .emplacing)
    (hm : s.client.streamMutex = none) : CanRead handled s := by
  rcases hpc : s.pc with pc | _ | _
  · rw [hpc] at hc he
    cases pc with
    | lockingStream => exact canRead_of_lockingStream hpc hm
    | emplacing => exact absurd rfl he
    | namingHost => exact canRead_of_namingHost hpc
    | connecting => exact canRead_of_connecting hpc
    | _ => cases hc
  · rw [hpc] at hc
    cases hc
  · rw [hpc] at hc
    cases hc

/-- **A stop of the client takes effect** exactly if it does not come to close the stream while the
run is between its test of the flag and the connection. -/
theorem takesEffect_iff (hr : run (step handled) start (u ++ .stopCall :: w) = some s)
    (hu : .clientStart ∈ u) (hs : s.stopper = .closing) :
    TakesEffect handled s ↔ s.pc.connects = false := by
  constructor
  · intro h
    by_contra hc
    rw [Bool.not_eq_false] at hc
    have hemplacing := not_emplacing hr hs
    obtain ⟨v, s', hv, hpc, hopen⟩ : CanRead handled
        ⟨s.pc, .idle, { s.client.close with streamMutex := none }⟩ :=
      canRead_of_connects hc hemplacing rfl
    refine (h v s' ?_).closed hpc hopen
    rw [run_cons, step_of (.close hs), Option.bind_some]
    exact hv
  · intro hc v s' hv
    obtain ⟨hb, hf⟩ := asked_of_stopCall hr hu hs
    rw [run_cons, step_of (.close hs), Option.bind_some] at hv
    have hq := quietAt_close hb hf hc
    exact run_silenced (s := ⟨s.pc, .idle, { s.client.close with streamMutex := none }⟩) hq hv

/-- A run that finds the flag unset. -/
def toTest : List Act := [.clientStart, .succeed, .clientTest]

/-- `stop`, up to the point where it is about to close the stream. -/
def toClose : List Act := [.stopCall, .storeStop, .streamLock]

/-- `stop` comes while the run waits for a message. -/
def stopWhileReading : List Act :=
  toTest ++ [.lockStream, .emplace, .succeed, .succeed, .succeed, .succeed] ++ toClose

theorem takesEffect_whileReading :
    ∃ s, run (step true) start stopWhileReading = some s ∧ TakesEffect true s := by
  have hr : run (step true) start
    ((toTest ++ [.lockStream, .emplace, .succeed, .succeed, .succeed, .succeed]) ++
      .stopCall :: [.storeStop, .streamLock]) = some _ := rfl
  exact ⟨_, hr, (takesEffect_iff hr (by decide) rfl).mpr rfl⟩

/-- `stop` comes after the run has tested the flag, and has returned before there is a stream. -/
def stopBeforeStream : List Act := toTest ++ toClose

/-- The run connects after `stop` has returned, and reads a message. -/
theorem stopBeforeStream_reads : ∃ s s',
    run (step true) start stopBeforeStream = some s ∧ s.stopper = .closing ∧
    run (step true) s [.close, .lockStream, .emplace, .succeed, .succeed, .succeed, .succeed,
      .read (ascii "x")] = some s' ∧ s'.stopper = .idle ∧ s'.client.stream = .opened ∧
    ¬ TakesEffect true s := by
  refine ⟨_, _, rfl, rfl, rfl, rfl, rfl, fun h => ?_⟩
  exact (h _ _ (show run (step true) _ [.close, .lockStream, .emplace, .succeed, .succeed, .succeed,
    .succeed] = some _ from rfl)).closed rfl rfl

end BinanceAggregator.ClientRun
