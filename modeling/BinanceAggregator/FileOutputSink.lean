import BinanceAggregator.Unsplit

/-!
The file that the pipeline appends to, and the process that writes it.

`FileOutputSink` opens the file for appending; each `write` passes a text on and flushes the stream,
and throws if the stream has failed by then. No thread of the process catches this: a `write` that
throws ends the process. So the file holds what was there before, then the texts of all writes that
have returned, and at most at its end some part of one more text.
-/

namespace BinanceAggregator

/-- A `FileOutputSink`: what the file holds, and whether the stream is good. -/
structure FileOutputSink where
  contents : Str
  good : Bool := true

namespace FileOutputSink

/-- What becomes of the bytes that are passed to the system. -/
inductive Transfer
  | complete
  | failed (count : ℕ)
  deriving DecidableEq

/-- The constructor, for a path at which there is a file with `contents`, or none, which is then
created. -/
def openFile (path contents : Str) (isOpen : Bool) : Except Str FileOutputSink :=
  if isOpen then .ok { contents }
  else .error (ascii "Failed to open output file: " ++ path)

/-- `write`. A stream that has failed takes nothing. -/
def write (sink : FileOutputSink) (text : Str) (outcome : Transfer) :
    Except Str Unit × FileOutputSink :=
  let sink := if sink.good then
      match outcome with
      | .complete => { sink with contents := sink.contents ++ text }
      | .failed count => ⟨sink.contents ++ text.take count, false⟩
    else sink
  (if sink.good then .ok () else .error (ascii "Failed to write to output file"), sink)

end FileOutputSink

/-! ### The process -/

namespace Process

open Runs Pipeline FileOutputSink

structure St (C : Config) where
  pipeline : Pipeline.St C
  sink : FileOutputSink
  terminated : Bool := false

/-- The process when the pipeline has been started, with a file that could be opened. -/
def start (C : Config) (file : Str) : St C where
  pipeline := Pipeline.start C
  sink := { contents := file }

/-- What the threads do; for a write, with what the system does. -/
inductive Act (C : Config)
  | act (a : Pipeline.Act C)
  | write (who : Flusher) (snapshot : StatsSnapshot) (outcome : Transfer)

/-- The actions that go through the sink. -/
def isWrite {C : Config} : Pipeline.Act C → Bool
  | .write _ _ => true
  | _ => false

variable {C : Config}

/-- One step. An exception that leaves `write` leaves the thread, and the process is terminated. -/
def step (E : Env) (s : St C) (a : Act C) : Option (St C) :=
  if s.terminated then none
  else match a with
    | .act a => if isWrite a then none
        else (Pipeline.step E s.pipeline a).map fun pipeline => { s with pipeline }
    | .write who snapshot outcome =>
      (Pipeline.step E s.pipeline (.write who snapshot)).map fun pipeline =>
        match s.sink.write (text E snapshot) outcome with
        | (.ok _, sink) => ⟨pipeline, sink, false⟩
        | (.error _, sink) => ⟨s.pipeline, sink, true⟩

/-- What can happen, with the condition under which it does. -/
inductive Step (E : Env) (s : St C) : Act C → St C → Prop
  | act {a : Pipeline.Act C} {p : Pipeline.St C} (ht : s.terminated = false)
      (ha : isWrite a = false) (hp : Pipeline.Step E s.pipeline a p) :
      Step E s (.act a) { s with pipeline := p }
  | write {who : Flusher} {y : StatsSnapshot} {p : Pipeline.St C} (ht : s.terminated = false)
      (hg : s.sink.good = true) (hp : Pipeline.Step E s.pipeline (.write who y) p) :
      Step E s (.write who y .complete) ⟨p, ⟨s.sink.contents ++ text E y, true⟩, false⟩
  | fail {who : Flusher} {y : StatsSnapshot} {n : ℕ} {p : Pipeline.St C} (ht : s.terminated = false)
      (hg : s.sink.good = true) (hp : Pipeline.Step E s.pipeline (.write who y) p) :
      Step E s (.write who y (.failed n))
        ⟨s.pipeline, ⟨s.sink.contents ++ (text E y).take n, false⟩, true⟩
  | refused {who : Flusher} {y : StatsSnapshot} {o : Transfer} {p : Pipeline.St C}
      (ht : s.terminated = false) (hg : s.sink.good = false)
      (hp : Pipeline.Step E s.pipeline (.write who y) p) :
      Step E s (.write who y o) ⟨s.pipeline, s.sink, true⟩

variable {E : Env} {s s' : St C} {a : Act C} {tr : List (Act C)} {file : Str}

lemma step_cases (h : step E s a = some s') : Step E s a s' := by
  unfold step at h
  split_ifs at h with ht
  rw [Bool.not_eq_true] at ht
  cases a with
  | act a =>
      simp only at h
      split_ifs at h with ha
      obtain ⟨p, hp, rfl⟩ := Option.map_eq_some_iff.mp h
      exact .act ht (by simpa using ha) (Pipeline.step_cases hp)
  | write who y o =>
      obtain ⟨p, hp, rfl⟩ := Option.map_eq_some_iff.mp h
      have hp := Pipeline.step_cases hp
      cases hg : s.sink.good with
      | false => simpa [FileOutputSink.write, hg] using Step.refused ht hg hp
      | true =>
          cases o with
          | complete => simpa [FileOutputSink.write, hg] using Step.write ht hg hp
          | failed n => simpa [FileOutputSink.write, hg] using Step.fail ht hg hp

/-! ### What the file holds -/

/-- The steps of the pipeline: a write that has thrown is none. -/
def Act.forPipeline : Act C → List (Pipeline.Act C)
  | .act a => [a]
  | .write who y .complete => [.write who y]
  | .write _ _ (.failed _) => []

def pipelineTrace (tr : List (Act C)) : List (Pipeline.Act C) := tr.flatMap Act.forPipeline

lemma pipelineTrace_append (u v : List (Act C)) :
    pipelineTrace (u ++ v) = pipelineTrace u ++ pipelineTrace v := List.flatMap_append

/-- The block whose write has failed. -/
def Failing (p : Pipeline.St C) (y : StatsSnapshot) : Prop :=
  ∃ who cut todo, p.flushOf who = some ⟨cut, .writing (y :: todo)⟩

/-- The file holds what it held before, the texts written, and what was left of a failed write. -/
structure Holds (E : Env) (file : Str) (tr : List (Act C)) (s : St C) (torn : Str) : Prop where
  pipeline : run (Pipeline.step E) (Pipeline.start C) (pipelineTrace tr) = some s.pipeline
  good : s.sink.good = !s.terminated
  contents : s.sink.contents = file ++ (output E (pipelineTrace tr)).flatten ++ torn
  alive : s.terminated = false → torn = []
  failed : s.terminated = true → ∃ y, Failing s.pipeline y ∧ torn <+: text E y

lemma output_append (u v : List (Pipeline.Act C)) :
    output E (u ++ v) = output E u ++ output E v := by
  simp [output, written]

lemma run_snoc_pipeline {u : List (Pipeline.Act C)} {b : Pipeline.Act C} {p p' : Pipeline.St C}
    (hu : run (Pipeline.step E) (Pipeline.start C) u = some p) (hb : Pipeline.Step E p b p') :
    run (Pipeline.step E) (Pipeline.start C) (u ++ [b]) = some p' :=
  (run_snoc _).mpr ⟨p, hu, Pipeline.step_of hb⟩

lemma step_holds {torn : Str} (hs : Holds E file tr s torn) (h : Step E s a s') :
    ∃ torn', Holds E file (tr ++ [a]) s' torn' := by
  obtain ⟨hrun, hgood, hcontents, halive, -⟩ := hs
  cases h with
  | @act a p ht ha hp =>
      have hlast : pipelineTrace [Act.act a] = [a] := rfl
      have hout : output E [a] = [] := by
        cases a <;> first | rfl | cases ha
      refine ⟨torn, ?_, hgood, ?_, halive, fun hterm => by simp [ht] at hterm⟩
      · rw [pipelineTrace_append, hlast]
        exact run_snoc_pipeline hrun hp
      · rw [pipelineTrace_append, hlast, output_append, hout, List.append_nil]
        exact hcontents
  | @write who y p ht hg hp =>
      have hlast : pipelineTrace [Act.write (C := C) who y .complete] = [.write who y] := rfl
      have hout : output E [Pipeline.Act.write (C := C) who y] = [text E y] := rfl
      refine ⟨[], ?_, rfl, ?_, fun _ => rfl, nofun⟩
      · rw [pipelineTrace_append, hlast]
        exact run_snoc_pipeline hrun hp
      · rw [pipelineTrace_append, hlast, output_append, hout]
        simp [hcontents, halive ht]
  | @fail who y n p ht hg hp =>
      have hlast : pipelineTrace [Act.write (C := C) who y (.failed n)] = [] := rfl
      refine ⟨(text E y).take n, ?_, rfl, ?_, nofun, fun _ => ⟨y, ?_, List.take_prefix _ _⟩⟩
      · rw [pipelineTrace_append, hlast, List.append_nil]
        exact hrun
      · rw [pipelineTrace_append, hlast, List.append_nil]
        simp [hcontents, halive ht]
      · cases hp with
        | @write _ cut _ todo hf => exact ⟨who, cut, todo, hf⟩
  | refused ht hg hp => simp [ht, hg] at hgood

lemma run_holds (h : run (step E) (start C file) tr = some s) : ∃ torn, Holds E file tr s torn := by
  refine run_inv (P := fun tr s => ∃ torn, Holds E file tr s torn) ?_ ?_ h
  · exact ⟨[], rfl, rfl, by simp [start, pipelineTrace, output, written], fun _ => rfl, nofun⟩
  · rintro tr s a s' - ⟨torn, hs⟩ ha
    exact step_holds hs (step_cases ha)

/-- **The file only grows, and by whole blocks.** In every state of the process the file holds what
it held at the start, then the texts of the blocks whose writes have returned, in order. Only if a
write has failed, and then the process has ended, some part of the text of that block follows. -/
theorem file_contents (h : run (step E) (start C file) tr = some s) :
    ∃ torn, run (Pipeline.step E) (Pipeline.start C) (pipelineTrace tr) = some s.pipeline ∧
      s.sink.contents = file ++ (output E (pipelineTrace tr)).flatten ++ torn ∧
      (s.terminated = false → torn = []) ∧
      (s.terminated = true → ∃ y, Failing s.pipeline y ∧ torn <+: text E y) := by
  obtain ⟨torn, hs⟩ := run_holds h
  exact ⟨torn, hs.pipeline, hs.contents, hs.alive, hs.failed⟩

/-- The actions of a history of the pipeline, with the outcomes of the writes. -/
def perform (outcome : StatsSnapshot → Transfer) : Pipeline.Act C → Act C
  | .write who y => .write who y (outcome y)
  | a => .act a

/-- Two windows are written, and the second write fails after ten bytes. -/
def crashing : List (Act (sampleConfig 500)) :=
  twoWindows.dropLast.map (perform fun y => if y.windowStartMs = 500 then .failed 10 else .complete)

theorem file_contents_crashing : ∃ s torn,
    run (step sampleEnv) (start _ (ascii "\n")) crashing = some s ∧ s.terminated = true ∧
    s.sink.contents = ascii "\n" ++ text sampleEnv ⟨0, [sampleWindow "BTCUSDT" 0]⟩ ++ torn ∧
    torn.length = 10 := by
  have hany : (run (step sampleEnv) (start _ (ascii "\n")) crashing).any
      (fun s => s.terminated && s.sink.contents.length == 106) = true := by decide +kernel
  obtain ⟨s, hs, hboth⟩ := (Option.any_eq_true _ _).mp hany
  obtain ⟨hterm, hlen⟩ := (Bool.and_eq_true _ _).mp hboth
  obtain ⟨torn, -, hcontents, -, -⟩ := file_contents hs
  have hout : (output sampleEnv (pipelineTrace crashing)).flatten =
      text sampleEnv ⟨0, [sampleWindow "BTCUSDT" 0]⟩ := by decide +kernel
  rw [hout] at hcontents
  refine ⟨s, torn, hs, hterm, hcontents, ?_⟩
  have hlen := beq_iff_eq.mp hlen
  have hblock : (text sampleEnv ⟨0, [sampleWindow "BTCUSDT" 0]⟩).length = 95 := by decide +kernel
  rw [hcontents, List.length_append, List.length_append, hblock] at hlen
  change 1 + 95 + torn.length = 106 at hlen
  omega

end Process

end BinanceAggregator
