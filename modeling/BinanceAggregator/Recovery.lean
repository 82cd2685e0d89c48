import BinanceAggregator.Chronology
import BinanceAggregator.FileOutputSink
import BinanceAggregator.Iso8601
import BinanceAggregator.WellFormed

/-!
Reading the file back, also after a crash.

A block ends with an empty line, and no line of a block is empty. A reader that takes whole lines
only, and of these whole blocks only, is thus not led astray by a text that breaks off: it gets back
every block whose write has returned, with the second of its start and the statistics of its
windows, and nothing else, except for the last block if all of its text had reached the file. This
is so as long as nobody has appended to the text that breaks off.
-/

namespace BinanceAggregator

namespace OutputFormat

open Separated StatsSerializer

variable {formatSeconds : UInt64 → Str} {ys : List StatsSnapshot} {y : StatsSnapshot} {torn : Str}

/-- The blocks of an output that breaks off within the text of a further block. -/
lemma terminated_torn (hsec : ∀ m : UInt64, newline ∉ formatSeconds (m / 1000))
    (hne : ∀ z ∈ ys, z.windows ≠ []) (hsym : ∀ z ∈ ys, ∀ x ∈ z.windows, newline ∉ x.symbol)
    (hy : y.windows ≠ []) (hysym : ∀ x ∈ y.windows, newline ∉ x.symbol)
    (ht : torn <+: serialize formatSeconds y) : ∃ extra, extra <+: [y] ∧
      terminated [] (terminated newline (ys.flatMap (serialize formatSeconds) ++ torn)) =
        (ys ++ extra).map (blockLines formatSeconds) := by
  have hlines : ∀ l ∈ terminate [] (ys.map (blockLines formatSeconds)), newline ∉ l := by
    intro l hl
    obtain ⟨b, hb, hl⟩ := List.mem_flatMap.mp hl
    obtain ⟨z, hz, rfl⟩ := List.mem_map.mp hb
    rcases List.mem_append.mp hl with hl | hl
    · exact newline_not_mem_blockLines hsec (hsym z hz) l hl
    · rw [List.mem_singleton.mp hl]
      exact List.not_mem_nil
  have hylines : ∀ l ∈ blockLines formatSeconds y ++ [[]], newline ∉ l := by
    intro l hl
    rcases List.mem_append.mp hl with hl | hl
    · exact newline_not_mem_blockLines hsec hysym l hl
    · rw [List.mem_singleton.mp hl]
      exact List.not_mem_nil
  have hblocks : ∀ b ∈ ys.map (blockLines formatSeconds), [] ∉ b := by
    intro b hb
    obtain ⟨z, -, rfl⟩ := List.mem_map.mp hb
    exact nil_not_mem_blockLines z
  -- first the lines of what is left of the block, then whether they are all there
  have hcut : terminated newline torn <+: terminate [] [blockLines formatSeconds y] := by
    rw [serialize_eq hy] at ht
    simpa [terminate] using terminated_of_cut hylines ht
  have hblock : terminated [] (terminated newline torn) <+: [blockLines formatSeconds y] :=
    terminated_of_cut (by simpa using nil_not_mem_blockLines y) hcut
  refine ⟨if terminated [] (terminated newline torn) = [] then [] else [y], ?_, ?_⟩
  · split_ifs
    · exact List.nil_prefix
    · exact List.prefix_rfl
  · rw [flatMap_serialize hne, terminated_terminate_append hlines,
      terminated_terminate_append hblocks, List.map_append]
    congr 1
    split_ifs with hnil
    · exact hnil
    · obtain ⟨rest, hrest⟩ := hblock
      obtain ⟨b, bs, hb⟩ := List.exists_cons_of_ne_nil hnil
      rw [hb, List.cons_append, List.cons.injEq, List.append_eq_nil_iff] at hrest
      rw [hb, hrest.1, hrest.2.1]
      rfl

/-- The decoder reads every whole block of an output that breaks off. -/
lemma decode_torn (hsec : ∀ m : UInt64, newline ∉ formatSeconds (m / 1000))
    (hne : ∀ z ∈ ys, z.windows ≠ []) (h : ∀ z ∈ ys, ∀ x ∈ z.windows, Readable x)
    (hy : y.windows ≠ []) (hread : ∀ x ∈ y.windows, Readable x)
    (ht : torn <+: serialize formatSeconds y) : ∃ extra, extra <+: [y] ∧
      decode (ys.flatMap (serialize formatSeconds) ++ torn) =
        some ((ys ++ extra).map fun z => (formatSeconds (z.windowStartMs / 1000),
          z.windows.map fun x => (x.symbol, x.summary))) := by
  obtain ⟨extra, hextra, hblocks⟩ := terminated_torn hsec hne
    (fun z hz x hx => (plain_of_alnum (h z hz x hx).symbol_alnum).2) hy
    (fun x hx => (plain_of_alnum (hread x hx).symbol_alnum).2) ht
  refine ⟨extra, hextra, ?_⟩
  rw [decode, hblocks]
  refine mapM_map_eq fun z hz => readBlock_blockLines ?_
  rcases List.mem_append.mp hz with hz | hz
  · exact h z hz
  · rw [List.mem_singleton.mp (hextra.subset hz)]
    exact hread

end OutputFormat

namespace Process

open Runs Pipeline OutputFormat StatsSerializer

variable {C : Config} {E : Env} {s : St C} {tr : List (Act C)} {file : Str}

/-- The seconds and the statistics that a file tells. -/
def decodeFile (w : Str) : Option (List (UInt64 × List (Str × Summary))) :=
  (decode w).map fun blocks => blocks.map fun b => (readStamp b.1, b.2)

/-- What a block says: the second of its start, and the windows. -/
def entry (y : StatsSnapshot) : UInt64 × List (Str × Summary) :=
  (y.windowStartMs / 1000, y.windows.map fun x => (x.symbol, x.summary))

/-- A block that can be read. -/
def ReadableBlock (y : StatsSnapshot) : Prop := y.windows ≠ [] ∧ ∀ x ∈ y.windows, Readable x

/-- The windows in the hands of a thread that flushes have been extracted. -/
lemma mem_extracted_of_flush {u : List (Pipeline.Act C)} {p : Pipeline.St C}
    (h : run (Pipeline.step E) (Pipeline.start C) u = some p) {who : Flusher} {f : Flush C}
    (hf : p.flushOf who = some f) {x : WindowStats} (hx : x ∈ f.pc.windows) : x ∈ extracted u := by
  obtain ⟨rest, hhands, -, -⟩ := exists_hands hf
  have hmem : x ∈ (extracted u : Multiset WindowStats) := by
    rw [← run_windows h, hhands]
    exact Multiset.mem_add.mpr (.inr (Multiset.mem_add.mpr (.inl hx)))
  exact hmem

lemma readable_written {u : List (Pipeline.Act C)} {p : Pipeline.St C}
    (h : run (Pipeline.step E) (Pipeline.start C) u = some p)
    (hread : ∀ x ∈ extracted u, Readable x) : ∀ y ∈ written u, ReadableBlock y := by
  intro y hy
  refine ⟨windows_ne_nil_of_written h y hy, fun x hx => hread x ?_⟩
  have hmem : x ∈ (extracted u : Multiset WindowStats) := by
    rw [← run_windows h]
    exact Multiset.mem_add.mpr (.inl (List.mem_flatMap.mpr ⟨y, hy, hx⟩))
  exact hmem

lemma readable_failing {u : List (Pipeline.Act C)} {p : Pipeline.St C}
    (h : run (Pipeline.step E) (Pipeline.start C) u = some p)
    (hread : ∀ x ∈ extracted u, Readable x) {y : StatsSnapshot} (hy : Failing p y) :
    ReadableBlock y := by
  obtain ⟨who, cut, todo, hf⟩ := hy
  refine ⟨run_inhabited h who _ hf y List.mem_cons_self, fun x hx => hread x ?_⟩
  exact mem_extracted_of_flush h hf (List.mem_flatMap.mpr ⟨y, List.mem_cons_self, hx⟩)

/-- Reading the seconds of an output that has been decoded. -/
lemma decodeFile_of_decode {w : Str} {ys : List StatsSnapshot}
    (h : decode w = some (ys.map fun y => (isoText (y.windowStartMs / 1000),
      y.windows.map fun x => (x.symbol, x.summary)))) : decodeFile w = some (ys.map entry) := by
  rw [decodeFile, h, Option.map_some, List.map_map]
  simp only [Function.comp_def, readStamp_isoText]
  rfl

/-- The blocks of a file that only complete writes have gone into: it was empty, and a number of
processes, with whatever configurations, have appended to it, none of which has seen a write fail.
They may have been stopped or killed at any moment between two writes. -/
inductive Intact (E : Env) : List StatsSnapshot → Str → Prop
  | empty : Intact E [] []
  | session {ys : List StatsSnapshot} {file : Str} {C : Config} {tr : List (Act C)} {s : St C}
      (h : Intact E ys file) (hrun : run (step E) (start C file) tr = some s)
      (halive : s.terminated = false) : Intact E (ys ++ written (pipelineTrace tr)) s.sink.contents

/-- Such a file is the texts of its blocks. -/
lemma Intact.contents {ys : List StatsSnapshot} (h : Intact E ys file) :
    file = ys.flatMap (text E) := by
  induction h with
  | empty => rfl
  | session _ hrun halive ih =>
      obtain ⟨torn, hs⟩ := run_holds hrun
      rw [hs.contents, hs.alive halive, List.append_nil, List.flatMap_append, ← ih]
      rfl

/-- **Recovery.** Let a process append to a file that only complete writes have gone into so far.
Whenever it ends, also in the middle of a write, decoding the file gives back the blocks that were
in it before and the blocks whose writes have returned, in order, with the second of each and all
statistics. At most the one block whose write failed is there in addition, if all of its text has
reached the file. -/
theorem recovery (hE : E.formatSeconds = isoText) {ys : List StatsSnapshot}
    (hfile : Intact E ys file) (hys : ∀ y ∈ ys, ReadableBlock y)
    (h : run (step E) (start C file) tr = some s)
    (hread : ∀ x ∈ extracted (pipelineTrace tr), Readable x) :
    ∃ extra, decodeFile s.sink.contents =
        some ((ys ++ written (pipelineTrace tr) ++ extra).map entry) ∧
      (s.terminated = false → extra = []) ∧
      (s.terminated = true → ∃ y, Failing s.pipeline y ∧ extra <+: [y]) := by
  obtain ⟨torn, hs⟩ := run_holds h
  have hsec (m : UInt64) : newline ∉ isoText (m / 1000) := newline_not_mem_isoText _
  have htext (y : StatsSnapshot) : text E y = serialize isoText y := by rw [text, hE]
  have hall : ∀ y ∈ ys ++ written (pipelineTrace tr), ReadableBlock y := by
    intro y hy
    rcases List.mem_append.mp hy with hy | hy
    · exact hys y hy
    · exact readable_written hs.pipeline hread y hy
  have hcontents : s.sink.contents =
      (ys ++ written (pipelineTrace tr)).flatMap (serialize isoText) ++ torn := by
    have hout : (output E (pipelineTrace tr)).flatten =
        (written (pipelineTrace tr)).flatMap (serialize isoText) := by
      rw [output_flatten, hE]
    rw [hs.contents, hfile.contents, hout, List.flatMap_append,
      List.flatMap_congr fun y _ => htext y]
  cases hterm : s.terminated with
  | false =>
      refine ⟨[], ?_, fun _ => rfl, fun hft => absurd hft Bool.false_ne_true⟩
      rw [hcontents, hs.alive hterm, List.append_nil, List.append_nil]
      exact decodeFile_of_decode (decode_flatMap_serialize hsec
        (fun y hy => (hall y hy).1) fun y hy => (hall y hy).2)
  | true =>
      obtain ⟨y, hy, hprefix⟩ := hs.failed hterm
      obtain ⟨hne, hyread⟩ := readable_failing hs.pipeline hread hy
      obtain ⟨extra, hextra, hdecode⟩ := decode_torn hsec
        (fun z hz => (hall z hz).1) (fun z hz => (hall z hz).2) hne hyread (htext y ▸ hprefix)
      refine ⟨extra, ?_, fun htf => absurd htf.symm Bool.false_ne_true, fun _ => ⟨y, hy, hextra⟩⟩
      rw [hcontents]
      exact decodeFile_of_decode hdecode

lemma readable_sampleWindow (k : UInt64) : Readable (sampleWindow "BTCUSDT" k) :=
  ⟨(by decide : ascii "BTCUSDT" ≠ []), List.all_eq_true.mp rfl,
    (by decide : -2 ^ 63 < (⟨1000000000⟩ : Decimal).raw.toInt),
    (by decide : -2 ^ 63 < (⟨250000000⟩ : Decimal).raw.toInt),
    (by decide : -2 ^ 63 < (⟨250000000⟩ : Decimal).raw.toInt)⟩

/-- The second block is cut off after ten bytes. -/
theorem recovery_crashing : ∃ s, run (step sampleEnv) (start _ []) crashing = some s ∧
    s.terminated = true ∧ ∃ extra, decodeFile s.sink.contents =
      some (([⟨0, [sampleWindow "BTCUSDT" 0]⟩] ++ extra).map entry) := by
  have hany : (run (step sampleEnv) (start _ []) crashing).any (fun s => s.terminated) = true := by
    decide +kernel
  obtain ⟨s, hs, hterm⟩ := (Option.any_eq_true _ _).mp hany
  have hextracted : extracted (pipelineTrace crashing) =
      [sampleWindow "BTCUSDT" 0, sampleWindow "BTCUSDT" 500] := by decide +kernel
  have hread : ∀ x ∈ extracted (pipelineTrace crashing), Readable x := by
    rw [hextracted]
    simp [readable_sampleWindow]
  have hE : sampleEnv.formatSeconds = isoText := rfl
  obtain ⟨extra, hdecode, -, -⟩ :=
    recovery hE .empty (fun _ hy => absurd hy List.not_mem_nil) hs hread
  have hwritten : written (pipelineTrace crashing) = [⟨0, [sampleWindow "BTCUSDT" 0]⟩] := by
    decide +kernel
  rw [hwritten] at hdecode
  exact ⟨s, hs, hterm, extra, hdecode⟩

end Process

/-! ### The blocks sort as text -/

namespace Pipeline

open Runs StatsSerializer

variable {C : Config} {E : Env} {s : St C} {tr : List (Act C)}

/-- The seconds of two windows, one after the other, when windows take a second or more. -/
lemma seconds_lt_of_start_lt {W k l : UInt64} (hW : 1000 ≤ W) (hk : k % W = 0) (hl : l % W = 0)
    (h : k < l) : k / 1000 < l / 1000 := by
  have hne : k / 1000 ≠ l / 1000 := fun heq =>
    absurd (start_eq_of_seconds hW hk hl heq) (UInt64.ne_of_lt h)
  rw [UInt64.lt_iff_toNat_lt] at h ⊢
  rw [Ne, ← UInt64.toNat_inj] at hne
  have hle : (k / 1000).toNat ≤ (l / 1000).toNat := by
    rw [UInt64.toNat_div, UInt64.toNat_div]
    exact Nat.div_le_div_right (Nat.le_of_lt h)
  omega

lemma header_lt_header (hE : E.formatSeconds = isoText) {x y : StatsSnapshot}
    (hx : x.windowStartMs < 253402300800000) (hy : y.windowStartMs < 253402300800000)
    (h : x.windowStartMs / 1000 < y.windowStartMs / 1000) : header E x < header E y := by
  have hlength := (length_isoText hx).trans (length_isoText hy).symm
  rw [header, header, timestampLine, timestampLine, hE, List.append_assoc, List.append_assoc,
    append_lt_append_iff rfl, append_lt_append_iff hlength]
  exact .inr ⟨rfl, .inl ((isoText_lt_isoText_iff hx hy).mpr h)⟩

/-- **The file is sorted as text.** Where windows take a second or more and no trade comes after an
extraction that has passed its window, the headers of the blocks written in a run are strictly
increasing in the order of their bytes, as long as the starts are before the year 10000. -/
theorem headers_sorted (hE : E.formatSeconds = isoText) (hW : 1000 ≤ C.windowMs)
    (h : run (step E) (start C) tr = some s) (hot : OnTime tr)
    (hyear : ∀ y ∈ written tr, y.windowStartMs < 253402300800000) :
    ((written tr).map (header E)).Pairwise (· < ·) := by
  have hstamped := run_stamped h hot
  have hstarts : (written tr).Pairwise fun x y => x.windowStartMs < y.windowStartMs :=
    List.pairwise_map.mp (run_ascending h hot).blocks
  refine List.pairwise_map.mpr (hstarts.imp_of_mem fun {x y} hx hy hlt => ?_)
  exact header_lt_header hE (hyear x hx) (hyear y hy)
    (seconds_lt_of_start_lt hW (hstamped.blocks x hx).2.mod (hstamped.blocks y hy).2.mod hlt)

theorem headers_sorted_nextSecond :
    (written nextSecond).map (header sampleEnv) =
      [ascii "timestamp=1970-01-01T00:00:00Z\n", ascii "timestamp=1970-01-01T00:00:01Z\n"] ∧
    ((written nextSecond).map (header sampleEnv)).Pairwise (· < ·) := by
  obtain ⟨s, hs, -⟩ := exists_returned sampleEnv nextSecond (by decide +kernel)
  have hE : sampleEnv.formatSeconds = isoText := rfl
  exact ⟨by decide +kernel, headers_sorted hE (by decide) hs (onTime_of_check (by decide +kernel))
    (by decide +kernel)⟩

end Pipeline

end BinanceAggregator
