import BinanceAggregator.OutputFormat
import BinanceAggregator.PipelineFlush

/-!
What the messages may do to the format of the output.

The symbol of a message is not looked at on its way into the output. If every symbol is a word,
non-empty and without spaces and newlines, the output consists of blocks as they are meant to
be. A symbol that is empty or has a space in it gives a line that is not the line of a window.
-/

namespace BinanceAggregator.OutputFormat

open Separated StatsSerializer

/-- A header. -/
def IsHeader (l : Str) : Prop := ascii "timestamp=" <+: l

/-- The line of a window: seven fields, and the first names a symbol. -/
def IsWindowLine (l : Str) : Prop := ∃ symbol trades volume min max buy sell : Str,
  l.splitOn space = [ascii "symbol=" ++ symbol, ascii "trades=" ++ trades,
    ascii "volume=" ++ volume, ascii "min=" ++ min, ascii "max=" ++ max, ascii "buy=" ++ buy,
    ascii "sell=" ++ sell] ∧
  symbol ≠ [] ∧ Plain symbol

/-- After a header come the lines of windows, at least one, and an empty line. -/
def Followed (lines : List Str) : Prop := ∀ u l v, lines = u ++ l :: v → IsHeader l →
  ∃ ws rest, v = ws ++ [] :: rest ∧ ws ≠ [] ∧ ∀ w ∈ ws, IsWindowLine w

/-- The format of the output. -/
structure WellFormed (text : Str) : Prop where
  complete : terminate newline (terminated newline text) = text
  lines : ∀ l ∈ terminated newline text, l = [] ∨ IsHeader l ∨ IsWindowLine l
  blocks : Followed (terminated newline text)

variable {formatSeconds : UInt64 → Str} {x : WindowStats} {ys : List StatsSnapshot}

lemma isHeader_headerLine (k : UInt64) : IsHeader (headerLine formatSeconds k) :=
  List.prefix_append _ _

lemma not_isHeader_nil : ¬ IsHeader [] := by
  unfold IsHeader
  decide

lemma not_isHeader_line (x : WindowStats) : ¬ IsHeader (line x) := by
  rintro ⟨rest, hrest⟩
  have hhead : (line x).head? = some (byte 's') := by simp [line, fields, ascii]
  rw [← hrest] at hhead
  exact absurd hhead (by simp [ascii]; decide)

/-! ### Symbols that are words -/

lemma isWindowLine_line (hne : x.symbol ≠ []) (hplain : Plain x.symbol) : IsWindowLine (line x) :=
  ⟨_, _, _, _, _, _, _, splitOn_line hplain.1, hne, hplain⟩

lemma followed_cons {l : Str} {lines : List Str} (hl : ¬ IsHeader l) (h : Followed lines) :
    Followed (l :: lines) := by
  rintro (_ | ⟨m, u⟩) k v heq hk
  · cases heq
    exact absurd hk hl
  · obtain ⟨-, heq⟩ := List.cons.inj heq
    exact h u k v heq hk

/-- The lines after a header belong to no header. -/
lemma followed_append {ws lines : List Str} (hws : ∀ w ∈ ws, ¬ IsHeader w) (h : Followed lines) :
    Followed (ws ++ lines) := by
  induction ws with
  | nil => exact h
  | cons w ws ih =>
      exact followed_cons (hws w List.mem_cons_self)
        (ih fun w' hw' => hws w' (List.mem_cons_of_mem w hw'))

lemma followed_block {y : StatsSnapshot} {lines : List Str} (hne : y.windows ≠ [])
    (hy : ∀ x ∈ y.windows, x.symbol ≠ [] ∧ Plain x.symbol) (h : Followed lines) :
    Followed (blockLines formatSeconds y ++ [] :: lines) := by
  have hlines : ∀ w ∈ y.windows.map line, ¬ IsHeader w := by
    intro w hw
    obtain ⟨x, -, rfl⟩ := List.mem_map.mp hw
    exact not_isHeader_line x
  rintro (_ | ⟨m, u⟩) k v heq hk
  · -- the header of the block itself
    obtain ⟨-, rfl⟩ := List.cons.inj heq
    refine ⟨y.windows.map line, lines, rfl, by simpa using hne, fun w hw => ?_⟩
    obtain ⟨x, hx, rfl⟩ := List.mem_map.mp hw
    exact isWindowLine_line (hy x hx).1 (hy x hx).2
  · obtain ⟨-, heq⟩ := List.cons.inj heq
    exact followed_append hlines (followed_cons not_isHeader_nil h) u k v heq hk

/-- The output is well formed if every symbol is a word. -/
lemma wellFormed_flatMap (hsec : ∀ m : UInt64, newline ∉ formatSeconds (m / 1000))
    (hne : ∀ y ∈ ys, y.windows ≠ [])
    (h : ∀ y ∈ ys, ∀ x ∈ y.windows, x.symbol ≠ [] ∧ Plain x.symbol) :
    WellFormed (ys.flatMap (serialize formatSeconds)) := by
  have hlines := terminated_flatMap_serialize hsec hne fun y hy x hx => (h y hy x hx).2.2
  refine ⟨?_, fun l hl => ?_, ?_⟩
  · rw [hlines, flatMap_serialize hne]
  · rw [hlines] at hl
    obtain ⟨b, hb, hl⟩ := List.mem_flatMap.mp hl
    obtain ⟨y, hy, rfl⟩ := List.mem_map.mp hb
    rcases List.mem_append.mp hl with hl | hl
    · rcases List.mem_cons.mp hl with rfl | hl
      · exact .inr (.inl (isHeader_headerLine _))
      · obtain ⟨x, hx, rfl⟩ := List.mem_map.mp hl
        exact .inr (.inr (isWindowLine_line (h y hy x hx).1 (h y hy x hx).2))
    · exact .inl (List.mem_singleton.mp hl)
  · rw [hlines]
    clear hlines
    induction ys with
    | nil =>
        intro u l v heq
        simp [terminate] at heq
    | cons y ys ih =>
        have hrest := ih (fun z hz => hne z (List.mem_cons_of_mem y hz))
          fun z hz => h z (List.mem_cons_of_mem y hz)
        have hblock := @followed_block formatSeconds y _ (hne y List.mem_cons_self)
          (h y List.mem_cons_self) hrest
        simpa [terminate] using hblock

/-! ### Symbols that are not -/

/-- Every space in a symbol makes a field more. -/
lemma count_space_line (x : WindowStats) : (line x).count space = x.symbol.count space + 6 := by
  have hplain {w : Str} (hw : Plain w) : w.count space = 0 := List.count_eq_zero_of_not_mem hw.1
  have htag (tag : String) (ht : space ∉ ascii tag) : (ascii tag).count space = 0 :=
    List.count_eq_zero_of_not_mem ht
  simp only [line, fields, List.intercalate_cons_cons, List.intercalate_singleton,
    List.count_append, hplain (plain_natText _), hplain (plain_toText _), List.count_singleton_self,
    htag "symbol=" (by decide), htag "trades=" (by decide), htag "volume=" (by decide),
    htag "min=" (by decide), htag "max=" (by decide), htag "buy=" (by decide),
    htag "sell=" (by decide)]
  omega

/-- A symbol without newlines whose line is the line of a window is a word. -/
lemma word_of_isWindowLine (h : IsWindowLine (line x)) : x.symbol ≠ [] ∧ space ∉ x.symbol := by
  obtain ⟨symbol, _, _, _, _, _, _, hsplit, hne, -⟩ := h
  have hlength := congrArg List.length hsplit
  rw [length_splitOn, count_space_line] at hlength
  have hspace : space ∉ x.symbol := by
    refine List.count_eq_zero.mp ?_
    simp only [List.length_cons, List.length_nil] at hlength
    omega
  rw [splitOn_line hspace] at hsplit
  have hsymbol := List.append_cancel_left (List.cons.inj hsplit).1
  exact ⟨hsymbol ▸ hne, hspace⟩

/-- Where no symbol has a newline in it, the output is well formed only if every symbol is a
word. -/
lemma words_of_wellFormed (hsec : ∀ m : UInt64, newline ∉ formatSeconds (m / 1000))
    (hne : ∀ y ∈ ys, y.windows ≠ []) (hnl : ∀ y ∈ ys, ∀ x ∈ y.windows, newline ∉ x.symbol)
    (h : WellFormed (ys.flatMap (serialize formatSeconds))) :
    ∀ y ∈ ys, ∀ x ∈ y.windows, x.symbol ≠ [] ∧ Plain x.symbol := by
  intro y hy x hx
  have hmem : line x ∈ terminated newline (ys.flatMap (serialize formatSeconds)) := by
    rw [terminated_flatMap_serialize hsec hne hnl]
    refine List.mem_flatMap.mpr ⟨_, List.mem_map_of_mem hy, List.mem_append_left _ ?_⟩
    exact List.mem_cons_of_mem _ (List.mem_map_of_mem hx)
  rcases h.lines _ hmem with hnil | hheader | hline
  · exact absurd hnil (line_ne_nil x)
  · exact absurd hheader (not_isHeader_line x)
  · obtain ⟨hne, hspace⟩ := word_of_isWindowLine hline
    exact ⟨hne, hspace, hnl y hy x hx⟩

end BinanceAggregator.OutputFormat

namespace BinanceAggregator.Pipeline

open Runs StatsSerializer OutputFormat

variable {C : Config} {E : Env} {s : St C} {tr : List (Act C)} {who : Flusher} {f f' : Flush C}

/-! ### The symbols of the output are those of the messages -/

lemma output_flatten (E : Env) (tr : List (Act C)) :
    (output E tr).flatten = (written tr).flatMap (serialize E.formatSeconds) := rfl

/-- The symbol of a window comes from a message. -/
lemma exists_trade_of_written (h : run (step E) (start C) tr = some s) {x : WindowStats}
    (hx : x ∈ writtenWindows tr) : ∃ t ∈ trades E tr, t.symbol = x.symbol := by
  have hextracted : x ∈ (extracted tr : Multiset WindowStats) := by
    rw [← run_windows h]
    exact Multiset.mem_add.mpr (.inl hx)
  have hne : tradeTally C.windowMs (added tr) x.bucket ≠ 0 := by
    rw [← run_tables h, Pi.add_apply]
    intro hzero
    exact (Tally.tally_eq_zero_iff _ _).mp (Tally.add_eq_zero_iff.mp hzero).1 x hextracted rfl
  obtain ⟨t, ht, hbucket⟩ := Tally.exists_mem_of_tally_ne _ _ hne
  refine ⟨t, ?_, congrArg Prod.fst hbucket⟩
  have hmem : t ∈ (trades E tr : Multiset TradeEvent) := by
    rw [← run_trades h]
    exact Multiset.mem_add.mpr (.inr ht)
  exact hmem

/-- When `stop` has returned, the symbol of every message is that of a window written. -/
lemma exists_written_of_trade (h : run (step E) (start C) tr = some s)
    (hret : s.stopper = .returned) {t : TradeEvent} (ht : t ∈ trades E tr) :
    ∃ x ∈ writtenWindows tr, x.symbol = t.symbol := by
  obtain ⟨hadded, hsum, hwritten⟩ := flows_of_returned h hret
  have hne : windowTally (extracted tr) (t.bucket C.windowMs) ≠ 0 := by
    rw [hsum]
    intro hzero
    exact (Tally.tally_eq_zero_iff _ _).mp hzero t (hadded.mem_iff.mpr ht) rfl
  obtain ⟨x, hx, hbucket⟩ := Tally.exists_mem_of_tally_ne _ _ hne
  exact ⟨x, hwritten.mem_iff.mpr hx, congrArg Prod.fst hbucket⟩

/-! ### No block is empty -/

/-- The blocks a flush is going to write have windows. -/
def FlushPc.Inhabited : FlushPc C → Prop
  | .writing todo => ∀ y ∈ todo, y.windows ≠ []
  | _ => True

lemma inhabited_advance {a : Act C} (h : Advance E s who a f f') (hf : f.pc.Inhabited) :
    f'.pc.Inhabited := by
  cases h with
  | lock | extract => trivial
  | @merge cut ws =>
      intro y hy
      rw [writeWindows_eq] at hy
      exact snapshot_ne_nil _ hy
  | @write cut y todo => exact fun z hz => hf z (List.mem_cons_of_mem y hz)

lemma run_inhabited (h : run (step E) (start C) tr = some s) :
    ∀ who f, s.flushOf who = some f → f.pc.Inhabited :=
  run_flush (fun _ => trivial) (fun _ hadv hf => inhabited_advance hadv hf) h

lemma windows_ne_nil_of_written (h : run (step E) (start C) tr = some s) :
    ∀ y ∈ written tr, y.windows ≠ [] := by
  refine run_inv (P := fun tr _ => ∀ y ∈ written tr, y.windows ≠ [])
    (fun y hy => absurd hy List.not_mem_nil) ?_ h
  intro tr s a s' hr ih ha y hy
  rw [written_append] at hy
  rcases List.mem_append.mp hy with hy | hy
  · exact ih y hy
  · rcases step_written (step_cases ha) with hnone | ⟨who, cut, z, todo, rfl, hf⟩
    · rw [hnone] at hy
      cases hy
    · obtain rfl : y = z := by simpa [written] using hy
      exact run_inhabited hr who _ hf y List.mem_cons_self

/-! ### The format of the output -/

/-- **The output is as well formed as the symbols.** In every run whose messages have symbols that
are words, non-empty and without spaces and newlines, the output is well formed at every moment.
Conversely, once `stop` has returned, and where no symbol has a newline in it, the output is well
formed only if all symbols are words. -/
theorem wellFormed_output (h : run (step E) (start C) tr = some s)
    (hsec : ∀ m : UInt64, newline ∉ E.formatSeconds (m / 1000)) :
    ((∀ t ∈ trades E tr, t.symbol ≠ [] ∧ Plain t.symbol) → WellFormed (output E tr).flatten) ∧
    (s.stopper = .returned → (∀ t ∈ trades E tr, newline ∉ t.symbol) →
      WellFormed (output E tr).flatten → ∀ t ∈ trades E tr, t.symbol ≠ [] ∧ Plain t.symbol) := by
  have hne := windows_ne_nil_of_written h
  have hsource : ∀ y ∈ written tr, ∀ x ∈ y.windows, ∃ t ∈ trades E tr, t.symbol = x.symbol :=
    fun y hy x hx => exists_trade_of_written h (List.mem_flatMap.mpr ⟨y, hy, hx⟩)
  refine ⟨fun hwords => ?_, fun hret hnl hwf t ht => ?_⟩
  · refine wellFormed_flatMap hsec hne fun y hy x hx => ?_
    obtain ⟨t, ht, hsymbol⟩ := hsource y hy x hx
    exact hsymbol ▸ hwords t ht
  · have hwindows := words_of_wellFormed hsec hne (fun y hy x hx => by
      obtain ⟨t, ht, hsymbol⟩ := hsource y hy x hx
      exact hsymbol ▸ hnl t ht) hwf
    obtain ⟨x, hx, hsymbol⟩ := exists_written_of_trade h hret ht
    obtain ⟨y, hy, hxy⟩ := List.mem_flatMap.mp hx
    exact hsymbol ▸ hwindows y hy x hxy

theorem wellFormed_output_sharded :
    written sharded = [⟨0, [sampleWindow "BNBUSDT" 0, sampleWindow "BTCUSDT" 0]⟩,
      ⟨500, [sampleWindow "BTCUSDT" 500]⟩] ∧
    WellFormed (output sampleEnv sharded).flatten := by
  obtain ⟨s, hs, -⟩ := exists_returned sampleEnv sharded (by decide +kernel)
  have htrades : trades sampleEnv sharded = [sampleTrade "BTCUSDT" 0, sampleTrade "BNBUSDT" 0,
      sampleTrade "BTCUSDT" 500] := by decide +kernel
  refine ⟨by decide +kernel, (wellFormed_output hs fun m => newline_not_mem_isoText _).1 ?_⟩
  rw [htrades]
  simp only [List.forall_mem_cons]
  exact ⟨⟨by decide, by decide, by decide⟩, ⟨by decide, by decide, by decide⟩,
    ⟨by decide, by decide, by decide⟩, List.forall_mem_nil _⟩

/-- A document whose symbol has a space in it. -/
def spacedEnv : Env := { sampleEnv with
  jsonParse := fun raw =>
    if raw = sampleMessage "A B" "0" then some (sampleJson "A B" 0) else none }

def spacedMessage : List (Act (sampleConfig 1000)) :=
  feed _ (sampleMessage "A B" "0") (sampleTrade "A B" 0)
    ++ shutDown _ (fun _ => [sampleWindow "A B" 0]) [⟨0, [sampleWindow "A B" 0]⟩]

/-- The one line of this run has eight fields. -/
theorem not_wellFormed_spacedMessage : ∃ s,
    run (step spacedEnv) (start (sampleConfig 1000)) spacedMessage = some s ∧
    s.stopper = .returned ∧ ¬ WellFormed (output spacedEnv spacedMessage).flatten := by
  obtain ⟨s, hs, hret⟩ := exists_returned spacedEnv spacedMessage (by decide +kernel)
  have hwritten : written spacedMessage = [⟨0, [sampleWindow "A B" 0]⟩] := by decide +kernel
  refine ⟨s, hs, hret, fun hwf => ?_⟩
  rw [output_flatten, hwritten] at hwf
  have hwords := words_of_wellFormed (fun m => newline_not_mem_isoText _) (by simp)
    (by simp only [List.mem_singleton, forall_eq]; decide) hwf
  have hspace := (hwords _ List.mem_cons_self _ List.mem_cons_self).2.1
  exact absurd hspace (by decide)

end BinanceAggregator.Pipeline
