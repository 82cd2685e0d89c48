import BinanceAggregator.ConfigLoader
import BinanceAggregator.PipelineShape

/-!
What the loader accepts.

The conditions on a configuration file are stated field by field on the JSON value, without the
loader, together with the configuration that the value stands for. The loader returns exactly that
configuration where there is one, and reports an error of its own where there is none. What it
returns keeps the pipeline from dividing by zero.
-/

namespace BinanceAggregator.ConfigLoader

open Json Fallible Runs

variable {root j : Json} {field : Str}

/-! ### What a value has to hold -/

/-- A non-empty word of ASCII letters and digits. -/
def Word (w : Str) : Prop := w ≠ [] ∧ w.all OutputFormat.isAlnum = true

/-- The member is a positive integer of 64 bits, in the form that one has in a parsed file. -/
def Positive (j : Json) (field : Str) (n : UInt64) : Prop :=
  j.find? field = some (.numberUnsigned n) ∧ 0 < n

/-- The member is a positive integer, or it is absent and the default is taken. -/
def PositiveOr (default : UInt64) (j : Json) (field : Str) (n : UInt64) : Prop :=
  j.find? field = none ∧ n = default ∨ Positive j field n

/-- The member is a string that is not empty. -/
def Text (j : Json) (field text : Str) : Prop :=
  j.find? field = some (.string text) ∧ text ≠ []

/-- The member is a number from zero to one, or it is absent and the default is taken. -/
def RatioOr (default : ℚ) (j : Json) (field : Str) (ratio : ℚ) : Prop :=
  j.find? field = none ∧ ratio = default ∨
    ∃ value, j.find? field = some value ∧ value.getDouble = .ok ratio ∧ 0 ≤ ratio ∧ ratio ≤ 1

/-- The member is a non-empty array of words. -/
def Words (j : Json) (field : Str) (inputs : List Str) : Prop :=
  j.find? field = some (.array (inputs.map .string)) ∧ inputs ≠ [] ∧ ∀ w ∈ inputs, Word w

/-- An object with the settings of the reconnects, after the defaults have been filled in. -/
structure DescribesReconnect (j : Json) (r : ReconnectConfig) : Prop where
  object : j.isObject = true
  initialBackoffMs : PositiveOr 500 j (ascii "initial_backoff_ms") r.initialBackoffMs
  maxBackoffMs : PositiveOr 30000 j (ascii "max_backoff_ms") r.maxBackoffMs
  ordered : r.initialBackoffMs ≤ r.maxBackoffMs
  jitterRatio : RatioOr (1 / 5) j (ascii "jitter_ratio") r.jitterRatio

/-- The settings of the reconnects, or none. -/
def ReconnectOr (root : Json) (r : ReconnectConfig) : Prop :=
  root.find? (ascii "reconnect") = none ∧ r = {} ∨
    ∃ j, root.find? (ascii "reconnect") = some j ∧ DescribesReconnect j r

/-- The conditions on a configuration file. -/
structure Acceptable (root : Json) : Prop where
  object : root.isObject = true
  symbols : ∃ inputs, Words root (ascii "symbols") inputs
  windowMs : ∃ n, Positive root (ascii "window_ms") n
  flushIntervalMs : ∃ n, Positive root (ascii "flush_interval_ms") n
  aggregatorThreads : ∃ n, PositiveOr 1 root (ascii "aggregator_threads") n
  outputFile : ∃ text, Text root (ascii "output_file") text
  wsHost : ∃ text, Text root (ascii "ws_host") text
  wsPort : ∃ text, Text root (ascii "ws_port") text
  reconnect : ∃ r, ReconnectOr root r

/-- The value stands for a configuration. -/
structure Describes (root : Json) (c : Config) : Prop where
  object : root.isObject = true
  symbols : ∃ inputs, Words root (ascii "symbols") inputs ∧ c.symbols = inputs.map toUpperAscii
  windowMs : Positive root (ascii "window_ms") c.windowMs
  flushIntervalMs : Positive root (ascii "flush_interval_ms") c.flushIntervalMs
  aggregatorThreads : PositiveOr 1 root (ascii "aggregator_threads") c.aggregatorThreads
  outputFile : Text root (ascii "output_file") c.outputFile
  wsHost : Text root (ascii "ws_host") c.wsHost
  wsPort : Text root (ascii "ws_port") c.wsPort
  reconnect : ReconnectOr root c.reconnect

/-- The conditions are those under which there is a configuration. -/
lemma acceptable_iff : Acceptable root ↔ ∃ c, Describes root c := by
  constructor
  · rintro ⟨hobject, ⟨inputs, hinputs⟩, ⟨window, hwindow⟩, ⟨flush, hflush⟩, ⟨threads, hthreads⟩,
      ⟨file, hfile⟩, ⟨host, hhost⟩, ⟨port, hport⟩, ⟨r, hr⟩⟩
    exact ⟨⟨inputs.map toUpperAscii, window, flush, threads, file, host, port, r⟩, hobject,
      ⟨inputs, hinputs, rfl⟩, hwindow, hflush, hthreads, hfile, hhost, hport, hr⟩
  · rintro ⟨c, h⟩
    obtain ⟨inputs, hinputs, -⟩ := h.symbols
    exact ⟨h.object, ⟨inputs, hinputs⟩, ⟨_, h.windowMs⟩, ⟨_, h.flushIntervalMs⟩,
      ⟨_, h.aggregatorThreads⟩, ⟨_, h.outputFile⟩, ⟨_, h.wsHost⟩, ⟨_, h.wsPort⟩, ⟨_, h.reconnect⟩⟩

/-! ### What the loader returns -/

lemma toUpperAscii_eq_nil {w : Str} : toUpperAscii w = [] ↔ w = [] := List.map_eq_nil_iff

/-- Upper case keeps letters and digits what they are. -/
lemma word_toUpperAscii {w : Str} : Word (toUpperAscii w) ↔ Word w := by
  have hall : (toUpperAscii w).all isValidSymbolChar = w.all isValidSymbolChar := by
    rw [toUpperAscii, List.all_map]
    exact congrArg w.all (funext isValidSymbolChar_toUpper)
  exact and_congr (not_congr toUpperAscii_eq_nil) (iff_of_eq (congrArg (· = true) hall))

lemma parseSymbols_iff {symbols : List Str} : parseSymbols root = .ok symbols ↔
    ∃ inputs, Words root (ascii "symbols") inputs ∧ symbols = inputs.map toUpperAscii := by
  have hwords (inputs : List Str) :
      (∀ w ∈ inputs.map toUpperAscii, Word w) ↔ ∀ w ∈ inputs, Word w := by
    simp only [List.forall_mem_map, word_toUpperAscii]
  rw [parseSymbols_eq_ok]
  constructor
  · rintro ⟨inputs, hfind, rfl, hne, hall⟩
    exact ⟨inputs, ⟨hfind, fun h => hne (by rw [h]; rfl), (hwords inputs).mp hall⟩, rfl⟩
  · rintro ⟨inputs, ⟨hfind, hne, hall⟩, rfl⟩
    exact ⟨inputs, hfind, rfl, fun h => hne (List.map_eq_nil_iff.mp h), (hwords inputs).mpr hall⟩

lemma parsePositiveU64_iff {n : UInt64} :
    parsePositiveU64 root field = .ok n ↔ Positive root field n := by
  rw [parsePositiveU64_eq_ok, Positive, UInt64.pos_iff_ne_zero]

lemma parseRequiredString_iff {text : Str} :
    parseRequiredString root field = .ok text ↔ Text root field text := by
  rw [parseRequiredString, requireField_index]
  simp only [required_eq_ok, refused_eq_ok, bind_eq_ok, access_eq_ok, return_eq_ok,
    List.isEmpty_iff]
  constructor
  · rintro ⟨value, hvalue, htype, w, hw, hne, rfl⟩
    cases value <;> cases hw
    exact ⟨hvalue, hne⟩
  · rintro ⟨hvalue, hne⟩
    exact ⟨_, hvalue, rfl, text, rfl, hne, rfl⟩

/-- A member that may be absent: it is read, or its default is taken. -/
lemma optional_eq_ok {α : Type} {x : Except LoadError α} {default a : α} {P : Json → Prop}
    (h : ∀ value, root.find? field = some value → (x = .ok a ↔ P value)) :
    (if root.contains field then x else return default) = .ok a ↔
      root.find? field = none ∧ a = default ∨
        ∃ value, root.find? field = some value ∧ P value := by
  cases hfind : root.find? field with
  | none =>
      rw [if_neg (by simp [contains, hfind]), return_eq_ok]
      constructor
      · rintro rfl
        exact .inl ⟨rfl, rfl⟩
      · rintro (⟨-, rfl⟩ | ⟨value, hvalue, -⟩)
        · rfl
        · cases hvalue
  | some value =>
      rw [if_pos (by simp [contains, hfind]), h value hfind]
      constructor
      · exact fun hvalue => .inr ⟨value, rfl, hvalue⟩
      · rintro (⟨hnone, -⟩ | ⟨value, hvalue, hP⟩)
        · cases hnone
        · exact Option.some.inj hvalue ▸ hP

lemma parseBackoff_iff {default n : UInt64} :
    parseBackoff root field default = .ok n ↔ PositiveOr default root field n := by
  have hread : ∀ value, root.find? field = some value →
      (parsePositiveU64 root field = .ok n ↔ value = .numberUnsigned n ∧ 0 < n) := by
    intro value hvalue
    rw [parsePositiveU64_iff, Positive, hvalue, Option.some.injEq]
  rw [parseBackoff, optional_eq_ok hread, PositiveOr]
  refine or_congr_right ?_
  constructor
  · rintro ⟨_, hvalue, rfl, hpos⟩
    exact ⟨hvalue, hpos⟩
  · rintro ⟨hvalue, hpos⟩
    exact ⟨_, hvalue, rfl, hpos⟩

lemma parseAggregatorThreads_iff {n : UInt64} : parseAggregatorThreads root = .ok n ↔
    PositiveOr 1 root (ascii "aggregator_threads") n :=
  parseBackoff_iff

lemma isNumber_of_getDouble {value : Json} {ratio : ℚ} (h : value.getDouble = .ok ratio) :
    value.isNumber = true := by
  cases value <;> first | rfl | cases h

lemma parseJitterRatio_iff {default ratio : ℚ} : parseJitterRatio root default = .ok ratio ↔
    RatioOr default root (ascii "jitter_ratio") ratio := by
  refine optional_eq_ok fun value hvalue => ?_
  simp only [required_eq_ok, refused_eq_ok, bind_eq_ok, access_eq_ok, return_eq_ok, index_eq_ok,
    not_or, not_lt]
  constructor
  · rintro ⟨value', hvalue', htype, ratio, hratio, hrange, rfl⟩
    obtain rfl := Option.some.inj (hvalue.symm.trans hvalue')
    exact ⟨hratio, hrange⟩
  · rintro ⟨hratio, hrange⟩
    exact ⟨value, hvalue, isNumber_of_getDouble hratio, ratio, hratio, hrange, rfl⟩

lemma parseReconnectConfig_iff {r : ReconnectConfig} :
    parseReconnectConfig root = .ok r ↔ ReconnectOr root r := by
  refine optional_eq_ok fun j hj => ?_
  simp only [required_eq_ok, refused_eq_ok, bind_eq_ok, access_eq_ok, return_eq_ok, index_eq_ok,
    parseBackoff_iff, parseJitterRatio_iff, UInt64.not_lt]
  constructor
  · rintro ⟨j', hj', hobject, initial, hinitial, cap, hcap, horder, ratio, hratio, rfl⟩
    obtain rfl := Option.some.inj (hj.symm.trans hj')
    exact ⟨hobject, hinitial, hcap, horder, hratio⟩
  · rintro ⟨hobject, hinitial, hcap, horder, hratio⟩
    exact ⟨j, hj, hobject, _, hinitial, _, hcap, horder, _, hratio, rfl⟩

/-- **The loader is exact**: it returns the configuration that the value stands for. -/
theorem parseConfigJson_iff {c : Config} : parseConfigJson root = .ok c ↔ Describes root c := by
  simp only [parseConfigJson, required_eq_ok, bind_eq_ok, return_eq_ok, parseSymbols_iff,
    parsePositiveU64_iff, parseAggregatorThreads_iff, parseRequiredString_iff,
    parseReconnectConfig_iff]
  constructor
  · rintro ⟨hobject, symbols, hsymbols, window, hwindow, flush, hflush, threads, hthreads, file,
      hfile, host, hhost, port, hport, r, hr, rfl⟩
    exact ⟨hobject, hsymbols, hwindow, hflush, hthreads, hfile, hhost, hport, hr⟩
  · rintro ⟨hobject, hsymbols, hwindow, hflush, hthreads, hfile, hhost, hport, hr⟩
    exact ⟨hobject, _, hsymbols, _, hwindow, _, hflush, _, hthreads, _, hfile, _, hhost, _, hport,
      _, hr, rfl⟩

example : (parseConfigJson (.object [(ascii "symbols", .array [.string (ascii "btcUSDT")]),
    (ascii "window_ms", .numberUnsigned 1000), (ascii "flush_interval_ms", .numberUnsigned 500),
    (ascii "output_file", .string (ascii "out")), (ascii "ws_host", .string (ascii "host")),
    (ascii "ws_port", .string (ascii "443"))])).toOption.map Config.symbols =
      some [ascii "BTCUSDT"] := by
  rfl

/-! ### What the loader reports -/

/-- An error that the loader throws itself. -/
def Reported (e : LoadError) : Prop := ∃ message, e = .runtimeError message

lemma raises_report {α : Type} (message : Str) :
    Raises Reported (throw (.runtimeError message) : Except LoadError α) :=
  .of_throw ⟨message, rfl⟩

lemma raises_access {α : Type} {x : Except AccessError α} {a : α} (h : x = .ok a) :
    Raises Reported (access x) :=
  .of_ok (access_eq_ok.mpr h)

lemma raises_requireField : Raises Reported (requireField root field) :=
  .ite (fun _ => .of_return _) fun _ => raises_report _

/-- A member that is contained can be read. -/
lemma raises_member {α : Type} {f : Json → Except LoadError α}
    (hcontains : root.contains field = true) (hf : ∀ value, Raises Reported (f value)) :
    Raises Reported (access (root.index field) >>= f) := by
  obtain ⟨value, hvalue⟩ := Option.isSome_iff_exists.mp hcontains
  exact (raises_access (index_of_find? hvalue)).bind fun value _ => hf value

/-- A member that is read after it has been required is there. -/
lemma raises_required {α : Type} {f : Json → Except LoadError α}
    (hf : ∀ value, Raises Reported (f value)) :
    Raises Reported (do requireField root field; f (← access (root.index field))) := by
  refine raises_requireField.bind fun _ hrequired => ?_
  -- the access is made only where the test before it has passed
  rw [requireField, required_eq_ok] at hrequired
  exact raises_member hrequired.1 hf

/-- A value that is read after its type has been tested is of that type. -/
lemma raises_typed {α β : Type} {test : Json → Bool} {get : Json → Except AccessError α}
    {f : α → Except LoadError β} {message : Str}
    (hget : ∀ {value : Json}, test value = true → ∃ a, get value = .ok a)
    (hf : ∀ a, Raises Reported (f a)) (value : Json) :
    Raises Reported
      (if test value then access (get value) >>= f else throw (.runtimeError message)) := by
  refine .ite (fun htype => ?_) fun _ => raises_report _
  obtain ⟨a, ha⟩ := hget htype
  exact (raises_access ha).bind fun a _ => hf a

lemma raises_checked {α : Type} {p : Prop} [Decidable p] {message : Str} (a : α) :
    Raises Reported (if p then throw (.runtimeError message) else return a) :=
  .ite (fun _ => raises_report _) fun _ => .of_return _

lemma raises_parseSymbol (item : Json) : Raises Reported (parseSymbol item) := by
  refine raises_typed getString_of_isString (fun w => ?_) item
  refine .ite (fun _ => raises_report _) fun _ => ?_
  exact .ite (fun _ => .of_return _) fun _ => raises_report _

lemma raises_parseSymbols : Raises Reported (parseSymbols root) := by
  refine raises_required (raises_typed getItems_of_isArray fun items => ?_)
  refine (Raises.mapM fun item _ => raises_parseSymbol item).bind fun symbols _ => ?_
  exact raises_checked symbols

lemma raises_parsePositiveU64 : Raises Reported (parsePositiveU64 root field) :=
  raises_required (raises_typed getUnsigned_of_isNumberUnsigned fun _ => raises_checked _)

lemma raises_parseRequiredString : Raises Reported (parseRequiredString root field) :=
  raises_required (raises_typed getString_of_isString fun _ => raises_checked _)

lemma raises_parseBackoff {default : UInt64} : Raises Reported (parseBackoff root field default) :=
  .ite (fun _ => raises_parsePositiveU64) fun _ => .of_return _

/-- A member with a default is read where it is contained. -/
lemma raises_optional {α : Type} {f : Json → Except LoadError α} {default : α}
    (hf : ∀ value, Raises Reported (f value)) : Raises Reported
      (if root.contains field then access (root.index field) >>= f else return default) :=
  .ite (fun hcontains => raises_member hcontains hf) fun _ => .of_return _

lemma raises_parseJitterRatio {default : ℚ} : Raises Reported (parseJitterRatio root default) :=
  raises_optional (raises_typed getDouble_of_isNumber fun _ => raises_checked _)

lemma raises_parseReconnectConfig : Raises Reported (parseReconnectConfig root) := by
  refine raises_optional fun j => .ite (fun _ => ?_) fun _ => raises_report _
  refine raises_parseBackoff.bind fun initial _ => ?_
  refine raises_parseBackoff.bind fun cap _ => ?_
  refine .ite (fun _ => raises_report _) fun _ => ?_
  exact raises_parseJitterRatio.bind fun ratio _ => .of_return _

/-- **Every rejection is reported**: no access that the library refuses is reached. -/
theorem raises_parseConfigJson : Raises Reported (parseConfigJson root) := by
  refine .ite (fun _ => ?_) fun _ => raises_report _
  refine raises_parseSymbols.bind fun symbols _ => ?_
  refine raises_parsePositiveU64.bind fun window _ => ?_
  refine raises_parsePositiveU64.bind fun flush _ => ?_
  -- the number of threads is read as a bound of the backoff is, with another default
  refine Raises.bind raises_parseBackoff fun threads _ => ?_
  refine raises_parseRequiredString.bind fun file _ => ?_
  refine raises_parseRequiredString.bind fun host _ => ?_
  refine raises_parseRequiredString.bind fun port _ => ?_
  exact raises_parseReconnectConfig.bind fun r _ => .of_return _

/-! ### What a configuration is good for -/

/-- What holds of every configuration that the loader returns. -/
structure Valid (c : Config) : Prop where
  symbols_ne_nil : c.symbols ≠ []
  symbols : ∀ w ∈ c.symbols, Word w ∧ toUpperAscii w = w
  windowMs : 0 < c.windowMs
  flushIntervalMs : 0 < c.flushIntervalMs
  aggregatorThreads : 0 < c.aggregatorThreads
  outputFile : c.outputFile ≠ []
  wsHost : c.wsHost ≠ []
  wsPort : c.wsPort ≠ []
  initialBackoffMs : 0 < c.reconnect.initialBackoffMs
  ordered : c.reconnect.initialBackoffMs ≤ c.reconnect.maxBackoffMs
  jitterRatio : 0 ≤ c.reconnect.jitterRatio ∧ c.reconnect.jitterRatio ≤ 1

lemma PositiveOr.pos {default n : UInt64} (h : PositiveOr default root field n)
    (hd : 0 < default) : 0 < n := by
  rcases h with ⟨-, rfl⟩ | h
  · exact hd
  · exact h.2

lemma RatioOr.range {default ratio : ℚ} (h : RatioOr default root field ratio)
    (hd : 0 ≤ default ∧ default ≤ 1) : 0 ≤ ratio ∧ ratio ≤ 1 := by
  rcases h with ⟨-, rfl⟩ | ⟨value, -, -, hrange⟩
  · exact hd
  · exact hrange

/-- The defaults pass the checks too. -/
lemma ReconnectOr.valid {r : ReconnectConfig} (h : ReconnectOr root r) :
    0 < r.initialBackoffMs ∧ r.initialBackoffMs ≤ r.maxBackoffMs ∧
      0 ≤ r.jitterRatio ∧ r.jitterRatio ≤ 1 := by
  have hdefault : (0 : ℚ) ≤ 1 / 5 ∧ (1 / 5 : ℚ) ≤ 1 := by decide +kernel
  rcases h with ⟨-, rfl⟩ | ⟨j, -, h⟩
  · exact ⟨by decide, by decide, hdefault⟩
  · exact ⟨h.initialBackoffMs.pos (by decide), h.ordered, h.jitterRatio.range hdefault⟩

lemma toUpperAscii_toUpperAscii (w : Str) : toUpperAscii (toUpperAscii w) = toUpperAscii w := by
  simp [toUpperAscii, toUpper_toUpper]

lemma Describes.valid {c : Config} (h : Describes root c) : Valid c := by
  obtain ⟨inputs, ⟨-, hne, hwords⟩, hsymbols⟩ := h.symbols
  obtain ⟨hinitial, hordered, hratio⟩ := h.reconnect.valid
  refine ⟨?_, ?_, h.windowMs.2, h.flushIntervalMs.2, h.aggregatorThreads.pos (by decide),
    h.outputFile.2, h.wsHost.2, h.wsPort.2, hinitial, hordered, hratio⟩
  · rw [hsymbols]
    exact fun hnil => hne (List.map_eq_nil_iff.mp hnil)
  · rw [hsymbols, List.forall_mem_map]
    exact fun w hw => ⟨word_toUpperAscii.mpr (hwords w hw), toUpperAscii_toUpperAscii w⟩

/-- **The backoff of a configuration** that is accepted is one the reconnect policy is made
for. -/
theorem reconnect_of_accepted {c : Config} (h : parseConfigJson root = .ok c) :
    ∃ R : BinanceAggregator.ReconnectConfig, R.initialBackoffMs = c.reconnect.initialBackoffMs ∧
      R.maxBackoffMs = c.reconnect.maxBackoffMs := by
  have hvalid := (parseConfigJson_iff.mp h).valid
  exact ⟨⟨_, _, hvalid.initialBackoffMs, hvalid.ordered⟩, rfl, rfl⟩

/-! ### No division by zero -/

/-- The capacity of the queue of raw messages that `main` asks for. -/
def kQueueCapacity : ℕ := 4096

/-- What `main` builds the pipeline from. -/
def Config.pipeline (c : Config) : BinanceAggregator.Config :=
  ⟨c.windowMs, kQueueCapacity, c.aggregatorThreads.toNat⟩

end BinanceAggregator.ConfigLoader

namespace BinanceAggregator.Pipeline

open Runs

variable {C : Config} {E : Env}

/-- The number that a step divides by: `add_trade` takes the window of the trade by the width
that the shard's aggregator holds, `flush_completed_windows` the window of the clock by that of
the pipeline. -/
def divisor (s : St C) : Act C → Option UInt64
  | .aggAdd i _ => some (s.shards i).aggregator.windowMs
  | .readClock _ => some C.windowMs
  | _ => none

lemma divisor_eq {s : St C} (hb : Built s) {a : Act C} {d : UInt64} (h : divisor s a = some d) :
    d = C.windowMs := by
  cases a with
  | aggAdd i _ => exact (Option.some.inj h).symm.trans (hb.shards i).2
  | readClock _ => exact (Option.some.inj h).symm
  | _ => cases h

/-- **A pipeline with windows of some width never divides by zero.** -/
theorem meets_divisor_ne_zero (hC : 0 < C.windowMs) (tr : List (Act C)) :
    Meets (step E) (fun s a => divisor s a ≠ some 0) (start C) tr := by
  intro u a v s _ hrun hzero
  have hwidth := divisor_eq (run_built hrun) hzero
  rw [← hwidth] at hC
  exact absurd hC (by decide)

end BinanceAggregator.Pipeline

namespace BinanceAggregator.ConfigLoader

open Runs

/-- **Acceptance is exact**: the loader returns a configuration where the conditions on the file
hold and only there, and reports an error of its own everywhere else. What it returns meets the
conditions, with the symbols in upper case, and a pipeline built from it never divides by zero,
whatever it is sent. -/
theorem acceptance_exact (root : Json) :
    ((∃ c, parseConfigJson root = .ok c) ↔ Acceptable root) ∧
      (∀ e, parseConfigJson root = .error e → ∃ message, e = .runtimeError message) ∧
      ∀ c, parseConfigJson root = .ok c → Valid c ∧
        ∀ (E : Env) (tr : List (Pipeline.Act c.pipeline)), Meets (Pipeline.step E)
          (fun s a => Pipeline.divisor s a ≠ some 0) (Pipeline.start c.pipeline) tr := by
  refine ⟨?_, raises_parseConfigJson, fun c hc => ?_⟩
  · rw [acceptable_iff]
    exact exists_congr fun c => parseConfigJson_iff
  · have hvalid := (parseConfigJson_iff.mp hc).valid
    exact ⟨hvalid, fun E tr => Pipeline.meets_divisor_ne_zero hvalid.windowMs tr⟩

end BinanceAggregator.ConfigLoader
