import BinanceAggregator.Backoff
import BinanceAggregator.Json
import BinanceAggregator.OutputFormat

/-!
The loader of the configuration.

A configuration is read off a JSON value field by field, and the first field that is missing or
wrong is reported. What is accepted has symbols that are non-empty words of upper-case letters
and digits.
-/

namespace BinanceAggregator.ConfigLoader

open Json Fallible

/-- `std::toupper` in the C locale. -/
def toUpper (c : UInt8) : UInt8 := if byte 'a' ≤ c ∧ c ≤ byte 'z' then c - 32 else c

def toUpperAscii (value : Str) : Str := value.map toUpper

def isValidSymbolChar (c : UInt8) : Bool := OutputFormat.isAlnum c

lemma toUpper_toUpper : ∀ c, toUpper (toUpper c) = toUpper c :=
  forall_byte (by decide +kernel)

lemma isValidSymbolChar_toUpper : ∀ c, isValidSymbolChar (toUpper c) = isValidSymbolChar c :=
  forall_byte (by decide +kernel)

/-- `agg::config::ReconnectConfig`, with its defaults. -/
structure ReconnectConfig where
  initialBackoffMs : UInt64 := 500
  maxBackoffMs : UInt64 := 30000
  jitterRatio : ℚ := 1 / 5

/-- `agg::config::Config`. -/
structure Config where
  symbols : List Str
  windowMs : UInt64
  flushIntervalMs : UInt64
  aggregatorThreads : UInt64
  outputFile : Str
  wsHost : Str
  wsPort : Str
  reconnect : ReconnectConfig

/-- How loading ends where it fails: with an access that the library refuses, or with a
`std::runtime_error`. -/
inductive LoadError
  | access (error : AccessError)
  | runtimeError (message : Str)

/-- An access of the library. -/
def access {α : Type} (x : Except AccessError α) : Except LoadError α := x.mapError .access

def requireField (root : Json) (field : Str) : Except LoadError Unit :=
  if root.contains field then return ()
  else throw (.runtimeError (ascii "Config is missing required field: " ++ field))

/-- One turn of the loop over the symbols. -/
def parseSymbol (item : Json) : Except LoadError Str :=
  if item.isString then do
    let symbol := toUpperAscii (← access item.getString)
    if symbol.isEmpty then throw (.runtimeError (ascii "Symbol must not be empty"))
    else if symbol.all isValidSymbolChar then return symbol
    else throw (.runtimeError (ascii "Symbol contains invalid characters: " ++ symbol))
  else throw (.runtimeError (ascii "Each symbol must be a string"))

def parseSymbols (root : Json) : Except LoadError (List Str) := do
  requireField root (ascii "symbols")
  let value ← access (root.index (ascii "symbols"))
  if value.isArray then
    let symbols ← (← access value.getItems).mapM parseSymbol
    if symbols.isEmpty then
      throw (.runtimeError (ascii "Config field 'symbols' must not be empty"))
    else return symbols
  else throw (.runtimeError (ascii "Config field 'symbols' must be an array"))

def parsePositiveU64 (root : Json) (field : Str) : Except LoadError UInt64 := do
  requireField root field
  let value ← access (root.index field)
  if value.isNumberUnsigned then
    let number ← access value.getUnsigned
    if number = 0 then
      throw (.runtimeError (ascii "Config field must be greater than zero: " ++ field))
    else return number
  else throw (.runtimeError (ascii "Config field must be a positive integer: " ++ field))

def parseRequiredString (root : Json) (field : Str) : Except LoadError Str := do
  requireField root field
  let value ← access (root.index field)
  if value.isString then
    let text ← access value.getString
    if text.isEmpty then
      throw (.runtimeError (ascii "Config field must not be empty: " ++ field))
    else return text
  else throw (.runtimeError (ascii "Config field must be a string: " ++ field))

def parseAggregatorThreads (root : Json) : Except LoadError UInt64 :=
  if root.contains (ascii "aggregator_threads") then
    parsePositiveU64 root (ascii "aggregator_threads")
  else return 1

/-- A bound of the backoff: its default where the field is absent. -/
def parseBackoff (reconnect : Json) (field : Str) (default : UInt64) : Except LoadError UInt64 :=
  if reconnect.contains field then parsePositiveU64 reconnect field else return default

def parseJitterRatio (reconnect : Json) (default : ℚ) : Except LoadError ℚ :=
  if reconnect.contains (ascii "jitter_ratio") then do
    let value ← access (reconnect.index (ascii "jitter_ratio"))
    if value.isNumber then
      let ratio ← access value.getDouble
      if ratio < 0 ∨ 1 < ratio then
        throw (.runtimeError (ascii "Reconnect jitter_ratio must be between 0.0 and 1.0"))
      else return ratio
    else throw (.runtimeError (ascii "Reconnect jitter_ratio must be a number"))
  else return default

def parseReconnectConfig (root : Json) : Except LoadError ReconnectConfig :=
  let defaults : ReconnectConfig := {}
  if root.contains (ascii "reconnect") then do
    let reconnect ← access (root.index (ascii "reconnect"))
    if reconnect.isObject then
      let initialBackoffMs ←
        parseBackoff reconnect (ascii "initial_backoff_ms") defaults.initialBackoffMs
      let maxBackoffMs ← parseBackoff reconnect (ascii "max_backoff_ms") defaults.maxBackoffMs
      if maxBackoffMs < initialBackoffMs then
        throw (.runtimeError
          (ascii "Reconnect initial_backoff_ms must not be greater than max_backoff_ms"))
      else
        let jitterRatio ← parseJitterRatio reconnect defaults.jitterRatio
        return ⟨initialBackoffMs, maxBackoffMs, jitterRatio⟩
    else throw (.runtimeError (ascii "Config field 'reconnect' must be an object"))
  else return defaults

def parseConfigJson (root : Json) : Except LoadError Config :=
  if root.isObject then do
    let symbols ← parseSymbols root
    let windowMs ← parsePositiveU64 root (ascii "window_ms")
    let flushIntervalMs ← parsePositiveU64 root (ascii "flush_interval_ms")
    let aggregatorThreads ← parseAggregatorThreads root
    let outputFile ← parseRequiredString root (ascii "output_file")
    let wsHost ← parseRequiredString root (ascii "ws_host")
    let wsPort ← parseRequiredString root (ascii "ws_port")
    let reconnect ← parseReconnectConfig root
    return ⟨symbols, windowMs, flushIntervalMs, aggregatorThreads, outputFile, wsHost, wsPort,
      reconnect⟩
  else throw (.runtimeError (ascii "Config root must be a JSON object"))

/-! ### What a field that is accepted looks like -/

variable {α β : Type} {root : Json} {field : Str}

lemma access_eq_ok {x : Except AccessError α} {a : α} : access x = .ok a ↔ x = .ok a := by
  cases x with
  | error e => exact ⟨nofun, nofun⟩
  | ok b => exact ⟨fun h => by cases h; rfl, fun h => by cases h; rfl⟩

lemma index_eq_ok {value : Json} :
    root.index field = .ok value ↔ root.find? field = some value := by
  unfold index
  cases root.find? field with
  | none => exact ⟨nofun, nofun⟩
  | some v => exact ⟨fun h => by cases h; rfl, fun h => by cases h; rfl⟩

/-- A required field is there. -/
lemma requireField_index {f : Json → Except LoadError α} {a : α} :
    (do requireField root field; f (← access (root.index field))) = .ok a ↔
      ∃ value, root.find? field = some value ∧ f value = .ok a := by
  simp only [bind_eq_ok, requireField, required_eq_ok, access_eq_ok, index_eq_ok]
  constructor
  · rintro ⟨_, -, value, hvalue, h⟩
    exact ⟨value, hvalue, h⟩
  · rintro ⟨value, hvalue, h⟩
    exact ⟨(), ⟨by simp [contains, hvalue], rfl⟩, value, hvalue, h⟩

lemma parsePositiveU64_eq_ok {n : UInt64} : parsePositiveU64 root field = .ok n ↔
    root.find? field = some (.numberUnsigned n) ∧ n ≠ 0 := by
  rw [parsePositiveU64, requireField_index]
  simp only [required_eq_ok, refused_eq_ok, bind_eq_ok, access_eq_ok, return_eq_ok]
  constructor
  · rintro ⟨value, hvalue, htype, m, hm, hne, rfl⟩
    cases value <;> cases hm
    exact ⟨hvalue, hne⟩
  · rintro ⟨hvalue, hne⟩
    exact ⟨_, hvalue, rfl, n, rfl, hne, rfl⟩

/-- Of an input only its upper case matters. -/
lemma parseSymbol_string (w : Str) : parseSymbol (.string w) =
    if (toUpperAscii w).isEmpty then throw (.runtimeError (ascii "Symbol must not be empty"))
    else if (toUpperAscii w).all isValidSymbolChar then return toUpperAscii w
    else throw (.runtimeError (ascii "Symbol contains invalid characters: " ++ toUpperAscii w)) :=
  rfl

lemma parseSymbol_eq_ok {item : Json} {symbol : Str} : parseSymbol item = .ok symbol ↔
    ∃ w, item = .string w ∧ symbol = toUpperAscii w ∧ symbol ≠ [] ∧
      symbol.all isValidSymbolChar = true := by
  simp only [parseSymbol, required_eq_ok, refused_eq_ok, bind_eq_ok, access_eq_ok,
    return_eq_ok, List.isEmpty_iff]
  constructor
  · rintro ⟨htype, w, hw, hne, hvalid, rfl⟩
    cases item <;> cases hw
    exact ⟨_, rfl, rfl, hne, hvalid⟩
  · rintro ⟨w, rfl, rfl, hne, hvalid⟩
    exact ⟨rfl, w, rfl, hne, hvalid, rfl⟩

/-- The symbols of a list that is accepted are the upper-case inputs, each a word. -/
lemma mapM_parseSymbol {items : List Json} {symbols : List Str} :
    items.mapM parseSymbol = .ok symbols ↔ ∃ inputs : List Str, items = inputs.map .string ∧
      symbols = inputs.map toUpperAscii ∧
      ∀ symbol ∈ symbols, symbol ≠ [] ∧ symbol.all isValidSymbolChar = true := by
  induction items generalizing symbols with
  | nil =>
      rw [List.mapM_nil, return_eq_ok]
      constructor
      · rintro rfl
        exact ⟨[], rfl, rfl, fun _ h => absurd h List.not_mem_nil⟩
      · rintro ⟨inputs, hinputs, rfl, -⟩
        rw [List.map_eq_nil_iff.mp hinputs.symm]
        rfl
  | cons item items ih =>
      simp only [List.mapM_cons, bind_eq_ok, return_eq_ok]
      constructor
      · rintro ⟨symbol, hsymbol, rest, hrest, rfl⟩
        obtain ⟨w, rfl, rfl, hword⟩ := parseSymbol_eq_ok.mp hsymbol
        obtain ⟨inputs, rfl, rfl, hall⟩ := ih.mp hrest
        exact ⟨w :: inputs, rfl, rfl, List.forall_mem_cons.mpr ⟨hword, hall⟩⟩
      · rintro ⟨_ | ⟨w, inputs⟩, hinputs, rfl, hall⟩
        · cases hinputs
        · obtain ⟨rfl, rfl⟩ := List.cons.inj hinputs
          obtain ⟨hword, hrest⟩ := List.forall_mem_cons.mp hall
          exact ⟨_, parseSymbol_eq_ok.mpr ⟨w, rfl, rfl, hword⟩, _,
            ih.mpr ⟨inputs, rfl, rfl, hrest⟩, rfl⟩

lemma parseSymbols_eq_ok {symbols : List Str} : parseSymbols root = .ok symbols ↔
    ∃ inputs : List Str, root.find? (ascii "symbols") = some (.array (inputs.map .string)) ∧
      symbols = inputs.map toUpperAscii ∧ symbols ≠ [] ∧
      ∀ symbol ∈ symbols, symbol ≠ [] ∧ symbol.all isValidSymbolChar = true := by
  rw [parseSymbols, requireField_index]
  simp only [required_eq_ok, refused_eq_ok, bind_eq_ok, access_eq_ok, return_eq_ok,
    List.isEmpty_iff]
  constructor
  · rintro ⟨value, hvalue, htype, items, hitems, symbols, hsymbols, hne, rfl⟩
    obtain ⟨inputs, rfl, rfl, hall⟩ := mapM_parseSymbol.mp hsymbols
    cases value <;> cases hitems
    exact ⟨inputs, hvalue, rfl, hne, hall⟩
  · rintro ⟨inputs, hvalue, rfl, hne, hall⟩
    exact ⟨_, hvalue, rfl, _, rfl, _, mapM_parseSymbol.mpr ⟨inputs, rfl, rfl, hall⟩, hne, rfl⟩

/-- **The symbols of a configuration** are the inputs in upper case: at least one, and each a
non-empty word of letters and digits. -/
theorem symbols_of_accepted {c : Config} (h : parseConfigJson root = .ok c) :
    ∃ inputs : List Str, root.find? (ascii "symbols") = some (.array (inputs.map .string)) ∧
      c.symbols = inputs.map toUpperAscii ∧ c.symbols ≠ [] ∧
      ∀ symbol ∈ c.symbols, symbol ≠ [] ∧ symbol.all isValidSymbolChar = true := by
  simp only [parseConfigJson, required_eq_ok, bind_eq_ok, return_eq_ok] at h
  obtain ⟨-, symbols, hsymbols, _, -, _, -, _, -, _, -, _, -, _, -, _, -, rfl⟩ := h
  exact parseSymbols_eq_ok.mp hsymbols

/-! ### What does not depend on the symbols -/

lemma requireField_congr {root' : Json} (h : root'.find? field = root.find? field) :
    requireField root' field = requireField root field := by
  rw [requireField, requireField, contains, contains, h]

lemma parsePositiveU64_congr {root' : Json} (h : root'.find? field = root.find? field) :
    parsePositiveU64 root' field = parsePositiveU64 root field := by
  rw [parsePositiveU64, parsePositiveU64, requireField_congr h, index_congr h]

lemma parseRequiredString_congr {root' : Json} (h : root'.find? field = root.find? field) :
    parseRequiredString root' field = parseRequiredString root field := by
  rw [parseRequiredString, parseRequiredString, requireField_congr h, index_congr h]

/-- Two values that differ in the symbols alone, and whose symbols are read alike, give the same
result. -/
lemma parseConfigJson_congr {root' : Json} (hobject : root'.isObject = root.isObject)
    (hsymbols : parseSymbols root' = parseSymbols root)
    (h : ∀ field, field ≠ ascii "symbols" → root'.find? field = root.find? field) :
    parseConfigJson root' = parseConfigJson root := by
  have hthreads : parseAggregatorThreads root' = parseAggregatorThreads root := by
    have hfield := h (ascii "aggregator_threads") (by decide)
    rw [parseAggregatorThreads, parseAggregatorThreads, contains, contains, hfield,
      parsePositiveU64_congr hfield]
  have hreconnect : parseReconnectConfig root' = parseReconnectConfig root := by
    have hfield := h (ascii "reconnect") (by decide)
    rw [parseReconnectConfig, parseReconnectConfig, contains, contains, hfield, index_congr hfield]
  rw [parseConfigJson, parseConfigJson, hobject, hsymbols,
    parsePositiveU64_congr (h (ascii "window_ms") (by decide)),
    parsePositiveU64_congr (h (ascii "flush_interval_ms") (by decide)), hthreads,
    parseRequiredString_congr (h (ascii "output_file") (by decide)),
    parseRequiredString_congr (h (ascii "ws_host") (by decide)),
    parseRequiredString_congr (h (ascii "ws_port") (by decide)), hreconnect]

end BinanceAggregator.ConfigLoader
