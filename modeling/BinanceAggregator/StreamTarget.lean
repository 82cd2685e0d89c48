import BinanceAggregator.ConfigLoader
import BinanceAggregator.Separated

/-!
The target of the subscription.

The symbols of the configuration are put into the path of the request in lower case, with a slash
between them. They can be read back, because what the loader accepts is in upper case and has no
slash in it.
-/

namespace BinanceAggregator.StreamTarget

open ConfigLoader Separated OutputFormat

/-- `std::tolower` in the C locale. -/
def toLower (c : UInt8) : UInt8 := if byte 'A' ≤ c ∧ c ≤ byte 'Z' then c + 32 else c

def slash : UInt8 := byte '/'

/-- What the loop adds for a symbol. -/
def stream (symbol : Str) : Str := symbol.map toLower ++ ascii "@trade"

/-- One turn of the loop, for a symbol and its index. -/
def addStream (target : Str) (entry : Str × ℕ) : Str :=
  (if entry.2 ≠ 0 then target ++ ascii "/" else target) ++ stream entry.1

def buildCombinedStreamTarget (symbols : List Str) : Str :=
  symbols.zipIdx.foldl addStream (ascii "/stream?streams=")

/-- The symbols that are named in a target: what comes before `@trade` in each piece, in upper
case. -/
def decodeTarget (target : Str) : Option (List Str) := do
  let streams ← target.dropPrefix? (ascii "/stream?streams=")
  (streams.splitOn slash).mapM fun piece => (piece.dropSuffix? (ascii "@trade")).map toUpperAscii

/-! ### Letters -/

/-- Case is all that lower case loses. -/
lemma toUpper_toLower : ∀ c, toUpper (toLower c) = toUpper c :=
  forall_byte (by decide +kernel)

lemma toLower_ne_slash : ∀ c, isAlnum c = true → toLower c ≠ slash :=
  forall_byte (by decide +kernel)

lemma toUpperAscii_toLower (w : Str) : toUpperAscii (w.map toLower) = toUpperAscii w := by
  simp [toUpperAscii, toUpper_toLower]

/-! ### Reading the target back -/

/-- After the first symbol every other one comes with its slash. -/
lemma foldl_addStream (rest : List Str) {i : ℕ} (hi : i ≠ 0) (target : Str) :
    (rest.zipIdx i).foldl addStream target =
      target ++ rest.flatMap fun symbol => ascii "/" ++ stream symbol := by
  induction rest generalizing i target with
  | nil => simp
  | cons symbol rest ih =>
      rw [List.zipIdx_cons, List.foldl_cons, ih (by omega), addStream, if_pos hi]
      simp

lemma intercalate_streams (symbol : Str) (rest : List Str) :
    [slash].intercalate ((symbol :: rest).map stream) =
      stream symbol ++ rest.flatMap fun symbol => ascii "/" ++ stream symbol := by
  induction rest generalizing symbol with
  | nil => simp
  | cons next rest ih =>
      have hslash : [slash] = ascii "/" := rfl
      rw [List.map_cons, List.map_cons, List.intercalate_cons_cons, ← List.map_cons, ih, hslash]
      simp

lemma build_eq (symbols : List Str) : buildCombinedStreamTarget symbols =
    ascii "/stream?streams=" ++ [slash].intercalate (symbols.map stream) := by
  cases symbols with
  | nil => rfl
  | cons symbol rest =>
      rw [intercalate_streams, buildCombinedStreamTarget, List.zipIdx_cons, List.foldl_cons,
        foldl_addStream rest (by decide), addStream, if_neg (by simp), List.append_assoc]

lemma slash_not_mem_stream {symbol : Str} (h : symbol.all isValidSymbolChar = true) :
    slash ∉ stream symbol := by
  intro hmem
  rcases List.mem_append.mp hmem with hmem | hmem
  · obtain ⟨c, hc, heq⟩ := List.mem_map.mp hmem
    exact toLower_ne_slash c (List.all_eq_true.mp h c hc) heq
  · exact absurd hmem (by decide)

lemma decode_stream {w : Str} : ((stream (toUpperAscii w)).dropSuffix? (ascii "@trade")).map
    toUpperAscii = some (toUpperAscii w) := by
  have hdrop : (stream (toUpperAscii w)).dropSuffix? (ascii "@trade") =
      some ((toUpperAscii w).map toLower) :=
    List.dropSuffix?_eq_some_iff.mpr ⟨ascii "@trade", rfl, beq_self_eq_true _⟩
  rw [hdrop, Option.map_some, toUpperAscii_toLower]
  simp [toUpperAscii, toUpper_toUpper]

/-- Symbols in upper case without a slash are read back. -/
lemma decode_build {inputs : List Str} (hne : inputs ≠ [])
    (h : ∀ symbol ∈ inputs.map toUpperAscii, symbol.all isValidSymbolChar = true) :
    decodeTarget (buildCombinedStreamTarget (inputs.map toUpperAscii)) =
      some (inputs.map toUpperAscii) := by
  have hsplit : ([slash].intercalate ((inputs.map toUpperAscii).map stream)).splitOn slash =
      (inputs.map toUpperAscii).map stream := by
    refine List.splitOn_intercalate slash (fun piece hpiece => ?_) (by simpa using hne)
    obtain ⟨symbol, hsymbol, rfl⟩ := List.mem_map.mp hpiece
    exact slash_not_mem_stream (h symbol hsymbol)
  have hpieces : ∀ ws : List Str, ((ws.map toUpperAscii).map stream).mapM
      (fun piece => (piece.dropSuffix? (ascii "@trade")).map toUpperAscii) =
      some (ws.map toUpperAscii) := by
    intro ws
    induction ws with
    | nil => rfl
    | cons w ws ih =>
        rw [List.map_cons, List.map_cons, List.mapM_cons, decode_stream, ih]
        rfl
  rw [decodeTarget, build_eq, dropPrefix?_append]
  change (List.splitOn slash _).mapM _ = _
  rw [hsplit, hpieces]

/-- Of a configuration that is accepted the symbols are read back from the target. -/
lemma decode_of_accepted {root : Json} {c : ConfigLoader.Config} (h : parseConfigJson root = .ok c) :
    decodeTarget (buildCombinedStreamTarget c.symbols) = some c.symbols := by
  obtain ⟨inputs, -, hsymbols, hne, hall⟩ := symbols_of_accepted h
  rw [hsymbols] at hne hall ⊢
  exact decode_build (by simpa using hne) fun symbol hmem => (hall symbol hmem).2

/-! ### The case of the inputs -/

lemma parseSymbol_toLower (w : Str) :
    parseSymbol (.string (w.map toLower)) = parseSymbol (.string w) := by
  rw [parseSymbol_string, parseSymbol_string, toUpperAscii_toLower]

lemma parseSymbols_toLower {root root' : Json} {before after : List Json} {w : Str}
    (h : root.find? (ascii "symbols") = some (.array (before ++ .string w :: after)))
    (h' : root'.find? (ascii "symbols") =
      some (.array (before ++ .string (w.map toLower) :: after))) :
    parseSymbols root' = parseSymbols root := by
  have hmap : (before ++ .string (w.map toLower) :: after).mapM parseSymbol =
      (before ++ .string w :: after).mapM parseSymbol := by
    rw [List.mapM_append, List.mapM_append, List.mapM_cons, List.mapM_cons, parseSymbol_toLower]
  rw [parseSymbols, parseSymbols, requireField, requireField, Json.contains, Json.contains, h, h',
    Json.index_of_find? h, Json.index_of_find? h']
  change (do let symbols ← List.mapM parseSymbol _; _) = (do let symbols ← List.mapM parseSymbol _; _)
  rw [hmap]

/-- **Symbols survive the encoding.** The target of a configuration that is accepted names its
symbols, in order. So two such configurations have the same target exactly if their inputs are
the same in upper case; and a symbol of the input may be put into lower case without any change
to the configuration. -/
theorem target_names_symbols :
    (∀ root c, parseConfigJson root = .ok c →
      decodeTarget (buildCombinedStreamTarget c.symbols) = some c.symbols) ∧
    (∀ root root' c c' (inputs inputs' : List Str), parseConfigJson root = .ok c →
      parseConfigJson root' = .ok c' →
      root.find? (ascii "symbols") = some (.array (inputs.map .string)) →
      root'.find? (ascii "symbols") = some (.array (inputs'.map .string)) →
      (buildCombinedStreamTarget c.symbols = buildCombinedStreamTarget c'.symbols ↔
        inputs.map toUpperAscii = inputs'.map toUpperAscii)) ∧
    (∀ (root root' : Json) (before after : List Json) (w : Str),
      root.find? (ascii "symbols") = some (.array (before ++ .string w :: after)) →
      root'.find? (ascii "symbols") =
        some (.array (before ++ .string (w.map toLower) :: after)) →
      (∀ field, field ≠ ascii "symbols" → root'.find? field = root.find? field) →
      parseConfigJson root' = parseConfigJson root) := by
  refine ⟨fun root c => decode_of_accepted, fun root root' c c' inputs inputs' h h' hin hin' => ?_,
    fun root root' before after w h h' hrest => ?_⟩
  · have hinput {r : Json} {d : ConfigLoader.Config} {ws : List Str} (hr : parseConfigJson r = .ok d)
        (hws : r.find? (ascii "symbols") = some (.array (ws.map .string))) :
        d.symbols = ws.map toUpperAscii := by
      obtain ⟨vs, hvs, hsymbols, -⟩ := symbols_of_accepted hr
      have heq : vs.map Json.string = ws.map Json.string :=
        Json.array.inj (Option.some.inj (hvs.symm.trans hws))
      rw [hsymbols, List.map_injective_iff.mpr (fun _ _ => Json.string.inj) heq]
    rw [← hinput h hin, ← hinput h' hin']
    refine ⟨fun htarget => ?_, fun hsymbols => by rw [hsymbols]⟩
    have hdecode := decode_of_accepted h
    rw [htarget, decode_of_accepted h'] at hdecode
    exact (Option.some.inj hdecode).symm
  · have hobject : root'.isObject = root.isObject := by
      rw [Json.isObject_of_find? h, Json.isObject_of_find? h']
    exact parseConfigJson_congr hobject (parseSymbols_toLower h h') hrest

/-- A configuration file with two symbols. -/
def symbolsFile (first second : String) : Json := .object
  [(ascii "symbols", .array [.string (ascii first), .string (ascii second)]),
    (ascii "window_ms", .numberUnsigned 1000), (ascii "flush_interval_ms", .numberUnsigned 1000),
    (ascii "output_file", .string (ascii "out.log")),
    (ascii "ws_host", .string (ascii "localhost")), (ascii "ws_port", .string (ascii "9443"))]

theorem target_names_symbols_lower : ∃ c c',
    parseConfigJson (symbolsFile "BTCUSDT" "ethusdt") = .ok c ∧
    parseConfigJson (symbolsFile "btcusdt" "ethusdt") = .ok c' ∧
    buildCombinedStreamTarget c.symbols = ascii "/stream?streams=btcusdt@trade/ethusdt@trade" ∧
    decodeTarget (buildCombinedStreamTarget c.symbols) = some c.symbols ∧
    buildCombinedStreamTarget c.symbols = buildCombinedStreamTarget c'.symbols ∧
    parseConfigJson (symbolsFile "btcusdt" "ethusdt") =
      parseConfigJson (symbolsFile "BTCUSDT" "ethusdt") := by
  obtain ⟨hnames, hsame, hlower⟩ := target_names_symbols
  have hupper : parseConfigJson (symbolsFile "BTCUSDT" "ethusdt") = .ok _ := rfl
  have hinput : parseConfigJson (symbolsFile "btcusdt" "ethusdt") = .ok _ := rfl
  refine ⟨_, _, hupper, hinput, by decide, hnames _ _ hupper,
    (hsame _ _ _ _ [ascii "BTCUSDT", ascii "ethusdt"] [ascii "btcusdt", ascii "ethusdt"] hupper
      hinput rfl rfl).mpr (by decide), ?_⟩
  refine hlower _ _ [] [.string (ascii "ethusdt")] (ascii "BTCUSDT") rfl rfl fun field hfield => ?_
  have hno : (field == ascii "symbols") = false := by simpa using hfield
  simp only [symbolsFile, Json.find?, List.lookup_cons, hno]

end BinanceAggregator.StreamTarget
