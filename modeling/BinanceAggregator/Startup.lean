import BinanceAggregator.Acceptance
import BinanceAggregator.FileOutputSink
import BinanceAggregator.StreamTarget

/-!
From the command line to the running service.

`main` takes the path of the configuration from its arguments, loads the file, opens the output and
builds and starts the two stages. The first two steps report what goes wrong and return; a failure
to open the output leaves `main` as an exception, and so does every refusal of what the stages ask
for: room in their vectors, memory and threads. What the stages are built from is what their runs
assume: a window of some width, queues with room, a backoff that the reconnect policy is made for.
-/

namespace BinanceAggregator

/-! ### The command line -/

structure CliOptions where
  configPath : Str := ascii "config/config.json"

namespace CliOptions

def kConfigFlag : Str := ascii "--config"

def kConfigFlagWithEquals : Str := ascii "--config="

/-- The loop over the arguments. -/
def parseArgs (options : CliOptions) : List Str → Except Str CliOptions
  | [] => .ok options
  | arg :: rest =>
    if arg = kConfigFlag then
      match rest with
      | [] => .error (ascii "--config requires a path argument")
      | path :: rest => parseArgs { options with configPath := path } rest
    else if kConfigFlagWithEquals <+: arg then
      parseArgs { options with configPath := arg.drop kConfigFlagWithEquals.length } rest
    else parseArgs options rest

/-- `parse_cli_options`. The first argument is the name of the program. -/
def parseCliOptions (argv : List Str) : Except Str CliOptions := parseArgs {} argv.tail

/-- What the arguments are made of: the two forms in which a path is given, and what is ignored. -/
inductive Item
  | separate (path : Str)
  | joined (path : Str)
  | ignored (arg : Str) (h : arg ≠ kConfigFlag ∧ ¬ kConfigFlagWithEquals <+: arg)

def Item.words : Item → List Str
  | .separate path => [kConfigFlag, path]
  | .joined path => [kConfigFlagWithEquals ++ path]
  | .ignored arg _ => [arg]

def Item.path? : Item → Option Str
  | .separate path | .joined path => some path
  | .ignored _ _ => none

/-- The path that the items give: the last one. -/
def pathOf (default : Str) (items : List Item) : Str :=
  (items.filterMap Item.path?).getLastD default

lemma pathOf_cons (default : Str) (item : Item) (items : List Item) :
    pathOf default (item :: items) = pathOf (item.path?.getD default) items := by
  cases item with
  | ignored arg h => rfl
  | separate path | joined path =>
      simp only [pathOf, List.filterMap_cons, Item.path?, Option.getD_some]
      cases items.filterMap Item.path? <;> rfl

lemma joined_ne_flag (path : Str) : kConfigFlagWithEquals ++ path ≠ kConfigFlag := by
  intro he
  have hlength := congrArg List.length he
  rw [List.length_append] at hlength
  change 9 + path.length = 8 at hlength
  omega

lemma parseArgs_of_ne {arg : Str} (h : arg ≠ kConfigFlag) (options : CliOptions)
    (rest : List Str) : parseArgs options (arg :: rest) =
      if kConfigFlagWithEquals <+: arg then
        parseArgs { options with configPath := arg.drop kConfigFlagWithEquals.length } rest
      else parseArgs options rest := by
  rw [parseArgs.eq_def]
  exact if_neg h

/-- The loop goes through the arguments item by item. -/
lemma parseArgs_words (options : CliOptions) (item : Item) (rest : List Str) :
    parseArgs options (item.words ++ rest) =
      parseArgs ⟨item.path?.getD options.configPath⟩ rest := by
  cases item with
  | separate path => rfl
  | joined path =>
      refine (parseArgs_of_ne (joined_ne_flag path) options rest).trans ?_
      rw [if_pos (List.prefix_append _ _), List.drop_left]
      rfl
  | ignored arg h =>
      refine (parseArgs_of_ne h.1 options rest).trans ?_
      rw [if_neg h.2]
      rfl

lemma parseArgs_items (items : List Item) (rest : List Str) (options : CliOptions) :
    parseArgs options (items.flatMap Item.words ++ rest) =
      parseArgs ⟨pathOf options.configPath items⟩ rest := by
  induction items generalizing options with
  | nil => rfl
  | cons item items ih =>
      rw [List.flatMap_cons, List.append_assoc, parseArgs_words, ih, pathOf_cons]

/-- An argument other than the flag is an item by itself. -/
lemma exists_item {arg : Str} (h : arg ≠ kConfigFlag) : ∃ item : Item, item.words = [arg] := by
  by_cases hjoined : kConfigFlagWithEquals <+: arg
  · obtain ⟨path, rfl⟩ := hjoined
    exact ⟨.joined path, rfl⟩
  · exact ⟨.ignored arg ⟨h, hjoined⟩, rfl⟩

/-- All arguments can be read as items, up to a flag that nothing follows. -/
lemma exists_items (args : List Str) : ∃ items : List Item,
    args = items.flatMap Item.words ∨ args = items.flatMap Item.words ++ [kConfigFlag] := by
  induction args using List.twoStepInduction with
  | nil => exact ⟨[], .inl rfl⟩
  | singleton arg =>
      by_cases hflag : arg = kConfigFlag
      · exact ⟨[], .inr (by rw [hflag]; rfl)⟩
      · obtain ⟨item, hitem⟩ := exists_item hflag
        exact ⟨[item], .inl (by simp [hitem])⟩
  | cons_cons arg next rest ih ih' =>
      by_cases hflag : arg = kConfigFlag
      · -- the flag takes the argument after it, whatever that is
        obtain ⟨items, hitems⟩ := ih
        refine ⟨.separate next :: items, ?_⟩
        simpa [Item.words, hflag] using hitems
      · obtain ⟨item, hitem⟩ := exists_item hflag
        obtain ⟨items, hitems⟩ := ih' next
        refine ⟨item :: items, ?_⟩
        simpa [hitem] using hitems

/-- **The command line is read by its grammar**: the arguments are accepted just when they are a
sequence of paths, in either form, and of arguments that are ignored; the last path counts, or the
default. They are rejected, with the one message, just when such a sequence ends in a flag without
its path. -/
theorem parseCliOptions_exact (program : Str) (args : List Str) :
    (∀ path, parseCliOptions (program :: args) = .ok ⟨path⟩ ↔ ∃ items : List Item,
      args = items.flatMap Item.words ∧ path = pathOf (ascii "config/config.json") items) ∧
    ∀ message, parseCliOptions (program :: args) = .error message ↔
      message = ascii "--config requires a path argument" ∧ ∃ items : List Item,
        args = items.flatMap Item.words ++ [kConfigFlag] := by
  have hok (items : List Item) : parseCliOptions (program :: items.flatMap Item.words) =
      .ok ⟨pathOf (ascii "config/config.json") items⟩ := by
    have hitems := parseArgs_items items [] {}
    rwa [List.append_nil] at hitems
  have herror (items : List Item) : parseCliOptions
      (program :: (items.flatMap Item.words ++ [kConfigFlag])) =
        .error (ascii "--config requires a path argument") := parseArgs_items items [kConfigFlag] {}
  refine ⟨fun path => ⟨fun h => ?_, ?_⟩, fun message => ⟨fun h => ?_, ?_⟩⟩
  · obtain ⟨items, rfl | rfl⟩ := exists_items args
    · rw [hok] at h
      cases h
      exact ⟨items, rfl, rfl⟩
    · rw [herror] at h
      cases h
  · rintro ⟨items, rfl, rfl⟩
    exact hok items
  · obtain ⟨items, rfl | rfl⟩ := exists_items args
    · rw [hok] at h
      cases h
    · rw [herror] at h
      cases h
      exact ⟨rfl, items, rfl⟩
  · rintro ⟨rfl, items, rfl⟩
    exact herror items

end CliOptions

/-! ### Every valid configuration has a file -/

namespace ConfigLoader

open Json

/-- A configuration as a file with all its members. -/
def render (c : Config) : Json := .object
  [(ascii "symbols", .array (c.symbols.map .string)),
    (ascii "window_ms", .numberUnsigned c.windowMs),
    (ascii "flush_interval_ms", .numberUnsigned c.flushIntervalMs),
    (ascii "aggregator_threads", .numberUnsigned c.aggregatorThreads),
    (ascii "output_file", .string c.outputFile), (ascii "ws_host", .string c.wsHost),
    (ascii "ws_port", .string c.wsPort),
    (ascii "reconnect", .object
      [(ascii "initial_backoff_ms", .numberUnsigned c.reconnect.initialBackoffMs),
        (ascii "max_backoff_ms", .numberUnsigned c.reconnect.maxBackoffMs),
        (ascii "jitter_ratio", .numberFloat c.reconnect.jitterRatio)])]

lemma Valid.describes {c : Config} (h : Valid c) : Describes (render c) c := by
  have hmax : 0 < c.reconnect.maxBackoffMs := UInt64.lt_of_lt_of_le h.initialBackoffMs h.ordered
  have hupper : c.symbols.map toUpperAscii = c.symbols := by
    conv_rhs => rw [← List.map_id c.symbols]
    exact List.map_congr_left fun w hw => (h.symbols w hw).2
  refine ⟨rfl, ⟨c.symbols, ⟨rfl, h.symbols_ne_nil, fun w hw => (h.symbols w hw).1⟩, hupper.symm⟩,
    ⟨rfl, h.windowMs⟩, ⟨rfl, h.flushIntervalMs⟩, .inr ⟨rfl, h.aggregatorThreads⟩,
    ⟨rfl, h.outputFile⟩, ⟨rfl, h.wsHost⟩, ⟨rfl, h.wsPort⟩, .inr ⟨_, rfl, ?_⟩⟩
  exact ⟨rfl, .inr ⟨rfl, h.initialBackoffMs⟩, .inr ⟨rfl, hmax⟩, h.ordered,
    .inr ⟨_, rfl, rfl, h.jitterRatio⟩⟩

/-- **Configurations survive being written down**, those that the loader can return and no others.
-/
theorem config_roundtrip (c : Config) : Valid c ↔ parseConfigJson (render c) = .ok c := by
  rw [parseConfigJson_iff]
  exact ⟨Valid.describes, Describes.valid⟩

end ConfigLoader

/-! ### From the arguments to the stages -/

/-- What building and starting the stages asks for: room in the two vectors of the pipeline, the
shards, the network stage, which has a source of random numbers, and the threads. -/
inductive Request
  | reserveShards (count : ℕ)
  | shard (i : ℕ)
  | networkStage
  | parserThread
  | reserveThreads (count : ℕ)
  | aggregationThread (i : ℕ)
  | writerThread
  | networkThread

/-- How many elements a vector is asked to have room for. -/
def Request.size : Request → ℕ
  | .reserveShards count | .reserveThreads count => count
  | _ => 0

/-- What the process finds: the contents of the files it can read, what the JSON library makes of a
text or says is wrong with it or with an access, and the contents of the files it can append to,
which are empty where the file is then created. Vectors have a greatest size, and the system may
refuse a request with an exception. -/
structure Host where
  files : Str → Option Str
  readJson : Str → Except Str Json
  accessWhat : Json.AccessError → Str
  outputs : Str → Option Str
  maxSize : ℕ
  lengthError : Str
  provide : Request → Except Str Unit

/-- What a request returns or throws. `reserve` throws before it asks for memory where the size is
more than a vector can have. -/
def Host.answer (host : Host) (r : Request) : Except Str Unit :=
  if host.maxSize < r.size then .error host.lengthError else host.provide r

namespace ConfigLoader

/-- `what()` of an exception. -/
def LoadError.what (host : Host) : LoadError → Str
  | .access error => host.accessWhat error
  | .runtimeError message => message

def loadFromFile (host : Host) (path : Str) : Except LoadError Config :=
  match host.files path with
  | none => .error (.runtimeError (ascii "Failed to open config file: " ++ path))
  | some contents =>
    match host.readJson contents with
    | .error what => .error (.runtimeError
        (ascii "Failed to parse config file '" ++ path ++ ascii "': " ++ what))
    | .ok root => parseConfigJson root

/-- The file at the path holds a configuration. -/
def FileDescribes (host : Host) (path : Str) (c : Config) : Prop :=
  ∃ contents root, host.files path = some contents ∧ host.readJson contents = .ok root ∧
    Describes root c

lemma loadFromFile_iff {host : Host} {path : Str} {c : Config} :
    loadFromFile host path = .ok c ↔ FileDescribes host path c := by
  unfold loadFromFile FileDescribes
  cases hfile : host.files path with
  | none => simp
  | some contents =>
      cases hjson : host.readJson contents with
      | error what => simp [hjson]
      | ok root => simp [hjson, parseConfigJson_iff]

end ConfigLoader

namespace Startup

open CliOptions ConfigLoader StreamTarget Fallible

/-- The constructor of `MarketDataPipeline`. -/
def constructPipeline (c : ConfigLoader.Config) : List Request :=
  .reserveShards c.pipeline.shardCount :: (List.range c.pipeline.shardCount).map .shard

/-- `MarketDataPipeline::start`. -/
def startPipeline (c : ConfigLoader.Config) : List Request :=
  [.parserThread, .reserveThreads c.pipeline.shardCount]
    ++ (List.range c.pipeline.shardCount).map .aggregationThread ++ [.writerThread]

/-- What `main` asks for once the output is open, in order. -/
def requests (c : ConfigLoader.Config) : List Request :=
  constructPipeline c ++ [.networkStage] ++ startPipeline c ++ [.networkThread]

/-- How far `main` comes: it returns `EXIT_FAILURE` after it has logged a message, an exception
leaves it, or the stages are built and started. -/
inductive Outcome
  | exitFailure (log : Str)
  | uncaught (what : Str)
  | serving (config : ConfigLoader.Config) (sink : FileOutputSink) (target : Str)

/-- `main`, up to the loop in which it waits for a signal. -/
def main (host : Host) (argv : List Str) : Outcome :=
  match parseCliOptions argv with
  | .error what => .exitFailure (ascii "Failed to parse command-line arguments: " ++ what)
  | .ok options =>
    match loadFromFile host options.configPath with
    | .error error => .exitFailure (ascii "Failed to load configuration: " ++ error.what host)
    | .ok config =>
      let file := host.outputs config.outputFile
      match FileOutputSink.openFile config.outputFile (file.getD []) file.isSome with
      | .error what => .uncaught what
      | .ok sink =>
        match (requests config).forM host.answer with
        | .error what => .uncaught what
        | .ok _ => .serving config sink (buildCombinedStreamTarget config.symbols)

/-- Nothing that the stages ask for is refused. -/
def Granted (host : Host) (c : ConfigLoader.Config) : Prop :=
  ∀ r ∈ requests c, host.answer r = .ok ()

/-- The first request that is refused is refused with `what`. -/
def Refused (host : Host) (c : ConfigLoader.Config) (what : Str) : Prop :=
  ∃ u r v, requests c = u ++ r :: v ∧ (∀ q ∈ u, host.answer q = .ok ()) ∧
    host.answer r = .error what

/-- The arguments name a file that holds the configuration. -/
def Configures (host : Host) (args : List Str) (c : ConfigLoader.Config) : Prop :=
  ∃ items : List Item, args = items.flatMap Item.words ∧
    FileDescribes host (pathOf (ascii "config/config.json") items) c

variable {host : Host} {args : List Str} {c : ConfigLoader.Config}

lemma configures_iff (program : Str) : Configures host args c ↔ ∃ options,
    parseCliOptions (program :: args) = .ok options ∧
      loadFromFile host options.configPath = .ok c := by
  have hcli := (parseCliOptions_exact program args).1
  constructor
  · rintro ⟨items, hargs, hfile⟩
    exact ⟨⟨_⟩, (hcli _).mpr ⟨items, hargs, rfl⟩, loadFromFile_iff.mpr hfile⟩
  · rintro ⟨⟨path⟩, hoptions, hload⟩
    obtain ⟨items, hargs, rfl⟩ := (hcli path).mp hoptions
    exact ⟨items, hargs, loadFromFile_iff.mp hload⟩

/-- With a configuration, what is left is to open the output and to build the stages. -/
lemma main_of_configures (program : Str) (h : Configures host args c) :
    main host (program :: args) = match host.outputs c.outputFile with
      | none => .uncaught (ascii "Failed to open output file: " ++ c.outputFile)
      | some file => match (requests c).forM host.answer with
        | .error what => .uncaught what
        | .ok _ => .serving c { contents := file } (buildCombinedStreamTarget c.symbols) := by
  obtain ⟨options, hoptions, hload⟩ := (configures_iff program).mp h
  simp only [main, hoptions, hload, FileOutputSink.openFile]
  cases host.outputs c.outputFile <;> rfl

lemma main_of_granted {file : Str} (program : Str) (h : Configures host args c)
    (hfile : host.outputs c.outputFile = some file) (hg : Granted host c) :
    main host (program :: args) =
      .serving c { contents := file } (buildCombinedStreamTarget c.symbols) := by
  rw [main_of_configures program h, hfile, forM_eq_ok.mpr hg]

lemma main_of_refused {file what : Str} (program : Str) (h : Configures host args c)
    (hfile : host.outputs c.outputFile = some file) (hr : Refused host c what) :
    main host (program :: args) = .uncaught what := by
  rw [main_of_configures program h, hfile, forM_eq_error.mpr hr]

lemma main_of_unopened (program : Str) (h : Configures host args c)
    (hfile : host.outputs c.outputFile = none) :
    main host (program :: args) =
      .uncaught (ascii "Failed to open output file: " ++ c.outputFile) := by
  rw [main_of_configures program h, hfile]

/-- Without one, `main` returns. -/
lemma main_of_not_configures (program : Str) (h : ∀ c, ¬ Configures host args c) :
    ∃ log, main host (program :: args) = .exitFailure log := by
  unfold main
  cases hoptions : parseCliOptions (program :: args) with
  | error what => exact ⟨_, rfl⟩
  | ok options =>
      cases hload : loadFromFile host options.configPath with
      | error error =>
          simp only [hload]
          exact ⟨_, rfl⟩
      | ok c => exact absurd ((configures_iff program).mpr ⟨options, hoptions, hload⟩) (h c)

/-- The stages get all they ask for, or something is refused first. -/
lemma granted_or_refused (host : Host) (c : ConfigLoader.Config) :
    Granted host c ∨ ∃ what, Refused host c what := by
  cases h : (requests c).forM host.answer with
  | ok _ => exact .inl (forM_eq_ok.mp h)
  | error what => exact .inr ⟨what, forM_eq_error.mp h⟩

/-- The four ends. -/
inductive Ends (host : Host) (args : List Str) : Outcome → Prop
  | serving {c : ConfigLoader.Config} {file : Str} (h : Configures host args c)
      (hfile : host.outputs c.outputFile = some file) (hg : Granted host c) :
      Ends host args (.serving c { contents := file } (buildCombinedStreamTarget c.symbols))
  | refused {c : ConfigLoader.Config} {file what : Str} (h : Configures host args c)
      (hfile : host.outputs c.outputFile = some file) (hr : Refused host c what) :
      Ends host args (.uncaught what)
  | unopened {c : ConfigLoader.Config} (h : Configures host args c)
      (hfile : host.outputs c.outputFile = none) :
      Ends host args (.uncaught (ascii "Failed to open output file: " ++ c.outputFile))
  | unconfigured {log : Str} (h : ∀ c, ¬ Configures host args c) :
      Ends host args (.exitFailure log)

lemma main_ends (host : Host) (program : Str) (args : List Str) :
    Ends host args (main host (program :: args)) := by
  by_cases hc : ∃ c, Configures host args c
  · obtain ⟨c, hc⟩ := hc
    cases hfile : host.outputs c.outputFile with
    | none =>
        rw [main_of_unopened program hc hfile]
        exact .unopened hc hfile
    | some file =>
        rcases granted_or_refused host c with hg | ⟨what, hr⟩
        · rw [main_of_granted program hc hfile hg]
          exact .serving hc hfile hg
        · rw [main_of_refused program hc hfile hr]
          exact .refused hc hfile hr
  · have hno := not_exists.mp hc
    obtain ⟨log, hmain⟩ := main_of_not_configures program hno
    rw [hmain]
    exact .unconfigured hno

/-- What the stages are built from is what their runs assume. -/
lemma Configures.stages (h : Configures host args c) : Valid c ∧
    0 < c.pipeline.windowMs ∧ 1 ≤ c.pipeline.queueCapacity ∧
    c.pipeline.shardCount = c.aggregatorThreads.toNat ∧
    decodeTarget (buildCombinedStreamTarget c.symbols) = some c.symbols ∧
    ∃ R : ReconnectConfig, R.initialBackoffMs = c.reconnect.initialBackoffMs ∧
      R.maxBackoffMs = c.reconnect.maxBackoffMs := by
  obtain ⟨items, -, contents, root, -, -, hdescribes⟩ := h
  have haccepted := parseConfigJson_iff.mpr hdescribes
  have hvalid := hdescribes.valid
  have hthreads : 0 < c.aggregatorThreads.toNat :=
    UInt64.lt_iff_toNat_lt.mp hvalid.aggregatorThreads
  exact ⟨hvalid, hvalid.windowMs, Nat.le_add_left 1 4095, max_eq_left hthreads,
    decode_of_accepted haccepted, reconnect_of_accepted haccepted⟩

/-- More shards than a vector can have are refused at once. -/
lemma refused_of_maxSize_lt (h : host.maxSize < c.pipeline.shardCount) :
    Refused host c host.lengthError :=
  ⟨[], .reserveShards c.pipeline.shardCount, _, rfl, fun _ hq => absurd hq List.not_mem_nil,
    if_pos h⟩

/-- **The service starts just when it should.** It serves where the arguments name a file that holds
a configuration, its output can be opened and nothing is refused that the stages ask for: with that
configuration, the output as it was and the target of the symbols. If the output cannot be opened,
or else at the first request that is refused, an exception leaves `main`; without a configuration it
returns `EXIT_FAILURE`. A configuration is one that the stages are made for, except that one with
more threads than a vector can have elements is never served. -/
theorem startup_exact (host : Host) (program : Str) (args : List Str) :
    (∀ c sink target, main host (program :: args) = .serving c sink target ↔
      Configures host args c ∧ host.outputs c.outputFile = some sink.contents ∧
        sink.good = true ∧ target = buildCombinedStreamTarget c.symbols ∧ Granted host c) ∧
    (∀ what, main host (program :: args) = .uncaught what ↔ ∃ c, Configures host args c ∧
      (host.outputs c.outputFile = none ∧
          what = ascii "Failed to open output file: " ++ c.outputFile ∨
        (host.outputs c.outputFile).isSome = true ∧ Refused host c what)) ∧
    ((∃ log, main host (program :: args) = .exitFailure log) ↔ ∀ c, ¬ Configures host args c) ∧
    ∀ c, Configures host args c → Valid c ∧ 0 < c.pipeline.windowMs ∧
      1 ≤ c.pipeline.queueCapacity ∧ c.pipeline.shardCount = c.aggregatorThreads.toNat ∧
      decodeTarget (buildCombinedStreamTarget c.symbols) = some c.symbols ∧
      (∃ R : ReconnectConfig, R.initialBackoffMs = c.reconnect.initialBackoffMs ∧
        R.maxBackoffMs = c.reconnect.maxBackoffMs) ∧
      (host.maxSize < c.aggregatorThreads.toNat → Refused host c host.lengthError) := by
  have hends := main_ends host program args
  refine ⟨fun c sink target => ⟨fun h => ?_, ?_⟩, fun what => ⟨fun h => ?_, ?_⟩, ⟨?_, fun h => ?_⟩,
    fun c hc => ?_⟩
  · rw [h] at hends
    cases hends with
    | serving hc hfile hg => exact ⟨hc, hfile, rfl, rfl, hg⟩
  · rintro ⟨hc, hfile, hgood, rfl, hg⟩
    obtain ⟨contents, good⟩ := sink
    obtain rfl : good = true := hgood
    exact main_of_granted program hc hfile hg
  · rw [h] at hends
    cases hends with
    | refused hc hfile hr => exact ⟨_, hc, .inr ⟨by rw [hfile]; rfl, hr⟩⟩
    | unopened hc hfile => exact ⟨_, hc, .inl ⟨hfile, rfl⟩⟩
  · rintro ⟨c, hc, ⟨hfile, rfl⟩ | ⟨hsome, hr⟩⟩
    · exact main_of_unopened program hc hfile
    · obtain ⟨file, hfile⟩ := Option.isSome_iff_exists.mp hsome
      exact main_of_refused program hc hfile hr
  · rintro ⟨log, h⟩
    rw [h] at hends
    cases hends with
    | unconfigured hno => exact hno
  · exact main_of_not_configures program h
  · obtain ⟨hvalid, hwindow, hqueue, hshards, htarget, hpolicy⟩ := hc.stages
    exact ⟨hvalid, hwindow, hqueue, hshards, htarget, hpolicy,
      fun h => refused_of_maxSize_lt (hshards ▸ h)⟩

/-! ### Two files -/

/-- A configuration, and the text of its file. -/
def sampleSettings (threads : UInt64) : ConfigLoader.Config :=
  ⟨[ascii "BTCUSDT"], 1000, 500, threads, ascii "out.log", ascii "localhost", ascii "9443",
    ⟨500, 30000, 1 / 2⟩⟩

def sampleFile (threads : String) : Str :=
  ascii "\x7b\"symbols\":[\"BTCUSDT\"],\"window_ms\":1000,\"flush_interval_ms\":500,"
    ++ ascii "\"aggregator_threads\":" ++ ascii threads
    ++ ascii ",\"output_file\":\"out.log\",\"ws_host\":\"localhost\",\"ws_port\":\"9443\","
    ++ ascii "\"reconnect\":\x7b\"initial_backoff_ms\":500,\"max_backoff_ms\":30000,"
    ++ ascii "\"jitter_ratio\":0.5\x7d\x7d"

/-- Two files, one of which asks for as many threads as 64 bits can count. -/
def sampleHost : Host where
  files path :=
    if path = ascii "config/config.json" then some (sampleFile "2")
    else if path = ascii "wide.json" then some (sampleFile "18446744073709551615")
    else none
  readJson contents :=
    if contents = sampleFile "2" then .ok (render (sampleSettings 2))
    else if contents = sampleFile "18446744073709551615" then
      .ok (render (sampleSettings 18446744073709551615))
    else .error (ascii "syntax error")
  accessWhat _ := ascii "type error"
  outputs path := if path = ascii "out.log" then some [] else none
  maxSize := 2 ^ 60 - 1
  lengthError := ascii "vector::reserve"
  provide _ := .ok ()

lemma valid_sampleSettings {threads : UInt64} (h : 0 < threads) :
    Valid (sampleSettings threads) where
  symbols_ne_nil := List.cons_ne_nil _ _
  symbols := by
    simp only [sampleSettings, List.mem_singleton, forall_eq, Word]
    decide
  windowMs := (by decide : (0 : UInt64) < 1000)
  flushIntervalMs := (by decide : (0 : UInt64) < 500)
  aggregatorThreads := h
  outputFile := (by decide : ascii "out.log" ≠ [])
  wsHost := (by decide : ascii "localhost" ≠ [])
  wsPort := (by decide : ascii "9443" ≠ [])
  initialBackoffMs := (by decide : (0 : UInt64) < 500)
  ordered := (by decide : (500 : UInt64) ≤ 30000)
  jitterRatio := by norm_num [sampleSettings]

/-- The one is served, the other leaves `main` with the exception of `reserve`. -/
theorem startup_exact_sampleHost :
    main sampleHost [ascii "binance_aggregator"] = .serving (sampleSettings 2) { contents := [] }
      (ascii "/stream?streams=btcusdt@trade") ∧
    main sampleHost [ascii "binance_aggregator", ascii "--config", ascii "wide.json"] =
      .uncaught (ascii "vector::reserve") := by
  have hserves := (startup_exact sampleHost (ascii "binance_aggregator") []).1
  have hleaves := (startup_exact sampleHost (ascii "binance_aggregator")
    [ascii "--config", ascii "wide.json"]).2.1
  have htwo : FileDescribes sampleHost (ascii "config/config.json") (sampleSettings 2) :=
    ⟨sampleFile "2", render (sampleSettings 2), by simp [sampleHost], by simp [sampleHost],
      (valid_sampleSettings (by decide)).describes⟩
  have hpath : ascii "wide.json" ≠ ascii "config/config.json" := by decide
  have hother : sampleFile "18446744073709551615" ≠ sampleFile "2" := by decide +kernel
  have hwide : FileDescribes sampleHost (ascii "wide.json") (sampleSettings 18446744073709551615) :=
    ⟨sampleFile "18446744073709551615", render (sampleSettings 18446744073709551615),
      by simp [sampleHost, hpath], by simp [sampleHost, hother],
      (valid_sampleSettings (by decide)).describes⟩
  constructor
  · exact (hserves _ _ _).mpr
      ⟨⟨[], rfl, htwo⟩, by decide, rfl, by decide, forM_eq_ok.mp rfl⟩
  · exact (hleaves _).mpr ⟨_, ⟨[.separate (ascii "wide.json")], rfl, hwide⟩,
      .inr ⟨by decide, refused_of_maxSize_lt (by decide)⟩⟩

end Startup

end BinanceAggregator
