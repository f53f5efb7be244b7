import Sieve.Pipeline.Layers
import Sieve.Settings.Load
import Sieve.Store

/-!
# The command line

`filter-engine [--log-level LEVEL] [--print-metrics] TREE ITEMS` reads a filter tree and a list of items
from two files, and prints the items that pass.

* `Request.ofArguments`: what the arguments ask for.  Anything but the two options, two paths, `--help`
  and `--version` is a mistake; the first of them that decides the matter counts;
* `CommandLine.pipeline`: what the tree is executed by.  It logs, keeps results unless the settings
  say otherwise, retries, and filters;
* `CommandLine.serve`: serves a request.  Settings that cannot be loaded give way to the defaults;
* `Report`: what is to be written and the exit code.
-/

namespace Sieve

/-- What is asked for when items are to be filtered. -/
structure FilterRequest where
  tree : String
  items : String
  logLevel : Option String := none
  printMetrics : Bool := false
  deriving DecidableEq, Repr

/-- What is asked for. -/
inductive Request
  | filter (r : FilterRequest)
  | version
  | help (full : Bool)
  | mistake
  deriving DecidableEq, Repr

/-- The arguments read so far. -/
structure Arguments where
  paths : List String := []
  logLevel : Option String := none
  printMetrics : Bool := false
  deriving DecidableEq, Repr

/-- What is expected next: an option or a path, the value of an option, or paths only. -/
inductive Expectation
  | anything
  | level
  | path
  deriving DecidableEq, Repr

namespace Request

/-- Takes note of a path, of which there may be two. -/
def addPath? (a : Arguments) (path : String) : Option Arguments :=
  if path = "" ∨ 2 ≤ a.paths.length then none else some { a with paths := a.paths ++ [path] }

/-- Takes note of the log level, which may be told once. -/
def setLevel? (a : Arguments) (level : String) : Option Arguments :=
  if a.logLevel.isSome then none else some { a with logLevel := some level }

/-- What becomes of one argument: something is expected after it, or the matter is decided. -/
abbrev Reading := Arguments × Expectation ⊕ Request

/-- Goes on, unless there was a mistake. -/
def going (e : Expectation) : Option Arguments → Reading
  | some a => .inl (a, e)
  | none => .inr .mistake

/-- An option by its long name, with the value after an equals sign. -/
def readLong (a : Arguments) (name : String) (value : Option String) : Reading :=
  match value with
  | some v => if name = "log-level" then going .anything (setLevel? a v) else .inr .mistake
  | none =>
    if name = "log-level" then .inl (a, .level)
    else if name = "print-metrics" then
      if a.printMetrics then .inr .mistake else .inl ({ a with printMetrics := true }, .anything)
    else if name = "help" then .inr (.help true)
    else if name = "version" then .inr .version
    else .inr .mistake

/-- An option by its letter, with what follows the letter. -/
def readShort (a : Arguments) (letter : Char) (rest : List Char) : Reading :=
  if letter = 'l' then
    match rest with
    | [] => .inl (a, .level)
    | '=' :: v => going .anything (setLevel? a (String.ofList v))
    | v => going .anything (setLevel? a (String.ofList v))
  else if letter = 'h' then .inr (.help false)
  else if letter = 'V' then .inr .version
  else .inr .mistake

/-- One argument. -/
def read (a : Arguments) (e : Expectation) (word : String) : Reading :=
  match e, word.toList with
  | .path, _ => going .path (addPath? a word)
  | .level, '-' :: _ :: _ => .inr .mistake
  | .level, _ => going .anything (setLevel? a word)
  | .anything, ['-', '-'] => .inl (a, .path)
  | .anything, '-' :: '-' :: cs =>
    let name := cs.takeWhile (· ≠ '=')
    let value := (cs.drop name.length).tail?
    readLong a (String.ofList name) (value.map String.ofList)
  | .anything, '-' :: letter :: rest => readShort a letter rest
  | .anything, _ => going .anything (addPath? a word)

/-- What is asked for once all arguments have been read. -/
def conclude (a : Arguments) : Expectation → Request
  | .level => .mistake
  | _ =>
    match a.paths with
    | [tree, items] => .filter ⟨tree, items, a.logLevel, a.printMetrics⟩
    | _ => .mistake

/-- Reads the arguments from where something is expected. -/
def readAll : Arguments → Expectation → List String → Request
  | a, e, [] => conclude a e
  | a, e, word :: words =>
    match read a e word with
    | .inl (a, e) => readAll a e words
    | .inr r => r

/-- What the arguments ask for. -/
def ofArguments (words : List String) : Request := readAll {} .anything words

end Request

/-- Why a request cannot be served. -/
inductive RequestError
  | noTree (path : String)
  | badTree
  | noItems (path : String)
  | badItems
  | failed (e : PipelineError)
  deriving DecidableEq, Repr

/-- The wording of an error. -/
def RequestError.message : RequestError → String
  | noTree path => "读取过滤树失败: " ++ path
  | badTree => "解析过滤树失败"
  | noItems path => "读取记录失败: " ++ path
  | badItems => "记录必须是 JSON 数组"
  | failed e => e.message

/-- What is to be written, and the exit code. -/
structure Report where
  exitCode : Nat
  output : String := ""
  error : Option RequestError := none
  settingsError : Option SettingsError := none
  metrics : List Metric := []

namespace CommandLine

/-- The name of the program, of its service and of its pipeline. -/
def name : String := "filter-engine"

/-- What `--version` prints. -/
def version : String := name ++ " 0.1.0\n"

/-- How the program is called. -/
def usage : String := "Usage: " ++ name ++ " [OPTIONS] <AST> <ITEMS>"

/-- Lines as a text. -/
def lines (ls : List String) : String := String.join (ls.map (· ++ "\n"))

/-- What `-h` prints, a line for each argument and option. -/
def shortHelp : String :=
  lines [
    "过滤树本地求值工具",
    "",
    usage,
    "",
    "Arguments:",
    "  <AST>    过滤树 JSON 文件",
    "  <ITEMS>  待过滤的记录数组 JSON 文件",
    "",
    "Options:",
    "  -l, --log-level <LOG_LEVEL>  日志级别 (trace, debug, info, warn, error)，覆盖配置文件",
    "      --print-metrics          结束时向 stderr 输出 Prometheus 格式的指标快照",
    "  -h, --help                   Print help (see more with '--help')",
    "  -V, --version                Print version"]

/-- What `--help` prints, a paragraph for each argument and option. -/
def fullHelp : String :=
  lines [
    "过滤引擎命令行工具",
    "",
    "读取过滤树和记录数组，经由执行管道本地求值，输出匹配的记录。",
    "",
    usage,
    "",
    "Arguments:",
    "  <AST>",
    "          过滤树 JSON 文件",
    "",
    "  <ITEMS>",
    "          待过滤的记录数组 JSON 文件",
    "",
    "Options:",
    "  -l, --log-level <LOG_LEVEL>",
    "          日志级别 (trace, debug, info, warn, error)，覆盖配置文件",
    "",
    "      --print-metrics",
    "          结束时向 stderr 输出 Prometheus 格式的指标快照",
    "",
    "  -h, --help",
    "          Print help (see a summary with '-h')",
    "",
    "  -V, --version",
    "          Print version"]

/-- The settings when none can be loaded. -/
def fallback : Settings := { serviceName := name }

/-- The middlewares that the settings ask for. -/
def middlewares (s : Settings) : List (Middleware Host) :=
  .logging name :: (if s.cache.enabled then [.caching 0] else []) ++
    [.retrying (.ofSettings s.retry)]

/-- The pipeline that filters items. -/
def pipeline (s : Settings) (items : List Json) : Pipeline Host :=
  ⟨middlewares s, .filtering {} items⟩

/-- The host of the pipeline, with an empty cache and the start of the service recorded. -/
def host (s : Settings) : Host where
  caches _ := .ofSettings s.cache
  metrics := [.start s.serviceName]

/-- Decodes a list of items. -/
def readItems (text : String) : Except DecodeError (List Json) :=
  Decode.ofText (Decode.readList Decode.readJson) text

/-- Filters the items of one text by the tree of another. -/
def run (s : Settings) (tree : Tree) (items : List Json) : Except RequestError String × List Metric :=
  let (r, h) := (pipeline s items).execute tree {} (host s)
  match r with
  | .ok rows => (.ok ((Json.arr rows).indented ++ "\n"), h.metrics)
  | .error e => (.error (.failed e), h.metrics)

variable {m : Type → Type} [Monad m]

/-- Reads the two files. -/
def readInputs (readFile : String → m (Option String)) (r : FilterRequest) :
    ExceptT RequestError m (Tree × List Json) := do
  let some treeText ← readFile r.tree | throw (.noTree r.tree)
  let .ok tree := Decode.ofText Group.read treeText | throw .badTree
  let some itemsText ← readFile r.items | throw (.noItems r.items)
  let .ok items := readItems itemsText | throw .badItems
  return (tree, items)

/-- Filters. -/
def filter (readFile : String → m (Option String)) (vars : List (String × String))
    (r : FilterRequest) : m Report := do
  let loaded ← (Settings.load readFile vars name).run
  let (settings, settingsError) := match loaded with
    | .ok s => (s, none)
    | .error e => (fallback, some e)
  match ← (readInputs readFile r).run with
  | .error e => return { exitCode := 1, error := some e, settingsError }
  | .ok (tree, items) =>
    match run settings tree items with
    | (.error e, _) => return { exitCode := 1, error := some e, settingsError }
    | (.ok output, metrics) =>
      return {
        exitCode := 0
        output
        settingsError
        metrics := if r.printMetrics then metrics else [] }

/-- Serves a request. -/
def serve (readFile : String → m (Option String)) (vars : List (String × String)) :
    Request → m Report
  | .filter r => filter readFile vars r
  | .version => return { exitCode := 0, output := version }
  | .help full => return { exitCode := 0, output := if full then fullHelp else shortHelp }
  | .mistake => return { exitCode := 2 }

/-- The variables that may hold settings. -/
def variableNames : List String :=
  ["CONFIG_DIR", "FILTER_ENV", "FILTER_SERVICE_NAME", "FILTER_ENVIRONMENT",
   "FILTER_PIPELINE__RETRY__MAX_RETRIES", "FILTER_PIPELINE__RETRY__INITIAL_DELAY_MS",
   "FILTER_PIPELINE__RETRY__MAX_DELAY_MS", "FILTER_PIPELINE__CACHE__ENABLED",
   "FILTER_PIPELINE__CACHE__TTL_SECS", "FILTER_PIPELINE__CACHE__MAX_ENTRIES",
   "FILTER_OBSERVABILITY__SERVICE_NAME", "FILTER_OBSERVABILITY__LOG_LEVEL",
   "FILTER_OBSERVABILITY__JSON_LOGS", "FILTER_OBSERVABILITY__METRICS_ENABLED"]

end CommandLine

end Sieve
