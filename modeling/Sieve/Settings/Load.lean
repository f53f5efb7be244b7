import Sieve.Settings.Basic
import Sieve.Settings.File

/-!
# Loading settings

The settings of a service come from five layers, each laid over the one before:

* the name of the service and of the environment that it runs in;
* the files `default.toml`, the one named for the environment, and the one named for the service, each
  of which may be missing;
* the variables whose names begin with `FILTER_`, where `__` separates the parts of a path.

`Settings.ofLayers` reads the settings off the layers; what no layer sets has its built-in default, and
what a layer sets beyond the known settings does not matter.  A section may also be a list of its
members in their order.
-/

namespace Sieve

namespace Layer

/-- Lays a setting over a layer, at the address that a name stands for. -/
def put (under : Layer) (name : String) (s : Setting) : Layer :=
  Setting.members (some (s.place (Step.address name) (some (.table under))))

/-- Lays a layer over another. -/
def overlay (layer under : Layer) : Layer := layer.foldl (fun under m => put under m.1 m.2) under

/-! ### Variables -/

/-- What the value of a variable says: a truth value, a number or a text.  Digits say an integer also with zeros
in front: `007` says the integer seven, and is read as `7` where a text is wanted. -/
def valueOf (value : String) : Setting :=
  let word := Text.lowercase value.toList
  if word = ['t', 'r', 'u', 'e'] then .truth true
  else if word = ['f', 'a', 'l', 's', 'e'] then .truth false
  else match Numeral.int? value.toList with
    | some i => .int i
    | none =>
      match Numeral.real? value.toList with
      | some x => .real x
      | none => .text value

/-- Writes a dot for every two underscores. -/
def dotted : List Char → List Char
  | '_' :: '_' :: cs => '.' :: dotted cs
  | c :: cs => c :: dotted cs
  | [] => []

/-- What begins the names of variables with settings. -/
def variableMark : List Char := ['f', 'i', 'l', 't', 'e', 'r', '_']

/-- The name in a layer that a variable stands for, if it holds a setting. -/
def nameOf? (name : String) : Option String :=
  let cs := Text.lowercase name.toList
  if variableMark.isPrefixOf cs then some (String.ofList (dotted (cs.drop variableMark.length)))
  else none

/-- The layer of the variables. -/
def ofVariables (vars : List (String × String)) : Layer :=
  vars.filterMap fun v => (nameOf? v.1).map fun name => (name, valueOf v.2)

end Layer

namespace Settings

/-- A member of a section, by a reading of it, or its default. -/
def member {α : Type} (read : Setting → Option α) (layer : Layer) (name : String) (default : α) :
    Except SettingsError α :=
  match Keyed.lookup name layer with
  | none => .ok default
  | some s =>
    match read s with
    | some a => .ok a
    | none => .error (.unfit name)

/-- The settings of a section with members of given names: those of a table, or the items of a list
one after another. -/
def members? (names : List String) : Setting → Option Layer
  | .table ms => some ms
  | .list items => some (names.zip items)
  | _ => none

/-- A section with members of given names. -/
def part (layer : Layer) (name : String) (names : List String) : Except SettingsError Layer :=
  member (members? names) layer name []

/-- The retry settings. -/
def readRetry (pipeline : Layer) : Except SettingsError RetrySettings := do
  let l ← part pipeline "retry" ["max_retries", "initial_delay_ms", "max_delay_ms"]
  let d : RetrySettings := {}
  return {
    limit := ← member (Setting.count? (2 ^ 32)) l "max_retries" d.limit
    initial := ← member (Setting.count? (2 ^ 64)) l "initial_delay_ms" d.initial
    cap := ← member (Setting.count? (2 ^ 64)) l "max_delay_ms" d.cap }

/-- The cache settings. -/
def readCache (pipeline : Layer) : Except SettingsError CacheSettings := do
  let l ← part pipeline "cache" ["enabled", "ttl_secs", "max_entries"]
  let d : CacheSettings := {}
  return {
    enabled := ← member Setting.truth? l "enabled" d.enabled
    seconds := ← member (Setting.count? (2 ^ 64)) l "ttl_secs" d.seconds
    capacity := ← member (Setting.count? (2 ^ 64)) l "max_entries" d.capacity }

/-- The observability settings. -/
def readObservability (layer : Layer) : Except SettingsError ObservabilitySettings := do
  let l ← part layer "observability" ["service_name", "log_level", "json_logs", "metrics_enabled"]
  let d : ObservabilitySettings := {}
  return {
    serviceName := ← member Setting.text? l "service_name" d.serviceName
    logLevel := ← member Setting.text? l "log_level" d.logLevel
    jsonLogs := ← member Setting.truth? l "json_logs" d.jsonLogs
    metricsEnabled := ← member Setting.truth? l "metrics_enabled" d.metricsEnabled }

/-- The settings of one layer. -/
def ofLayer (l : Layer) : Except SettingsError Settings := do
  let d : Settings := {}
  let pipeline ← part l "pipeline" ["retry", "cache"]
  return {
    serviceName := ← member Setting.text? l "service_name" d.serviceName
    environment := ← member Setting.text? l "environment" d.environment
    retry := ← readRetry pipeline
    cache := ← readCache pipeline
    observability := ← readObservability l }

/-- The settings of layers, each laid over the one before. -/
def ofLayers (layers : List Layer) : Except SettingsError Settings :=
  ofLayer (layers.foldl (fun under layer => layer.overlay under) [])

/-- The layer of what the caller tells. -/
def given (service environment : String) : Layer :=
  [("environment", .text environment), ("service_name", .text service)]

/-! ### Loading -/

/-- Loads the settings of a service, with the files of a directory. -/
def loadFrom {m : Type → Type} [Monad m] (readFile : String → m (Option String))
    (vars : List (String × String)) (service environment : String) :
    ExceptT SettingsError m Settings := do
  let general ← fileLayer readFile "default"
  let environmental ← fileLayer readFile environment
  let special ← fileLayer readFile service
  ofLayers [given service environment, general, environmental, special, .ofVariables vars]

/-- The value of a variable, or its default. -/
def variableOr (vars : List (String × String)) (name default : String) : String :=
  (vars.lookup name).getD default

/-- A file of a directory, unless its name begins at the root. -/
def inDirectory (directory file : String) : String :=
  if directory = "" ∨ file.startsWith "/" then file
  else if directory.toList.getLast? = some '/' then directory ++ file
  else directory ++ "/" ++ file

/-- Loads the settings of a service; variables tell its environment and the directory. -/
def load {m : Type → Type} [Monad m] (readFile : String → m (Option String))
    (vars : List (String × String)) (service : String) : ExceptT SettingsError m Settings :=
  loadFrom (fun file => readFile (inDirectory (variableOr vars "CONFIG_DIR" "config") file))
    vars service (variableOr vars "FILTER_ENV" "development")

end Settings

end Sieve
