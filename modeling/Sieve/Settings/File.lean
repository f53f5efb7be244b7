import Sieve.Decode
import Sieve.Settings.Format.Ini
import Sieve.Settings.Format.Json5
import Sieve.Settings.Format.Ron
import Sieve.Settings.Format.Yaml
import Sieve.Settings.Toml

/-!
# Settings files

A settings file is given in TOML, or in another format under its name with an extension more: for
`default.toml` that is `default.toml.json` and so on.

* `formats`: the formats with their extensions, in the order in which they are looked for.  The first
  file that there is counts, and it has to be in its format;
* `fileLayer`: the settings of a file; there are none in a file that is missing.  A mark of byte order is
  taken off a file first.
-/

namespace Sieve

/-- Why settings cannot be loaded: a file cannot be read, or a setting is not of its kind. -/
inductive SettingsError
  | unreadable (file : String)
  | unfit (setting : String)
  deriving DecidableEq, Repr

namespace Settings

/-- A reader of settings in a format. -/
abbrev Format := String → Option Layer

/-- What an object in JSON says. -/
def json : Format := fun text =>
  match Decode.ofText Decode.readJson text with
  | .ok (.obj ms) => some (Setting.members (some (.ofJson (.obj ms))))
  | _ => none

/-- The formats by extension. -/
def formats : List (String × Format) :=
  [(".toml", Toml.read?), (".json", json), (".yaml", Yaml.read?), (".yml", Yaml.read?),
    (".ini", Ini.read?), (".ron", Ron.read?), (".json5", Json5.read?)]

/-- The settings of the first file there is. -/
def firstFile {m : Type → Type} [Monad m] (readFile : String → m (Option String)) :
    List (String × Format) → ExceptT SettingsError m Layer
  | [] => return []
  | (file, read?) :: others => do
    match ← readFile file with
    | none => firstFile readFile others
    | some text =>
      match read? (String.ofList (Toml.withoutMark text.toList)) with
      | some l => return l
      | none => throw (.unreadable file)

/-- Whether a file name begins with its extension, in which case it has none. -/
def lacksStem (name : String) : Bool := name = "" || name.toList.getLast? = some '/'

/-- The settings of a file.  A file whose name is nothing but an extension says nothing. -/
def fileLayer {m : Type → Type} [Monad m] (readFile : String → m (Option String)) (name : String) :
    ExceptT SettingsError m Layer :=
  let file := name ++ ".toml"
  let named : Format := if lacksStem name then fun _ => some [] else Toml.read?
  firstFile readFile ((file, named) :: formats.map fun f => (file ++ f.1, f.2))

end Settings

end Sieve
