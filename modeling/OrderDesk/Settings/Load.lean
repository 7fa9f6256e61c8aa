import OrderDesk.Settings.Basic
import OrderDesk.Settings.Layer
import OrderDesk.Toml.Document

/-! # Loading settings

Settings come from a file in TOML, if there is one, and from environment variables, which go over
the file; what neither sets has its default.

* `Settings.ofSources`: the settings of a table and some variables;
* `Settings.read`: the settings of a file's text and some variables;
* `Settings.load`: the same, the variables saying which file it is. -/

namespace OrderDesk

inductive SettingsError where
  /-- The file is no TOML document. -/
  | malformedFile (name : String)
  | conversion (error : Settings.ConversionError)
  | broken (rule : Settings.Rule)
  deriving DecidableEq, Repr

/-- The message of an error; that of a malformed file is left open. -/
def SettingsError.text? : SettingsError → Option String
  | .malformedFile _ => none
  | .conversion e => some s!"failed to load settings: {e.text}"
  | .broken r => some s!"invalid setting {r.key}: {r.reason}"

namespace Settings

structure File where
  name : String
  text : String
  deriving DecidableEq, Repr

def ofLayer (layer : Layer) : Except SettingsError Settings := do
  let s ← (ofValue layer.tree).mapError .conversion
  s.validate.mapError .broken
  return s

/-- The settings of a file's table, and of variables that go over it. -/
def ofSources (file : String) (table : List (String × Toml.Value))
    (environment : List (String × String)) : Except SettingsError Settings :=
  ofLayer (.ofTable file table ++ .ofVariables environment)

/-- The settings of a file, if there is one, and of variables that go over it. -/
def read (file : Option File) (environment : List (String × String)) :
    Except SettingsError Settings :=
  match file with
  | none => ofSources "" [] environment
  | some f =>
    match Toml.parse? (.ofList (Toml.dropMark f.text.toList)) with
    | some table => ofSources f.name table environment
    | none => .error (.malformedFile f.name)

def defaultFile : String := "orderflow.toml"

def fileVariable : String := "ORDERFLOW_CONFIG"

/-- The names on a path, without empty ones and mentions of the directory that it has reached. -/
def pathNames (path : String) : List String :=
  (path.splitOn "/").filter fun name => name != "" && name != "."

/-- Where the file of a path may be: at the path itself, if a name ends it, or at the path with
the ending. -/
def filePlaces (path : String) : List String :=
  let names := pathNames path
  let plain := (if path.startsWith "/" then "/" else "") ++ "/".intercalate names
  match names.getLast? with
  | none | some ".." => []
  | last => (if (path.splitOn "/").getLast? = last then [plain] else []) ++ [plain ++ ".toml"]

/-- The file of a path, which may leave out the ending. -/
def findFile? (files : String → Option String) (path : String) : Option File :=
  (filePlaces path).findSome? fun name => (files name).map fun text => { name, text }

/-- The settings of the variables and of the file that they name, or else the default one. A file
that does not exist is not missed. -/
def load (files : String → Option String) (environment : List (String × String)) :
    Except SettingsError Settings :=
  read (findFile? files ((environment.lookup fileVariable).getD defaultFile)) environment

end Settings

end OrderDesk
