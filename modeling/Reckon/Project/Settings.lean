import Reckon.Formats
import Reckon.Project.Display
import Reckon.Store.Basic
import Reckon.Value.Shown

/-!
The settings of a project: named values that start from the usual ones and are overridden
by the project's settings file. A record named `logging` in the file is spread over names
that begin with `logging_`. Settings under other names are kept.
-/

namespace Reckon.Project

abbrev Settings := Fields

namespace Settings

def fileName : String := "formulakit.yaml"

def defaults : Settings := [
  ("result_column", .text "result"),
  ("on_error", .text "raise"),
  ("precision", .null),
  ("logging_enabled", .bool true),
  ("logging_fsync", .bool false),
  ("logging_tail_bytes", .int 2097152)]

/-- The file of a new project, which says the same as `defaults`. -/
def defaultFile : String :=
  "# formulakit project configuration\n" ++
  "result_column: result\n" ++
  "on_error: raise      # raise | null\n" ++
  "precision: null      # decimal places for CLI output, null = full precision\n" ++
  "\n" ++
  "logging:\n" ++
  "  enabled: true\n" ++
  "  fsync: false\n" ++
  "  tail_bytes: 2097152\n"

inductive Error where
  | file (error : Store.Error)
  | encoding (error : Text.DecodeError)
  | content (error : Yaml.Error)
  | notMapping
  | onError (given : Value)
  | precision (given : Value)

namespace Error

def isReported : Error → Bool
  | content .malformed => false
  | _ => true

def message : Error → String
  | file e => e.message
  | encoding e => e.message
  | content .malformed => "mapping values are not allowed here"
  | content (.value message) => message
  | notMapping => s!"{fileName} must contain a mapping"
  | onError given => s!"on_error must be one of ['raise', 'null'], got {given.shown}"
  | precision given => s!"precision must be a non-negative integer, got {given.shown}"

end Error

/-! ### Merging -/

/-- The fields of a file, the record `logging` spread. What else has that name is dropped. -/
def spread (given : Fields) : Fields :=
  let flat := given.filter fun (name, _) => name ≠ "logging"
  match given.lookup "logging" with
  | some (.record fields) =>
    Entries.setAll flat (fields.map fun (name, value) => ("logging_" ++ name, value))
  | _ => flat

/-- Nothing given for failing rows asks for missing results. -/
def nameNull (s : Settings) : Settings :=
  match s.lookup "on_error" with
  | some .null => Entries.set "on_error" (.text "null") s
  | _ => s

def merge (given : Fields) : Settings :=
  nameNull (Entries.setAll defaults (spread given))

/-! ### Checking -/

def get (s : Settings) (name : String) : Value :=
  (s.lookup name).getD .null

def isOnError : Value → Bool
  | .text s => s == "raise" || s == "null"
  | _ => false

def isPrecision : Value → Bool
  | .null => true
  | .bool _ => true
  | .int n => 0 ≤ n
  | _ => false

def check (s : Settings) : Except Error Settings :=
  if !isOnError (s.get "on_error") then .error (.onError (s.get "on_error"))
  else if !isPrecision (s.get "precision") then .error (.precision (s.get "precision"))
  else .ok s

/-- The settings that the value of a file gives. A file that says nothing gives none. -/
def ofValue (value : Value) : Except Error Settings :=
  if value.isFalsy then check (merge [])
  else match value with
    | .record given => check (merge given)
    | _ => .error .notMapping

/-! ### Files -/

def ofBytes [Formats] (bytes : Text.Bytes) : Except Error Settings := do
  let text ← (Text.decode bytes).mapError .encoding
  ofValue (← (Formats.readSettings text).mapError .content)

def load [Limits] [Formats] (s : Store) (folder : Store.Path) : Except Error Settings :=
  let path := folder.child fileName
  match s.exists? path with
  | .error e => .error (.file e)
  | .ok false => ofValue .null
  | .ok true => ((s.read path).mapError .file).bind ofBytes

inductive StartError where
  | file (error : Store.Error)
  | present (path : Store.Path)
  deriving DecidableEq

namespace StartError

def isReported : StartError → Bool
  | file (.occupied _) => true
  | file _ => false
  | present _ => true

def message : StartError → String
  | file e => e.message
  | present path => s!"{path.text} already exists"

end StartError

/-- Writes the settings file of a new project, in a folder that is made if it is not
there. -/
def start [Limits] (s : Store) (folder : Store.Path) : Store × Except StartError Store.Path :=
  let path := folder.child fileName
  match s.makeFolder folder with
  | (s, some e) => (s, .error (.file e))
  | (s, none) =>
    match s.exists? path with
    | .error e => (s, .error (.file e))
    | .ok true => (s, .error (.present path))
    | .ok false =>
      match s.write path (Text.encode defaultFile) with
      | .error e => (s, .error (.file e))
      | .ok s => (s, .ok path)

/-! ### Use -/

def places (s : Settings) : Places :=
  match s.get "precision" with
  | .bool b => .flag b
  | .int n => .count n
  | _ => .full

def isLogging (s : Settings) : Bool :=
  match s.lookup "logging_enabled" with
  | some value => !value.isFalsy
  | none => true

end Settings

end Reckon.Project
