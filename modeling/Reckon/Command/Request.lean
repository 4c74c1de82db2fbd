import Reckon.Command.Arguments
import Reckon.Decimal.Numeral

/-!
What the words of a call ask for. Words that ask for nothing are a usage error, which is
told by the absence of a request.
-/

namespace Reckon.Command

structure Selection where
  level : Option String := none
  topic : Option String := none
  batch : Option String := none
  limit : Int := 50

inductive Request where
  | version
  /-- The text that explains a command, or the program. -/
  | help (command : Option String)
  | start (folder : String)
  | variableNames (formula : String) (json : Bool)
  | tokens (formula : String) (json : Bool)
  | order (formula : String)
  | tree (formula : String) (json : Bool)
  | evaluate (project formula : String) (values : List Float) (bindings : List String)
      (json : Bool)
  | validate (project : String) (formulas : List String) (explain json : Bool)
  | batch (project formula source : String) (output result onError : Option String)
  | listBatches (project : String) (limit : Int) (json : Bool)
  | events (project : String) (selection : Selection) (json : Bool)

namespace Request

def chosen? (choices : List String) (given : Option String) : Option (Option String) :=
  match given with
  | none => some none
  | some value => if value ∈ choices then some (some value) else none

def project (a : Arguments) : String :=
  (a.value? "--project").getD "."

def start? (a : Arguments) : Option Request :=
  match a.positionals with
  | [] => some (.start ".")
  | [folder] => some (.start folder)
  | _ => none

def inspection? (request : String → Bool → Request) (a : Arguments) : Option Request :=
  match a.positionals with
  | [formula] => some (request formula (a.has "--json"))
  | _ => none

def evaluate? (a : Arguments) : Option Request :=
  match a.positionals with
  | [] => none
  | formula :: numerals =>
    (numerals.mapM Decimal.float?).map fun values =>
      .evaluate (project a) formula values (a.values "--set") (a.has "--json")

def validate? (a : Arguments) : Option Request :=
  if a.positionals.isEmpty then none
  else some (.validate (project a) a.positionals (a.has "--explain") (a.has "--json"))

def batch? (a : Arguments) : Option Request := do
  let onError ← chosen? ["raise", "null"] (a.value? "--on-error")
  match a.positionals with
  | [formula, source] =>
    some (.batch (project a) formula source (a.value? "--output") (a.value? "--result-column")
      onError)
  | _ => none

def logs? (a : Arguments) : Option Request := do
  let level ← chosen? ["info", "warning", "error"] (a.value? "--level")
  let limit ← match a.value? "--limit" with
    | none => some 50
    | some numeral => Decimal.int? numeral
  if !a.positionals.isEmpty then none
  else if a.has "--batches" then some (.listBatches (project a) limit (a.has "--json"))
  else
    some (.events (project a) ⟨level, a.value? "--type", a.value? "--batch-id", limit⟩
      (a.has "--json"))

structure Form where
  grammar : Grammar
  request? : Arguments → Option Request

def forms : List (String × Form) := [
  ("init", ⟨{}, start?⟩),
  ("vars", ⟨⟨["--json"], []⟩, inspection? .variableNames⟩),
  ("tokens", ⟨⟨["--json"], []⟩, inspection? .tokens⟩),
  ("postfix", ⟨{}, inspection? fun formula _ => .order formula⟩),
  ("ast", ⟨⟨["--json"], []⟩, inspection? .tree⟩),
  ("eval", ⟨⟨["--json"], ["--set", "--project"]⟩, evaluate?⟩),
  ("validate", ⟨⟨["--explain", "--json"], ["--project"]⟩, validate?⟩),
  ("batch", ⟨⟨[], ["--output", "--result-column", "--on-error", "--project"]⟩, batch?⟩),
  ("logs", ⟨⟨["--batches", "--json"],
    ["--project", "--level", "--type", "--batch-id", "--limit"]⟩, logs?⟩)]

/-- The request of a command by its name. Help goes before everything that words may lack, but not
before options that the command does not take. -/
def named? (name : String) (words : List String) : Option Request := do
  let form ← forms.lookup name
  let a ← Arguments.read? form.grammar words
  if a.has "--help" then some (.help name) else form.request? a

/-- What is asked for in front of the name of a command, where the first word counts, and the words
from the name on. -/
def splitCommand : List String → Option (Option Request × List String)
  | [] => some (none, [])
  | "--" :: rest => some (none, rest)
  | "--version" :: rest => (splitCommand rest).map fun (_, words) => (some .version, words)
  | "--help" :: rest => (splitCommand rest).map fun (_, words) => (some (.help none), words)
  | word :: rest => if isOption word then none else some (none, word :: rest)

def ofWords? (words : List String) : Option Request := do
  match ← splitCommand words with
  | (some request, _) => some request
  | (none, name :: rest) => named? name rest
  | (none, []) => none

/-- The files and folders that must be there. -/
def needed : Request → List String
  | evaluate project _ _ _ _ => [project]
  | validate project _ _ _ => [project]
  | batch project _ source _ _ _ => [project, source]
  | listBatches project _ _ => [project]
  | events project _ _ => [project]
  | _ => []

end Request

end Reckon.Command
