import Reckon.Formula.Evaluation
import Reckon.Table.Frame

/-!
One formula for every row of a table. The columns with the names of the variables bind
them; a missing cell leaves its variable unbound. A row that fails either ends the work
or is recorded in a column of errors.
-/

namespace Reckon.Table

open Formula (Operations)

inductive Mode where
  /-- It ends the work. -/
  | raise
  /-- Its result is missing, and its error is recorded. -/
  | record
  deriving DecidableEq

namespace Mode

def label : Mode → String
  | raise => "raise"
  | record => "null"

def ofValue? : Value → Option Mode
  | .text "raise" => some raise
  | .text "null" => some record
  | _ => none

end Mode

def errorColumn : String := "error"

inductive OptionError where
  | unknownMode (given : Value)
  | resultIsVariable (column : String)
  | resultIsErrors
  | errorsPresent

namespace OptionError

def message : OptionError → String
  | unknownMode given => s!"on_error must be 'raise' or 'null', got {given.shown}"
  | resultIsVariable column =>
    s!"Result column {Text.quoted column} collides with a formula variable"
  | resultIsErrors =>
    s!"Result column cannot be {Text.quoted errorColumn} when on_error is 'null'"
  | errorsPresent =>
    s!"Frame already has an {Text.quoted errorColumn} column; on_error 'null' would overwrite it"

end OptionError

inductive Error where
  | option (error : OptionError)
  /-- The formula, or a value in a row, fails in a way that is no row's own. -/
  | formula (error : Formula.Error)
  | missingColumns (missing columns : List String)
  | row (index : Nat) (cause : Formula.Error)
  /-- The result column has a name that is no text. -/
  | columnName

namespace Error

def message : Error → String
  | option e => e.message
  | formula e => e.message
  | missingColumns missing columns =>
    s!"Missing columns for variables {Text.quotedList missing}. " ++
      s!"Available: {Text.quotedList columns}"
  | row index cause => s!"Row {index}: {cause.message}"
  | columnName => "Series name must be a string"

end Error

abbrev RowResult := Option Float × Option String

def rowResults [Limits] (mode : Mode) (index : Nat) :
    List (Except Formula.Error Float) → Except Error (List RowResult)
  | [] => .ok []
  | .ok x :: rest => do
    return (some x, none) :: (← rowResults mode (index + 1) rest)
  | .error e :: rest =>
    if !e.isReported then .error (.formula e)
    else match mode with
      | .raise => .error (.row index e)
      | .record => do
        return (none, some e.message) :: (← rowResults mode (index + 1) rest)

def checkOptions (needed columns : List String) (result : Value) (mode : Mode) :
    Except Error Unit :=
  match result with
  | .text name =>
    if name ∈ needed then .error (.option (.resultIsVariable name))
    else if mode = .record ∧ name = errorColumn then .error (.option .resultIsErrors)
    else errorsAbsent
  | _ => errorsAbsent
where
  errorsAbsent : Except Error Unit :=
    if mode = .record ∧ errorColumn ∈ columns then .error (.option .errorsPresent) else .ok ()

/-- The name of the result column: a text, or an empty name if there is nothing. -/
def columnName? : Value → Option String
  | .text name => some name
  | .null => some ""
  | _ => none

def withResults (frame : Frame) (name : String) (mode : Mode) (results : List RowResult) : Frame :=
  let done := frame.withColumn ⟨name, .floats (results.map (·.1))⟩
  match mode with
  | .raise => done
  | .record => done.withColumn ⟨errorColumn, .texts (results.map (·.2))⟩

section

variable [Limits]

def evaluateWith (ops : Operations) (formula : String) (frame : Frame) (result : Value)
    (mode : Mode) : Except Error Frame := do
  let needed := Formula.variableNames formula
  checkOptions needed frame.names result mode
  let tokens ← (Formula.compile formula).mapError fun e => .formula e.wrap
  let missing := needed.filter (· ∉ frame.names)
  if missing ≠ [] then throw (.missingColumns missing frame.names)
  let outcomes := (frame.rows needed).map fun row => Formula.evaluatePostfix ops row tokens
  let results ← rowResults mode 0 outcomes
  match columnName? result with
  | some name => return withResults frame name mode results
  | none => throw .columnName

def evaluate (ops : Operations) (formula : String) (frame : Frame) (result onError : Value) :
    Except Error Frame :=
  match Mode.ofValue? onError with
  | some mode => evaluateWith ops formula frame result mode
  | none => .error (.option (.unknownMode onError))

end

end Reckon.Table
