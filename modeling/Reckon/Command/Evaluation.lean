import Reckon.Command.Arguments
import Reckon.Command.Inspection
import Reckon.Formula.Evaluation
import Reckon.Session.Basic

/-!
The command that evaluates a formula. Values are given in the order of the variables, or
by name. The outcome is recorded in the log of the project.
-/

namespace Reckon.Command

open Formula

/-- Names and their values. A name is what stands in front of the first equals sign. -/
def bindings (items : List String) : Except String Fields :=
  items.foldlM (fun bound item =>
    match splitAtEquals item with
    | (_, none) => .error s!"Invalid --set format: {Text.quoted item}. Use name=value."
    | (name, some numeral) =>
      let name := String.ofList (Text.trim Text.isBlank name.toList)
      match Decimal.float? numeral with
      | some x => .ok (Entries.set name (.float x) bound)
      | none =>
        .error s!"Invalid number for {Text.quoted name}: {Text.quoted numeral}") []

section

variable [Limits]

def outcome (ops : Operations) (formula : String) (values : List Float) (items : List String) :
    Except String (Except Error Outcome) :=
  if items.isEmpty then .ok (evaluate ops formula (values.map .float))
  else (bindings items).map fun assignment =>
    (evaluateNamed ops formula assignment).map fun x => ⟨x, variableNames formula⟩

def failedEvent (now formula : String) (e cause : Error) : Log.Event where
  time := now
  level := .error
  topic := .evalFailed
  context := [("formula", .text formula), ("cause", .text cause.label)]
  message := e.message
  code := (if cause.isSyntactic then Log.Code.formulaSyntax else .formulaEval).label

end

def completedEvent (now formula : String) (o : Outcome) : Log.Event where
  time := now
  level := .info
  topic := .evalCompleted
  context := [("formula", .text formula), ("variables", .list (o.names.map .text)),
    ("result", .float o.result)]
  message := "Formula evaluated"

def outcomeReport (settings : Project.Settings) (o : Outcome) (json : Bool) : Report :=
  if json then
    .lines [Json.compact (.record
      [("result", .float o.result), ("variables", .list (o.names.map .text))])]
  else match Project.display settings.places o.result with
    | .ok text => .lines [text]
    | .error e => .crash (.places e)

def conclude [Limits] (host : Host) (s : Session) (settings : Project.Settings) (formula : String)
    (json : Bool) : Except Error Outcome → Session × Report
  | .ok o =>
    (s.emit host (completedEvent host.now formula o) none, outcomeReport settings o json)
  | .error (.evaluation cause) =>
    let e := Error.evaluation cause
    (s.emit host (failedEvent host.now formula e cause) none, .failure e.message)
  | .error e => (s, .crash (.formula e))

def runEvaluate [Limits] [Formats] (host : Host) (s : Session) (project formula : String)
    (values : List Float) (items : List String) (json : Bool) : Session × Report :=
  if !values.isEmpty && !items.isEmpty then
    (s, .failure "Use either positional VALUES or --set, not both.")
  else match s.setProject (.ofText project) with
    | (s, .error e) => (s, projectFailure e)
    | (s, .ok settings) =>
      match outcome host.operations formula values items with
      | .error message => (s, .failure message)
      | .ok result => conclude host s settings formula json result

end Reckon.Command
