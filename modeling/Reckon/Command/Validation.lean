import Reckon.Command.Evaluation
import Reckon.Formula.Validation

/-! The command that checks formulas. It fails if any of them is not well-formed. -/

namespace Reckon.Command

structure Verdict where
  formula : String
  faults : List String

namespace Verdict

def of (formula : String) : Verdict :=
  ⟨formula, (Formula.faults formula).map (·.message)⟩

def isValid (v : Verdict) : Bool :=
  v.faults.isEmpty

def toRecord (v : Verdict) : Value :=
  .record [("formula", .text v.formula), ("valid", .bool v.isValid),
    ("errors", .list (v.faults.map .text))]

def lines (explain : Bool) (v : Verdict) : List String :=
  let status := if v.isValid then "OK     " else "INVALID"
  s!"{status} {v.formula}" :: if explain then v.faults.map ("        - " ++ ·) else []

def event? (now : String) (v : Verdict) : Option Log.Event :=
  v.faults.head?.map fun first =>
    { time := now, level := .warning, topic := .formulaInvalid, message := first,
      context := [("formula", .text v.formula), ("errors", .list (v.faults.map .text))],
      code := Log.Code.formulaSyntax.label }

end Verdict

def validatedEvent (now : String) (total invalid : Nat) : Log.Event where
  time := now
  level := .info
  topic := .validateCompleted
  context := [("total", .int total), ("invalid", .int invalid)]
  message := s!"Validated {total} formula(s), {invalid} invalid"

def verdictText (verdicts : List Verdict) (explain json : Bool) : String :=
  if json then Json.laidOut 0 (.list (verdicts.map (·.toRecord))) ++ "\n"
  else String.join ((verdicts.flatMap (·.lines explain)).map (· ++ "\n"))

def runValidate [Limits] [Formats] (host : Host) (s : Session) (project : String)
    (formulas : List String) (explain json : Bool) : Session × Report :=
  match s.setProject (.ofText project) with
  | (s, .error e) => (s, projectFailure e)
  | (s, .ok _) =>
    let verdicts := formulas.map Verdict.of
    let invalid := (verdicts.filter (!·.isValid)).length
    let events := verdicts.filterMap (·.event? host.now) ++
      [validatedEvent host.now verdicts.length invalid]
    (events.foldl (fun s e => s.emit host e none) s,
      .done (if invalid = 0 then 0 else 1) (verdictText verdicts explain json) "")

end Reckon.Command
