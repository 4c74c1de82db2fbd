import Reckon.Command.Evaluation
import Reckon.Session.Batch

/-! The command that runs a batch. -/

namespace Reckon.Command

open Session (Batch.Order Batch.Summary Batch.Error Batch.run)

def nonempty (given : Option String) : Option String :=
  given.filter (· ≠ "")

def orSetting (given : Option String) (settings : Project.Settings) (name : String) : Value :=
  match nonempty given with
  | some text => .text text
  | none => settings.get name

def batchOrder (settings : Project.Settings) (formula source : String)
    (output result onError : Option String) : Batch.Order where
  formula
  source := .ofText source
  output := (nonempty output).map .ofText
  result := orSetting result settings "result_column"
  onError := orSetting onError settings "on_error"

def summaryText [Formats] (summary : Batch.Summary) : String :=
  s!"Batch ID: {summary.batch}\n" ++
  s!"Rows: {summary.rows}  OK: {summary.ok}  Failed: {summary.failed}\n" ++
  match summary.output with
  | some path => s!"Wrote {path}\n"
  | none => s!"{Formats.drawTable summary.frame}\n"

def batchFailure [Limits] : Batch.Error → Report
  | .table e =>
    if (Session.Batch.codeOf? e).isSome then .failure e.message
    else .crash (.batch (.table e))
  | e => .crash (.batch e)

def runBatch [Limits] [Formats] (host : Host) (s : Session) (project formula source : String)
    (output result onError : Option String) : Session × Report :=
  match s.setProject (.ofText project) with
  | (s, .error e) => (s, projectFailure e)
  | (s, .ok settings) =>
    match Batch.run host s (batchOrder settings formula source output result onError) with
    | (s, .ok summary) => (s, .done 0 (summaryText summary) "")
    | (s, .error e) => (s, batchFailure e)

end Reckon.Command
