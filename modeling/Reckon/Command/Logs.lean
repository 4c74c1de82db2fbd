import Reckon.Command.Report
import Reckon.Command.Request
import Reckon.Log.Reading
import Reckon.Project.Settings
import Reckon.Text.Upper

/-! The command that shows recorded events and batches. -/

namespace Reckon.Command

def fieldText (fields : Fields) (name : String) : String :=
  ((fields.lookup name).map Value.plain).getD ""

def eventLine? : Value → Option String
  | .record fields => do
    let level ← match (fields.lookup "level").getD (.text "") with
      | .text level => some level
      | _ => none
    let code := match fields.lookup "error_code" with
      | some value => if value.isFalsy then "" else s!"  ({value.plain})"
      | none => ""
    return "[" ++ fieldText fields "ts" ++ "] " ++ padRight 7 (Text.upper level) ++ " " ++
      fieldText fields "event_type" ++ ": " ++ fieldText fields "message" ++ code
  | _ => none

def eventReport [Limits] (events : List Value) (json : Bool) : Report :=
  if json then
    if (Value.list events).height ≤ Limits.laidOut then .lines [Json.laidOut 0 (.list events)]
    else .crash (.log .depth)
  else if events.isEmpty then .lines ["No events found."]
  else match events.mapM eventLine? with
    | some lines => .lines lines
    | none => .crash (.log .shape)

def batchReport (names : List String) (json : Bool) : Report :=
  if json then .lines [Json.compact (.list (names.map .text))]
  else if names.isEmpty then .lines ["No batches found."]
  else .lines names

section

variable [Limits] [Formats]

def readingSink (s : Store) (project : String) : Except Report Log.Sink :=
  let path := Store.Path.ofText project
  match Project.Settings.load s path with
  | .ok settings => .ok ⟨path, .ofValue (settings.get "logging_tail_bytes")⟩
  | .error e =>
    .error (projectFailure (.settings e))

def runListBatches (s : Store) (project : String) (limit : Int) (json : Bool) : Report :=
  match readingSink s project with
  | .error report => report
  | .ok sink =>
    match sink.batches s with
    | .ok names => batchReport (Log.takeInt limit names) json
    | .error e => .crash (.log e)

def runEvents (s : Store) (project : String) (selection : Selection) (json : Bool) : Report :=
  match readingSink s project with
  | .error report => report
  | .ok sink =>
    match selection.batch.filter (!Log.isBatchName ·) with
    | some batch => .failure s!"Invalid batch id: {Text.quoted batch}"
    | none =>
      match sink.query s ⟨selection.level, selection.topic⟩ selection.batch selection.limit with
      | .ok events => eventReport events json
      | .error e => .crash (.log e)

end

end Reckon.Command
