import Reckon.Command.Batch
import Reckon.Command.Logs
import Reckon.Command.Request
import Reckon.Command.Validation

/-! Running a call: the words are read as a request, and the request is carried out. -/

namespace Reckon.Command

def versionText : String := "formulakit, version 0.3.0"

def runStart [Limits] (s : Session) (folder : String) : Session × Report :=
  match Project.Settings.start s.store (.ofText folder) with
  | (store, .ok path) => ({ s with store }, .lines [s!"Created {path.text}"])
  | (store, .error e) =>
    ({ s with store }, if e.isReported then .failure e.message else .crash (.start e))

section

variable [Limits] [Formats]

def Request.run (host : Host) (s : Session) : Request → Session × Report
  | .version => (s, .lines [versionText])
  | .help command => (s, .lines [host.help command])
  | .start folder => runStart s folder
  | .variableNames formula json => (s, showVariables formula json)
  | .tokens formula json => (s, showTokens formula json)
  | .order formula => (s, showOrder formula)
  | .tree formula json => (s, showTree formula json)
  | .evaluate project formula values items json =>
    runEvaluate host s project formula values items json
  | .validate project formulas explain json => runValidate host s project formulas explain json
  | .batch project formula source output result onError =>
    runBatch host s project formula source output result onError
  | .listBatches project limit json => (s, runListBatches s.store project limit json)
  | .events project selection json => (s, runEvents s.store project selection json)

/-- Runs the words of a call. What a request needs must be there. -/
def run (host : Host) (s : Session) (words : List String) : Session × Report :=
  match Request.ofWords? words with
  | none => (s, .usage)
  | some request =>
    if request.needed.all (isThere s.store) then request.run host s else (s, .usage)

end

end Reckon.Command
