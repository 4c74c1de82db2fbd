import Reckon.Command.Request
import Reckon.Log.Sink
import Reckon.Project.Settings

/-!
What a request may look at or change, so that it can be run on a store that holds nothing
else.
-/

namespace Reckon.Command.Request

open Store (Path)

def projectPaths (project : String) : List Path :=
  let folder := Path.ofText project
  let sink : Log.Sink := ⟨folder, .standard⟩
  [folder, folder.child Project.Settings.fileName, sink.folder, sink.log, sink.batchFolder]

def paths : Request → List Path
  | start folder => [.ofText folder, (Path.ofText folder).child Project.Settings.fileName]
  | evaluate project _ _ _ _ => projectPaths project
  | validate project _ _ _ => projectPaths project
  | batch project _ source output _ _ =>
    projectPaths project ++ .ofText source :: match output with
      | some output => [.ofText output, (Path.ofText output).parent]
      | none => []
  | listBatches project _ _ => projectPaths project
  | events project _ _ => projectPaths project
  | _ => []

def listed : Request → List Path
  | listBatches project _ _ => [(Log.Sink.mk (.ofText project) .standard).batchFolder]
  | events project _ _ => [(Log.Sink.mk (.ofText project) .standard).batchFolder]
  | _ => []

end Reckon.Command.Request
