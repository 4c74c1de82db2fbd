import Reckon.Formula.Arithmetic
import Reckon.Log.Sink
import Reckon.Project.Settings

/-!
A session: the files, the sink to which events go, and the number of batch runs so far.
What a session takes from outside is a `Host`.
-/

namespace Reckon

/-- What comes from outside: arithmetic, the writing of events, the time, the names of batch runs by
their number, and the texts that explain the commands and the program. -/
structure Host where
  operations : Formula.Operations := .machine
  append : Log.Appender
  now : String
  batchName : Nat → String
  help : Option String → String

structure Session where
  store : Store := {}
  sink : Option Log.Sink := none
  runs : Nat := 0

namespace Session

inductive OpenError where
  | settings (error : Project.Settings.Error)
  | window (error : Log.Window.Error)

namespace OpenError

def isReported : OpenError → Bool
  | settings e => e.isReported
  | window e => e.isReported

def message : OpenError → String
  | settings e => e.message
  | window e => e.message

end OpenError

def sinkFor (folder : Store.Path) (settings : Project.Settings) :
    Except Log.Window.Error (Option Log.Sink) :=
  if settings.isLogging then
    (Log.Window.ofSetting (settings.get "logging_tail_bytes")).map fun window =>
      some ⟨folder, window⟩
  else .ok none

/-- Sends the events from now on to the project in a folder, and gives its settings. On
failure events go where they went before. -/
def setProject [Limits] [Formats] (s : Session) (folder : Store.Path) :
    Session × Except OpenError Project.Settings :=
  match Project.Settings.load s.store folder with
  | .error e => (s, .error (.settings e))
  | .ok settings =>
    match sinkFor folder settings with
    | .error e => (s, .error (.window e))
    | .ok sink => ({ s with sink }, .ok settings)

def resetSink (s : Session) : Session :=
  { s with sink := none }

def emit [Limits] (host : Host) (s : Session) (e : Log.Event) (batch : Option String) : Session :=
  { s with store := Log.emit host.append s.sink s.store e batch }

end Session

end Reckon
