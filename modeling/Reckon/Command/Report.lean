import Reckon.Formula.Tree
import Reckon.Log.Reading
import Reckon.Session.Batch

/-!
What a command answers: what it writes, and the status with which it ends. A call that
asks for nothing is a usage error, and some failures end a command without an answer.
-/

namespace Reckon.Command

inductive Failure where
  | formula (error : Formula.Error)
  | tree (error : Formula.UnknownNode)
  | places (error : Project.PlacesError)
  | start (error : Project.Settings.StartError)
  | project (error : Session.OpenError)
  | batch (error : Session.Batch.Error)
  | log (error : Log.ReadError)

inductive Report where
  | done (status : Nat) (output errors : String)
  | usage
  | crash (failure : Failure)

namespace Report

def lines (texts : List String) : Report :=
  done 0 (String.join (texts.map (· ++ "\n"))) ""

def failure (message : String) : Report :=
  done 1 "" s!"Error: {message}\n"

end Report

def projectFailure (e : Session.OpenError) : Report :=
  if e.isReported then .failure s!"Invalid project config: {e.message}" else .crash (.project e)

def padLeft (width : Nat) (text : String) : String :=
  String.ofList (List.replicate (width - text.length) ' ') ++ text

def padRight (width : Nat) (text : String) : String :=
  text ++ String.ofList (List.replicate (width - text.length) ' ')

/-- The text of a path that is there. An empty text names nothing. -/
def isThere [Limits] (s : Store) (text : String) : Bool :=
  text ≠ "" && (s.exists? (.ofText text)).toOption.getD false

theorem exists?_of_isThere [Limits] {s : Store} {text : String} (there : isThere s text = true) :
    s.exists? (.ofText text) = .ok true := by
  have found := (Bool.and_eq_true_iff.mp there).2
  cases seen : s.exists? (.ofText text) with
  | error e =>
    rw [seen] at found
    cases found
  | ok answer =>
    rw [seen] at found
    exact congrArg Except.ok found

end Reckon.Command
