import Reckon.Session.Basic
import Reckon.Table.Evaluation

/-!
A batch run: one formula for every row of a table in a file, with the result written to
another file if that is asked for. The run records how it starts and ends, and each row
that fails without ending it.
-/

namespace Reckon.Table

inductive LoadError where
  | file (error : Store.Error)
  | content (error : ContentError)
  deriving DecidableEq

variable [Limits] [Formats]

def load (s : Store) (path : Store.Path) : Except LoadError Frame := do
  let bytes ← (s.read path).mapError .file
  (Formats.readTable bytes).mapError .content

def save (s : Store) (path : Store.Path) (frame : Frame) : Except Store.Error Store :=
  s.write path (Text.encode (Formats.writeTable frame))

end Reckon.Table

namespace Reckon.Session.Batch

structure Order where
  formula : String
  source : Store.Path
  output : Option Store.Path := none
  /-- The name of the result column. -/
  result : Value := .text "result"
  /-- What a failing row does. -/
  onError : Value := .text "raise"

structure Summary where
  batch : String
  rows : Nat
  ok : Nat
  failed : Nat
  output : Option String
  frame : Table.Frame

inductive Error where
  | source (error : Table.LoadError)
  | table (error : Table.Error)
  | output (error : Store.Error)

/-! ### Events -/

def startEvent (host : Host) (order : Order) (batch : String) (rows : Nat) : Log.Event :=
  .ofBatch host.now batch .batchStarted .info s!"Batch started: {rows} rows" order.formula none
    [("rows", .int rows), ("source", .text order.source.text)]

def failureEvent (host : Host) (order : Order) (batch : String) (error : Table.Error)
    (code : Log.Code) : Log.Event :=
  .ofBatch host.now batch .batchCompleted .error s!"Batch failed: {error.message}" order.formula
    code.label []

def rowEvent (host : Host) (batch : String) (row : Nat) (message : String) : Log.Event :=
  .ofBatch host.now batch .batchRowError .warning message none Log.Code.batchRow.label
    [("row", .int row)]

def completionEvent (host : Host) (order : Order) (summary : Summary) : Log.Event :=
  .ofBatch host.now summary.batch .batchCompleted
    (if summary.failed = 0 then .info else .warning)
    s!"Batch completed: {summary.ok} ok, {summary.failed} failed" order.formula none
    [("rows", .int summary.rows), ("ok", .int summary.ok), ("failed", .int summary.failed)]

/-- The code under which an error ends a run; other errors are not recorded. -/
def codeOf? [Limits] : Table.Error → Option Log.Code
  | .option _ => some .batchOptions
  | .missingColumns _ _ => some .batchColumns
  | .row _ _ => some .batchRow
  | .formula e => if e.isReported then some .formulaSyntax else none
  | .columnName => none

/-! ### Running -/

def rowErrors (frame : Table.Frame) : List (Nat × String) :=
  match frame.cells? Table.errorColumn with
  | some (.texts cells) => cells.zipIdx.filterMap fun (cell, row) => cell.map (row, ·)
  | _ => []

/-- The rows that failed; where failing rows end the work there are none. -/
def failures (onError : Value) (frame : Table.Frame) : List (Nat × String) :=
  match Table.Mode.ofValue? onError with
  | some .record => rowErrors frame
  | _ => []

def save [Limits] [Formats] (s : Session) (output : Option Store.Path)
    (frame : Table.Frame) : Except Store.Error Session :=
  match output with
  | some path => (Table.save s.store path frame).map fun store => { s with store }
  | none => .ok s

section

variable [Limits] [Formats]

def finish (host : Host) (s : Session) (order : Order) (batch : String) (frame : Table.Frame) :
    Session × Except Error Summary :=
  let failed := failures order.onError frame
  let s := failed.foldl (fun s (row, message) =>
    s.emit host (rowEvent host batch row message) batch) s
  match save s order.output frame with
  | .error e => (s, .error (.output e))
  | .ok s =>
    let summary : Summary :=
      ⟨batch, frame.height, frame.height - failed.length, failed.length,
        order.output.map (·.text), frame⟩
    (s.emit host (completionEvent host order summary) batch, .ok summary)

def process (host : Host) (s : Session) (order : Order) (batch : String) (frame : Table.Frame) :
    Session × Except Error Summary :=
  let s := s.emit host (startEvent host order batch frame.height) batch
  match Table.evaluate host.operations order.formula frame order.result order.onError with
  | .ok done => finish host s order batch done
  | .error e =>
    match codeOf? e with
    | some code => (s.emit host (failureEvent host order batch e code) batch, .error (.table e))
    | none => (s, .error (.table e))

/-- Runs a batch. Its name counts the runs of the session, failed ones included. -/
def run (host : Host) (s : Session) (order : Order) : Session × Except Error Summary :=
  let s := { s with runs := s.runs + 1 }
  match Table.load s.store order.source with
  | .error e => (s, .error (.source e))
  | .ok frame => process host s order (host.batchName s.runs) frame

end

end Reckon.Session.Batch
