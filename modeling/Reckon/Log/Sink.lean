import Reckon.Json.Printer
import Reckon.Log.Truncation
import Reckon.Log.Window
import Reckon.Store.Basic

/-!
Event files of a project. Every event is a line of the project's own log; events of a
batch are also lines of that batch's log.
-/

namespace Reckon.Log

open Text (Bytes)

def isBatchChar (c : Char) : Bool :=
  c.isAlphanum || c == '_' || c == '-'

/-- Names of batches become file names, so they hold nothing but letters, digits, `_` and
`-`; a line break may follow. -/
def isBatchName (name : String) : Bool :=
  let chars := name.toList
  let body := if chars.getLast? = some '\n' then chars.dropLast else chars
  !body.isEmpty && body.all isBatchChar

/-- Adds bytes to a file: the files afterwards, and why it failed if it did. -/
abbrev Appender := Store → Store.Path → Bytes → Store × Option Store.Error

/-- The files of a working store. The folder of the file is made if it is not there. -/
def Appender.standard [Limits] : Appender := fun s path bytes =>
  match s.makeFolder path.parent with
  | (made, some e) => (made, some e)
  | (made, none) =>
    match made.append path bytes with
    | .ok after => (after, none)
    | .error e => (made, some e)

inductive WriteError where
  | file (error : Store.Error)
  /-- Values in its context stand too deep in one another. -/
  | depth
  /-- An integer in it has too many digits. -/
  | length
  deriving DecidableEq

def WriteError.message : WriteError → String
  | file e => e.message
  | .depth => "Maximum serialization depth exceeded"
  | .length => Value.tooLongMessage

/-- The greatest height of the values in the context of an event that can be written. -/
def maxHeight : Nat := 255

def Event.written (e : Event) : Except WriteError Fields :=
  if Value.heightOfFields e.context ≤ maxHeight then .ok e.fields else .error .depth

def Event.printed (e : Event) : Except WriteError Fields :=
  e.written.bind fun fields => if Value.haveShort fields then .ok fields else .error .length

/-- Where the events of a project go. -/
structure Sink where
  project : Store.Path
  window : Window := .standard

namespace Sink

def folder (k : Sink) : Store.Path :=
  k.project.child "logs"

def log (k : Sink) : Store.Path :=
  k.folder.child "events.ndjson"

def batchFolder (k : Sink) : Store.Path :=
  k.folder.child "batches"

def batchSuffix : String := ".ndjson"

def batchLog? (k : Sink) (batch : String) : Option Store.Path :=
  if isBatchName batch then some (k.batchFolder.child (batch ++ batchSuffix)) else none

def line (fields : Fields) : Bytes :=
  Text.encode (Json.compact (Json.sorted (.record fields)) ++ "\n")

def targets (k : Sink) (batch : Option String) : List Store.Path :=
  k.log :: match batch with
    | some batch => (k.batchLog? batch).toList
    | none => []

/-- Adds bytes to one file after the other; a failure ends it. -/
def appendAll (append : Appender) (bytes : Bytes) (s : Store) :
    List Store.Path → Store × Option Store.Error
  | [] => (s, none)
  | path :: paths =>
    match append s path bytes with
    | (s, none) => appendAll append bytes s paths
    | (s, some e) => (s, some e)

/-- Adds the line of an event to its files. An event that cannot be written changes nothing. -/
def write (append : Appender) (k : Sink) (s : Store) (e : Event) (batch : Option String) :
    Store × Option WriteError :=
  match e.printed with
  | .ok fields =>
    let (s, failure) := appendAll append (line fields) s (k.targets batch)
    (s, failure.map .file)
  | .error failure => (s, some failure)

end Sink

/-- Records an event at a sink, if there is one. Long texts are shortened, and failures do
not matter. -/
def emit [Limits] (append : Appender) (sink : Option Sink) (s : Store) (e : Event)
    (batch : Option String) : Store :=
  match sink, truncateContext? e.context with
  | some k, some context => (k.write append s { e with context } batch).1
  | _, _ => s

end Reckon.Log
