import Reckon.Json.Reader
import Reckon.Log.Sink

/-!
Reading the event files of a project. Only the end of a file is looked at, and lines that
are no JSON are passed over.
-/

namespace Reckon.Log

open Text (Bytes)

inductive ReadError where
  | file (error : Store.Error)
  /-- The window does not fit the file. -/
  | window (asked : Window)
  /-- A line is no text. -/
  | encoding
  /-- An integer on a line has too many digits. -/
  | length (digits : Nat)
  /-- Too many brackets are open on a line, or too deep a value is to be laid out. -/
  | depth
  /-- A line that is to be filtered or shown is no record, or its level is no text. -/
  | shape

/-! ### Lines -/

def pushByte (b : UInt8) (after : Option UInt8 × List Bytes) : Option UInt8 × List Bytes :=
  let (next, lines) := after
  if b = 10 then (some b, [] :: lines)
  else if b = 13 then (some b, if next = some 10 then lines else [] :: lines)
  else match lines with
    | [] => (some b, [[b]])
    | line :: lines => (some b, (b :: line) :: lines)

/-- The lines of some bytes: a line ends at a line feed, a carriage return, or the two. -/
def splitLines (bytes : Bytes) : List Bytes :=
  (bytes.foldr pushByte (none, [])).2

def isBlankByte (b : UInt8) : Bool :=
  b == 32 || (9 ≤ b && b ≤ 13)

/-- The value on a line; nothing if the line is blank or no JSON. -/
def readLine [Limits] (line : Bytes) : Except ReadError (Option Value) :=
  if line.all isBlankByte then .ok none
  else match Text.decodeDetected? line with
    | none => .error .encoding
    | some chars =>
      match Json.read chars with
      | .ok value => .ok (some value)
      | .error .malformed => .ok none
      | .error (.tooLong digits) => .error (.length digits)
      | .error .tooDeep => .error .depth

/-! ### Filters -/

structure Filter where
  level : Option String := none
  topic : Option String := none

namespace Filter

def wants (wanted : Option String) (name : String) (fields : Fields) : Bool :=
  match wanted, fields.lookup name with
  | none, _ => true
  | some wanted, some (.text found) => found == wanted
  | some _, _ => false

/-- Whether a value is to be found. Only records can be filtered. -/
def accepts (f : Filter) (value : Value) : Except ReadError Bool :=
  if f.level.isNone && f.topic.isNone then .ok true
  else match value with
    | .record fields => .ok (wants f.level "level" fields && wants f.topic "event_type" fields)
    | _ => .error .shape

end Filter

section

variable [Limits]

/-- The values on some lines that a filter accepts. The first line that cannot be read
ends it. -/
def collect (f : Filter) : List Bytes → Except ReadError (List Value)
  | [] => .ok []
  | line :: lines => do
    match ← readLine line with
    | none => collect f lines
    | some value =>
      let accepted ← f.accepts value
      let rest ← collect f lines
      return if accepted then value :: rest else rest

end

/-- The first `limit` items, or all but the last ones if the limit is below zero. -/
def takeInt {α : Type} (limit : Int) (items : List α) : List α :=
  if 0 ≤ limit then items.take limit.toNat else items.take (items.length - limit.natAbs)

/-! ### Logs -/

namespace Sink

def maxLimit : Int := 2000

section

variable [Limits]

/-- The values in a file that a filter accepts, the oldest first. A file that is not there
is empty. -/
def events (k : Sink) (s : Store) (path : Store.Path) (f : Filter) :
    Except ReadError (List Value) := do
  if ← (s.exists? path).mapError .file then
    let content ← (s.read path).mapError .file
    match k.window.tail? content with
    | some part => collect f (splitLines part)
    | none => throw (.window k.window)
  else return []

/-- The events that a filter accepts, the newest first. With a batch, only its log is read. -/
def query (k : Sink) (s : Store) (f : Filter) (batch : Option String) (limit : Int) :
    Except ReadError (List Value) :=
  let path? := match batch with
    | some batch => k.batchLog? batch
    | none => some k.log
  match path? with
  | none => .ok []
  | some path => (k.events s path f).map fun found => takeInt (min limit maxLimit) found.reverse

def readBatch (k : Sink) (s : Store) (batch : String) : Except ReadError (List Value) :=
  match k.batchLog? batch with
  | none => .ok []
  | some path => k.events s path {}

end

def insertByStamp (item : String × Nat) : List (String × Nat) → List (String × Nat)
  | [] => [item]
  | other :: rest =>
    if other.2 < item.2 then item :: other :: rest else other :: insertByStamp item rest

/-- The name of a batch, told from the name of its log. A file whose name is nothing but
the suffix keeps it. -/
def batchOfFile? (name : String) : Option String :=
  if name.endsWith batchSuffix then
    if name = batchSuffix then some name
    else some (String.ofList (name.toList.take (name.length - batchSuffix.length)))
  else none

def batches [Limits] (k : Sink) (s : Store) : Except ReadError (List String) := do
  if ← (s.exists? k.batchFolder).mapError .file then
    let files := s.filesIn k.batchFolder.place
    let recent := files.foldl (fun found item => insertByStamp item found) []
    return recent.filterMap fun (name, _) => batchOfFile? name
  else return []

end Sink

end Reckon.Log
