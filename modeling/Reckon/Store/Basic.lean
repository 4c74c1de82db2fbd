import Reckon.Store.Path
import Reckon.Text.Encoding
import Reckon.Text.Quoted
import Reckon.Value.Basic

/-!
Files and folders. Every write gives the file that it touches a later stamp than all
earlier writes, so files can be told apart by how recently they were written.
-/

namespace Reckon

open Text (Bytes)

/-- A file: what is in it, and when it was last written. -/
structure Stored where
  content : Bytes
  stamp : Nat

structure Store where
  files : List (Store.Place × Stored) := []
  folders : List Store.Place := []
  /-- The number of writes so far. -/
  clock : Nat := 0

namespace Store

inductive Error where
  | notFound (path : String)
  | occupied (path : String)
  | isFolder (path : String)
  | notFolder (path : String)
  | tooLong (path : String)
  deriving DecidableEq

namespace Error

def message : Error → String
  | notFound path => s!"[Errno 2] No such file or directory: {Text.quoted path}"
  | occupied path => s!"[Errno 17] File exists: {Text.quoted path}"
  | isFolder path => s!"[Errno 21] Is a directory: {Text.quoted path}"
  | notFolder path => s!"[Errno 20] Not a directory: {Text.quoted path}"
  | tooLong path => s!"[Errno 36] File name too long: {Text.quoted path}"

end Error

def file? (s : Store) (place : Place) : Option Stored :=
  s.files.lookup place

def isFile (s : Store) (place : Place) : Bool :=
  (s.file? place).isSome

/-- The working directory, those above it and the root are always there. -/
def isFolder (s : Store) (place : Place) : Bool :=
  place.all (· = "..") || place == ["/"] || s.folders.contains place

def has (s : Store) (place : Place) : Bool :=
  s.isFile place || s.isFolder place

def put (s : Store) (place : Place) (content : Bytes) : Store :=
  { s with files := Entries.set place ⟨content, s.clock⟩ s.files, clock := s.clock + 1 }

section

variable [Limits]

/-- What keeps a path that is asked for from its end: a part that is not in a folder, or that is too
long for a name. -/
def obstacleFrom? (s : Store) (asked : String) (here : Place) : List String → Option Error
  | [] => none
  | part :: rest =>
    if !s.isFolder here then some (if s.isFile here then .notFolder asked else .notFound asked)
    else if Limits.name < part.utf8ByteSize then some (.tooLong asked)
    else s.obstacleFrom? asked (Path.step here part) rest

def obstacle? (s : Store) (path : Path) : Option Error :=
  if Limits.path < path.size then some (.tooLong path.text)
  else s.obstacleFrom? path.text path.start path.parts

/-- Whether there is a file or folder. A path that is too long cannot be looked at. -/
def exists? (s : Store) (path : Path) : Except Error Bool :=
  match s.obstacle? path with
  | some (.tooLong asked) => .error (.tooLong asked)
  | some _ => .ok false
  | none => .ok (s.has path.place)

/-! ### Folders -/

def makeOne (s : Store) (path : Path) : Except Error Store :=
  match s.obstacle? path with
  | some e => .error e
  | none =>
    if s.isFolder path.place then .ok s
    else if s.isFile path.place then .error (.occupied path.text)
    else .ok { s with folders := s.folders ++ [path.place] }

/-- Makes the folder that the first parts of a path lead to. Only if there is no folder for it, those
above are made before. Those that have been made stay, whatever happens then. -/
def makeUpTo (s : Store) (path : Path) : Nat → Store × Option Error
  | 0 => (s, none)
  | count + 1 =>
    match s.makeOne (path.upTo (count + 1)) with
    | .ok made => (made, none)
    | .error (.notFound _) =>
      match s.makeUpTo path count with
      | (made, some e) => (made, some e)
      | (made, none) =>
        match made.makeOne (path.upTo (count + 1)) with
        | .ok last => (last, none)
        | .error e => (made, some e)
    | .error e => (s, some e)

def makeFolder (s : Store) (path : Path) : Store × Option Error :=
  s.makeUpTo path path.parts.length

/-! ### Files -/

def refusal? (s : Store) (path : Path) : Option Error :=
  match s.obstacle? path with
  | some e => some e
  | none => if s.isFolder path.place then some (.isFolder path.text) else none

def write (s : Store) (path : Path) (content : Bytes) : Except Error Store :=
  match s.refusal? path with
  | some e => .error e
  | none => .ok (s.put path.place content)

def append (s : Store) (path : Path) (bytes : Bytes) : Except Error Store :=
  match s.refusal? path with
  | some e => .error e
  | none =>
    let old := ((s.file? path.place).map (·.content)).getD []
    .ok (s.put path.place (old ++ bytes))

def read (s : Store) (path : Path) : Except Error Bytes :=
  match s.refusal? path, s.file? path.place with
  | some e, _ => .error e
  | none, some stored => .ok stored.content
  | none, none => .error (.notFound path.text)

end

/-- Takes a file away. Its folder stays. -/
def remove (s : Store) (place : Place) : Store :=
  { s with files := s.files.filter fun (other, _) => other ≠ place }

def addFolder (s : Store) (place : Place) : Store :=
  let above := (List.range (place.length + 1)).map place.take
  { s with folders := s.folders ++ above.filter fun p => !s.isFolder p }

def addFolders (s : Store) (path : Path) : Store :=
  path.visited.foldl addFolder s

def plant (s : Store) (path : Path) (content : Bytes) : Store :=
  (s.addFolders path.parent).put path.place content

def filesIn (s : Store) (folder : Place) : List (String × Nat) :=
  s.files.filterMap fun (place, stored) =>
    match place.getLast? with
    | some name => if place.dropLast = folder then some (name, stored.stamp) else none
    | none => none

end Store

end Reckon
