import Reckon.Command.Run
import Reckon.Command.Scope
import Reckon.Session.Stamps
import Std.Time.DateTime.Timestamp

/-!
The program. What a call may look at is copied into a store, the call is run on the store,
and what has changed is written back. A file that has only grown is appended to, so that
events of other calls are not lost.
-/

namespace Reckon.Program

open Store (Path)

/-- The limits and formats under which the program runs. -/
local instance : Limits := .standard

local instance : Formats := .standard

def copyIn (s : Store) (path : Path) : IO Store := do
  match ← (IO.FS.readBinFile path.text).toBaseIO with
  | .ok bytes => return s.plant path bytes.toList
  | .error (.inappropriateType _ code _) =>
    return if code = 21 then s.addFolders path else s
  | .error _ => return s

def filesOf (folder : Path) : IO (List Path) := do
  match ← (IO.FS.realPath folder.text).toBaseIO with
  | .error _ => return []
  | .ok place =>
    let entries ← (← place.readDir).mapM fun entry => do
      return ((← entry.path.metadata).modified, entry.fileName)
    let sorted := entries.toList.mergeSort fun a b => (compare a.1 b.1).isLE
    return sorted.map fun (_, name) => folder.child name

def load (request : Command.Request) : IO Store := do
  let listed ← request.listed.mapM filesOf
  (request.paths ++ listed.flatten).foldlM copyIn {}

def copyOut (before : Store) (path : Path) (content : Text.Bytes) : IO Unit := do
  let old := ((before.file? path.place).map (·.content)).getD []
  if old == content && before.isFile path.place then return
  if old.isPrefixOf content then
    let handle ← IO.FS.Handle.mk path.text .append
    handle.lock
    handle.write (ByteArray.mk (content.drop old.length).toArray)
  else IO.FS.writeBinFile path.text (ByteArray.mk content.toArray)

def save (before after : Store) : IO Unit := do
  for place in after.folders do
    if !before.isFolder place then IO.FS.createDirAll (Path.ofPlace place).text
  for (place, stored) in after.files do
    copyOut before (.ofPlace place) stored.content

def usage : String :=
  "Usage: formulakit [--version] COMMAND [ARGS]..."

def currentHost : IO Host := do
  let time ← Std.Time.Timestamp.now
  let name := Session.nameOf (← IO.getRandomBytes 16).toList
  return {
    append := .standard
    now := Session.Clock.text (time.toNanosecondsSinceUnixEpoch.val / 1000).toNat
    batchName := fun _ => name
    help := fun _ => usage }

def tell : Command.Report → IO UInt32
  | .done status output errors => do
    IO.print output
    IO.eprint errors
    return status.toUInt32
  | .usage => do
    IO.eprintln usage
    return 2
  | .crash _ => do
    IO.eprintln "The command failed."
    return 1

def call (words : List String) : IO UInt32 := do
  let store ← match Command.Request.ofWords? words with
    | some request => load request
    | none => pure {}
  let (session, report) := Command.run (← currentHost) { store } words
  save store session.store
  tell report

end Reckon.Program

def main (words : List String) : IO UInt32 :=
  Reckon.Program.call words
