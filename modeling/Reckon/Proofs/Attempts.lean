import Mathlib
import Reckon.Proofs.Recording

/-!
Attempts to add to a log. An attempt does its work, or fails with a part of it done. Whatever comes
of it, all files but the logs of the project stay as they are, and no folder is new but those on the
way to the logs.
-/

namespace Reckon.Store

open Text (Bytes)

def bytes? (s : Store) (place : Place) : Option Bytes :=
  (s.file? place).map (·.content)

variable {s : Store} {place other : Place}

theorem isFile_eq (s : Store) (place : Place) : s.isFile place = (s.bytes? place).isSome := by
  rw [bytes?, Option.isSome_map]
  rfl

theorem bytes?_put_self (bytes : Bytes) : (s.put place bytes).bytes? place = some bytes := by
  rw [bytes?, file?_put_self]
  rfl

theorem bytes?_put_of_ne (different : other ≠ place) (bytes : Bytes) :
    (s.put place bytes).bytes? other = s.bytes? other := by
  rw [bytes?, file?_put_of_ne different, bytes?]

/-! ### Folders that can be made -/

section

variable [Limits] {made after : Store} {path : Path}

/-- The place is on the way to the end of the path, and as far as there no name is too long and no
file is in the way of folders. -/
def Reaches (s : Store) (path : Path) (place : Place) : Prop :=
  ∃ count, place ∈ (path.upTo count).visited ∧ (path.upTo count).fits = true ∧
    ∀ other ∈ (path.upTo count).visited, s.isFile other = false

theorem Reaches.absent (reaches : s.Reaches path place) : s.isFile place = false := by
  obtain ⟨count, way, -, clear⟩ := reaches
  exact clear place way

theorem Reaches.of_files (reaches : after.Reaches path place)
    (held : ∀ other, s.isFile other = true → after.isFile other = true) : s.Reaches path place := by
  obtain ⟨count, way, fits, clear⟩ := reaches
  refine ⟨count, way, fits, fun other member => ?_⟩
  by_contra file
  exact Bool.false_ne_true ((clear other member).symm.trans (held other (by simpa using file)))

theorem Reaches.child (reaches : s.Reaches path place) (name : String) :
    s.Reaches (path.child name) place := by
  obtain ⟨count, clear⟩ := reaches
  have same : (path.child name).upTo (min count path.parts.length) = path.upTo count := by
    simp only [Path.upTo, Path.child]
    rw [List.take_append_of_le_length (Nat.min_le_right _ _), ← List.take_eq_take_min]
  exact ⟨min count path.parts.length, same.symm ▸ clear⟩

theorem clear_of_makeOne (tree : s.IsTree) (makes : s.makeOne path = .ok made) :
    path.fits = true ∧ ∀ other ∈ path.visited, s.isFile other = false := by
  have grown := grown_makeOne makes
  obtain ⟨fits, folders⟩ := isFolder_of_makeOne makes
  refine ⟨fits, fun other member => ?_⟩
  rw [← grown.isFile_eq]
  exact (grown.tree tree).apart other (folders other member)

/-- However many folders are made on the way, each has been there or is one that can be made. -/
theorem isFolder_makeUpTo (tree : s.IsTree) (path : Path) (count : Nat)
    (there : (s.makeUpTo path count).1.isFolder place = true) :
    s.isFolder place = true ∨ s.Reaches path place := by
  have last {s made : Store} (tree : s.IsTree) {count : Nat}
      (makes : s.makeOne (path.upTo count) = .ok made) (there : made.isFolder place = true) :
      s.isFolder place = true ∨ s.Reaches path place := by
    refine ((grown_makeOne makes).new place there).imp_right fun new => ?_
    rw [List.mem_singleton.mp new]
    exact ⟨count, Path.place_mem_visited _, clear_of_makeOne tree makes⟩
  induction count with
  | zero => exact .inl there
  | succ count ih =>
    have grown := grown_makeUpTo s path count
    unfold makeUpTo at there
    split at there
    case h_1 made makes => exact last tree makes there
    case h_2 =>
      split at there
      case h_1 mid e stops => exact ih (stops ▸ there)
      case h_2 mid makes =>
        rw [makes] at grown ih
        split at there
        case h_1 made makes' =>
          rcases last (grown.tree tree) makes' there with old | reaches
          · exact ih old
          · exact .inr (reaches.of_files fun other file => (grown.isFile_eq other).trans file)
        case h_2 => exact ih there
    case h_3 => exact .inl there

end

end Reckon.Store

namespace Reckon.Log

open Store (Path Place)
open Text (Bytes)

/-! ### Attempts -/

section

variable [Limits]

/-- What may come of an attempt to add bytes to a file: the work is done, or there is a failure that
leaves some of the folders on the way to the file, or the first of the bytes. The clock may go on in
any case, so that a host can tell one attempt from the next. -/
inductive Attempt (s : Store) (path : Path) (bytes : Bytes) :
    Store × Option Store.Error → Prop where
  | done {after : Store} (appends : Appender.standard s path bytes = (after, none)) (clock : Nat) :
      Attempt s path bytes ({ after with clock }, none)
  | folders (count clock : Nat) (e : Store.Error) :
      Attempt s path bytes ({ (s.makeUpTo path.parent count).1 with clock }, some e)
  | part {first : Bytes} {after : Store} (begins : first <+: bytes)
      (appends : Appender.standard s path first = (after, none)) (clock : Nat) (e : Store.Error) :
      Attempt s path bytes ({ after with clock }, some e)

/-- Adding to a file is tried; some attempts may fail. -/
def Appender.Tries (a : Appender) : Prop :=
  ∀ s path bytes, Attempt s path bytes (a s path bytes)

theorem tries_standard : Appender.standard.Tries := by
  intro s path bytes
  rcases ended : Appender.standard s path bytes with ⟨after, _ | e⟩
  · exact .done ended after.clock
  · have made : after = (s.makeFolder path.parent).1 := by
      unfold Appender.standard at ended
      split at ended
      case h_1 made e' stops =>
        rw [stops]
        exact (Prod.mk.inj ended).1.symm
      case h_2 made makes =>
        rw [makes]
        split at ended
        case h_1 => cases ended
        case h_2 => exact (Prod.mk.inj ended).1.symm
    rw [made]
    exact .folders path.parent.parts.length (s.makeFolder path.parent).1.clock e

end

/-! ### Beside the logs -/

def logFolder (home : Place) : Place :=
  home ++ ["logs"]

def innerPath (project : Path) : Path :=
  (project.child "logs").child "batches"

theorem logFolder_prefix_log (home : Place) (which : Option String) :
    logFolder home <+: logPlace home which := by
  cases which <;> simp [logFolder, logPlace, innerFolder]

/-- Outside the folder of the logs there is no log. -/
theorem ne_logPlace {home place : Place} (apart : ¬ logFolder home <+: place)
    (which : Option String) : place ≠ logPlace home which := by
  rintro rfl
  exact apart (logFolder_prefix_log home which)

section

variable [Limits] {project : Path} {place : Place} {s mid after : Store}

/-- All files but the logs of a project are what they were, and the logs have not gone. So are the
folders, but for those that can be made on the way to the logs. -/
structure Beside (project : Path) (s after : Store) : Prop where
  tree : after.IsTree
  files : ∀ place, (∀ which, place ≠ logPlace project.place which) →
    after.bytes? place = s.bytes? place
  held : ∀ place, s.isFile place = true → after.isFile place = true
  kept : ∀ place, s.isFolder place = true → after.isFolder place = true
  folders : ∀ place, after.isFolder place = true →
    s.isFolder place = true ∨ s.Reaches (innerPath project) place

namespace Beside

theorem refl (tree : s.IsTree) : Beside project s s :=
  ⟨tree, fun _ _ => rfl, fun _ => id, fun _ => id, fun _ => .inl⟩

theorem trans (first : Beside project s mid) (second : Beside project mid after) :
    Beside project s after where
  tree := second.tree
  files place apart := (second.files place apart).trans (first.files place apart)
  held place there := second.held place (first.held place there)
  kept place there := second.kept place (first.kept place there)
  folders place found := by
    rcases second.folders place found with there | reaches
    · exact first.folders place there
    · exact .inr (reaches.of_files first.held)

theorem withClock (beside : Beside project s after) (clock : Nat) :
    Beside project s { after with clock } :=
  ⟨⟨beside.tree.inside, beside.tree.apart⟩, beside.files, beside.held, beside.kept, beside.folders⟩

end Beside

/-! ### Attempts at logs -/

structure IsLogPath (project path : Path) : Prop where
  named : IsNamed path
  log : ∃ which, path.place = logPlace project.place which
  parent : path.parent = project.child "logs" ∨ path.parent = innerPath project

omit [Limits] in
theorem isLogPath_of_log? {k : Sink} {which : Option String} {path : Path} (isLog : IsLog which)
    (log : k.log? which = some path) : IsLogPath k.project path where
  named := Sink.isNamed_of_log? isLog log
  log := ⟨which, Sink.place_of_log? isLog log⟩
  parent := by
    obtain ⟨folder, name, found, -, inner, -⟩ := k.log?_eq isLog
    obtain rfl := Option.some.inj (log.symm.trans found)
    rwa [Path.parent_child]

omit [Limits] in
theorem isLogPath_of_mem_targets {k : Sink} {batch : Option String} {path : Path}
    (member : path ∈ k.targets batch) : IsLogPath k.project path := by
  obtain ⟨which, isLog, -, log⟩ := Sink.exists_log_of_mem_targets member
  exact isLogPath_of_log? isLog log

namespace IsLogPath

variable {path : Path} (log : IsLogPath project path)
include log

theorem reaches_inner (reaches : s.Reaches path.parent place) : s.Reaches (innerPath project) place := by
  rcases log.parent with same | same
  · exact (same ▸ reaches).child "batches"
  · exact same ▸ reaches

theorem beside_of_folders (tree : s.IsTree) (count : Nat) :
    Beside project s (s.makeUpTo path.parent count).1 := by
  have grown := Store.grown_makeUpTo s path.parent count
  refine ⟨grown.tree tree, fun place _ => ?_, fun place there => ?_, grown.kept,
    fun place there => ?_⟩
  · rw [Store.bytes?, grown.file?_eq, Store.bytes?]
  · exact (grown.isFile_eq place).trans there
  · exact (Store.isFolder_makeUpTo tree path.parent count there).imp_right log.reaches_inner

theorem beside_of_standard {bytes : Bytes} (tree : s.IsTree)
    (appends : Appender.standard s path bytes = (after, none)) : Beside project s after := by
  rcases standard_cases s path bytes with ⟨made, e, -, failed⟩ | ⟨made, makes, accepted, done⟩
  · cases appends.symm.trans failed
  obtain ⟨rfl, -⟩ := Prod.mk.inj (appends.symm.trans done)
  have beside := log.beside_of_folders tree path.parent.parts.length
  rw [← Store.makeFolder, makes] at beside
  refine ⟨beside.tree.put_of_refusal? accepted _, fun place apart => ?_, fun place there => ?_,
    beside.kept, beside.folders⟩
  · obtain ⟨which, same⟩ := log.log
    rw [Store.bytes?_put_of_ne (same ▸ apart which), beside.files place apart]
  · exact Store.isFile_put_iff.mpr (.inr (beside.held place there))

theorem beside_of_attempt {bytes : Bytes} {result : Store × Option Store.Error} (tree : s.IsTree)
    (attempt : Attempt s path bytes result) : Beside project s result.1 := by
  cases attempt with
  | done appends clock => exact (log.beside_of_standard tree appends).withClock clock
  | folders count clock e => exact (log.beside_of_folders tree count).withClock clock
  | part begins appends clock e => exact (log.beside_of_standard tree appends).withClock clock

end IsLogPath

variable {a : Appender} (tries : a.Tries)
include tries

theorem beside_appendAll {paths : List Path} (logs : ∀ path ∈ paths, IsLogPath project path)
    (tree : s.IsTree) (bytes : Bytes) : Beside project s (Sink.appendAll a bytes s paths).1 := by
  induction paths generalizing s with
  | nil => exact .refl tree
  | cons path paths ih =>
    obtain ⟨log, others⟩ := List.forall_mem_cons.mp logs
    have one := log.beside_of_attempt tree (tries s path bytes)
    unfold Sink.appendAll
    split
    case h_1 mid first =>
      rw [first] at one
      exact one.trans (ih others one.tree)
    case h_2 mid e failed =>
      rwa [failed] at one

theorem beside_write {k : Sink} (here : k.project = project) (tree : s.IsTree) (e : Event)
    (batch : Option String) : Beside project s (k.write a s e batch).1 := by
  have logs : ∀ path ∈ k.targets batch, IsLogPath project path :=
    fun path member => here ▸ isLogPath_of_mem_targets member
  rw [Sink.write]
  split
  case h_1 fields _ => exact beside_appendAll tries logs tree (Sink.line fields)
  case h_2 => exact .refl tree

/-- However its attempts end, recording an event stays among the logs. -/
theorem beside_emit {sink : Option Sink} (here : ∀ k ∈ sink, k.project = project)
    (tree : s.IsTree) (e : Event) (batch : Option String) :
    Beside project s (emit a sink s e batch) := by
  unfold emit
  split
  case h_1 k context _ => exact beside_write tries (here k rfl) tree { e with context } batch
  case h_2 => exact .refl tree

end

end Reckon.Log
