import Mathlib
import Reckon.Proofs.Attempts

/-!
A sink stays among its logs. Whatever calls are made to it, with whatever names of batches, it
changes no file but the project's own log and the logs right in the folder of the batches, and what
any other file holds has no say in its answers. A name that is refused has no file, and names that
are not refused have different ones.
-/

namespace Reckon.Store

/-! ### Names in a folder -/

namespace Path

def join (folder : Path) (text : String) : Path :=
  let further := ofText text
  if further.isAbsolute then further else { folder with parts := folder.parts ++ further.parts }

variable {text : String}

theorem splitSlash_of_not_mem {chars : List Char} (plain : '/' ∉ chars) :
    splitSlash chars = [chars] := by
  induction chars with
  | nil => rfl
  | cons c rest ih =>
    obtain ⟨first, others⟩ := not_or.mp (mt List.mem_cons.mpr plain)
    rw [splitSlash, if_neg (Ne.symm first), ih others]

theorem ofText_of_plain (plain : '/' ∉ text.toList) (filled : text ≠ "") (named : text ≠ ".") :
    ofText text = ⟨false, [text]⟩ := by
  have relative : text.startsWith "/" = false := by
    rw [Bool.eq_false_iff, ne_eq, String.startsWith_string_iff]
    rintro ⟨rest, same⟩
    exact plain (same ▸ List.mem_cons_self)
  rw [ofText, relative, splitSlash_of_not_mem plain]
  simp [String.ofList_toList, filled, named]

theorem join_eq_child (plain : '/' ∉ text.toList) (filled : text ≠ "") (named : text ≠ ".")
    (folder : Path) : folder.join text = folder.child text := by
  rw [join, ofText_of_plain plain filled named]
  rfl

/-- From any folder, the text leads to a file or folder right in it. -/
def IsChildName (text : String) : Prop :=
  ∀ folder : Path, (folder.join text).place = folder.place ++ [text]

example : ¬ IsChildName "../b.ndjson" := fun direct =>
  absurd (direct ⟨false, ["p"]⟩) (by decide +kernel)

end Path

end Reckon.Store

namespace Reckon.Store

theorem read_eq [Limits] (s : Store) (path : Path) :
    s.read path = match s.refusal? path, s.bytes? path.place with
      | some e, _ => .error e
      | none, some bytes => .ok bytes
      | none, none => .error (.notFound path.text) := by
  rw [read, bytes?]
  cases s.refusal? path with
  | some e => rfl
  | none => cases s.file? path.place <;> rfl

end Reckon.Store

namespace Reckon.Log

open Store (Path Place)
open Text (Bytes)

variable {project : Path} {home place : Place} {s other after : Store} {k : Sink} {batch : String}
  {which : Option String}

theorem isBatchChar_or_eq (usable : isBatchName batch = true) {c : Char} (member : c ∈ batch.toList) :
    isBatchChar c = true ∨ c = '\n' := by
  simp only [isBatchName, Bool.and_eq_true, List.all_eq_true] at usable
  have chars := usable.2
  split at chars
  case isTrue ended =>
    rw [← List.dropLast_append_getLast? '\n' ended, List.mem_append, List.mem_singleton] at member
    exact member.imp_left (chars c)
  case isFalse => exact .inl (chars c member)

theorem join_batchFile (usable : isBatchName batch = true) (folder : Path) :
    folder.join (batch ++ Sink.batchSuffix) = folder.child (batch ++ Sink.batchSuffix) ∧
      (folder.join (batch ++ Sink.batchSuffix)).place = folder.place ++ [batch ++ Sink.batchSuffix] := by
  have long : 7 ≤ (batch ++ Sink.batchSuffix).length := by
    rw [String.length_append]
    exact Nat.le_add_left 7 _
  have longer {short : String} (bound : short.length < 7) : batch ++ Sink.batchSuffix ≠ short := by
    rintro rfl
    omega
  have plain : '/' ∉ (batch ++ Sink.batchSuffix).toList := by
    rw [String.toList_append, List.mem_append]
    rintro (inside | behind)
    · rcases isBatchChar_or_eq usable inside with char | line
      · exact absurd char (by decide)
      · exact absurd line (by decide)
    · exact absurd behind (by decide)
  have child := Path.join_eq_child plain (longer (by decide)) (longer (by decide)) folder
  exact ⟨child, child ▸ Path.place_child folder (longer (by decide))⟩

theorem Sink.batchLog?_eq (k : Sink) (usable : isBatchName batch = true) :
    k.batchLog? batch = some (k.batchFolder.join (batch ++ batchSuffix)) := by
  rw [batchLog?, if_pos usable, (join_batchFile usable k.batchFolder).1]

theorem Sink.place_batchFile (k : Sink) (usable : isBatchName batch = true) :
    (k.batchFolder.join (batch ++ batchSuffix)).place = logPlace k.project.place (some batch) := by
  rw [(join_batchFile usable k.batchFolder).2, place_batchFolder, logPlace]

/-- Where a sink has its files: the project's own log, and files with the suffix of logs right in the
folder of the batches. -/
inductive IsLogFile (home : Place) : Place → Prop where
  | own : IsLogFile home (home ++ ["logs", "events.ndjson"])
  | batch (name : String) (direct : Path.IsChildName (name ++ ".ndjson")) :
      IsLogFile home (home ++ ["logs", "batches", name ++ ".ndjson"])

theorem logPlace_some (home : Place) (batch : String) :
    logPlace home (some batch) = home ++ ["logs", "batches", batch ++ ".ndjson"] := by
  rw [logPlace, innerFolder, List.append_assoc]
  rfl

theorem isLogFile_logPlace (isLog : IsLog which) : IsLogFile home (logPlace home which) := by
  cases which with
  | none => exact .own
  | some batch =>
    exact logPlace_some home batch ▸ .batch batch fun folder => (join_batchFile isLog folder).2

/-! ### Calls -/

inductive Act where
  | write (e : Event) (batch : Option String)
  | query (f : Filter) (batch : Option String) (limit : Int)
  | readBatch (batch : String)

inductive Answer where
  | written (failure : Option WriteError)
  | found (events : Except ReadError (List Value))

namespace Sink

variable [Limits]

def perform (k : Sink) (s : Store) : Act → Store × Answer
  | .write e batch => ((k.write .standard s e batch).1, .written (k.write .standard s e batch).2)
  | .query f batch limit => (s, .found (k.query s f batch limit))
  | .readBatch batch => (s, .found (k.readBatch s batch))

def performAll (k : Sink) (s : Store) : List Act → Store × List Answer
  | [] => (s, [])
  | act :: acts =>
    let (mid, answer) := k.perform s act
    let (after, answers) := k.performAll mid acts
    (after, answer :: answers)

end Sink

/-! ### What is changed -/

/-- The files that differ are logs to which something was written, and new folders are on the way to
the logs. -/
structure Keeps (project : Path) (written : Option String → Prop) (s after : Store) : Prop where
  files : ∀ place, after.file? place ≠ s.file? place →
    ∃ which, IsLog which ∧ written which ∧ place = logPlace project.place which
  folders : ∀ place, after.isFolder place = true →
    s.isFolder place = true ∨ place ∈ (innerPath project).visited

namespace Keeps

variable {written more : Option String → Prop} {mid : Store}

theorem refl : Keeps project written s s where
  files _ differs := absurd rfl differs
  folders _ := .inl

theorem trans (first : Keeps project written s mid) (second : Keeps project written mid after) :
    Keeps project written s after where
  files place differs := by
    by_cases same : after.file? place = mid.file? place
    · exact first.files place (same ▸ differs)
    · exact second.files place same
  folders place found := by
    rcases second.folders place found with there | above
    · exact first.folders place there
    · exact .inr above

theorem mono (keeps : Keeps project written s after) (wider : ∀ which, written which → more which) :
    Keeps project more s after where
  files place differs := by
    obtain ⟨which, isLog, found, same⟩ := keeps.files place differs
    exact ⟨which, isLog, wider which found, same⟩
  folders := keeps.folders

end Keeps

theorem IsLogPath.visited_parent_subset {path : Path} (log : IsLogPath project path) :
    path.parent.visited ⊆ (innerPath project).visited := by
  rcases log.parent with same | same
  · rw [same, innerPath, Path.visited_child (project.child "logs")]
    exact List.subset_append_left _ _
  · exact same ▸ List.Subset.refl _

section

variable [Limits]

/-- An append to the path of a log puts bytes into that log, if it changes any file. -/
theorem keeps_standard {path : Path} (log : IsLogPath project path) (isLog : IsLog which)
    (there : path.place = logPlace project.place which) (bytes : Bytes) :
    Keeps project (· = which) s (Appender.standard s path bytes).1 := by
  have grown := Store.grown_makeFolder s path.parent
  rcases standard_cases s path bytes with ⟨made, e, grown, failed⟩ | ⟨made, makes, -, done⟩
  · rw [failed]
    exact ⟨fun place differs => absurd (grown.file?_eq place) differs,
      fun place found => (grown.new place found).imp_right (log.visited_parent_subset ·)⟩
  · rw [makes] at grown
    rw [done]
    refine ⟨fun place differs => ⟨which, isLog, rfl, ?_⟩,
      fun place found => (grown.new place found).imp_right (log.visited_parent_subset ·)⟩
    by_contra apart
    rw [← there] at apart
    rw [Store.file?_put_of_ne apart] at differs
    exact differs (grown.file?_eq place)

theorem keeps_appendAll {written : Option String → Prop} {paths : List Path}
    (logs : ∀ path ∈ paths, IsLogPath project path ∧
      ∃ which, IsLog which ∧ written which ∧ path.place = logPlace project.place which)
    (bytes : Bytes) : Keeps project written s (Sink.appendAll .standard bytes s paths).1 := by
  induction paths generalizing s with
  | nil => exact .refl
  | cons path paths ih =>
    obtain ⟨⟨log, which, isLog, wrote, there⟩, others⟩ := List.forall_mem_cons.mp logs
    have one := (keeps_standard (s := s) log isLog there bytes).mono fun _ same => same ▸ wrote
    unfold Sink.appendAll
    split
    case h_1 mid first =>
      rw [first] at one
      exact one.trans (ih others)
    case h_2 mid e failed => rwa [failed] at one

theorem keeps_write (k : Sink) (s : Store) (e : Event) (batch : Option String) :
    Keeps k.project (fun which => which = none ∨ which = batch) s
      (k.write .standard s e batch).1 := by
  unfold Sink.write
  cases e.printed with
  | error failure => exact .refl
  | ok fields =>
    refine keeps_appendAll (fun path member => ⟨isLogPath_of_mem_targets member, ?_⟩) _
    obtain ⟨which, isLog, wrote, log⟩ := Sink.exists_log_of_mem_targets member
    exact ⟨which, isLog, wrote, Sink.place_of_log? isLog log⟩

end

def Act.Writes (which : Option String) : Act → Prop
  | .write _ batch => which = none ∨ which = batch
  | _ => False

theorem keeps_perform [Limits] (k : Sink) (s : Store) (act : Act) :
    Keeps k.project (act.Writes ·) s (k.perform s act).1 := by
  cases act with
  | write e batch => exact keeps_write k s e batch
  | query f batch limit => exact .refl
  | readBatch batch => exact .refl

theorem keeps_performAll [Limits] (k : Sink) (s : Store) (acts : List Act) :
    Keeps k.project (fun which => ∃ act ∈ acts, act.Writes which) s (k.performAll s acts).1 := by
  induction acts generalizing s with
  | nil => exact .refl
  | cons act acts ih =>
    refine .trans ((keeps_perform k s act).mono fun which writes => ?_) ((ih _).mono fun which => ?_)
    · exact ⟨act, List.mem_cons_self, writes⟩
    · rintro ⟨later, member, writes⟩
      exact ⟨later, List.mem_cons_of_mem _ member, writes⟩

/-! ### What is read -/

/-- Two stores with the same logs. Nor do they differ in what stands where the folders on the way to
the logs are or would be, though other files may have any content. -/
structure Agree (project : Path) (s other : Store) : Prop where
  files : ∀ place, IsLogFile project.place place → s.bytes? place = other.bytes? place
  obstacles : ∀ place ∈ (innerPath project).visited, s.isFile place = other.isFile place
  folders : ∀ place, IsLogFile project.place place ∨ place ∈ (innerPath project).visited →
    s.isFolder place = other.isFolder place

def Agreeing (project : Path) : Except Store.Error Store → Except Store.Error Store → Prop
  | .ok s, .ok other => Agree project s other
  | .error e, .error e' => e = e'
  | _, _ => False

/-- Two runs give the same, and leave the same logs. -/
structure Parallel {α : Type} (project : Path) (one two : Store × α) : Prop where
  gives : one.2 = two.2
  leaves : Agree project one.1 two.1

section

variable [Limits] {path : Path} (agree : Agree project s other)
include agree

namespace Agree

omit [Limits] in
theorem put (place : Place) (bytes : Bytes) :
    Agree project (s.put place bytes) (other.put place bytes) where
  files place' file := by
    by_cases same : place' = place
    · rw [same, Store.bytes?_put_self, Store.bytes?_put_self]
    · rw [Store.bytes?_put_of_ne same, Store.bytes?_put_of_ne same, agree.files place' file]
  obstacles place' way := by
    rw [Bool.eq_iff_iff, Store.isFile_put_iff, Store.isFile_put_iff, agree.obstacles place' way]
  folders := agree.folders

omit [Limits] in
theorem withFolder (place : Place) :
    Agree project { s with folders := s.folders ++ [place] }
      { other with folders := other.folders ++ [place] } where
  files := agree.files
  obstacles := agree.obstacles
  folders place' concerned := by
    have split (s : Store) : Store.isFolder { s with folders := s.folders ++ [place] } place' =
        (s.isFolder place' || decide (place' = place)) := by
      simp [Store.isFolder, Bool.or_assoc]
    rw [split, split, agree.folders place' concerned]

theorem obstacle?_eq (way : path.through ⊆ (innerPath project).visited) :
    s.obstacle? path = other.obstacle? path :=
  Store.obstacle?_congr fun place member =>
    ⟨agree.folders place (.inr (way member)), agree.obstacles place (way member)⟩

/-! #### Making folders -/

theorem makeOne (way : path.visited ⊆ (innerPath project).visited) :
    Agreeing project (s.makeOne path) (other.makeOne path) := by
  have own := way (Path.place_mem_visited path)
  rw [Store.makeOne, Store.makeOne, agree.folders path.place (.inr own),
    agree.obstacles path.place own,
    agree.obstacle?_eq fun place member => way (List.mem_append_left _ member)]
  cases other.obstacle? path with
  | some e => rfl
  | none =>
    dsimp only
    split_ifs
    · exact agree
    · rfl
    · exact agree.withFolder path.place

theorem makeUpTo (count : Nat)
    (way : (path.upTo count).visited ⊆ (innerPath project).visited) :
    Parallel project (s.makeUpTo path count) (other.makeUpTo path count) := by
  induction count with
  | zero => exact ⟨rfl, agree⟩
  | succ count ih =>
    have first := agree.makeOne way
    obtain ⟨gives, leaves⟩ := ih fun place member => way (Path.visited_upTo_mono path count member)
    rw [Store.makeUpTo, Store.makeUpTo]
    rcases one : s.makeOne (path.upTo (count + 1)) with e | made <;>
      rcases two : other.makeOne (path.upTo (count + 1)) with e' | made' <;>
      rw [one, two] at first
    case error.ok => exact first.elim
    case ok.error => exact first.elim
    case ok.ok => exact ⟨rfl, first⟩
    case error.error =>
      obtain rfl : e = e' := first
      cases e with
      | notFound asked =>
        -- the folders above are made in both, or in neither
        rcases above : s.makeUpTo path count with ⟨mid, failure⟩
        rcases above' : other.makeUpTo path count with ⟨mid', failure'⟩
        rw [above, above'] at gives leaves
        obtain rfl : failure = failure' := gives
        cases failure with
        | some e => exact ⟨rfl, leaves⟩
        | none =>
          have last := Agree.makeOne leaves way
          dsimp only
          rcases one : mid.makeOne (path.upTo (count + 1)) with e | made <;>
            rcases two : mid'.makeOne (path.upTo (count + 1)) with e' | made' <;>
            rw [one, two] at last
          case error.error => exact ⟨congrArg some last, leaves⟩
          case error.ok => exact last.elim
          case ok.error => exact last.elim
          case ok.ok => exact ⟨rfl, last⟩
      | _ => exact ⟨rfl, agree⟩

theorem makeFolder (way : path.visited ⊆ (innerPath project).visited) :
    Parallel project (s.makeFolder path) (other.makeFolder path) :=
  agree.makeUpTo _ ((Path.upTo_length path).symm ▸ way)

/-! #### Files -/

theorem refusal?_eq (way : path.through ⊆ (innerPath project).visited)
    (file : IsLogFile project.place path.place) : s.refusal? path = other.refusal? path := by
  rw [Store.refusal?, Store.refusal?, agree.obstacle?_eq way, agree.folders path.place (.inl file)]

theorem append (way : path.through ⊆ (innerPath project).visited)
    (file : IsLogFile project.place path.place) (bytes : Bytes) :
    Agreeing project (s.append path bytes) (other.append path bytes) := by
  have content : (s.file? path.place).map (·.content) = (other.file? path.place).map (·.content) :=
    agree.files path.place file
  rw [Store.append, Store.append, agree.refusal?_eq way file, content]
  cases other.refusal? path with
  | some e => rfl
  | none => exact agree.put path.place _

theorem events_eq (way : path.through ⊆ (innerPath project).visited)
    (file : IsLogFile project.place path.place) (k : Sink) (f : Filter) :
    k.events s path f = k.events other path f := by
  have bytes := agree.files path.place file
  have has : s.has path.place = other.has path.place := by
    rw [Store.has, Store.has, Store.isFile_eq, Store.isFile_eq, bytes,
      agree.folders path.place (.inl file)]
  have found : s.exists? path = other.exists? path := by
    rw [Store.exists?, Store.exists?, agree.obstacle?_eq way, has]
  have read : s.read path = other.read path := by
    rw [Store.read_eq, Store.read_eq, bytes, agree.refusal?_eq way file]
  rw [Sink.events, Sink.events, found, read]

theorem standard (log : IsLogPath project path) (file : IsLogFile project.place path.place)
    (bytes : Bytes) :
    Parallel project (Appender.standard s path bytes) (Appender.standard other path bytes) := by
  have way := log.visited_parent_subset
  obtain ⟨gives, leaves⟩ := agree.makeFolder way
  unfold Appender.standard
  rcases one : s.makeFolder path.parent with ⟨made, failure⟩
  rcases two : other.makeFolder path.parent with ⟨made', failure'⟩
  rw [one, two] at gives leaves
  obtain rfl : failure = failure' := gives
  cases failure with
  | some e => exact ⟨rfl, leaves⟩
  | none =>
    have added := Agree.append leaves (log.named.visited_parent ▸ way) file bytes
    dsimp only
    rcases one : made.append path bytes with e | after <;>
      rcases two : made'.append path bytes with e' | after' <;> rw [one, two] at added
    case error.error => exact ⟨congrArg some added, leaves⟩
    case error.ok => exact added.elim
    case ok.error => exact added.elim
    case ok.ok => exact ⟨rfl, added⟩

theorem appendAll {paths : List Path}
    (logs : ∀ path ∈ paths, IsLogPath project path ∧ IsLogFile project.place path.place)
    (bytes : Bytes) : Parallel project (Sink.appendAll .standard bytes s paths)
      (Sink.appendAll .standard bytes other paths) := by
  induction paths generalizing s other with
  | nil => exact ⟨rfl, agree⟩
  | cons path paths ih =>
    obtain ⟨⟨log, file⟩, others⟩ := List.forall_mem_cons.mp logs
    obtain ⟨gives, leaves⟩ := agree.standard log file bytes
    simp only [Sink.appendAll]
    cases one : Appender.standard s path bytes with | mk mid failure
    cases two : Appender.standard other path bytes with | mk mid' failure'
    rw [one, two] at gives leaves
    obtain rfl : failure = failure' := gives
    cases failure with
    | some e => exact ⟨rfl, leaves⟩
    | none => exact ih leaves others

end Agree

end

theorem isLogFile_of_log? {path : Path} (isLog : IsLog which) (log : k.log? which = some path) :
    IsLogFile k.project.place path.place :=
  Sink.place_of_log? isLog log ▸ isLogFile_logPlace isLog

namespace Agree

variable [Limits] (agree : Agree k.project s other)
include agree

theorem write (e : Event) (batch : Option String) :
    Parallel k.project (k.write .standard s e batch) (k.write .standard other e batch) := by
  unfold Sink.write
  cases e.printed with
  | error failure => exact ⟨rfl, agree⟩
  | ok fields =>
    have logs : ∀ path ∈ k.targets batch,
        IsLogPath k.project path ∧ IsLogFile k.project.place path.place := by
      intro path member
      obtain ⟨which, isLog, -, log⟩ := Sink.exists_log_of_mem_targets member
      exact ⟨isLogPath_of_log? isLog log, isLogFile_of_log? isLog log⟩
    obtain ⟨gives, leaves⟩ := agree.appendAll logs (Sink.line fields)
    exact ⟨congrArg (Option.map WriteError.file) gives, leaves⟩

theorem log_eq {path : Path} (isLog : IsLog which) (log : k.log? which = some path) (f : Filter) :
    k.events s path f = k.events other path f := by
  have here := isLogPath_of_log? isLog log
  have way := here.named.visited_parent ▸ here.visited_parent_subset
  exact agree.events_eq way (isLogFile_of_log? isLog log) k f

theorem query_eq (f : Filter) (which : Option String) (limit : Int) :
    k.query s f which limit = k.query other f which limit := by
  by_cases isLog : IsLog which
  · obtain ⟨folder, name, log, -⟩ := k.log?_eq isLog
    rw [Sink.query_eq log, Sink.query_eq log, agree.log_eq isLog log]
  · rw [k.query_of_not_isLog isLog, k.query_of_not_isLog isLog]

theorem readBatch_eq (batch : String) : k.readBatch s batch = k.readBatch other batch := by
  cases usable : isBatchName batch with
  | true =>
    have isLog := isLog_of_isBatchName usable
    obtain ⟨folder, name, log, -⟩ := k.log?_eq isLog
    rw [Sink.readBatch_eq log, Sink.readBatch_eq log, agree.log_eq isLog log]
  | false => rw [k.readBatch_of_not_isBatchName usable, k.readBatch_of_not_isBatchName usable]

theorem perform (act : Act) :
    Parallel k.project (k.perform s act) (k.perform other act) := by
  cases act with
  | write e batch =>
    obtain ⟨gives, leaves⟩ := agree.write e batch
    exact ⟨congrArg Answer.written gives, leaves⟩
  | query f batch limit => exact ⟨congrArg Answer.found (agree.query_eq f batch limit), agree⟩
  | readBatch batch => exact ⟨congrArg Answer.found (agree.readBatch_eq batch), agree⟩

theorem performAll (acts : List Act) :
    Parallel k.project (k.performAll s acts) (k.performAll other acts) := by
  induction acts generalizing s other with
  | nil => exact ⟨rfl, agree⟩
  | cons act acts ih =>
    obtain ⟨answer, between⟩ := agree.perform act
    obtain ⟨answers, leaves⟩ := ih between
    exact ⟨congrArg₂ List.cons answer answers, leaves⟩

end Agree

/-! ### All calls -/

structure StaysInside [Limits] (k : Sink) (acts : List Act) : Prop where
  /-- A file that is created or changed is the log of some write. -/
  changed : ∀ s place, (k.performAll s acts).1.file? place ≠ s.file? place →
    IsLogFile k.project.place place ∧ ∃ act ∈ acts, ∃ which, act.Writes which ∧ IsLog which ∧
      place = logPlace k.project.place which
  /-- A folder that is made is on the way to the logs. -/
  made : ∀ s place, (k.performAll s acts).1.isFolder place = true →
    s.isFolder place = true ∨ place ∈ k.batchFolder.visited
  /-- No other files are read: whatever they hold, the answers and the logs are the same. -/
  unread : ∀ s other, Agree k.project s other →
    Parallel k.project (k.performAll s acts) (k.performAll other acts)

theorem staysInside [Limits] (k : Sink) (acts : List Act) : StaysInside k acts where
  changed s place differs := by
    obtain ⟨which, isLog, ⟨act, member, writes⟩, rfl⟩ := (keeps_performAll k s acts).files place differs
    exact ⟨isLogFile_logPlace isLog, act, member, which, writes, isLog, rfl⟩
  made s := (keeps_performAll k s acts).folders
  unread _ _ agree := agree.performAll acts

/-- A write with a name that is refused is a write without a name. -/
theorem write_of_not_isBatchName [Limits] (k : Sink) (refused : isBatchName batch = false) (s : Store)
    (e : Event) : k.write .standard s e (some batch) = k.write .standard s e none := by
  have target : k.batchLog? batch = none := if_neg (Bool.eq_false_iff.mp refused)
  rw [Sink.write, Sink.write, Sink.targets, target]
  rfl

/-- Whatever the calls and the names of batches in them, a sink stays among its logs. A name that is
refused is as good as none to a write, and has no events; names that are not refused name files right
in the folder of the batches, and different ones. -/
theorem sink_stays_inside [Limits] (k : Sink) :
    (∀ acts, StaysInside k acts) ∧
    (∀ batch, isBatchName batch = false → ∀ s,
      (∀ e, k.write .standard s e (some batch) = k.write .standard s e none) ∧
      (∀ f limit, k.query s f (some batch) limit = .ok []) ∧ k.readBatch s batch = .ok []) ∧
    (∀ batch, isBatchName batch = true →
      k.batchLog? batch = some (k.batchFolder.join (batch ++ ".ndjson")) ∧
      (k.batchFolder.join (batch ++ ".ndjson")).place =
        k.project.place ++ ["logs", "batches", batch ++ ".ndjson"]) ∧
    ∀ batch other, isBatchName batch = true → isBatchName other = true → batch ≠ other →
      (k.batchFolder.join (batch ++ ".ndjson")).place ≠
        (k.batchFolder.join (other ++ ".ndjson")).place := by
  refine ⟨staysInside k, ?refused, ?named, ?distinct⟩
  case refused =>
    intro batch refused s
    have missing : ¬ IsLog (some batch) := Bool.eq_false_iff.mp refused
    exact ⟨write_of_not_isBatchName k refused s, k.query_of_not_isLog missing s,
      k.readBatch_of_not_isBatchName refused s⟩
  case named =>
    intro batch usable
    exact ⟨k.batchLog?_eq usable, (k.place_batchFile usable).trans (logPlace_some _ batch)⟩
  case distinct =>
    intro batch other usable usable' differ same
    have logs := (k.place_batchFile usable).symm.trans (same.trans (k.place_batchFile usable'))
    exact differ (Option.some.inj (logPlace_inj.mp logs))

section

attribute [local instance] Limits.standard

/-- A name that leads out of the folder is refused. A line break behind a name makes another name, of
another file. -/
theorem sink_stays_inside_refused :
    let k : Sink := ⟨⟨false, ["p"]⟩, .standard⟩
    let e : Event := { time := "2024-05-01T00:00:00.000000Z", level := .info, topic := .evalCompleted }
    let after := (k.performAll {} [.write e (some "../b")]).1
    (∀ place, after.isFile place = true → place = ["p", "logs", "events.ndjson"]) ∧
      k.readBatch after "../b" = .ok [] ∧
      (k.batchFolder.join ("b" ++ ".ndjson")).place ≠
        (k.batchFolder.join ("b\n" ++ ".ndjson")).place := by
  intro k e after
  obtain ⟨inside, refused, -, distinct⟩ := sink_stays_inside k
  have unusable : isBatchName "../b" = false := by decide
  refine ⟨fun place there => ?_, (refused "../b" unusable after).2.2,
    distinct "b" "b\n" (by decide) (by decide) (by decide)⟩
  have differs : after.file? place ≠ ({} : Store).file? place := by
    intro same
    rw [Store.isFile, same] at there
    cases there
  obtain ⟨-, act, member, which, writes, isLog, rfl⟩ := (inside _).changed {} place differs
  obtain rfl := List.mem_singleton.mp member
  rcases writes with rfl | rfl
  · rfl
  · exact absurd (unusable.symm.trans isLog) Bool.false_ne_true

end

end Reckon.Log
