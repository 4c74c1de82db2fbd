import Mathlib
import Reckon.Command.Run
import Reckon.Proofs.Attempts
import Reckon.Proofs.Batches

/-!
Answers do not depend on the logs. Whether attempts to record events go well, fail, or fail with a
part of the work done, a batch run has the same outcome as without any sink, and a command gives the
same answer; and the files beside the logs are the same. A table may not go to the logs, and what
its path leads through may not be something that is first made for them.
-/

namespace Reckon.Log

open Store (Path Place)
open Text (Bytes)

section

variable [Limits] {project path : Path} {place : Place} {s after : Store}

/-- Whatever becomes of the logs, the path is beside them; and all that it leads through, and its
end, is there already where it is a folder that could be made for the logs, or a log. -/
structure IsApart (s : Store) (project path : Path) : Prop where
  beside : ¬ logFolder project.place <+: path.place
  settled : ∀ place ∈ path.visited,
    (s.Reaches (innerPath project) place ∨ ∃ which, place = logPlace project.place which) →
      s.has place = true

namespace Beside

variable (beside : Beside project s after) (apart : IsApart s project path)
include beside apart

/-- What the path leads through is the same in both stores. -/
theorem agrees : ∀ place ∈ path.visited,
    after.isFolder place = s.isFolder place ∧ after.isFile place = s.isFile place := by
  intro place member
  by_cases touched :
      s.Reaches (innerPath project) place ∨ ∃ which, place = logPlace project.place which
  · rcases Bool.or_eq_true_iff.mp (apart.settled place member touched) with file | folder
    · have held := beside.held place file
      have none := beside.tree.not_isFolder_of_isFile held
      refine ⟨none.trans (Eq.symm (Bool.eq_false_iff.mpr fun folder => ?_)), held.trans file.symm⟩
      exact Bool.false_ne_true (none.symm.trans (beside.kept place folder))
    · have kept := beside.kept place folder
      have none := beside.tree.apart place kept
      refine ⟨kept.trans folder.symm, none.trans (Eq.symm (Bool.eq_false_iff.mpr fun file => ?_))⟩
      exact Bool.false_ne_true (none.symm.trans (beside.held place file))
  · obtain ⟨unreached, other⟩ := not_or.mp touched
    rw [Bool.eq_iff_iff, Store.isFile_eq, Store.isFile_eq,
      beside.files place fun which same => other ⟨which, same⟩]
    exact ⟨⟨fun found => (beside.folders place found).resolve_right unreached, beside.kept place⟩,
      rfl⟩

theorem refusal?_eq : after.refusal? path = s.refusal? path := by
  have visited := beside.agrees apart
  have way : after.obstacle? path = s.obstacle? path :=
    Store.obstacle?_congr fun place member => visited place (List.mem_append_left _ member)
  have last := (visited path.place (Path.place_mem_visited path)).1
  simp only [Store.refusal?, way, last]

/-- A file beside the logs that is written in both stores is the same in both. -/
theorem put (accepted : after.refusal? path = none) (bytes : Bytes) :
    Beside project (s.put path.place bytes) (after.put path.place bytes) where
  tree := beside.tree.put_of_refusal? accepted bytes
  files other outside := by
    by_cases same : other = path.place
    · rw [same, Store.bytes?_put_self, Store.bytes?_put_self]
    · rw [Store.bytes?_put_of_ne same, Store.bytes?_put_of_ne same, beside.files other outside]
  held other there := by
    rw [Store.isFile_put_iff] at there ⊢
    exact there.imp_right (beside.held other)
  kept := beside.kept
  folders other found := by
    refine (beside.folders other found).imp_right fun ⟨count, way, fits, clear⟩ => ?_
    refine ⟨count, way, fits, fun higher member => Bool.eq_false_iff.mpr fun file => ?_⟩
    rcases Store.isFile_put_iff.mp file with rfl | old
    · -- a file that can be written is not in the way of folders that are to be made
      have reaches : s.Reaches (innerPath project) path.place := ⟨count, member, fits, clear⟩
      have there := apart.settled _ (Path.place_mem_visited path) (.inl reaches)
      rw [Store.has, reaches.absent, Bool.false_or] at there
      have free := (Store.refusal?_eq_none_iff.mp accepted).2
      exact Bool.false_ne_true (free.symm.trans (beside.kept _ there))
    · exact Bool.false_ne_true ((clear higher member).symm.trans old)

end Beside

end

/-! ### No logs at all -/

def Appender.idle : Appender :=
  fun s _ _ => (s, none)

theorem appendAll_idle (bytes : Bytes) (s : Store) (paths : List Path) :
    Sink.appendAll .idle bytes s paths = (s, none) := by
  induction paths with
  | nil => rfl
  | cons path paths ih => exact ih

theorem emit_idle [Limits] (sink : Option Sink) (s : Store) (e : Event) (batch : Option String) :
    emit .idle sink s e batch = s := by
  unfold emit
  split
  case h_1 k context _ =>
    rw [Sink.write]
    split
    · rw [appendAll_idle]
    · rfl
  case h_2 => rfl

end Reckon.Log

namespace Reckon

abbrev Host.adding (host : Host) (a : Log.Appender) : Host :=
  { host with append := a }

namespace Session

open Log (Appender Beside Event IsApart Sink)
open Store (Path)

variable [Limits]

/-- Two runs come to the same answer, and the files after the second are those after the first and
what has become of the logs. -/
structure Echoes {α : Type} (project : Path) (quiet loud : Session × α) : Prop where
  answer : loud.2 = quiet.2
  files : Beside project quiet.1.store loud.1.store

variable {a : Appender} (host : Host) {s q : Session} {project : Path} (batch : Option String)

theorem emit_idle (q : Session) (e : Event) :
    q.emit (host.adding .idle) e batch = q := by
  rw [emit, Log.emit_idle]

theorem emitAll_idle (q : Session) (events : List Event) :
    events.foldl (fun s e => s.emit (host.adding .idle) e batch) q = q := by
  induction events with
  | nil => rfl
  | cons e events ih => rw [List.foldl_cons, emit_idle, ih]

section

variable (tries : a.Tries) (here : ∀ k ∈ s.sink, k.project = project)
include tries here

theorem beside_emit (beside : Beside project q.store s.store) (e : Event) :
    Beside project q.store (s.emit (host.adding a) e batch).store :=
  beside.trans (Log.beside_emit tries here beside.tree e batch)

theorem beside_emitAll (beside : Beside project q.store s.store) (events : List Event) :
    ∃ after,
      events.foldl (fun s e => s.emit (host.adding a) e batch) s = { s with store := after } ∧
      Beside project q.store after := by
  induction events generalizing s with
  | nil => exact ⟨s.store, rfl, beside⟩
  | cons e events ih =>
    obtain ⟨after, emits, beside⟩ := ih (s := s.emit (host.adding a) e batch) here
      (beside_emit host batch tries here beside e)
    exact ⟨after, emits, beside⟩

end

/-! ### Batch runs -/

namespace Batch

theorem emit_rows (s : Session) (name : String) (failing : List (Nat × String)) :
    failing.foldl (fun s (row, message) => s.emit host (rowEvent host name row message) name) s =
      (failing.map fun failure => rowEvent host name failure.1 failure.2).foldl
        (fun s e => s.emit host e name) s := by
  rw [List.foldl_map]

variable [Formats] (order : Order) (frame : Table.Frame) (name : String)

/-- A table is written in both sessions, or in neither for one reason. -/
theorem save_beside (beside : Beside project q.store s.store) {output : Option Path}
    (apart : ∀ path ∈ output, IsApart q.store project path) :
    (∃ e, save q output frame = .error e ∧ save s output frame = .error e) ∨
      ∃ quiet loud, save q output frame = .ok { q with store := quiet } ∧
        save s output frame = .ok { s with store := loud } ∧ Beside project quiet loud := by
  cases output with
  | none => exact .inr ⟨q.store, s.store, rfl, rfl, beside⟩
  | some path =>
    have fits := apart path rfl
    have same := beside.refusal?_eq fits
    cases refused : q.store.refusal? path with
    | some e =>
      rw [refused] at same
      exact .inl ⟨e, by simp [save, Table.save, Store.write, refused, Except.map],
        by simp [save, Table.save, Store.write, same, Except.map]⟩
    | none =>
      rw [refused] at same
      have written := beside.put fits same (Text.encode (Formats.writeTable frame))
      exact .inr ⟨_, _, by simp only [save, Table.save, Store.write, refused, Except.map],
        by simp only [save, Table.save, Store.write, same, Except.map], written⟩

section

variable (tries : a.Tries) (here : ∀ k ∈ s.sink, k.project = project)
include tries here

theorem echoes_finish (beside : Beside project q.store s.store)
    (apart : ∀ path ∈ order.output, IsApart q.store project path) :
    Echoes project (finish (host.adding .idle) q order name frame)
      (finish (host.adding a) s order name frame) := by
  obtain ⟨after, loud, beside⟩ := beside_emitAll host (some name) tries here beside
    ((failures order.onError frame).map fun failure =>
      rowEvent (host.adding a) name failure.1 failure.2)
  rcases save_beside (s := { s with store := after }) frame beside apart with
    ⟨e, silent, spoken⟩ | ⟨first, second, silent, spoken, beside⟩
  · simp only [finish, emit_rows, emitAll_idle, loud, silent, spoken]
    exact ⟨rfl, beside⟩
  · simp only [finish, emit_rows, emitAll_idle, loud, silent, spoken]
    refine ⟨rfl, ?_⟩
    rw [emit_idle]
    exact beside_emit (s := { s with store := second }) host name tries here beside _

theorem echoes_process (beside : Beside project q.store s.store)
    (apart : ∀ path ∈ order.output, IsApart q.store project path) :
    Echoes project (process (host.adding .idle) q order name frame)
      (process (host.adding a) s order name frame) := by
  have begun := beside_emit host (some name) tries here beside
    (startEvent host order name frame.height)
  simp only [process, emit_idle]
  split
  case h_1 done evaluated =>
    exact echoes_finish host order done name (s := s.emit (host.adding a) _ _) tries here begun
      apart
  case h_2 e failed =>
    split
    case h_1 code coded =>
      exact ⟨rfl, beside_emit host name (s := s.emit (host.adding a) _ _) tries here begun _⟩
    case h_2 uncoded => exact ⟨rfl, begun⟩

/-- A run with logs comes to the outcome of a run without any. -/
theorem echoes_run (sink : Option Sink) (tree : s.store.IsTree)
    (apart : ∀ path ∈ order.output, IsApart s.store project path) :
    Echoes project (run (host.adding .idle) { s with sink } order) (run (host.adding a) s order) := by
  simp only [run]
  split
  case h_1 e failed => exact ⟨rfl, .refl tree⟩
  case h_2 frame loaded =>
    exact echoes_process host order frame _ (q := { s with sink, runs := s.runs + 1 })
      (s := { s with runs := s.runs + 1 }) tries here (.refl tree) apart

end

end Batch

/-! ### Opening projects -/

omit [Limits] in
theorem project_of_sinkFor {folder : Path} {settings : Project.Settings} {sink : Option Sink}
    (opens : sinkFor folder settings = .ok sink) : ∀ k ∈ sink, k.project = folder := by
  rintro k ⟨⟩
  unfold sinkFor at opens
  split at opens
  case isTrue =>
    obtain ⟨window, -, same⟩ := Formula.map_eq_ok_iff.mp opens
    rw [← Option.some.inj same]
  case isFalse => cases opens

/-- A project is opened with a sink in its folder, or not at all. -/
theorem setProject_cases [Formats] (s : Session) (folder : Path) :
    (∃ e, s.setProject folder = (s, .error e)) ∨
      ∃ sink settings, s.setProject folder = ({ s with sink }, .ok settings) ∧
        ∀ k ∈ sink, k.project = folder := by
  rw [setProject]
  split
  case h_1 e failed => exact .inl ⟨_, rfl⟩
  case h_2 settings loaded =>
    split
    case h_1 e failed => exact .inl ⟨_, rfl⟩
    case h_2 sink opens => exact .inr ⟨sink, settings, rfl, project_of_sinkFor opens⟩

end Session

namespace Command

open Log (Appender Beside IsApart Sink innerFolder innerPath logFolder)
open Session (Batch.Order Echoes)
open Store (Path)

/-! ### Commands -/

namespace Request

def recordsTo? : Request → Option Path
  | .evaluate project _ _ _ _ => some (.ofText project)
  | .validate project _ _ _ => some (.ofText project)
  | .batch project _ _ _ _ _ => some (.ofText project)
  | _ => none

def output? : Request → Option Path
  | .batch _ _ _ output _ _ => (nonempty output).map .ofText
  | _ => none

end Request

section

variable [Limits]

/-- Where the project is there, a path without steps upwards only has to be beside the logs. -/
theorem isApart_of_isThere {s : Store} {project : String} {path : Path}
    (there : isThere s project = true) (straight : ".." ∉ path.parts)
    (beside : ¬ logFolder (Path.ofText project).place <+: path.place) :
    IsApart s (.ofText project) path where
  beside := beside
  settled place member touched := by
    have above : place <+: path.place := by
      rcases List.mem_append.mp member with way | last
      · exact Path.prefix_of_mem_through straight way
      · exact List.mem_singleton.mp last ▸ List.prefix_refl _
    have outside : ¬ logFolder (Path.ofText project).place <+: place :=
      fun inside => beside (inside.trans above)
    rcases touched with ⟨count, way, -⟩ | ⟨which, rfl⟩
    · have inner : place ∈ (Sink.mk (.ofText project) .standard).batchFolder.visited :=
        Path.visited_upTo_subset (innerPath (.ofText project)) count way
      rw [Sink.visited_batchFolder] at inner
      obtain ⟨free, found⟩ := Store.exists?_eq_true_iff.mp (exists?_of_isThere there)
      have folders := (Store.obstacle?_eq_none_iff.mp free).2
      rcases List.mem_append.mp inner with above | last
      · exact Store.has_of_isFolder (folders place above)
      · simp only [List.mem_cons, List.not_mem_nil, or_false] at last
        obtain rfl | rfl | rfl := last
        · exact found
        · exact absurd (List.prefix_refl _) outside
        · exact absurd (by simp [logFolder, innerFolder]) outside
    · exact absurd (Log.logFolder_prefix_log _ which) outside

section

variable [Formats] {a : Appender} (tries : a.Tries) (host : Host) {s : Session}
  (tree : s.store.IsTree)
include tries tree

theorem echoes_evaluate (project formula : String) (values : List Float) (items : List String)
    (json : Bool) : Echoes (.ofText project)
      (runEvaluate (host.adding .idle) s project formula values items json)
      (runEvaluate (host.adding a) s project formula values items json) := by
  unfold runEvaluate
  split
  case isTrue => exact ⟨rfl, .refl tree⟩
  case isFalse =>
    rcases s.setProject_cases (.ofText project) with ⟨e, refused⟩ | ⟨sink, settings, opened, here⟩
    · simp only [refused]
      exact ⟨rfl, .refl tree⟩
    · simp only [opened]
      split
      case h_1 => exact ⟨rfl, .refl tree⟩
      case h_2 result _ =>
        unfold conclude
        split
        case h_1 =>
          simp only [Session.emit_idle]
          exact ⟨rfl,
            Session.beside_emit host none (s := { s with sink }) tries here (.refl tree) _⟩
        case h_2 =>
          simp only [Session.emit_idle]
          exact ⟨rfl,
            Session.beside_emit host none (s := { s with sink }) tries here (.refl tree) _⟩
        case h_3 => exact ⟨rfl, .refl tree⟩

theorem echoes_validate (project : String) (formulas : List String) (explain json : Bool) :
    Echoes (.ofText project)
      (runValidate (host.adding .idle) s project formulas explain json)
      (runValidate (host.adding a) s project formulas explain json) := by
  unfold runValidate
  rcases s.setProject_cases (.ofText project) with ⟨e, refused⟩ | ⟨sink, settings, opened, here⟩
  · simp only [refused]
    exact ⟨rfl, .refl tree⟩
  · simp only [opened, Session.emitAll_idle]
    obtain ⟨after, recorded, beside⟩ := Session.beside_emitAll host none (s := { s with sink })
      tries here (.refl tree) _
    exact ⟨rfl, by rw [recorded]; exact beside⟩

theorem echoes_batch (project formula source : String) (output result onError : Option String)
    (apart : ∀ path ∈ (nonempty output).map Path.ofText, IsApart s.store (.ofText project) path) :
    Echoes (.ofText project)
      (runBatch (host.adding .idle) s project formula source output result onError)
      (runBatch (host.adding a) s project formula source output result onError) := by
  unfold runBatch
  rcases s.setProject_cases (.ofText project) with ⟨e, refused⟩ | ⟨sink, settings, opened, here⟩
  · simp only [refused]
    exact ⟨rfl, .refl tree⟩
  · simp only [opened]
    have echoes := Session.Batch.echoes_run host
      (batchOrder settings formula source output result onError) (s := { s with sink }) tries here
      sink tree apart
    obtain ⟨answer, files⟩ := echoes
    generalize Session.Batch.run (host.adding .idle) _ _ = quiet at answer files ⊢
    generalize Session.Batch.run (host.adding a) _ _ = loud at answer files ⊢
    obtain ⟨quiet, outcome⟩ := quiet
    obtain ⟨loud, same⟩ := loud
    obtain rfl : same = outcome := answer
    cases same with
    | ok summary => exact ⟨rfl, files⟩
    | error e => exact ⟨rfl, files⟩

theorem echoes_request {request : Request} {project : Path}
    (records : request.recordsTo? = some project)
    (apart : ∀ path ∈ request.output?, IsApart s.store project path) :
    Echoes project (request.run (host.adding .idle) s) (request.run (host.adding a) s) := by
  cases request with
  | evaluate project formula values items json =>
    cases records
    exact echoes_evaluate tries host tree project formula values items json
  | validate project formulas explain json =>
    cases records
    exact echoes_validate tries host tree project formulas explain json
  | batch project formula source output result onError =>
    cases records
    exact echoes_batch tries host tree project formula source output result onError apart
  | _ => cases records

omit tries tree in
theorem run_of_recordsTo?_none {request : Request} (silent : request.recordsTo? = none)
    (a b : Appender) : request.run (host.adding a) s = request.run (host.adding b) s := by
  cases request with
  | evaluate => cases silent
  | validate => cases silent
  | batch => cases silent
  | _ => rfl

end

/-- However attempts to record events end, the answers are the same, and so are the files beside the
logs. A batch run may also have no sink at all. Its table may not go to the logs, and the path to it
may neither end at nor lead through a folder that is still to be made for them, or a log that is
still to be written. -/
theorem logs_change_no_answer [Formats] {a b : Appender} (first : a.Tries) (second : b.Tries)
    (host : Host) {s : Session} (tree : s.store.IsTree) (project : Path) :
    (∀ (x y : Option Sink) (order : Batch.Order),
      (∀ k ∈ x, k.project = project) → (∀ k ∈ y, k.project = project) →
      (∀ path ∈ order.output, IsApart s.store project path) →
      let one := Session.Batch.run { host with append := a } { s with sink := x } order
      let other := Session.Batch.run { host with append := b } { s with sink := y } order
      one.2 = other.2 ∧ ∀ place, ¬ logFolder project.place <+: place →
        one.1.store.bytes? place = other.1.store.bytes? place) ∧
    ∀ words,
      (∀ request, Request.ofWords? words = some request →
        (∀ folder ∈ request.recordsTo?, folder = project) ∧
          ∀ path ∈ request.output?, IsApart s.store project path) →
      let one := run { host with append := a } s words
      let other := run { host with append := b } s words
      one.2 = other.2 ∧ ∀ place, ¬ logFolder project.place <+: place →
        one.1.store.bytes? place = other.1.store.bytes? place := by
  constructor
  · intro x y order here there apart
    -- each of the two is compared with the run that has no logs
    have one := Session.Batch.echoes_run host order (s := { s with sink := x }) first here none
      tree apart
    have other := Session.Batch.echoes_run host order (s := { s with sink := y }) second there
      none tree apart
    exact ⟨one.answer.trans other.answer.symm, fun place outside =>
      (one.files.files place (Log.ne_logPlace outside)).trans
        (other.files.files place (Log.ne_logPlace outside)).symm⟩
  · intro words asked
    simp only [run]
    split
    case h_1 => exact ⟨rfl, fun _ _ => rfl⟩
    case h_2 request read =>
      obtain ⟨here, apart⟩ := asked request read
      split
      case isFalse => exact ⟨rfl, fun _ _ => rfl⟩
      case isTrue =>
        cases records : request.recordsTo? with
        | none =>
          have same := run_of_recordsTo?_none host (s := s) records a b
          exact ⟨congrArg (·.2) same, fun place _ => congrArg (·.1.store.bytes? place) same⟩
        | some folder =>
          obtain rfl := here folder records
          have one := echoes_request first host tree records apart
          have other := echoes_request second host tree records apart
          exact ⟨one.answer.trans other.answer.symm, fun place outside =>
            (one.files.files place (Log.ne_logPlace outside)).trans
              (other.files.files place (Log.ne_logPlace outside)).symm⟩

end

section

attribute [local instance] Limits.standard Formats.standard

/-- Adding to a file ends with a failure when the first byte is there. -/
def haltingAppender : Appender := fun s path bytes =>
  match Appender.standard s path (bytes.take 1) with
  | (after, none) => (after, some (.notFound path.text))
  | (_, some e) => (s, some e)

theorem tries_haltingAppender : haltingAppender.Tries := by
  intro s path bytes
  unfold haltingAppender
  split
  case h_1 after appends =>
    exact .part (bytes.take_prefix 1) appends after.clock _
  case h_2 e _ =>
    exact .folders 0 s.clock e

theorem records_of_batch {request : Request}
    (asked : Request.ofWords? ["batch", "a", "v.csv", "--output", "out.csv"] = some request) :
    request.recordsTo? = some ⟨false, []⟩ ∧ request.output? = some ⟨false, ["out.csv"]⟩ := by
  have read : (Request.ofWords? ["batch", "a", "v.csv", "--output", "out.csv"]).map (fun request =>
      (request.recordsTo?, request.output?)) = some (some ⟨false, []⟩, some ⟨false, ["out.csv"]⟩) := by
    decide +kernel
  rw [asked] at read
  exact Prod.mk.inj (Option.some.inj read)

/-- A table of one row, with working logs and with logs that end within a line. -/
theorem logs_change_no_answer_halting :
    let s := Session.Batch.tableSession [97, 10, 52, 10]
    let working := Session.Batch.plainHost
    let halting := { working with append := haltingAppender }
    let order := Session.Batch.tableOrder "a" "raise" (some ⟨false, ["out.csv"]⟩)
    let words := ["batch", "a", "v.csv", "--output", "out.csv"]
    (Session.Batch.run working s order).2 =
        (Session.Batch.run halting { s with sink := none } order).2 ∧
      (Session.Batch.run working s order).2.toOption.map (·.ok) = some 1 ∧
      (run working s words).2 = (run halting s words).2 ∧
      (run working s words).1.store.content (Log.logPlace [] none) ≠
        (run halting s words).1.store.content (Log.logPlace [] none) := by
  intro s working halting order words
  have tree : s.store.IsTree :=
    Store.isTree_of_flat rfl (by simp [s, Session.Batch.tableSession, Store.put, Entries.set])
  have here : Path.ofText "." = ⟨false, []⟩ := by decide +kernel
  have there : isThere s.store "." = true := by decide +kernel
  have apart : IsApart s.store ⟨false, []⟩ ⟨false, ["out.csv"]⟩ :=
    here ▸ isApart_of_isThere there (by decide) (by decide +kernel)
  have same := logs_change_no_answer Log.tries_standard tries_haltingAppender working tree ⟨false, []⟩
  refine ⟨(same.1 s.sink none order ?_ ?_ ?_).1, by decide +kernel, (same.2 words ?_).1,
    by decide +kernel⟩
  · rintro k ⟨⟩
    rfl
  · rintro k ⟨⟩
  · rintro path ⟨⟩
    exact apart
  · intro request asked
    obtain ⟨records, goes⟩ := records_of_batch asked
    rw [records, goes]
    exact ⟨fun folder here => (Option.some.inj here).symm, fun path here => Option.some.inj here ▸ apart⟩

def isUnsaved : Except Session.Batch.Error Session.Batch.Summary → Bool
  | .error (.output _) => true
  | _ => false

/-- Where a project is still to be made, its first event makes the folder into which a table can go.
Without a sink, or with one whose attempts all fail, there is no such folder. Nor is there a folder
of the logs then, through which a path could lead. -/
theorem table_needs_project_folder :
    let host := Session.Batch.plainHost
    let failing : Appender := fun s path _ => (s, some (.notFound path.text))
    let s := Session.Batch.tableSession [97, 10]
    let sink : Sink := ⟨⟨false, ["p"]⟩, .standard⟩
    let order := Session.Batch.tableOrder "a" "raise" (some ⟨false, ["p", "out.csv"]⟩)
    let aside := Session.Batch.tableOrder "a" "raise" (some ⟨false, ["logs", "..", "out.csv"]⟩)
    (∀ path ∈ order.output, ¬ logFolder ["p"] <+: path.place) ∧
      (Session.Batch.run host { s with sink := some sink } order).2.toOption.isSome = true ∧
      isUnsaved (Session.Batch.run host { s with sink := none } order).2 = true ∧
      isUnsaved (Session.Batch.run { host with append := failing }
        { s with sink := some sink } order).2 = true ∧
      (∀ path ∈ aside.output, ¬ logFolder [] <+: path.place) ∧
      (Session.Batch.run host s aside).2.toOption.isSome = true ∧
      isUnsaved (Session.Batch.run host { s with sink := none } aside).2 = true := by
  intro host failing s sink order aside
  refine ⟨?_, by decide +kernel, by decide +kernel, by decide +kernel, ?_, by decide +kernel,
    by decide +kernel⟩
  · rintro path ⟨⟩
    decide
  · rintro path ⟨⟩
    decide

end

end Command

end Reckon
