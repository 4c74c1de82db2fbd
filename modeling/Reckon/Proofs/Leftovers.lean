import Mathlib
import Reckon.Proofs.Silence

/-!
What earlier calls leave behind. A call opens the project that it is about, so the sink that is left
from earlier calls does not matter to it. What it records goes to the logs of that project, and it
changes no other file but the one to which its table goes.
-/

namespace Reckon.Session

open Log (Event Sink)

variable [Limits] (host : Host) {s : Session}

/-! ### Relations that are kept -/

section

variable {R : Store → Store → Prop} (still : ∀ store, R store store)
  (joins : ∀ store mid after, R store mid → R mid after → R store after)
  (emits : ∀ store e batch, R store (Log.emit host.append s.sink store e batch))
include still joins emits

theorem related_emitAll (events : List Event) (batch : Option String) :
    ∃ after, events.foldl (fun s e => s.emit host e batch) s = { s with store := after } ∧
      R s.store after := by
  induction events generalizing s with
  | nil => exact ⟨s.store, rfl, still _⟩
  | cons e events ih =>
    obtain ⟨after, recorded, rest⟩ := ih (s := s.emit host e batch) emits
    exact ⟨after, recorded, joins _ _ _ (emits s.store e batch) rest⟩

namespace Batch

variable [Formats] (order : Order) (saves : ∀ store path frame after, order.output = some path →
  Table.save store path frame = .ok after → R store after)
include saves

theorem related_finish (name : String) (frame : Table.Frame) :
    R s.store (finish host s order name frame).1.store := by
  obtain ⟨mid, recorded, rows⟩ := related_emitAll host still joins emits
    ((failures order.onError frame).map fun failure => rowEvent host name failure.1 failure.2)
    (some name)
  simp only [finish, emit_rows, recorded]
  cases output : order.output with
  | none => exact joins _ _ _ rows (emits mid _ _)
  | some path =>
    simp only [save]
    cases written : Table.save mid path frame with
    | error e => exact rows
    | ok after =>
      exact joins _ _ _ (joins _ _ _ rows (saves mid path frame after output written))
        (emits after _ _)

theorem related_process (name : String) (frame : Table.Frame) :
    R s.store (process host s order name frame).1.store := by
  have started := emits s.store (startEvent host order name frame.height) (some name)
  unfold process
  dsimp only
  split
  case h_1 done evaluated =>
    have finished := related_finish host
      (s := s.emit host (startEvent host order name frame.height) name) still joins emits order
      saves name done
    exact joins _ _ _ started finished
  case h_2 e failed =>
    split
    case h_1 code coded => exact joins _ _ _ started (emits _ _ _)
    case h_2 uncoded => exact started

/-- What holds of every event that is recorded, and of the table that is written, holds of a run. -/
theorem related_run : R s.store (run host s order).1.store := by
  unfold run
  dsimp only
  split
  case h_1 => exact still _
  case h_2 frame loaded =>
    exact related_process host (s := { s with runs := s.runs + 1 }) still joins emits order saves _
      frame

end Batch

end

end Reckon.Session

namespace Reckon.Command

open Log (Appender Event Sink lines logFolder)
open Store (Path Place)
open Text (Bytes)

section

variable [Limits] [Formats]

section

variable {R : Store → Store → Prop} (still : ∀ store, R store store)
  (joins : ∀ store mid after, R store mid → R mid after → R store after)
include still joins

/-- What holds of every event that is recorded in the project of a request, and of the table that
the request writes, holds of the request. -/
theorem related_request {host : Host} {request : Request} {project : Path}
    (emits : ∀ k, k.project = project → ∀ store e batch,
      R store (Log.emit host.append (some k) store e batch))
    (saves : ∀ store path frame after, request.output? = some path →
      Table.save store path frame = .ok after → R store after)
    (records : request.recordsTo? = some project) (s : Session) :
    R s.store (request.run host s).1.store := by
  have emits' {sink : Option Sink} (own : ∀ k ∈ sink, k.project = project) (store : Store)
      (e : Event) (batch : Option String) : R store (Log.emit host.append sink store e batch) := by
    cases sink with
    | none => exact still store
    | some k => exact emits k (own k rfl) store e batch
  cases request with
  | evaluate project formula values items json =>
    cases records
    simp only [Request.run, runEvaluate]
    split
    case isTrue => exact still _
    case isFalse =>
      rcases s.setProject_cases (.ofText project) with ⟨e, refused⟩ | ⟨sink, settings, opened, here⟩
      · simp only [refused]
        exact still _
      · simp only [opened]
        split
        case h_1 => exact still _
        case h_2 result _ =>
          unfold conclude
          split
          case h_1 => exact emits' here _ _ _
          case h_2 => exact emits' here _ _ _
          case h_3 => exact still _
  | validate project formulas explain json =>
    cases records
    simp only [Request.run, runValidate]
    rcases s.setProject_cases (.ofText project) with ⟨e, refused⟩ | ⟨sink, settings, opened, here⟩
    · simp only [refused]
      exact still _
    · simp only [opened]
      obtain ⟨after, recorded, kept⟩ := Session.related_emitAll host (s := { s with sink }) still
        joins (emits' here) _ none
      rw [recorded]
      exact kept
  | batch project formula source output result onError =>
    cases records
    simp only [Request.run, runBatch]
    rcases s.setProject_cases (.ofText project) with ⟨e, refused⟩ | ⟨sink, settings, opened, here⟩
    · simp only [refused]
      exact still _
    · simp only [opened]
      have kept := Session.Batch.related_run host (s := { s with sink }) still joins (emits' here)
        (batchOrder settings formula source output result onError) saves
      split
      case h_1 ended => rwa [ended] at kept
      case h_2 ended => rwa [ended] at kept
  | _ => cases records

end

/-! ### Where events go -/

/-- Beside the logs, a file is as it was, or a table has been written to it. No file that has not
been written to as a whole has lost anything; at its end there may be lines of events. -/
structure Confined (home : Place) (output : Option Path) (s after : Store) : Prop where
  beside : ∀ place, ¬ logFolder home <+: place → after.file? place = s.file? place ∨
    output.map Path.place = some place ∧
      ∃ frame, after.content place = Text.encode (Formats.writeTable frame)
  added : ∀ place, output.map Path.place ≠ some place →
    ∃ events, after.content place = s.content place ++ lines events

namespace Confined

variable {home : Place} {output : Option Path} {s mid after : Store}

omit [Limits] in
theorem refl (home : Place) (output : Option Path) (s : Store) : Confined home output s s where
  beside _ _ := .inl rfl
  added _ _ := ⟨[], by simp [lines]⟩

omit [Limits] in
theorem trans (first : Confined home output s mid) (second : Confined home output mid after) :
    Confined home output s after where
  beside place apart := by
    rcases second.beside place apart with same | table
    · rw [same, Store.content, same]
      exact first.beside place apart
    · exact .inr table
  added place unwritten := by
    obtain ⟨events, begun⟩ := first.added place unwritten
    obtain ⟨more, ended⟩ := second.added place unwritten
    exact ⟨events ++ more, by rw [ended, begun, Log.lines_append, List.append_assoc]⟩

end Confined

theorem confined_standard {project path : Path} (log : Log.IsLogPath project path)
    (output : Option Path) (s : Store) (events : List Event) :
    Confined project.place output s (Appender.standard s path (lines events)).1 := by
  have grown (made : Store) (same : ∀ place, made.file? place = s.file? place) :
      Confined project.place output s made :=
    ⟨fun place _ => .inl (same place),
      fun place _ => ⟨[], by rw [Store.content, same, Store.content]; simp [lines]⟩⟩
  rcases Log.standard_cases s path (lines events) with ⟨made, e, more, failed⟩ | ⟨made, makes, -, done⟩
  · rw [failed]
    exact grown made more.file?_eq
  · have more := Store.grown_makeFolder s path.parent
    rw [makes] at more
    rw [done]
    refine (grown made more.file?_eq).trans ⟨fun place apart => .inl ?_, fun place _ => ?_⟩
    · obtain ⟨which, same⟩ := log.log
      exact Store.file?_put_of_ne (same ▸ Log.ne_logPlace apart which) _
    · by_cases same : place = path.place
      · exact ⟨events, by rw [same, Store.content_put_self]⟩
      · exact ⟨[], by rw [Store.content_put_of_ne same]; simp [lines]⟩

theorem confined_appendAll {project : Path} {paths : List Path}
    (logs : ∀ path ∈ paths, Log.IsLogPath project path) (output : Option Path) (s : Store)
    (events : List Event) :
    Confined project.place output s (Sink.appendAll .standard (lines events) s paths).1 := by
  induction paths generalizing s with
  | nil => exact .refl project.place output s
  | cons path paths ih =>
    obtain ⟨log, others⟩ := List.forall_mem_cons.mp logs
    have one := confined_standard log output s events
    unfold Sink.appendAll
    split
    case h_1 mid first =>
      rw [first] at one
      exact one.trans (ih others mid)
    case h_2 mid e failed => rwa [failed] at one

theorem confined_emit {k : Sink} {project : Path} (here : k.project = project)
    (output : Option Path) (s : Store) (e : Event) (batch : Option String) :
    Confined project.place output s (Log.emit .standard (some k) s e batch) := by
  have logs : ∀ path ∈ k.targets batch, Log.IsLogPath project path :=
    fun path member => here ▸ Log.isLogPath_of_mem_targets member
  unfold Log.emit
  split
  case h_2 => exact .refl project.place output s
  case h_1 _ _ k' context same _ =>
    obtain rfl := Option.some.inj same
    rw [Sink.write]
    cases printable : Event.isPrintable { e with context } with
    | false =>
      obtain ⟨failure, printed⟩ := Event.printed_of_not_isPrintable printable
      rw [printed]
      exact .refl project.place output s
    | true =>
      have one := confined_appendAll logs output s [{ e with context }]
      rw [lines, List.flatMap_singleton] at one
      rw [Event.printed_of_isPrintable printable]
      exact one

theorem confined_save {home : Place} {path : Path} {frame : Table.Frame} {s after : Store}
    (saves : Table.save s path frame = .ok after) : Confined home (some path) s after := by
  obtain ⟨-, rfl⟩ := Store.write_eq_ok_iff.mp saves
  constructor
  · intro place _
    by_cases same : place = path.place
    · exact .inr ⟨by rw [same]; rfl, frame, by rw [same, Store.content_put_self]⟩
    · exact .inl (Store.file?_put_of_ne same _)
  · intro place unwritten
    have different : place ≠ path.place := fun same => unwritten (by rw [same]; rfl)
    exact ⟨[], by rw [Store.content_put_of_ne different]; simp [lines]⟩

theorem confined_request {host : Host} (appends : host.append = .standard) {request : Request}
    {project : Path} (records : request.recordsTo? = some project) (s : Session) :
    Confined project.place request.output? s.store (request.run host s).1.store := by
  refine related_request (Confined.refl project.place _) (fun _ _ _ => Confined.trans) ?_ ?_ records s
  · intro k here store e batch
    rw [appends]
    exact confined_emit here _ store e batch
  · intro store path frame after output saves
    rw [output]
    exact confined_save saves

/-! ### The sink that is left -/

/-- Two calls get one answer, and leave the same files and the same number of batch runs. -/
structure Alike (one other : Session × Report) : Prop where
  report : one.2 = other.2
  store : one.1.store = other.1.store
  runs : one.1.runs = other.1.runs

omit [Limits] [Formats] in
theorem Alike.refl (one : Session × Report) : Alike one one :=
  ⟨rfl, rfl, rfl⟩

theorem setProject_withSink (s : Session) (x : Option Sink) (folder : Path) :
    (∃ e, s.setProject folder = (s, .error e) ∧
      { s with sink := x }.setProject folder = ({ s with sink := x }, .error e)) ∨
    ∃ sink settings, s.setProject folder = ({ s with sink }, .ok settings) ∧
      { s with sink := x }.setProject folder = ({ s with sink }, .ok settings) := by
  simp only [Session.setProject]
  split
  case h_1 e failed => exact .inl ⟨_, rfl, rfl⟩
  case h_2 settings loaded =>
    split
    case h_1 e failed => exact .inl ⟨_, rfl, rfl⟩
    case h_2 sink opens => exact .inr ⟨sink, settings, rfl, rfl⟩

theorem alike_request (host : Host) (s : Session) (x : Option Sink) (request : Request) :
    Alike (request.run host s) (request.run host { s with sink := x }) := by
  cases request with
  | start folder =>
    simp only [Request.run, runStart]
    split
    case h_1 => exact ⟨rfl, rfl, rfl⟩
    case h_2 => exact ⟨rfl, rfl, rfl⟩
  | evaluate project formula values items json =>
    simp only [Request.run, runEvaluate]
    split
    case isTrue => exact ⟨rfl, rfl, rfl⟩
    case isFalse =>
      rcases setProject_withSink s x (.ofText project) with
        ⟨e, refused, refused'⟩ | ⟨sink, settings, opened, opened'⟩
      · simp only [refused, refused']
        exact ⟨rfl, rfl, rfl⟩
      · simp only [opened, opened']
        exact .refl _
  | validate project formulas explain json =>
    simp only [Request.run, runValidate]
    rcases setProject_withSink s x (.ofText project) with
      ⟨e, refused, refused'⟩ | ⟨sink, settings, opened, opened'⟩
    · simp only [refused, refused']
      exact ⟨rfl, rfl, rfl⟩
    · simp only [opened, opened']
      exact .refl _
  | batch project formula source output result onError =>
    simp only [Request.run, runBatch]
    rcases setProject_withSink s x (.ofText project) with
      ⟨e, refused, refused'⟩ | ⟨sink, settings, opened, opened'⟩
    · simp only [refused, refused']
      exact ⟨rfl, rfl, rfl⟩
    · simp only [opened, opened']
      exact .refl _
  | _ => exact ⟨rfl, rfl, rfl⟩

/-- A call gives the same answer and leaves the same files and the same number of batch runs,
whatever sink there was. And what a request records goes to the logs of its own project: any other
file is as it was, but for the one to which the table of the request went, and that holds the table
alone; and among the logs nothing has happened but that lines of events were added. -/
theorem call_forgets_sink (host : Host) (s : Session) (x : Option Sink) (words : List String) :
    let one := run host s words
    let other := run host { s with sink := x } words
    (one.2 = other.2 ∧ one.1.store = other.1.store ∧ one.1.runs = other.1.runs) ∧
    (host.append = .standard → ∀ request project, Request.ofWords? words = some request →
      request.recordsTo? = some project → ∀ place,
      (¬ logFolder project.place <+: place → one.1.store.file? place = s.store.file? place ∨
        request.output?.map Path.place = some place ∧
          ∃ frame, one.1.store.content place = Text.encode (Formats.writeTable frame)) ∧
      (request.output?.map Path.place ≠ some place →
        ∃ events, one.1.store.content place = s.store.content place ++ lines events)) := by
  intro one other
  constructor
  · have alike : Alike one other := by
      simp only [one, other, run]
      split
      case h_1 => exact ⟨rfl, rfl, rfl⟩
      case h_2 request read =>
        split
        case isTrue => exact alike_request host s x request
        case isFalse => exact ⟨rfl, rfl, rfl⟩
    exact ⟨alike.report, alike.store, alike.runs⟩
  · intro appends request project read records place
    have confined : Confined project.place request.output? s.store one.1.store := by
      simp only [one, run, read]
      split
      case isTrue => exact confined_request appends records s
      case isFalse => exact .refl project.place _ s.store
    exact ⟨confined.beside place, confined.added place⟩

end

section

attribute [local instance] Limits.standard Formats.standard

theorem records_of_eval {request : Request}
    (asked : Request.ofWords? ["eval", "1"] = some request) :
    request.recordsTo? = some ⟨false, []⟩ ∧ request.output? = none := by
  have read : (Request.ofWords? ["eval", "1"]).map (fun request =>
      (request.recordsTo?, request.output?)) = some (some ⟨false, []⟩, none) := by
    decide +kernel
  rw [asked] at read
  exact Prod.mk.inj (Option.some.inj read)

/-- A sink that is left for another project gets nothing of a call. -/
theorem call_forgets_sink_elsewhere :
    let s := Session.Batch.tableSession [97, 10, 52, 10]
    let left : Session := { s with sink := some ⟨⟨false, ["q"]⟩, .standard⟩ }
    let ended := run Session.Batch.plainHost left ["eval", "1"]
    ended.2 = (run Session.Batch.plainHost s ["eval", "1"]).2 ∧
      ended.1.store.content (Log.logPlace [] none) ≠ [] ∧
      ended.1.store.file? (Log.logPlace ["q"] none) = none := by
  intro s left ended
  have forgets := call_forgets_sink Session.Batch.plainHost left s.sink ["eval", "1"]
  refine ⟨forgets.1.1, by decide +kernel, ?_⟩
  have reads : (Request.ofWords? ["eval", "1"]).isSome = true := by decide +kernel
  obtain ⟨request, asked⟩ := Option.isSome_iff_exists.mp reads
  obtain ⟨records, nowhere⟩ := records_of_eval asked
  have kept := (forgets.2 rfl request _ asked records (Log.logPlace ["q"] none)).1 (by decide)
  rw [nowhere] at kept
  exact (kept.resolve_right (by simp)).trans (by decide)

end

end Reckon.Command
