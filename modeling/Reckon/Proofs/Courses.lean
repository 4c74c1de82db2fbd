import Mathlib
import Reckon.Proofs.Failures
import Reckon.Proofs.Recording

/-!
The courses of batch runs. A run records its start, the rows that fail and its end, and these
events are what its logs tell of it. A run that comes to its end, or whose table cannot be
evaluated, closes its batch; one whose table cannot be written does not.
-/

namespace Reckon.Session.Batch

open Formula (Arithmetic)
open Log (Event Extended IsOpen Level Sink Topic isBatchName lines logPlace truncate)
open Store (Path Place)
open Table (Frame Mode errorColumn)
open Text (Bytes)

/-! ### Events -/

structure IsOf (batch : String) (topic : Topic) (level : Level) (code : Option String) (e : Event) :
    Prop where
  topic : e.topic = topic
  level : e.level = level
  code : e.code = code
  batch : e.context.lookup "batch_id" = some (truncate (.text batch))

structure IsStart (batch : String) (rows : Nat) (e : Event) : Prop
    extends IsOf batch .batchStarted .info none e where
  rows : e.context.lookup "rows" = some (.int rows)

structure IsRowError (batch : String) (failure : Nat × String) (e : Event) : Prop
    extends IsOf batch .batchRowError .warning "batch_row_failed" e where
  row : e.context.lookup "row" = some (.int failure.1)
  message : e.message = failure.2

structure IsCompletion (summary : Summary) (e : Event) : Prop
    extends IsOf summary.batch .batchCompleted (if summary.failed = 0 then .info else .warning)
      none e where
  rows : e.context.lookup "rows" = some (.int summary.rows)
  ok : e.context.lookup "ok" = some (.int summary.ok)
  failed : e.context.lookup "failed" = some (.int summary.failed)

structure IsFailure (batch code message : String) (e : Event) : Prop
    extends IsOf batch .batchCompleted .error code e where
  message : e.message = "Batch failed: " ++ message

inductive HasCode : Table.Error → String → Prop where
  | missingColumns (missing columns : List String) :
      HasCode (.missingColumns missing columns) "batch_missing_columns"
  | formula (cause : Formula.Error) : HasCode (.formula (.evaluation cause)) "formula_syntax_error"
  | row (index : Nat) (cause : Formula.Error) : HasCode (.row index cause) "batch_row_failed"
  | option (error : Table.OptionError) : HasCode (.option error) "batch_invalid_options"

variable {host : Host} {order : Order} {batch : String}

theorem isOf_ofBatch {now message : String} {topic : Topic} {level : Level}
    {formula code : Option String} {extra : Fields}
    (apart : ∀ field ∈ extra, field.1 ≠ "batch_id") :
    IsOf batch topic level code
      (Event.ofBatch now batch topic level message formula code extra).truncated where
  topic := rfl
  level := rfl
  code := rfl
  batch := by
    simp only [Event.truncated, Event.ofBatch, Log.lookup_truncateFields,
      Entries.lookup_setAll_of_ne apart]
    rfl

theorem isStart_startEvent (rows : Nat) :
    IsStart batch rows (startEvent host order batch rows).truncated where
  toIsOf := isOf_ofBatch (by simp)
  rows := by
    rw [Event.truncated, Log.lookup_truncateFields]
    simp [startEvent, Event.ofBatch, Entries.setAll, Entries.set, List.lookup_cons, truncate]

theorem isRowError_rowEvent (failure : Nat × String) :
    IsRowError batch failure (rowEvent host batch failure.1 failure.2).truncated where
  toIsOf := isOf_ofBatch (by simp)
  row := by
    rw [Event.truncated, Log.lookup_truncateFields]
    simp [rowEvent, Event.ofBatch, Entries.setAll, Entries.set, List.lookup_cons, truncate]
  message := rfl

theorem isCompletion_completionEvent (summary : Summary) :
    IsCompletion summary (completionEvent host order summary).truncated := by
  refine ⟨isOf_ofBatch (by simp), ?_, ?_, ?_⟩
  all_goals
    rw [Event.truncated, Log.lookup_truncateFields]
    simp [completionEvent, Event.ofBatch, Entries.setAll, Entries.set, List.lookup_cons, truncate]

theorem isFailure_failureEvent (error : Table.Error) (code : Log.Code) :
    IsFailure batch code.label error.message
      (failureEvent host order batch error code).truncated where
  toIsOf := isOf_ofBatch (by simp)
  message := rfl

/-- An error whose formula failed as a whole has a code, unless the result has no name. -/
theorem hasCode_or_columnName [Limits] {error : Table.Error}
    (wrapped : ∀ e, error = .formula e → ∃ cause, e = .evaluation cause) :
    (∃ code, codeOf? error = some code ∧ HasCode error code.label) ∨ error = .columnName := by
  cases error with
  | option e => exact .inl ⟨_, rfl, .option e⟩
  | missingColumns missing columns => exact .inl ⟨_, rfl, .missingColumns missing columns⟩
  | row index cause => exact .inl ⟨_, rfl, .row index cause⟩
  | columnName => exact .inr rfl
  | formula e =>
    obtain ⟨cause, rfl⟩ := wrapped e rfl
    exact .inl ⟨_, rfl, .formula cause⟩

/-! ### Courses -/

structure Counts (order : Order) (batch : String) (frame done : Frame) (summary : Summary) :
    Prop where
  batch : summary.batch = batch
  rows : summary.rows = frame.height
  failed : summary.failed = (failures order.onError done).length
  sum : summary.ok + summary.failed = summary.rows
  output : summary.output = order.output.map (·.text)
  frame : summary.frame = done

section

variable [Limits]

/-- How a run goes on behind its start: the events that it records before its end, those that tell
its end, and its outcome. -/
inductive Course (host : Host) (order : Order) (batch : String) (frame : Frame) (writable : Prop) :
    List Event → List Event → Except Error Summary → Prop where
  | completed {done : Frame} {rows : List Event} {completion : Event} {summary : Summary}
      (evaluated : Table.evaluate host.operations order.formula frame order.result order.onError =
        .ok done)
      (reports : List.Forall₂ (IsRowError batch) (failures order.onError done) rows)
      (counts : Counts order batch frame done summary) (saved : writable)
      (completes : IsCompletion summary completion) :
      Course host order batch frame writable rows [completion] (.ok summary)
  | unsaved {done : Frame} {rows : List Event}
      (evaluated : Table.evaluate host.operations order.formula frame order.result order.onError =
        .ok done)
      (reports : List.Forall₂ (IsRowError batch) (failures order.onError done) rows)
      (unsaved : ¬ writable) (e : Store.Error) :
      Course host order batch frame writable rows [] (.error (.output e))
  | refused {e : Table.Error} {code : String} {failure : Event}
      (evaluated : Table.evaluate host.operations order.formula frame order.result order.onError =
        .error e)
      (coded : HasCode e code) (fails : IsFailure batch code e.message failure) :
      Course host order batch frame writable [] [failure] (.error (.table e))
  | unnamed
      (evaluated : Table.evaluate host.operations order.formula frame order.result order.onError =
        .error .columnName) :
      Course host order batch frame writable [] [] (.error (.table .columnName))

end

def written? [Formats] (order : Order) (outcome : Except Error Summary) (place : Place) : Option Bytes :=
  match outcome with
  | .ok summary =>
    if order.output.map (·.place) = some place then
      some (Text.encode (Formats.writeTable summary.frame))
    else none
  | .error _ => none

theorem written?_of_output_none [Formats] {outcome : Except Error Summary} {place : Place}
    (absent : order.output = none) : written? order outcome place = none := by
  cases outcome <;> simp [written?, absent]

def logsOf (k : Sink) (batch : String) : List Place :=
  [logPlace k.project.place none, logPlace k.project.place (some batch)]

/-- What a run leaves in the files. The table may have been written over a log; otherwise the logs
of the batch are longer by the events, and no other file has changed. -/
structure Leaves [Formats] (k : Sink) (order : Order) (batch : String) (s after : Store)
    (opening closing : List Event) (outcome : Except Error Summary) : Prop where
  logs : ∀ place ∈ logsOf k batch, after.content place =
    (written? order outcome place).getD (s.content place ++ lines opening) ++ lines closing
  others : ∀ place, place ∉ logsOf k batch → written? order outcome place = none →
    after.file? place = s.file? place

/-- The place is a folder, or will be one when the logs are there. -/
def IsFolderWithLogs (s : Store) (k : Sink) (place : Place) : Prop :=
  s.isFolder place = true ∨ place ∈ k.batchFolder.visited

/-- The table of a run can be written, if that is asked for: its path is not too long, leads through
folders, and does not end at one. -/
def IsWritable [Limits] (s : Store) (k : Sink) (output : Option Path) : Prop :=
  ∀ path, output = some path → path.fits = true ∧
    (∀ place ∈ path.through, IsFolderWithLogs s k place) ∧ ¬ IsFolderWithLogs s k path.place

instance (s : Store) (k : Sink) (place : Place) : Decidable (IsFolderWithLogs s k place) :=
  inferInstanceAs (Decidable (_ ∨ _))

instance [Limits] (s : Store) (k : Sink) : (output : Option Path) → Decidable (IsWritable s k output)
  | none => .isTrue fun _ absent => nomatch absent
  | some path =>
    decidable_of_iff (path.fits = true ∧ (∀ place ∈ path.through, IsFolderWithLogs s k place) ∧
      ¬ IsFolderWithLogs s k path.place) (by simp [IsWritable])

section

variable [Limits] {k : Sink} {s after : Store} {bytes : Bytes} {place : Place}
  (usable : isBatchName batch = true)
  (extended : Extended s after (k.targets (some batch)) bytes)
include usable extended

theorem content_of_extended (member : place ∈ logsOf k batch) :
    after.content place = s.content place ++ bytes := by
  rw [logsOf, ← k.places_targets usable] at member
  obtain ⟨path, target, rfl⟩ := List.mem_map.mp member
  exact extended.added path target

theorem file?_of_extended (absent : place ∉ logsOf k batch) : after.file? place = s.file? place := by
  rw [logsOf, ← k.places_targets usable] at absent
  exact extended.others place absent

theorem isFolder_iff_of_extended (place : Place) :
    after.isFolder place = true ↔ IsFolderWithLogs s k place := by
  have outer : k.folder.visited ⊆ k.batchFolder.visited := by
    rw [Sink.batchFolder, Store.Path.visited_child]
    exact List.subset_append_left _ _
  rw [extended.folders, k.targets_eq usable, IsFolderWithLogs]
  simp only [List.mem_cons, List.not_mem_nil, or_false, exists_eq_or_imp, exists_eq_left, Sink.log,
    Store.Path.through_child]
  exact or_congr_right ⟨fun way => way.elim (outer ·) id, .inr⟩

end

theorem leaves_of_extended [Limits] [Formats] {k : Sink} {s after : Store}
    {opening closing : List Event} {e : Error} (usable : isBatchName batch = true)
    (extended : Extended s after (k.targets (some batch)) (lines (opening ++ closing))) :
    Leaves k order batch s after opening closing (.error e) where
  logs place member := by
    rw [content_of_extended usable extended member, Log.lines_append, ← List.append_assoc]
    rfl
  others place absent _ := file?_of_extended usable extended absent

/-! ### Writing the table -/

section

variable [Limits] [Formats]

/-- Writing the table changes one file at most, and keeps the logs where they are. -/
structure Saves (order : Order) (frame : Frame) (s saved : Store) : Prop where
  tree : saved.IsTree
  kept : ∀ path, IsOpen s path → IsOpen saved path
  contents : ∀ place, saved.content place =
    if order.output.map (·.place) = some place then Text.encode (Formats.writeTable frame)
    else s.content place
  others : ∀ place, order.output.map (·.place) ≠ some place → saved.file? place = s.file? place

theorem exists_saves {s : Session} {saved : Session} {frame : Frame} (tree : s.store.IsTree)
    (saves : save s order.output frame = .ok saved) :
    ∃ store, saved = { s with store } ∧ Saves order frame s.store store := by
  cases output : order.output with
  | none =>
    rw [output] at saves
    cases saves
    exact ⟨s.store, rfl, tree, fun _ => id, by simp [output], fun _ _ => rfl⟩
  | some path =>
    rw [output] at saves
    obtain ⟨store, writes, rfl⟩ := Formula.map_eq_ok_iff.mp saves
    obtain ⟨-, put⟩ := Store.write_eq_ok_iff.mp writes
    refine ⟨store, rfl, tree.write writes, fun other opened => ?_, fun place => ?_,
      fun place apart => ?_⟩
    · refine opened.of_grown (tree.write writes) (fun place folder => ?_) ?_
      · rwa [put, Store.isFolder_put]
      · rw [put]
        exact Store.isFile_put_iff.mpr (.inr opened.2)
    · simp only [output, Option.map_some, Option.some_inj]
      split
      case isTrue here => rw [put, ← here, Store.content_put_self]
      case isFalse there => rw [put, Store.content_put_of_ne (Ne.symm there)]
    · rw [output, Option.map_some, ne_eq, Option.some_inj] at apart
      rw [put, Store.file?_put_of_ne (Ne.symm apart)]

/-- Once the logs are there, the table is written just if it can be. -/
theorem exists_save_iff (order : Order) (frame : Frame) {s : Session} {store : Store} {k : Sink}
    {bytes : Bytes} (usable : isBatchName batch = true)
    (extended : Extended store s.store (k.targets (some batch)) bytes) :
    (∃ saved, save s order.output frame = .ok saved) ↔ IsWritable store k order.output := by
  have saves : (∃ saved, save s order.output frame = .ok saved) ↔
      ∀ path, order.output = some path → s.store.refusal? path = none := by
    cases order.output with
    | none => simp [save]
    | some path =>
      simp only [save, Table.save, Store.write, Option.some_inj, forall_eq']
      cases s.store.refusal? path <;> simp [Except.map]
  rw [saves]
  apply forall₂_congr
  intro path _
  rw [Store.refusal?_eq_none_iff, Store.obstacle?_eq_none_iff, ← Bool.not_eq_true,
    isFolder_iff_of_extended usable extended, and_assoc]
  simp only [isFolder_iff_of_extended usable extended]

/-- The end is recorded behind the table, where that was written over a log. -/
theorem leaves_of_saves {k : Sink} {s mid saved after : Store} {opening closing : List Event}
    {summary : Summary} (usable : isBatchName batch = true)
    (opened : Extended s mid (k.targets (some batch)) (lines opening))
    (saves : Saves order summary.frame mid saved)
    (closed : Extended saved after (k.targets (some batch)) (lines closing)) :
    Leaves k order batch s after opening closing (.ok summary) where
  logs place member := by
    rw [content_of_extended usable closed member, saves.contents,
      content_of_extended usable opened member, written?]
    split <;> rfl
  others place absent unwritten := by
    have apart : order.output.map (·.place) ≠ some place := by
      intro here
      rw [written?, if_pos here] at unwritten
      cases unwritten
    rw [file?_of_extended usable closed absent, saves.others place apart,
      file?_of_extended usable opened absent]

end

/-! ### Recording a run -/

section

variable [Limits] {s : Session} {k : Sink} (appends : host.append = .standard)
  (sink : s.sink = some k) (tree : s.store.IsTree)
  (opened : ∀ path ∈ k.targets (some batch), IsOpen s.store path)
include appends sink tree opened

theorem extended_rows {failing : List (Nat × String)}
    (short : ∀ failure ∈ failing, failure.1 < Value.tooLong) :
    ∃ rows after, List.Forall₂ (IsRowError batch) failing rows ∧
      failing.foldl (fun s (row, message) => s.emit host (rowEvent host batch row message) batch)
        s = { s with store := after } ∧
      Extended s.store after (k.targets (some batch)) (lines rows) := by
  have recordable : ∀ e ∈ failing.map fun failure => rowEvent host batch failure.1 failure.2,
      e.IsRecordable := by
    rw [List.forall_mem_map]
    intro failure member
    apply Log.isRecordable_ofBatch
    rw [List.forall_mem_singleton]
    exact .int (short failure member)
  obtain ⟨after, recorded, extended⟩ := extended_emitAll appends sink tree opened recordable
  refine ⟨_, after, ?_, ?_, extended⟩
  · rw [List.map_map, List.forall₂_map_right_iff, List.forall₂_same]
    exact fun failure _ => isRowError_rowEvent failure
  · rw [← recorded, List.foldl_map]

/-- The last event of a run is recorded if its numbers are short enough. -/
theorem extended_completion (order : Order) {summary : Summary}
    (short : summary.rows < Value.tooLong) (ok : summary.ok ≤ summary.rows)
    (failed : summary.failed ≤ summary.rows) :
    ∃ completion after, IsCompletion summary completion ∧
      s.emit host (completionEvent host order summary) batch = { s with store := after } ∧
      Extended s.store after (k.targets (some batch)) (lines [completion]) := by
  have recordable : (completionEvent host order summary).IsRecordable := by
    apply Log.isRecordable_ofBatch
    simp only [List.forall_mem_cons]
    exact ⟨.int short, .int (ok.trans_lt short), .int (failed.trans_lt short), by simp⟩
  obtain ⟨after, recorded, extended⟩ := extended_emit appends sink tree opened recordable
  exact ⟨_, after, isCompletion_completionEvent summary, recorded, extended⟩

theorem extended_failure (order : Order) (error : Table.Error) (code : Log.Code) :
    ∃ failure after, IsFailure batch code.label error.message failure ∧
      s.emit host (failureEvent host order batch error code) batch = { s with store := after } ∧
      Extended s.store after (k.targets (some batch)) (lines [failure]) := by
  have recordable : (failureEvent host order batch error code).IsRecordable :=
    Log.isRecordable_ofBatch (by simp)
  obtain ⟨after, recorded, extended⟩ := extended_emit appends sink tree opened recordable
  exact ⟨_, after, isFailure_failureEvent error code, recorded, extended⟩

end

/-! ### The end of a run -/

def summaryOf (order : Order) (batch : String) (done : Frame) : Summary where
  batch := batch
  rows := done.height
  ok := done.height - (failures order.onError done).length
  failed := (failures order.onError done).length
  output := order.output.map (·.text)
  frame := done

section

variable [Limits] {a : Arithmetic} {s : Session} {store : Store} {k : Sink} {frame done : Frame}
  {start : Event}

theorem counts_summaryOf (shaped : frame.IsShaped)
    (evaluated : Table.evaluate a.operations order.formula frame order.result order.onError =
      .ok done) (batch : String) :
    Counts order batch frame done (summaryOf order batch done) := by
  have height : done.height = frame.height := Table.height_of_evaluate shaped evaluated
  have fewer := length_failures_le shaped evaluated
  rw [← height] at fewer
  exact ⟨rfl, height, rfl, Nat.sub_add_cancel fewer, rfl, rfl⟩

theorem course_of_finish [Formats] (computes : host.operations = a.operations)
    (appends : host.append = .standard) (sink : s.sink = some k)
    (usable : isBatchName batch = true)
    (begun : Extended store s.store (k.targets (some batch)) (lines [start]))
    (shaped : frame.IsShaped) (short : frame.height < Value.tooLong)
    (evaluated : Table.evaluate host.operations order.formula frame order.result order.onError =
      .ok done) :
    ∃ rows closing,
      Course host order batch frame (IsWritable store k order.output) rows closing
        (finish host s order batch done).2 ∧
      Leaves k order batch store (finish host s order batch done).1.store (start :: rows) closing
        (finish host s order batch done).2 := by
  have computed := computes ▸ evaluated
  -- the start has made the logs, so that all later events reach them
  obtain ⟨rows, mid, reports, recorded, extended⟩ :=
    extended_rows appends sink begun.tree begun.opened fun failure member =>
      (lt_height_of_mem_failures shaped computed failure member).trans short
  have opened := begun.trans extended
  rw [← Log.lines_append] at opened
  have writable := exists_save_iff order done (s := { s with store := mid }) usable opened
  cases saves : save { s with store := mid } order.output done with
  | error e =>
    have unsaved : ¬ IsWritable store k order.output := by
      rw [← writable, saves]
      rintro ⟨saved, went⟩
      cases went
    have ended : finish host s order batch done = ({ s with store := mid }, .error (.output e)) := by
      simp only [finish, recorded, saves]
    rw [ended]
    refine ⟨rows, [], .unsaved evaluated reports unsaved e, leaves_of_extended usable ?_⟩
    rwa [List.append_nil]
  | ok saved =>
    have counts := counts_summaryOf shaped computed batch
    -- even a table that is written over a log leaves a file there, for the last event
    obtain ⟨store', rfl, saved⟩ := exists_saves opened.tree saves
    obtain ⟨completion, after, completes, closes, closed⟩ :=
      extended_completion (s := { s with store := store' }) appends sink saved.tree
        (fun path member => saved.kept path (opened.opened path member)) order
        (counts.rows.trans_lt short) (Nat.sub_le _ _) (counts.sum ▸ Nat.le_add_left _ _)
    have ended : finish host s order batch done =
        ({ s with store := after }, .ok (summaryOf order batch done)) := by
      simp only [finish, recorded, saves]
      exact congrArg (·, _) closes
    rw [ended]
    exact ⟨rows, [completion],
      .completed evaluated reports counts (writable.mp ⟨_, saves⟩) completes,
      leaves_of_saves usable opened saved closed⟩

end

/-! ### Whole runs -/

theorem height_lt_of_isPrintable {rows : Nat}
    (printable : (startEvent host order batch rows).truncated.isPrintable = true) :
    rows < Value.tooLong := by
  rw [Event.isPrintable, Bool.and_eq_true] at printable
  have context := Value.haveShort_iff.mp printable.2
    ("context", .record (Event.storableFields (startEvent host order batch rows).truncated.context))
    (by simp [Event.fields])
  rw [Value.isShort, Value.haveShort_iff] at context
  have short := context ("rows", .int rows) (by
    simp [startEvent, Event.ofBatch, Event.truncated, Entries.setAll, Entries.set,
      Log.truncateFields, truncate, Event.storableFields, Event.storable])
  simpa [Value.isShort] using short

section

variable [Limits] [Formats]

/-- A run whose table has been read, and whose start has been recorded at a sink that works. -/
structure IsStarted (host : Host) (a : Arithmetic) (s : Session) (k : Sink) (order : Order)
    (frame : Frame) (batch : String) : Prop where
  computes : host.operations = a.operations
  appends : host.append = .standard
  sink : s.sink = some k
  tree : s.store.IsTree
  named : host.batchName (s.runs + 1) = batch
  usable : isBatchName batch = true
  loaded : Table.load s.store order.source = .ok frame
  recorded : ∃ after, k.write .standard s.store
    (startEvent host order batch frame.height).truncated (some batch) = (after, none)

namespace IsStarted

variable {a : Arithmetic} {s : Session} {k : Sink} {frame : Frame}
  (started : IsStarted host a s k order frame batch)
include started

theorem run_eq : run host s order =
    process host { s with runs := s.runs + 1 } order batch frame := by
  simp only [run, started.loaded, started.named]

theorem exists_start : ∃ start mid, IsStart batch frame.height start ∧
    frame.height < Value.tooLong ∧
    emit host { s with runs := s.runs + 1 } (startEvent host order batch frame.height) batch =
      { s with store := mid, runs := s.runs + 1 } ∧
    Extended s.store mid (k.targets (some batch)) (lines [start]) := by
  obtain ⟨mid, wrote⟩ := started.recorded
  obtain ⟨printable, extended⟩ := Log.extended_of_write started.tree wrote
  have starts : IsStart batch frame.height (startEvent host order batch frame.height).truncated :=
    isStart_startEvent frame.height
  refine ⟨_, mid, starts, height_lt_of_isPrintable printable, ?_, extended⟩
  have recordable : (startEvent host order batch frame.height).IsRecordable := by
    apply Log.isRecordable_ofBatch
    simp only [List.forall_mem_cons]
    exact ⟨.int (height_lt_of_isPrintable printable), .text _, by simp⟩
  rw [emit, started.appends, started.sink, Log.emit_of_fits .standard recordable.fits, wrote]

/-- Every run that has started follows a course, and its logs tell which. -/
theorem course (sound : Formats.Sound) : ∃ start rows closing, IsStart batch frame.height start ∧
    Course host order batch frame (IsWritable s.store k order.output) rows closing
      (run host s order).2 ∧
    Leaves k order batch s.store (run host s order).1.store (start :: rows) closing
      (run host s order).2 := by
  obtain ⟨start, mid, starts, short, begins, begun⟩ := started.exists_start
  have shaped := Table.isShaped_load sound started.loaded
  rw [started.run_eq]
  cases evaluated : Table.evaluate host.operations order.formula frame order.result order.onError with
  | ok done =>
    obtain ⟨rows, closing, course, leaves⟩ := course_of_finish
      (s := { s with store := mid, runs := s.runs + 1 }) started.computes started.appends
      started.sink started.usable begun shaped short evaluated
    simp only [process, begins, evaluated]
    exact ⟨start, rows, closing, starts, course, leaves⟩
  | error e =>
    have wrapped : ∀ e', e = .formula e' → ∃ cause, e' = .evaluation cause := by
      rintro e' rfl
      exact Table.evaluation_of_evaluate shaped (started.computes ▸ evaluated)
    obtain ⟨code, coded, hasCode⟩ | rfl := hasCode_or_columnName wrapped
    · obtain ⟨failure, after, fails, closes, closed⟩ := extended_failure
        (s := { s with store := mid, runs := s.runs + 1 }) started.appends started.sink
        begun.tree begun.opened order e code
      have both := begun.trans closed
      rw [← Log.lines_append] at both
      simp only [process, begins, evaluated, coded, closes]
      exact ⟨start, [], [failure], starts, .refused evaluated hasCode fails,
        leaves_of_extended started.usable both⟩
    · simp only [process, begins, evaluated, codeOf?]
      exact ⟨start, [], [], starts, .unnamed evaluated, leaves_of_extended started.usable begun⟩

end IsStarted

end

end Reckon.Session.Batch
