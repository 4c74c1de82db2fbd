import Mathlib
import Reckon.Proofs.Courses

/-!
What the logs tell of batches. The two logs of a batch tell how a run went, row by row and number by
number, and under which code it failed; and they say that a batch is completed just if the run came
as far as that.
-/

namespace Reckon.Session.Batch

open Formula (Arithmetic)
open Log (Event Sink lines logPlace)
open Table (Frame Mode errorColumn)

deriving instance DecidableEq for Table.Cells, Table.Column

variable {host : Host} {a : Arithmetic} {s : Session} {k : Sink} {order : Order} {frame : Frame}
  {batch : String}

theorem failures_of_raise {onError : Value} (chosen : Mode.ofValue? onError = some .raise)
    (frame : Frame) : failures onError frame = [] := by
  rw [failures, chosen]

section

variable [Limits]

/-- The run stops before it closes its batch: its result has no name, or its table cannot be
written. -/
def StaysOpen (host : Host) (s : Session) (k : Sink) (order : Order) (frame : Frame) : Prop :=
  let evaluated := Table.evaluate host.operations order.formula frame order.result order.onError
  evaluated = .error .columnName ∨
    (∃ done, evaluated = .ok done) ∧ ¬ IsWritable s.store k order.output

namespace Course

variable {rows closing : List Event} {outcome : Except Error Summary}
  (course : Course host order batch frame (IsWritable s.store k order.output) rows
    closing outcome)
include course

theorem topic_of_mem_rows : ∀ e ∈ rows, e.topic = .batchRowError := by
  have reported {failing : List (Nat × String)}
      (reports : List.Forall₂ (IsRowError batch) failing rows) :
      ∀ e ∈ rows, e.topic = .batchRowError := by
    intro e member
    obtain ⟨place, here, rfl⟩ := List.mem_iff_getElem.mp member
    exact (reports.get (reports.length_eq ▸ here) here).topic
  cases course with
  | completed _ reports => exact reported reports
  | unsaved _ reports => exact reported reports
  | refused => simp
  | unnamed => simp

/-- If the table can be evaluated and written, then the batch is completed. -/
theorem completed_of_ok {done : Frame}
    (evaluated : Table.evaluate host.operations order.formula frame order.result order.onError =
      .ok done) (writable : IsWritable s.store k order.output) :
    ∃ summary completion, outcome = .ok summary ∧ closing = [completion] ∧
      Counts order batch frame done summary ∧
      List.Forall₂ (IsRowError batch) (failures order.onError done) rows ∧
      IsCompletion summary completion := by
  cases course with
  | completed evaluated' reports counts saved completes =>
    obtain rfl := Except.ok.inj (evaluated'.symm.trans evaluated)
    exact ⟨_, _, rfl, rfl, counts, reports, completes⟩
  | unsaved _ _ refused => exact absurd writable refused
  | refused failed => cases failed.symm.trans evaluated
  | unnamed failed => cases failed.symm.trans evaluated

theorem refused_of_error {e : Table.Error}
    (failed : Table.evaluate host.operations order.formula frame order.result order.onError =
      .error e) (named : e ≠ .columnName) :
    ∃ code failure, outcome = .error (.table e) ∧ rows = [] ∧ closing = [failure] ∧
      HasCode e code ∧ IsFailure batch code e.message failure := by
  cases course with
  | completed evaluated => cases evaluated.symm.trans failed
  | unsaved evaluated => cases evaluated.symm.trans failed
  | refused failed' coded fails =>
    obtain rfl := Except.error.inj (failed'.symm.trans failed)
    exact ⟨_, _, rfl, rfl, rfl, coded, fails⟩
  | unnamed failed' => exact absurd (Except.error.inj (failed.symm.trans failed')) named

theorem eq_nil_of_staysOpen (opened : StaysOpen host s k order frame) :
    closing = [] ∧
      ((∃ e, outcome = .error (.output e)) ∨ outcome = .error (.table .columnName)) := by
  obtain unnamed | ⟨⟨done, evaluated⟩, unwritable⟩ := opened
  · cases course with
    | completed evaluated => cases evaluated.symm.trans unnamed
    | unsaved evaluated => cases evaluated.symm.trans unnamed
    | refused refused coded =>
      cases refused.symm.trans unnamed
      cases coded
    | unnamed => exact ⟨rfl, .inr rfl⟩
  · cases course with
    | completed _ _ _ writable => exact absurd writable unwritable
    | unsaved _ _ _ e => exact ⟨rfl, .inl ⟨e, rfl⟩⟩
    | refused refused => cases refused.symm.trans evaluated
    | unnamed unnamed => cases unnamed.symm.trans evaluated

theorem exists_completion (closes : ¬ StaysOpen host s k order frame) :
    ∃ level code completion, closing = [completion] ∧
      IsOf batch .batchCompleted level code completion := by
  cases course with
  | completed _ _ counts _ completes => exact ⟨_, _, _, rfl, counts.batch ▸ completes.toIsOf⟩
  | unsaved evaluated _ unwritable => exact absurd (.inr ⟨⟨_, evaluated⟩, unwritable⟩) closes
  | refused _ _ fails => exact ⟨_, _, _, rfl, fails.toIsOf⟩
  | unnamed unnamed => exact absurd (.inl unnamed) closes

end Course

end

section

variable [Limits] [Formats]

/-- The logs of a batch tell what happened to it. If the table could be evaluated, then they tell
of the start, of each row that failed, in their order and with their messages, and of the end; and
the numbers at the end are those of the summary. A log over which the run has written its table
tells of the end alone. If the table could not be evaluated, then they tell of the start and of the
error, and no other file has changed. -/
theorem run_tells (sound : Formats.Sound) (started : IsStarted host a s k order frame batch)
    (writable : IsWritable s.store k order.output) :
    let ended := run host s order
    (∀ done, Table.evaluate host.operations order.formula frame order.result order.onError =
        .ok done →
      ∃ summary start rows completion,
        ended.2 = .ok summary ∧ Counts order batch frame done summary ∧
        IsFailing host.operations order.formula frame (failures order.onError done) ∧
        (Mode.ofValue? order.onError = some .raise → failures order.onError done = []) ∧
        (Mode.ofValue? order.onError = some .record → ∀ row message,
          (row, message) ∈ failures order.onError done ↔
            done.cell? errorColumn row = some (.text message)) ∧
        IsStart batch frame.height start ∧
        List.Forall₂ (IsRowError batch) (failures order.onError done) rows ∧
        IsCompletion summary completion ∧
        ∀ place ∈ logsOf k batch, ended.1.store.content place =
          (if order.output.map (·.place) = some place then Text.encode (Formats.writeTable done)
            else s.store.content place ++ lines (start :: rows)) ++ lines [completion]) ∧
    ∀ e, Table.evaluate host.operations order.formula frame order.result order.onError = .error e →
      e ≠ .columnName →
      ∃ code start failure,
        ended.2 = .error (.table e) ∧ HasCode e code ∧ IsStart batch frame.height start ∧
        IsFailure batch code e.message failure ∧
        (∀ place ∈ logsOf k batch, ended.1.store.content place =
          s.store.content place ++ lines [start, failure]) ∧
        ∀ place, place ∉ logsOf k batch → ended.1.store.file? place = s.store.file? place := by
  intro ended
  obtain ⟨start, rows, closing, starts, course, logs, others⟩ := started.course sound
  have shaped := Table.isShaped_load sound started.loaded
  refine ⟨fun done evaluated => ?completed, fun e failed named => ?refused⟩
  case completed =>
    obtain ⟨summary, completion, outcome, rfl, counts, reports, completes⟩ :=
      course.completed_of_ok evaluated writable
    have computed := started.computes ▸ evaluated
    have failing := started.computes ▸ isFailing_failures shaped computed
    refine ⟨summary, start, rows, completion, outcome, counts, failing,
      fun chosen => failures_of_raise chosen done,
      fun chosen => mem_failures_iff shaped computed chosen, starts, reports, completes,
      fun place member => ?_⟩
    rw [logs place member, outcome, written?, counts.frame]
    split <;> rfl
  case refused =>
    obtain ⟨code, failure, outcome, rfl, rfl, coded, fails⟩ := course.refused_of_error failed named
    rw [outcome] at logs others
    refine ⟨code, start, failure, outcome, coded, starts, fails, fun place member => ?_,
      fun place absent => others place absent rfl⟩
    rw [logs place member, written?, Option.getD_none, List.append_assoc, ← Log.lines_append]
    rfl

/-! ### Batches that are closed -/

/-- A batch that was started is closed by one event, behind its start and its failing rows, unless
its result has no name or its table cannot be written; then it stays open. -/
theorem run_closes (sound : Formats.Sound) (started : IsStarted host a s k order frame batch) :
    let ended := run host s order
    ∃ start rows closing,
      IsStart batch frame.height start ∧ (∀ e ∈ rows, e.topic = .batchRowError) ∧
      (∀ place ∈ logsOf k batch, ended.1.store.content place =
        (written? order ended.2 place).getD (s.store.content place ++ lines (start :: rows)) ++
          lines closing) ∧
      (StaysOpen host s k order frame → closing = [] ∧
        ((∃ e, ended.2 = .error (.output e)) ∨ ended.2 = .error (.table .columnName))) ∧
      (¬ StaysOpen host s k order frame → ∃ level code completion, closing = [completion] ∧
        IsOf batch .batchCompleted level code completion) := by
  intro ended
  obtain ⟨start, rows, closing, starts, course, leaves⟩ := started.course sound
  exact ⟨start, rows, closing, starts, course.topic_of_mem_rows, leaves.logs,
    course.eq_nil_of_staysOpen, course.exists_completion⟩

end

/-! ### Tables in the working directory -/

section

attribute [local instance] Limits.standard Formats.standard

def plainHost : Host where
  append := .standard
  now := "2024-01-01T00:00:00.000000Z"
  batchName _ := "b-1"
  help _ := ""

def plainSink : Sink :=
  ⟨⟨false, []⟩, .standard⟩

def tableSession (content : Text.Bytes) : Session where
  store := ({} : Store).put ["v.csv"] content
  sink := some plainSink

def tableOrder (formula onError : String) (output : Option Store.Path) : Order where
  formula := formula
  source := ⟨false, ["v.csv"]⟩
  output := output
  onError := .text onError

theorem isStarted_tableSession {content : Text.Bytes} {order : Order} {frame : Frame}
    (loaded : Table.load (tableSession content).store order.source = .ok frame)
    (recorded : (plainSink.write .standard (tableSession content).store
      (startEvent plainHost order "b-1" frame.height).truncated (some "b-1")).2 = none) :
    IsStarted plainHost .machine (tableSession content) plainSink order frame "b-1" where
  computes := rfl
  appends := rfl
  sink := rfl
  tree := Store.isTree_of_flat rfl (by simp [tableSession, Store.put, Entries.set])
  named := rfl
  usable := by decide
  loaded := loaded
  recorded := by
    generalize plainSink.write _ _ _ _ = result at recorded ⊢
    obtain ⟨after, failure⟩ := result
    cases recorded
    exact ⟨after, rfl⟩

/-- Two rows, of which one has no value. -/
theorem run_tells_quotient :
    let order := tableOrder "1/a" "null" (some ⟨false, ["out.csv"]⟩)
    let ended := run plainHost (tableSession [97, 10, 52, 10, 48, 10]) order
    ∃ summary start row completion,
      ended.2 = .ok summary ∧ summary.rows = 2 ∧ summary.ok = 1 ∧ summary.failed = 1 ∧
      IsStart "b-1" 2 start ∧ IsRowError "b-1" (1, "Division by zero") row ∧
      IsCompletion summary completion ∧
      ∀ place ∈ logsOf plainSink "b-1",
        ended.1.store.content place = lines [start, row, completion] := by
  intro order ended
  have loaded : Table.load (tableSession [97, 10, 52, 10, 48, 10]).store order.source =
      .ok [⟨"a", .ints [some 4, some 0]⟩] :=
    Formula.eq_ok_of_toOption (by decide +kernel)
  have evaluated : Table.evaluate plainHost.operations order.formula [⟨"a", .ints [some 4, some 0]⟩]
      order.result order.onError =
        .ok [⟨"a", .ints [some 4, some 0]⟩, ⟨"result", .floats [some 0.25, none]⟩,
          ⟨"error", .texts [none, some "Division by zero"]⟩] :=
    Formula.eq_ok_of_toOption (by decide +kernel)
  have started := isStarted_tableSession loaded (by decide +kernel)
  have writable : IsWritable (tableSession [97, 10, 52, 10, 48, 10]).store plainSink order.output :=
    by decide
  obtain ⟨summary, start, rows, completion, outcome, counts, -, -, -, starts, reports, completes,
    logs⟩ := (run_tells Formats.sound_standard started writable).1 _ evaluated
  have failing : failures order.onError
      [⟨"a", .ints [some 4, some 0]⟩, ⟨"result", .floats [some 0.25, none]⟩,
        ⟨"error", .texts [none, some "Division by zero"]⟩] = [(1, "Division by zero")] := by
    decide
  have failed := counts.failed
  rw [failing] at reports failed
  obtain ⟨row, others, reported, none, rfl⟩ := List.forall₂_cons_left_iff.mp reports
  cases none
  have sum := counts.sum
  have rows : summary.rows = 2 := counts.rows
  refine ⟨summary, start, row, completion, outcome, rows, ?_, failed, starts, reported, completes, ?_⟩
  · rw [rows, failed, List.length_singleton] at sum
    omega
  · have elsewhere : ∀ place ∈ logsOf plainSink "b-1", order.output.map (·.place) ≠ some place ∧
        (tableSession [97, 10, 52, 10, 48, 10]).store.content place = [] := by
      decide
    intro place member
    obtain ⟨apart, empty⟩ := elsewhere place member
    rw [logs place member, if_neg apart, empty, List.nil_append, ← Log.lines_append]
    rfl

theorem head?_lines (events : List Event) : ∀ b ∈ (lines events).head?, b = 123 := by
  cases events with
  | nil => simp [lines]
  | cons e events =>
    have brace : ∃ rest, lines (e :: events) = 123 :: rest := by
      simp [lines, Sink.line, Text.encode, Json.sorted, Json.compact, String.utf8EncodeChar]
    obtain ⟨rest, starts⟩ := brace
    rw [starts]
    simp

/-- A table that is written to the project's own log takes the place of what the log told. -/
theorem table_replaces_log :
    let s := tableSession [97, 10]
    let order := tableOrder "a" "raise" (some ⟨false, ["logs", "events.ndjson"]⟩)
    (∃ frame, IsStarted plainHost .machine s plainSink order frame "b-1") ∧
      IsWritable s.store plainSink order.output ∧
      (∃ summary, (run plainHost s order).2 = .ok summary) ∧
      ∀ events, (run plainHost s order).1.store.content (logPlace [] none) ≠
        s.store.content (logPlace [] none) ++ lines events := by
  intro s order
  have loaded : Table.load s.store order.source = .ok [⟨"a", .texts []⟩] :=
    Formula.eq_ok_of_toOption (by decide +kernel)
  have ended : ((run plainHost s order).2.toOption.map (·.failed)) = some 0 := by decide +kernel
  have replaced : ((run plainHost s order).1.store.content (logPlace [] none)).head? = some 97 := by
    decide +kernel
  have empty : s.store.content (logPlace [] none) = [] := by decide
  refine ⟨⟨_, isStarted_tableSession loaded (by decide +kernel)⟩,
    by decide, ?_, fun events same => ?_⟩
  · cases outcome : (run plainHost s order).2 with
    | ok summary => exact ⟨summary, rfl⟩
    | error e =>
      rw [outcome] at ended
      cases ended
  · rw [same, empty, List.nil_append] at replaced
    exact absurd (head?_lines events 97 replaced) (by decide)

/-- An option that is no mode ends a run, and closes its batch. -/
theorem run_closes_option :
    let order := tableOrder "a" "ignore" none
    let ended := run plainHost (tableSession [97, 10]) order
    ∃ start rows level code completion, IsStart "b-1" 0 start ∧
      (∀ e ∈ rows, e.topic = .batchRowError) ∧ IsOf "b-1" .batchCompleted level code completion ∧
      ∀ place ∈ logsOf plainSink "b-1",
        ended.1.store.content place = lines (start :: rows) ++ lines [completion] := by
  intro order ended
  have loaded : Table.load (tableSession [97, 10]).store order.source = .ok [⟨"a", .texts []⟩] :=
    Formula.eq_ok_of_toOption (by decide +kernel)
  have refused : Table.evaluate plainHost.operations order.formula [⟨"a", .texts []⟩] order.result
      order.onError = .error (.option (.unknownMode (.text "ignore"))) := rfl
  obtain ⟨start, rows, closing, starts, reports, logs, -, closes⟩ :=
    run_closes Formats.sound_standard (isStarted_tableSession loaded (by decide +kernel))
  obtain ⟨level, code, completion, rfl, completes⟩ := closes (by
    rintro (unnamed | ⟨⟨done, evaluated⟩, -⟩)
    · cases refused.symm.trans unnamed
    · cases refused.symm.trans evaluated)
  have empty : ∀ place ∈ logsOf plainSink "b-1",
      (tableSession [97, 10]).store.content place = [] := by
    decide
  refine ⟨start, rows, level, code, completion, starts, reports, completes, fun place member => ?_⟩
  rw [logs place member, written?_of_output_none rfl, empty place member, Option.getD_none,
    List.nil_append]

/-- A table that cannot be written leaves its batch open. -/
theorem unsaved_batch_stays_open :
    let s := tableSession [97, 10]
    let order := tableOrder "a" "raise" (some ⟨false, ["nodir", "out.csv"]⟩)
    ∃ frame start e, IsStarted plainHost .machine s plainSink order frame "b-1" ∧
      (run plainHost s order).2 = .error (.output e) ∧ IsStart "b-1" frame.height start ∧
      ∀ place ∈ logsOf plainSink "b-1",
        (run plainHost s order).1.store.content place =
          s.store.content place ++ lines [start] := by
  intro s order
  have loaded : Table.load s.store order.source = .ok [⟨"a", .texts []⟩] :=
    Formula.eq_ok_of_toOption (by decide +kernel)
  have evaluated : Table.evaluate plainHost.operations order.formula [⟨"a", .texts []⟩] order.result
      order.onError = .ok [⟨"a", .texts []⟩, ⟨"result", .floats []⟩] :=
    Formula.eq_ok_of_toOption (by decide +kernel)
  have unwritable : ¬ IsWritable s.store plainSink order.output := by decide
  have started := isStarted_tableSession loaded (by decide +kernel)
  obtain ⟨start, rows, closing, starts, course, leaves⟩ := started.course Formats.sound_standard
  have logs := leaves.logs
  generalize (run plainHost s order).2 = outcome at course logs ⊢
  cases course with
  | completed _ _ _ writable => exact absurd writable unwritable
  | unsaved _ reports _ e =>
    rw [failures_of_raise rfl] at reports
    cases reports
    refine ⟨_, start, e, started, rfl, starts, fun place member => ?_⟩
    exact (logs place member).trans (List.append_nil _)
  | refused refused => cases refused.symm.trans evaluated
  | unnamed unnamed => cases unnamed.symm.trans evaluated

end

end Reckon.Session.Batch
