import Mathlib
import Reckon.Proofs.Ledger
import Reckon.Proofs.Records
import Reckon.Proofs.Shortening
import Reckon.Session.Basic

/-!
What the recording of events does to the files of a session. A sink that could record one event of
a batch records all later ones: each line reaches the project's own log and that of the batch, and
no other file changes.
-/

namespace Reckon.Log

open Store (Path Place)
open Text (Bytes)

def lines (events : List Event) : Bytes :=
  events.flatMap fun e => Sink.line e.fields

theorem lines_append (events others : List Event) :
    lines (events ++ others) = lines events ++ lines others :=
  List.flatMap_append

/-! ### The logs of a batch -/

namespace Sink

variable {k : Sink} {path : Path} {batch : Option String}

theorem exists_log_of_mem_targets (member : path ∈ k.targets batch) :
    ∃ which, IsLog which ∧ (which = none ∨ which = batch) ∧ k.log? which = some path := by
  rcases List.mem_cons.mp member with rfl | own
  · exact ⟨none, isLog_own, .inl rfl, rfl⟩
  · cases batch with
    | none => cases own
    | some batch =>
      have found : k.batchLog? batch = some path := by simpa using own
      have usable : isBatchName batch = true := by
        by_contra unusable
        rw [batchLog?, if_neg unusable] at found
        cases found
      exact ⟨some batch, isLog_of_isBatchName usable, .inr rfl, found⟩

theorem isNamed_of_mem_targets (member : path ∈ k.targets batch) : IsNamed path := by
  obtain ⟨which, isLog, -, log⟩ := exists_log_of_mem_targets member
  exact isNamed_of_log? isLog log

theorem targets_eq (k : Sink) {name : String} (usable : isBatchName name = true) :
    k.targets (some name) = [k.log, k.batchFolder.child (name ++ batchSuffix)] := by
  have log : k.batchLog? name = some (k.batchFolder.child (name ++ batchSuffix)) := if_pos usable
  rw [targets, log]
  rfl

theorem places_targets (k : Sink) {name : String} (usable : isBatchName name = true) :
    (k.targets (some name)).map Path.place =
      [logPlace k.project.place none, logPlace k.project.place (some name)] := by
  have own : k.log.place = logPlace k.project.place none := place_of_log? isLog_own rfl
  have place := place_of_log? (k := k) (isLog_of_isBatchName usable) (if_pos usable)
  rw [k.targets_eq usable, List.map_cons, List.map_singleton, own, place]

theorem nodup_targets (k : Sink) (batch : Option String) :
    ((k.targets batch).map Path.place).Nodup := by
  cases batch with
  | none => simp [targets]
  | some name =>
    by_cases usable : isBatchName name = true
    · simp [k.places_targets usable, logPlace_inj]
    · have none : k.batchLog? name = none := if_neg usable
      simp [targets, none]

end Sink

/-! ### Events of a batch -/

inductive IsBrief : Value → Prop where
  | text (s : String) : IsBrief (.text s)
  | int {n : Int} (short : n.natAbs < Value.tooLong) : IsBrief (.int n)

theorem forall_mem_setAll {P : Value → Prop} {entries updates : Fields}
    (old : ∀ field ∈ entries, P field.2) (new : ∀ field ∈ updates, P field.2) :
    ∀ field ∈ Entries.setAll entries updates, P field.2 := by
  have set {key : String} {value : Value} (fits : P value) {entries : Fields}
      (old : ∀ field ∈ entries, P field.2) : ∀ field ∈ Entries.set key value entries, P field.2 := by
    induction entries with
    | nil => simpa [Entries.set] using fits
    | cons first rest ih =>
      obtain ⟨here, others⟩ := List.forall_mem_cons.mp old
      rw [Entries.set]
      split
      · exact List.forall_mem_cons.mpr ⟨fits, others⟩
      · exact List.forall_mem_cons.mpr ⟨here, ih others⟩
  induction updates generalizing entries with
  | nil => exact old
  | cons update updates ih =>
    obtain ⟨first, others⟩ := List.forall_mem_cons.mp new
    exact ih (set first old) others

theorem isBrief_truncate {value : Value} (brief : IsBrief value) : IsBrief (truncate value) := by
  cases brief with
  | text s => exact .text _
  | int short => exact .int short

theorem isPrintable_of_values {e : Event} (version : e.schemaVersion = 1)
    (shallow : ∀ field ∈ e.context, field.2.height ≤ maxHeight)
    (short : ∀ field ∈ e.context, (Event.storable field.2).isShort = true) :
    e.isPrintable = true := by
  have context : ∀ field ∈ Event.storableFields e.context, field.2.isShort = true := by
    rw [Event.storableFields_eq_map, List.forall_mem_map]
    exact short
  have one : (Value.int e.schemaVersion).isShort = true := by
    rw [version]
    decide +kernel
  rw [Event.isPrintable, Bool.and_eq_true, decide_eq_true_iff, Value.haveShort_iff, Event.fields]
  refine ⟨Value.heightOfFields_le_iff.mpr shallow, ?_⟩
  simp only [List.forall_mem_cons]
  refine ⟨one, rfl, rfl, rfl, Value.haveShort_iff.mpr context, rfl, ?_, by simp⟩
  cases e.code <;> rfl

def Event.truncated (e : Event) : Event :=
  { e with context := truncateFields e.context }

/-- There is room to shorten the texts of the event, and then it can be printed. -/
structure Event.IsRecordable [Limits] (e : Event) : Prop where
  fits : callsOfFields e.context ≤ Limits.shortened
  printable : e.truncated.isPrintable = true

theorem Event.isRecordable_of_values [Limits] {e : Event} (version : e.schemaVersion = 1)
    (low : ∀ field ∈ e.context, field.2.height ≤ 2)
    (low' : ∀ field ∈ e.truncated.context, field.2.height ≤ 2)
    (short : ∀ field ∈ e.truncated.context, (storable field.2).isShort = true) :
    e.IsRecordable where
  fits :=
    have few := (callsOfFields_le e.context).trans
      (Nat.mul_le_mul_left 2 (Value.heightOfFields_le_iff.mpr low))
    few.trans Limits.shortened_ge
  printable :=
    have shallow : 2 ≤ maxHeight := by decide
    isPrintable_of_values version (fun field member => (low' field member).trans shallow) short

theorem IsBrief.height_le {value : Value} (brief : IsBrief value) : value.height ≤ 2 := by
  cases brief <;> exact Nat.le_succ 1

theorem IsBrief.isShort_storable {value : Value} (brief : IsBrief value) :
    (Event.storable value).isShort = true := by
  cases brief with
  | text s => rfl
  | int short => simpa [Event.storable, Value.isShort] using short

theorem isRecordable_ofBatch [Limits] {now batch message : String} {topic : Topic} {level : Level}
    {formula code : Option String} {extra : Fields} (brief : ∀ field ∈ extra, IsBrief field.2) :
    (Event.ofBatch now batch topic level message formula code extra).IsRecordable := by
  have context : ∀ field ∈ (Event.ofBatch now batch topic level message formula code extra).context,
      IsBrief field.2 := by
    refine forall_mem_setAll ?_ brief
    cases formula with
    | none => simp [IsBrief.text]
    | some formula => simp [IsBrief.text]
  have shortened : ∀ field ∈
      (Event.ofBatch now batch topic level message formula code extra).truncated.context,
      IsBrief field.2 := by
    rw [Event.truncated, truncateFields_eq_map, List.forall_mem_map]
    exact fun field member => isBrief_truncate (context field member)
  exact Event.isRecordable_of_values rfl (fun field member => (context field member).height_le)
    (fun field member => (shortened field member).height_le)
    fun field member => (shortened field member).isShort_storable

/-! ### Events -/

section

variable [Limits] {s after : Store} {k : Sink} {e : Event} {batch : Option String}

/-- A call that went well has added the line of its event to each log that the event goes to. -/
theorem extended_of_write (tree : s.IsTree)
    (writes : k.write .standard s e batch = (after, none)) :
    e.isPrintable = true ∧ Extended s after (k.targets batch) (lines [e]) := by
  cases printable : e.isPrintable with
  | false =>
    obtain ⟨failure, printed⟩ := Event.printed_of_not_isPrintable printable
    rw [Sink.write, printed] at writes
    cases writes
  | true =>
    rw [Sink.write, Event.printed_of_isPrintable printable] at writes
    obtain ⟨appends, went⟩ := Prod.mk.inj writes
    refine ⟨rfl, ?_⟩
    rw [Option.map_eq_none_iff] at went
    rw [lines, List.flatMap_singleton]
    exact extended_of_appendAll tree (fun path member => Sink.isNamed_of_mem_targets member)
      (k.nodup_targets batch) (Prod.ext appends went)

theorem write_of_isOpen (tree : s.IsTree) (opened : ∀ path ∈ k.targets batch, IsOpen s path)
    (printable : e.isPrintable = true) :
    ∃ after, k.write .standard s e batch = (after, none) := by
  obtain ⟨after, appends⟩ := appendAll_of_isOpen tree
    (fun path member => Sink.isNamed_of_mem_targets member) opened (Sink.line e.fields)
  exact ⟨after, by simp [Sink.write, Event.printed_of_isPrintable printable, appends]⟩

/-- The event is written with its texts shortened, where there is room for that. -/
theorem emit_of_fits (append : Appender) (fits : callsOfFields e.context ≤ Limits.shortened) :
    emit append (some k) s e batch = (k.write append s e.truncated batch).1 := by
  have short := (truncateContext?_eq e.context).trans (if_pos fits)
  simp only [emit, short]
  rfl

end

end Reckon.Log

namespace Reckon.Session

open Log (Event Extended IsOpen Sink lines)

variable [Limits] {host : Host} {s : Session} {k : Sink} {batch : String}
  (appends : host.append = .standard) (sink : s.sink = some k) (tree : s.store.IsTree)
  (opened : ∀ path ∈ k.targets (some batch), IsOpen s.store path)
include appends sink tree opened

/-- Where the logs of a batch are files, an event that can be recorded reaches them. -/
theorem extended_emit {e : Event} (recordable : e.IsRecordable) :
    ∃ after, s.emit host e batch = { s with store := after } ∧
      Extended s.store after (k.targets (some batch)) (lines [e.truncated]) := by
  obtain ⟨after, wrote⟩ := Log.write_of_isOpen tree opened recordable.printable
  refine ⟨after, ?_, (Log.extended_of_write tree wrote).2⟩
  rw [emit, appends, sink, Log.emit_of_fits .standard recordable.fits, wrote]

/-- One event after the other reaches the logs, which stay files. -/
theorem extended_emitAll {events : List Event} (recordable : ∀ e ∈ events, e.IsRecordable) :
    ∃ after, events.foldl (fun s e => s.emit host e batch) s = { s with store := after } ∧
      Extended s.store after (k.targets (some batch)) (lines (events.map (·.truncated))) := by
  -- the logs stay files of a tree, which is all that the next event needs
  induction events generalizing s with
  | nil => exact ⟨s.store, rfl, .refl tree opened⟩
  | cons e events ih =>
    obtain ⟨first, others⟩ := List.forall_mem_cons.mp recordable
    obtain ⟨mid, step, one⟩ := extended_emit appends sink tree opened first
    obtain ⟨after, more, rest⟩ := ih (s := { s with store := mid }) sink one.tree one.opened others
    refine ⟨after, by rw [List.foldl_cons, step, more], ?_⟩
    rw [List.map_cons, ← List.singleton_append, Log.lines_append]
    exact one.trans rest

end Reckon.Session
