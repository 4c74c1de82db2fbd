import Mathlib
import Reckon.Proofs.Ledger
import Reckon.Proofs.Lines
import Reckon.Proofs.Records

/-!
The logs as a store of events. After any calls to write, made through any sinks of a project, the
logs are the lines of the events that were written, in their order; so a reader finds these events
and no others, each with all its fields.
-/

namespace Reckon.Log

open Store (Path Place)
open Text (Bytes)

structure Call where
  sink : Sink
  event : Event
  batch : Option String := none

/-- The project has no logs, and nothing is in the way of their folders. -/
structure Unlogged (s : Store) (home : Place) : Prop where
  tree : s.IsTree
  clear : s.IsClear (innerFolder home)
  absent : ∀ which, IsLog which → s.has (logPlace home which) = false

theorem unlogged_empty (home : Place) : Unlogged {} home where
  tree := Store.isTree_of_flat rfl (by simp)
  clear _ _ := rfl
  absent which _ := by
    rw [Store.has, Bool.or_eq_false_iff]
    refine ⟨rfl, Bool.eq_false_iff.mpr fun folder => ?_⟩
    have inside : "logs" ∈ logPlace home which := by
      cases which <;> simp [logPlace, innerFolder]
    rcases Store.isFolder_iff.mp folder with up | root | listed
    · exact absurd (up "logs" inside) (by decide)
    · rw [root] at inside
      exact absurd inside (by decide)
    · cases listed

/-- The calls whose events can be printed. Such a call goes well, or it has come to a path that is
too long. -/
def printed (calls : List Call) : List Call :=
  calls.filter (·.event.isPrintable)

theorem isPrintable_of_mem_printed {calls : List Call} :
    ∀ c ∈ printed calls, c.event.isPrintable = true :=
  fun _ member => (List.mem_filter.mp member).2

theorem printed_subset (calls : List Call) : printed calls ⊆ calls :=
  fun _ => List.mem_of_mem_filter

section

variable [Limits]

/-- What goes to a batch is added to the log, as far as the paths are short enough. The project's own
log is the first. -/
def Sink.reaches (k : Sink) (batch which : Option String) : Bool :=
  k.fits none && (which == none || which == batch && k.fits which)

def Call.goesTo (c : Call) (which : Option String) : Bool :=
  c.sink.reaches c.batch which

def Call.fits (c : Call) : Bool :=
  (c.sink.targets c.batch).all Path.fits

/-- Makes one call after the other: the files afterwards, and the calls that went well. -/
def writeAll (s : Store) : List Call → Store × List Call
  | [] => (s, [])
  | c :: rest =>
    match c.sink.write .standard s c.event c.batch with
    | (after, none) =>
      let (last, written) := writeAll after rest
      (last, c :: written)
    | (after, some _) => writeAll after rest

variable {home : Place} {s : Store} {text : Option String → Bytes}

/-! ### Writing -/

/-- Of logs that are written one after the other, those in front of the first whose path is too
long. -/
def Sink.reachesAmong (k : Sink) : List (Option String) → Option String → Bool
  | [], _ => false
  | first :: rest, which => k.fits first && (which == first || k.reachesAmong rest which)

theorem Sink.mem_of_reachesAmong {k : Sink} {logs : List (Option String)} {which : Option String}
    (reached : k.reachesAmong logs which = true) : which ∈ logs := by
  induction logs with
  | nil => cases reached
  | cons first rest ih =>
    simp only [reachesAmong, Bool.and_eq_true, Bool.or_eq_true, beq_iff_eq] at reached
    exact List.mem_cons.mpr (reached.2.imp_right ih)

def Sink.IsLogAt (k : Sink) (which : Option String) (path : Path) : Prop :=
  IsLog which ∧ k.log? which = some path

/-- The files of an event are its logs. -/
theorem Sink.exists_logs (k : Sink) (batch : Option String) :
    ∃ logs, logs.Nodup ∧ List.Forall₂ k.IsLogAt logs (k.targets batch) ∧
      ∀ which, k.reachesAmong logs which = k.reaches batch which := by
  have own : k.IsLogAt none k.log := ⟨isLog_own, rfl⟩
  have alone (unfit : ∀ name, batch = some name → k.fits (some name) = false)
      (which : Option String) : k.reachesAmong [none] which = k.reaches batch which := by
    cases which with
    | none => simp [reachesAmong, reaches]
    | some name =>
      by_cases same : batch = some name
      · simp [reachesAmong, reaches, unfit name same]
      · simp [reachesAmong, reaches, Ne.symm same]
  cases batch with
  | none => exact ⟨[none], List.nodup_singleton _, .cons own .nil, alone nofun⟩
  | some name =>
    by_cases usable : isBatchName name = true
    · obtain ⟨folder, file, log, -⟩ := k.log?_eq (isLog_of_isBatchName usable)
      have target : k.targets (some name) = [k.log, folder.child file] := by
        rw [targets, show k.batchLog? name = some (folder.child file) from log]
        rfl
      refine ⟨[none, some name], by simp,
        target ▸ .cons own (.cons ⟨isLog_of_isBatchName usable, log⟩ .nil), fun which => ?_⟩
      by_cases same : which = some name
      · simp [reachesAmong, reaches, same]
      · have apart : (which == some name) = false := beq_eq_false_iff_ne.mpr same
        simp [reachesAmong, reaches, apart]
    · have target : k.batchLog? name = none := if_neg usable
      have unfit : k.fits (some name) = false := by
        rw [fits, log?, target]
        rfl
      refine ⟨[none], List.nodup_singleton _, ?_, alone ?_⟩
      · rw [targets, target]
        exact .cons own .nil
      · rintro _ ⟨⟩
        exact unfit

/-- Bytes reach one log after the other, until a path is too long. -/
theorem Ledger.appendAll_among (ledger : Ledger s home text) {k : Sink} (serves : Serves k s home)
    {logs : List (Option String)} {paths : List Path} (at_ : List.Forall₂ k.IsLogAt logs paths)
    (distinct : logs.Nodup) (bytes : Bytes) :
    let result := Sink.appendAll .standard bytes s paths
    (result.2 = none ↔ paths.all Path.fits = true) ∧
      (∀ place, s.isFolder place = true → result.1.isFolder place = true) ∧
      Ledger result.1 home fun which =>
        text which ++ if k.reachesAmong logs which then bytes else [] := by
  induction at_ generalizing s text with
  | nil => exact ⟨by simp [Sink.appendAll], fun _ => id, ledger.congr (by simp [Sink.reachesAmong])⟩
  | @cons which path logs paths here _ ih =>
    obtain ⟨isLog, log⟩ := here
    obtain ⟨unused, distinct⟩ := List.nodup_cons.mp distinct
    obtain ⟨went, kept, first⟩ := ledger.append serves isLog log bytes
    have fits := Sink.fits_eq log
    rw [Sink.appendAll]
    generalize Appender.standard s path bytes = result at went kept first
    obtain ⟨mid, _ | e⟩ := result
    · have short : path.fits = true := went.mp rfl
      obtain ⟨went', kept', others⟩ := ih first (serves.mono kept) distinct
      refine ⟨by simpa [short] using went', fun place there => kept' place (kept place there),
        others.congr fun other _ => ?_⟩
      rw [Sink.reachesAmong, fits, short, List.append_assoc]
      by_cases same : other = which
      · -- a log that is written does not come again
        have absent : k.reachesAmong logs other = false :=
          Bool.eq_false_iff.mpr fun reached => unused (same ▸ Sink.mem_of_reachesAmong reached)
        simp [same ▸ absent, same]
      · simp [same]
    · have long : path.fits = false := by
        rw [Bool.eq_false_iff, ne_eq, ← went]
        simp
      refine ⟨by simp [long], kept, first.congr fun other _ => ?_⟩
      rw [Sink.reachesAmong, fits, long]
      simp

/-- The line of an event reaches every log that the event goes to, until a path is too long. -/
theorem Ledger.appendAll (ledger : Ledger s home text) {k : Sink} (serves : Serves k s home)
    (batch : Option String) (bytes : Bytes) :
    let result := Sink.appendAll .standard bytes s (k.targets batch)
    (result.2 = none ↔ (k.targets batch).all Path.fits = true) ∧
      (∀ place, s.isFolder place = true → result.1.isFolder place = true) ∧
      Ledger result.1 home fun which =>
        text which ++ if k.reaches batch which then bytes else [] := by
  obtain ⟨logs, distinct, targets, reached⟩ := k.exists_logs batch
  obtain ⟨went, kept, after⟩ := ledger.appendAll_among serves targets distinct bytes
  exact ⟨went, kept, after.congr fun which _ => by rw [reached]⟩

/-- The call of an event that can be printed goes well if all paths are short enough, and adds the
line of the event to the logs that the call goes to. -/
theorem Ledger.write (ledger : Ledger s home text) {c : Call} (serves : Serves c.sink s home)
    (printable : c.event.isPrintable = true) :
    let result := c.sink.write .standard s c.event c.batch
    (result.2 = none ↔ c.fits = true) ∧
      (∀ place, s.isFolder place = true → result.1.isFolder place = true) ∧
      Ledger result.1 home fun which =>
        text which ++ if c.goesTo which then Sink.line c.event.fields else [] := by
  obtain ⟨went, kept, after⟩ := ledger.appendAll serves c.batch (Sink.line c.event.fields)
  rw [Sink.write, Event.printed_of_isPrintable printable]
  exact ⟨Option.map_eq_none_iff.trans went, kept, after⟩

/-- What a log holds after calls whose events can be printed. -/
def logText (calls : List Call) (which : Option String) : Bytes :=
  (calls.filter (·.goesTo which)).flatMap fun c => Sink.line c.event.fields

theorem logText_concat (calls : List Call) (c : Call) (which : Option String) :
    logText (calls ++ [c]) which =
      logText calls which ++ if c.goesTo which then Sink.line c.event.fields else [] := by
  rw [logText, List.filter_append, List.flatMap_append, logText]
  cases goes : c.goesTo which <;> simp [goes]

theorem Call.goesTo_own {c : Call} {which : Option String} (goes : c.goesTo which = true) :
    c.goesTo none = true := by
  rw [goesTo, Sink.reaches, Bool.and_eq_true] at goes
  simp [goesTo, Sink.reaches, goes.1]

theorem length_logText_le (calls : List Call) (which : Option String) :
    (logText calls which).length ≤ (logText calls none).length := by
  have lines : (calls.filter (·.goesTo which)).Sublist (calls.filter (·.goesTo none)) :=
    List.monotone_filter_right calls fun c goes => c.goesTo_own goes
  simp only [logText, List.length_flatMap]
  exact (lines.map _).sum_le_sum fun _ _ => Nat.zero_le _

theorem write_of_not_isPrintable {c : Call} (refused : c.event.isPrintable = false) :
    ∃ failure, c.sink.write .standard s c.event c.batch = (s, some failure) := by
  obtain ⟨failure, printed⟩ := Event.printed_of_not_isPrintable refused
  exact ⟨failure, by rw [Sink.write, printed]⟩

/-- The logs are the lines of all events that can be printed, as far as the paths allow. -/
theorem Ledger.writeAll {before calls : List Call} (ledger : Ledger s home (logText before))
    (here : ∀ c ∈ calls, Serves c.sink s home) :
    (writeAll s calls).2 = (printed calls).filter Call.fits ∧
      (∀ place, s.isFolder place = true → (writeAll s calls).1.isFolder place = true) ∧
      Ledger (writeAll s calls).1 home (logText (before ++ printed calls)) := by
  -- the calls made before stay free: each write moves its call over to them
  induction calls generalizing s before with
  | nil =>
    rw [printed, List.filter_nil, List.append_nil]
    exact ⟨rfl, fun _ => id, ledger⟩
  | cons c rest ih =>
    obtain ⟨first, others⟩ := List.forall_mem_cons.mp here
    cases printable : c.event.isPrintable with
    | true =>
      obtain ⟨went, kept, later⟩ := ledger.write first printable
      have kind : printed (c :: rest) = c :: printed rest := List.filter_cons_of_pos printable
      rw [Log.writeAll, kind]
      generalize c.sink.write .standard s c.event c.batch = result at went kept later
      obtain ⟨after, failure⟩ := result
      have later' : Ledger after home (logText (before ++ [c])) :=
        later.congr fun which _ => (logText_concat before c which).symm
      obtain ⟨written, grown, final⟩ := ih later' fun d member => (others d member).mono kept
      rw [List.append_assoc, List.singleton_append] at final
      have grown' : ∀ place, s.isFolder place = true →
          (Log.writeAll after rest).1.isFolder place = true :=
        fun place there => grown place (kept place there)
      cases failure with
      | none =>
        rw [List.filter_cons_of_pos (went.mp rfl)]
        exact ⟨congrArg (c :: ·) written, grown', final⟩
      | some failure =>
        have long : ¬c.fits = true := fun fits => by cases went.mpr fits
        rw [List.filter_cons_of_neg long]
        exact ⟨written, grown', final⟩
    | false =>
      obtain ⟨failure, writes⟩ := write_of_not_isPrintable (s := s) printable
      have kind : printed (c :: rest) = printed rest :=
        List.filter_cons_of_neg (by simp [printable])
      rw [Log.writeAll, writes, kind]
      exact ih ledger others

end

/-! ### Reading -/

section

variable [Limits] {home : Place} {s : Store} {text : Option String → Bytes}

/-- A window holds a file of so many bytes if all of it is read. -/
def Window.Holds (window : Window) (size : Nat) : Prop :=
  match window with
  | .bytes count => (size : Int) ≤ count
  | .bound greatest => Float.ofNat size ≤ greatest
  | .unusable => False

theorem Window.tail?_of_holds {window : Window} {content : Bytes}
    (holds : window.Holds content.length) : window.tail? content = some content := by
  cases window with
  | bytes count => exact if_pos holds
  | bound greatest => exact if_pos holds
  | unusable => exact holds.elim

theorem Window.eq_nil_of_tail? {window : Window} {part : Bytes}
    (shown : window.tail? [] = some part) : part = [] := by
  cases window with
  | bytes count =>
    rw [Window.tail?, List.drop_nil] at shown
    split at shown
    case isTrue => exact (Option.some.inj shown).symm
    case isFalse =>
      split at shown
      case isTrue => cases shown
      case isFalse => exact (Option.some.inj shown).symm
  | bound greatest =>
    rw [Window.tail?] at shown
    split at shown
    case isTrue => exact (Option.some.inj shown).symm
    case isFalse => cases shown
  | unusable => cases shown

def found (written : List Call) (f : Filter) (which : Option String) : List Value :=
  (written.filter fun c => c.goesTo which && f.admits c.event).map (·.event.shown)

def bodies (written : List Call) (which : Option String) : List Bytes :=
  (written.filter (·.goesTo which)).map fun c => body c.event.shown

section

variable {written : List Call}
  (proper : ∀ c ∈ written, (Value.record c.event.context).IsProper)
  (printable : ∀ c ∈ written, c.event.isPrintable = true)
include proper printable

theorem logText_eq (which : Option String) :
    logText written which = (bodies written which).flatMap (· ++ [10]) := by
  rw [logText, bodies, List.flatMap_map]
  refine List.flatMap_congr fun c member => encode_line ?_
  have inside := (List.mem_filter.mp member).1
  exact Event.isLossless_shown (proper c inside) (printable c inside)

theorem isInner_bodies (which : Option String) :
    ∀ line ∈ bodies written which, ∀ b ∈ line, IsInner b := by
  rw [bodies, List.forall_mem_map]
  intro c member
  have inside := (List.mem_filter.mp member).1
  exact isInner_body (Event.isLossless_shown (proper c inside) (printable c inside))

theorem collect_logText (f : Filter) (which : Option String) :
    collect f (splitLines (logText written which)) = .ok (found written f which) := by
  have legible : ∀ c ∈ written.filter (·.goesTo which), Json.IsLegible c.event.shown := by
    intro c member
    have inside := (List.mem_filter.mp member).1
    exact Event.isLegible_shown (proper c inside) (printable c inside)
  rw [logText_eq proper printable, splitLines_flatMap (isInner_bodies proper printable which), bodies,
    collect_map legible fun c _ => f.accepts_shown c.event, List.filter_filter, found]
  simp only [Bool.and_comm]

/-- A log of which the window shows whole lines is read as the events on them. -/
theorem Ledger.events_of_tail (ledger : Ledger s home text) {k : Sink} (serves : Serves k s home)
    {which : Option String} (isLog : IsLog which) {path : Path} (log : k.log? which = some path)
    (fits : path.fits = true)
    (shown : k.window.tail? (text which) = some (logText written which)) (f : Filter) :
    k.events s path f = .ok (found written f which) := by
  have place := serves.place_of_log? isLog log
  have collected := collect_logText proper printable f which
  have seen := ledger.exists?_eq serves isLog log fits
  rw [← ledger.kept which isLog, ← place] at shown
  cases file : s.file? path.place with
  | none =>
    -- a log without a file is empty, and the window shows nothing of it
    rw [Store.isFile, file, Option.isSome_none] at seen
    have empty : s.content path.place = [] := by rw [Store.content, file]; rfl
    have nothing := Window.eq_nil_of_tail? (empty ▸ shown)
    rw [nothing] at collected
    rw [Sink.events_of_absent seen]
    exact collected
  | some stored =>
    have there : s.isFile path.place = true := by rw [Store.isFile, file]; rfl
    have content : s.content path.place = stored.content := by rw [Store.content, file]; rfl
    rw [Sink.events_eq (ledger.isOpen serves isLog log fits there) file, ← content, shown]
    exact collected

theorem Ledger.query_of_tail (ledger : Ledger s home text) {k : Sink} (serves : Serves k s home)
    {which : Option String} (isLog : IsLog which) (fits : k.fits which = true)
    (shown : k.window.tail? (text which) = some (logText written which)) (f : Filter)
    {limit : Int} (countable : 0 ≤ limit) :
    k.query s f which limit =
      .ok ((found written f which).reverse.take (min limit 2000).toNat) := by
  obtain ⟨folder, name, log, -⟩ := k.log?_eq isLog
  rw [Sink.fits_eq log] at fits
  have events := ledger.events_of_tail proper printable serves isLog log fits shown f
  have bounded : 0 ≤ min limit Sink.maxLimit := le_min countable (by decide)
  rw [Sink.query_eq log, events, Except.map, takeInt, if_pos bounded, Sink.maxLimit]

theorem Ledger.readBatch_of_tail (ledger : Ledger s home text) {k : Sink}
    (serves : Serves k s home) {batch : String} (usable : isBatchName batch = true)
    (fits : k.fits (some batch) = true)
    (shown : k.window.tail? (text (some batch)) = some (logText written (some batch))) :
    k.readBatch s batch = .ok (found written {} (some batch)) := by
  have isLog := isLog_of_isBatchName usable
  obtain ⟨folder, name, log, -⟩ := k.log?_eq isLog
  rw [Sink.fits_eq log] at fits
  rw [Sink.readBatch_eq log]
  exact ledger.events_of_tail proper printable serves isLog log fits shown {}

theorem Ledger.query (ledger : Ledger s home (logText written)) {k : Sink}
    (serves : Serves k s home) {which : Option String} (isLog : IsLog which)
    (fits : k.fits which = true)
    (holds : k.window.Holds (s.content (logPlace home which)).length) (f : Filter) {limit : Int}
    (countable : 0 ≤ limit) :
    k.query s f which limit =
      .ok ((found written f which).reverse.take (min limit 2000).toNat) := by
  rw [ledger.kept which isLog] at holds
  exact ledger.query_of_tail proper printable serves isLog fits (Window.tail?_of_holds holds) f
    countable

theorem Ledger.readBatch (ledger : Ledger s home (logText written)) {k : Sink}
    (serves : Serves k s home) {batch : String} (usable : isBatchName batch = true)
    (fits : k.fits (some batch) = true)
    (holds : k.window.Holds (s.content (logPlace home (some batch))).length) :
    k.readBatch s batch = .ok (found written {} (some batch)) := by
  rw [ledger.kept _ (isLog_of_isBatchName usable)] at holds
  exact ledger.readBatch_of_tail proper printable serves usable fits (Window.tail?_of_holds holds)

end

/-! ### Reading what was written -/

theorem Unlogged.ledger (unlogged : Unlogged s home) : Ledger s home (logText []) where
  tree := unlogged.tree
  clear := unlogged.clear
  free which isLog := (Bool.or_eq_false_iff.mp (unlogged.absent which isLog)).2
  kept which isLog := by
    have missing := (Bool.or_eq_false_iff.mp (unlogged.absent which isLog)).1
    rw [Store.isFile, Option.isSome_eq_false_iff, Option.isNone_iff_eq_none] at missing
    rw [Store.content, missing]
    rfl

/-- After calls, the logs are the lines of the events that can be printed, and these can be read
back. The sinks of the project are the same as before. -/
theorem Unlogged.wrote {calls : List Call} (unlogged : Unlogged s home)
    (here : ∀ c ∈ calls, Serves c.sink s home)
    (proper : ∀ c ∈ calls, (Value.record c.event.context).IsProper) :
    Ledger (writeAll s calls).1 home (logText (printed calls)) ∧
      (∀ c ∈ printed calls, (Value.record c.event.context).IsProper) ∧
      (∀ c ∈ printed calls, c.event.isPrintable = true) ∧
      ∀ k, Serves k s home → Serves k (writeAll s calls).1 home := by
  obtain ⟨-, kept, ledger⟩ := unlogged.ledger.writeAll here
  exact ⟨ledger, fun c member => proper c (printed_subset calls member), isPrintable_of_mem_printed,
    fun k serves => serves.mono kept⟩

/-- What a reader gives for the log of a batch whose path is too long: an error once there are logs
of batches, or if the path as a whole is too long, and nothing before. -/
def Misses (reader : Sink) (s : Store) (home : Place) (batch : String) : Prop :=
  ∀ path, reader.log? (some batch) = some path →
    let answer : Except ReadError (List Value) :=
      if Limits.path < path.size ∨ s.isFolder (innerFolder home) = true
      then .error (.file (.tooLong path.text)) else .ok []
    reader.readBatch s batch = answer ∧
      ∀ (f : Filter) (limit : Int), reader.query s f (some batch) limit = answer

theorem Sink.fits_batchFolder {k : Sink} (own : k.fits none = true) : k.batchFolder.fits = true := by
  rw [fits_none, Sink.log, Path.fits_child_iff] at own
  obtain ⟨short, name, folder⟩ := own
  have shorter : "batches".utf8ByteSize ≤ "events.ndjson".utf8ByteSize := by decide +kernel
  refine Path.fits_child_iff.mpr ⟨le_trans ?_ short, shorter.trans name, folder⟩
  simp only [Path.size, Path.child, Path.span_append, Path.span]
  omega

theorem Ledger.misses (ledger : Ledger s home text) {k : Sink} (serves : Serves k s home)
    (own : k.fits none = true) {batch : String} (usable : isBatchName batch = true)
    (long : k.fits (some batch) = false) : Misses k s home batch := by
  intro path log answer
  rw [Sink.fits_eq log] at long
  obtain rfl : k.batchFolder.child (batch ++ Sink.batchSuffix) = path :=
    Option.some.inj ((if_pos usable).symm.trans log)
  have seen := Store.exists?_child_of_not_fits (s := s) (Sink.fits_batchFolder own) long
  simp only [serves.isFolder_visited_iff ledger.tree] at seen
  have events (f : Filter) :
      k.events s (k.batchFolder.child (batch ++ Sink.batchSuffix)) f = answer := by
    unfold answer
    split
    case isTrue there => exact Sink.events_of_error (seen.trans (if_pos there)) f
    case isFalse absent => exact Sink.events_of_absent (seen.trans (if_neg absent)) f
  refine ⟨(Sink.readBatch_eq log s).trans (events {}), fun f limit => ?_⟩
  rw [Sink.query_eq log, events]
  unfold answer
  split
  case isTrue => rfl
  case isFalse => simp [Except.map, takeInt]

/-- What has been written through any sinks of a project is what a reader of the project finds: in
the project's own log all events, and in the log of a batch those of the batch. Calls fail just for
the events that cannot be printed, and for logs whose path is too long; such a log cannot be read
either. What is found has the fields of the event, be it in the order of their names. -/
theorem read_writeAll {calls written : List Call} {after : Store} {reader : Sink}
    (run : writeAll s calls = (after, written)) (unlogged : Unlogged s home)
    (here : ∀ c ∈ calls, Serves c.sink s home)
    (proper : ∀ c ∈ calls, (Value.record c.event.context).IsProper)
    (there : Serves reader s home) (short : reader.fits none = true)
    (holds : ∀ which, IsLog which →
      reader.window.Holds (after.content (logPlace home which)).length) :
    written = (printed calls).filter Call.fits ∧
    (∀ c ∈ printed calls, Value.Same c.event.shown (.record c.event.fields)) ∧
    (∀ (f : Filter) (limit : Int), 0 ≤ limit →
      reader.query after f none limit =
        .ok ((found (printed calls) f none).reverse.take (min limit 2000).toNat)) ∧
    (∀ batch, isBatchName batch = true → reader.fits (some batch) = true →
      reader.readBatch after batch = .ok (found (printed calls) {} (some batch)) ∧
      ∀ (f : Filter) (limit : Int), 0 ≤ limit →
        reader.query after f (some batch) limit =
          .ok ((found (printed calls) f (some batch)).reverse.take (min limit 2000).toNat)) ∧
    (∀ batch, isBatchName batch = true → reader.fits (some batch) = false →
      Misses reader after home batch) ∧
    ∀ batch, isBatchName batch = false →
      reader.readBatch after batch = .ok [] ∧
      ∀ (f : Filter) (limit : Int), reader.query after f (some batch) limit = .ok [] := by
  have went := (unlogged.ledger.writeAll here).1
  obtain ⟨ledger, proper', printable, serving⟩ := unlogged.wrote here proper
  rw [run] at went ledger serving
  have there := serving reader there
  refine ⟨went, ?same, ?own, ?usable, ?long, ?unusable⟩
  case same => exact fun c member => Event.same_shown (proper' c member) (printable c member)
  case own =>
    intro f limit countable
    exact ledger.query proper' printable there isLog_own short (holds none isLog_own) f countable
  case usable =>
    intro batch usable fits
    have isLog := isLog_of_isBatchName usable
    have held := holds (some batch) isLog
    refine ⟨ledger.readBatch proper' printable there usable fits held, fun f limit countable => ?_⟩
    exact ledger.query proper' printable there isLog fits held f countable
  case long => exact fun batch usable long => ledger.misses there short usable long
  case unusable =>
    intro batch unusable
    -- without a log there is nothing to look at
    have path : reader.batchLog? batch = none := if_neg (by simp [unusable])
    refine ⟨by rw [Sink.readBatch, path], fun f limit => ?_⟩
    simp only [Sink.query, path]

end

section

attribute [local instance] Limits.standard

def failedCall : Call where
  sink := ⟨⟨false, ["p"]⟩, .standard⟩
  event := {
    time := "2024-05-01T00:00:00.000000Z"
    level := .error
    topic := .evalFailed
    context := [("formula", .text "a +\n"), ("score", .float 0.1), ("row", .int 3)]
    message := "à revoir" }
  batch := some "b-1"

def completedCall : Call where
  sink := ⟨⟨false, ["p", "..", "p"]⟩, .bytes 1⟩
  event := { time := "2024-05-01T00:00:01.000000Z", level := .info, topic := .evalCompleted }

theorem serves_completedCall (s : Store) : Serves completedCall.sink s ["p"] := by
  refine ⟨by decide, fun place member => .inl ?_⟩
  have way : completedCall.sink.project.through = [[], ["p"], []] := by decide
  rw [way] at member
  simp only [List.mem_cons, List.not_mem_nil, or_false] at member
  obtain rfl | rfl | rfl := member <;> simp

theorem read_writeAll_failure :
    let reader : Sink := ⟨⟨false, ["p"]⟩, .bytes 4096⟩
    let after := (writeAll {} [failedCall, completedCall]).1
    reader.query after {} none 1 = .ok [completedCall.event.shown] ∧
      reader.query after { level := some "error" } none 5 = .ok [failedCall.event.shown] ∧
      reader.query after {} (some "b-1") 200 = .ok [failedCall.event.shown] ∧
      reader.readBatch after "b-1" = .ok [failedCall.event.shown] ∧
      reader.readBatch after "../b" = .ok [] := by
  intro reader after
  have here : ∀ c ∈ [failedCall, completedCall], Serves c.sink {} ["p"] := by
    simp only [List.forall_mem_cons]
    exact ⟨serves_of_straight (by decide), serves_completedCall {}, by simp⟩
  have there : Serves reader {} ["p"] := serves_of_straight (by decide)
  have proper : ∀ c ∈ [failedCall, completedCall], (Value.record c.event.context).IsProper := by
    simp only [List.forall_mem_cons, failedCall, completedCall]
    refine ⟨.record ?_ (by decide), .record (by simp) (by decide), by simp⟩
    simp only [List.forall_mem_cons]
    exact ⟨.text _, .float _, .int _, by simp⟩
  have printable : printed [failedCall, completedCall] = [failedCall, completedCall] :=
    List.filter_eq_self.mpr (by decide +kernel)
  have size : (logText [failedCall, completedCall] none).length ≤ 4096 := by decide +kernel
  have holds : ∀ which, IsLog which →
      reader.window.Holds (after.content (logPlace ["p"] which)).length := by
    intro which isLog
    have kept := ((unlogged_empty ["p"]).wrote here proper).1.kept which isLog
    rw [printable] at kept
    have bound := (length_logText_le [failedCall, completedCall] which).trans size
    rw [← kept] at bound
    exact Int.ofNat_le.mpr bound
  have goes : failedCall.goesTo none = true ∧ completedCall.goesTo none = true ∧
      failedCall.goesTo (some "b-1") = true ∧ completedCall.goesTo (some "b-1") = false := by
    decide +kernel
  obtain ⟨-, -, own, batch, -, unusable⟩ :=
    read_writeAll rfl (unlogged_empty ["p"]) here proper there (by decide) holds
  rw [printable] at own batch
  obtain ⟨oldest, newest⟩ := batch "b-1" (by decide) (by decide)
  have all : found [failedCall, completedCall] {} none =
      [failedCall.event.shown, completedCall.event.shown] := by
    simp [found, goes, Filter.admits]
  have levels : Filter.admits { level := some "error" } failedCall.event = true ∧
      Filter.admits { level := some "error" } completedCall.event = false := by decide
  have errors : found [failedCall, completedCall] { level := some "error" } none =
      [failedCall.event.shown] := by
    simp [found, goes, levels]
  have one : found [failedCall, completedCall] {} (some "b-1") = [failedCall.event.shown] := by
    simp [found, goes, Filter.admits]
  refine ⟨?_, ?_, ?_, oldest.trans (congrArg _ one), (unusable "../b" (by decide)).1⟩
  · exact (own {} 1 (by decide)).trans (by rw [all]; rfl)
  · exact (own _ 5 (by decide)).trans (by rw [errors]; rfl)
  · exact (newest {} 200 (by decide)).trans (by rw [one]; rfl)

/-- So many letters are a name of a batch, and with the suffix too long for a file. -/
def longName : String :=
  String.ofList (List.replicate 249 'a')

theorem isBatchName_longName : isBatchName longName = true := by
  have letters : longName.toList = List.replicate 249 'a' := String.toList_ofList
  simp only [isBatchName, letters]
  decide +kernel

theorem utf8ByteSize_longName : longName.utf8ByteSize = 249 :=
  (String.utf8ByteSize_ofList _).trans (by decide +kernel)

theorem log?_longName (k : Sink) :
    k.log? (some longName) = some (k.batchFolder.child (longName ++ Sink.batchSuffix)) := by
  rw [Sink.log?, Sink.batchLog?, if_pos isBatchName_longName]

theorem not_fits_longLog (k : Sink) :
    (k.batchFolder.child (longName ++ Sink.batchSuffix)).fits = false := by
  have suffix : Sink.batchSuffix.utf8ByteSize = 7 := by decide
  rw [Bool.eq_false_iff, Ne, Path.fits_child_iff, String.utf8ByteSize_append,
    utf8ByteSize_longName, suffix]
  exact fun fits => absurd fits.2.1 (by decide)

def longCall : Call :=
  { failedCall with batch := some longName }

theorem not_fits_longCall : longCall.fits = false := by
  have batch : longCall.batch = some longName := rfl
  have log := log?_longName longCall.sink
  rw [Sink.log?] at log
  simp only [Call.fits, Sink.targets, batch, log, Option.toList_some, List.all_cons,
    not_fits_longLog, Bool.false_and, Bool.and_false]

theorem serves_longCall : ∀ c ∈ [longCall], Serves c.sink {} ["p"] := by
  rw [List.forall_mem_singleton]
  exact serves_of_straight (by decide)

theorem writeAll_longCall : (writeAll {} [longCall]).2 = [] := by
  rw [((unlogged_empty ["p"]).ledger.writeAll serves_longCall).1, List.filter_eq_nil_iff]
  intro c member
  rw [List.mem_singleton.mp (printed_subset _ member), not_fits_longCall]
  exact Bool.false_ne_true

/-- A call of a batch with too long a name fails, although its event is in the project's own log; and
from then on the batch cannot be asked for. -/
theorem long_batch_is_lost :
    let reader : Sink := ⟨⟨false, ["p"]⟩, .standard⟩
    let after := (writeAll {} [longCall]).1
    isBatchName longName = true ∧ (writeAll {} [longCall]).2 = [] ∧
      reader.query after {} none 200 = .ok [longCall.event.shown] ∧
      ∃ path, reader.readBatch after longName = .error (.file (.tooLong path)) := by
  intro reader after
  have proper : ∀ c ∈ [longCall], (Value.record c.event.context).IsProper := by
    rw [List.forall_mem_singleton]
    refine .record ?_ (by decide)
    simp only [longCall, failedCall, List.forall_mem_cons]
    exact ⟨.text _, .float _, .int _, by simp⟩
  have printable : printed [longCall] = [longCall] :=
    List.filter_eq_self.mpr (by decide +kernel)
  obtain ⟨ledger, proper', printable', serving⟩ :=
    (unlogged_empty ["p"]).wrote serves_longCall proper
  have there : Serves reader after ["p"] := serving reader (serves_of_straight (by decide))
  have held : reader.window.Holds (after.content (logPlace ["p"] none)).length := by
    rw [ledger.kept none isLog_own, printable]
    exact Int.ofNat_le.mpr (by decide +kernel)
  have query := ledger.query proper' printable' there isLog_own (by decide) held {}
    (by decide : (0 : Int) ≤ 200)
  have misses := ledger.misses there (by decide) isBatchName_longName
    ((Sink.fits_eq (log?_longName reader)).trans (not_fits_longLog reader))
  have folder : after.isFolder (innerFolder ["p"]) = true := by decide +kernel
  have goes : longCall.goesTo none = true := by decide +kernel
  have all : found [longCall] {} none = [longCall.event.shown] := by
    simp [found, goes, Filter.admits]
  have missed := (misses _ (log?_longName reader)).1
  rw [if_pos (.inr folder)] at missed
  refine ⟨isBatchName_longName, writeAll_longCall, ?_, _, missed⟩
  rw [query, printable, all]
  rfl

end

end Reckon.Log
