import Mathlib
import Reckon.Command.Logs
import Reckon.Proofs.Windows

/-!
How many events a query gives. A limit of zero or more bounds the answer, and so does the greatest
number of events that a query finds; of the events that match, the newest are given. A limit below
zero is no bound: it takes as many of the oldest events away and leaves all others.
-/

namespace Reckon.Log

open Store (Place)

/-! ### Limits -/

/-- How many of some events a limit leaves. -/
def allowed (limit : Int) (matching : Nat) : Nat :=
  if 0 ≤ limit then min (min limit 2000).toNat matching else matching - limit.natAbs

theorem allowed_le (limit : Int) (matching : Nat) : allowed limit matching ≤ matching := by
  unfold allowed
  split <;> omega

/-- A limit of zero or more is kept, and a limit below zero only where it leaves nothing. -/
theorem allowed_le_iff {limit : Int} {matching : Nat} :
    (allowed limit matching : Int) ≤ max 0 (min limit 2000) ↔
      0 ≤ limit ∨ matching ≤ limit.natAbs := by
  unfold allowed
  split <;> omega

theorem takeInt_eq_take {α : Type} (limit : Int) (items : List α) :
    takeInt (min limit 2000) items = items.take (allowed limit items.length) := by
  unfold takeInt allowed
  by_cases countable : 0 ≤ limit
  · rw [if_pos (le_min countable (by decide)), if_pos countable]
    exact List.take_eq_take_min
  · have below : min limit 2000 = limit := min_eq_left (by omega)
    rw [below, if_neg countable, if_neg countable]

structure IsAllowed (limit : Int) (matching events : List Value) : Prop where
  newest : events <+: matching.reverse
  count : events.length = allowed limit matching.length

theorem IsAllowed.eq {limit : Int} {matching events : List Value}
    (allowed : IsAllowed limit matching events) :
    events = matching.reverse.take (Log.allowed limit matching.length) := by
  rw [← allowed.count]
  exact List.prefix_iff_eq_take.mp allowed.newest

theorem isAllowed_takeInt (limit : Int) (matching : List Value) :
    IsAllowed limit matching (takeInt (min limit 2000) matching.reverse) where
  newest := by
    rw [takeInt_eq_take]
    exact List.take_prefix _ _
  count := by
    rw [takeInt_eq_take, List.length_take, List.length_reverse]
    exact min_eq_left (allowed_le _ _)

/-! ### Events that match -/

/-- The events that match on the last lines of a log are the last ones that match. -/
theorem found_suffix [Limits] {written shown : List Call} {which : Option String}
    (ends : shown <:+ written.filter (·.goesTo which)) (f : Filter) :
    found shown f which <:+ found written f which := by
  have twice : (written.filter (·.goesTo which)).filter (fun c => c.goesTo which && f.admits c.event) =
      written.filter fun c => c.goesTo which && f.admits c.event := by
    rw [List.filter_filter]
    refine List.filter_congr fun c _ => ?_
    cases c.goesTo which <;> simp
  rw [found, found, ← twice]
  exact (ends.filter _).map _

theorem isLog_iff {which : Option String} :
    IsLog which ↔ which.filter (!isBatchName ·) = none := by
  cases which with
  | none => simp [IsLog]
  | some batch => simp [IsLog, Option.filter_eq_none_iff]

section

variable [Limits] [Formats]

theorem runEvents_of_query {s : Store} {project : String} {k : Sink} {f : Filter}
    {batch : Option String} {limit : Int} {events : List Value}
    (reads : Command.readingSink s project = .ok k) (isLog : IsLog batch)
    (query : k.query s f batch limit = .ok events) (json : Bool) :
    Command.runEvents s project ⟨f.level, f.topic, batch, limit⟩ json =
      Command.eventReport events json := by
  simp only [Command.runEvents, reads, isLog_iff.mp isLog, query]

/-- The answer to a query of written events. The events that match are looked for on some last lines
of the log, and the newest of them are given. -/
structure Answers (reader : Sink) (s : Store) (written : List Call) (f : Filter)
    (batch : Option String) (limit : Int) (shown : List Call) (events : List Value) : Prop where
  query : reader.query s f batch limit = .ok events
  allowed : IsAllowed limit (found shown f batch) events
  ends : shown <:+ written.filter (·.goesTo batch)
  newest : events <+: (found written f batch).reverse
  /-- The limit is kept, unless it is below zero and events are left. -/
  bounded : (events.length : Int) ≤ max 0 (min limit 2000) ↔
    0 ≤ limit ∨ (found shown f batch).length ≤ limit.natAbs
  /-- The command that shows events shows these. -/
  told : ∀ project json, IsLog batch → Command.readingSink s project = .ok reader →
    Command.runEvents s project ⟨f.level, f.topic, batch, limit⟩ json =
      Command.eventReport events json

theorem answers_of_query {reader : Sink} {s : Store} {written shown : List Call} {f : Filter}
    {batch : Option String} {limit : Int} (ends : shown <:+ written.filter (·.goesTo batch))
    (query : reader.query s f batch limit =
      .ok (takeInt (min limit 2000) (found shown f batch).reverse)) :
    ∃ events, Answers reader s written f batch limit shown events := by
  have allowed := isAllowed_takeInt limit (found shown f batch)
  have last := List.reverse_prefix.mpr (found_suffix ends f)
  refine ⟨_, query, allowed, ends, allowed.newest.trans last, ?_, ?_⟩
  · rw [allowed.count]
    exact allowed_le_iff
  · intro project json isLog reads
    exact runEvents_of_query reads isLog query json

/-- A query of written events is answered, unless there is a log that the window of the reader
misfits. With a limit of zero or more, no more events are given than the limit says, nor more than
two thousand. If the window holds the log, the events that match are looked for on all its lines. -/
theorem query_limited {home : Place} {s : Store} {calls : List Call} {reader : Sink}
    (unlogged : Unlogged s home) (here : ∀ c ∈ calls, Serves c.sink s home)
    (proper : ∀ c ∈ calls, (Value.record c.event.context).IsProper)
    (there : Serves reader s home) (f : Filter) (batch : Option String) (limit : Int) :
    let after := (writeAll s calls).1
    let content := after.content (logPlace home batch)
    (∃ shown events, Answers reader after (printed calls) f batch limit shown events ∧
      (IsLog batch → reader.window.Holds content.length →
        shown = (printed calls).filter (·.goesTo batch))) ∨
    (IsLog batch ∧ (reader.fits batch = false ∨
        after.has (logPlace home batch) = true ∧ reader.window.tail? content = none) ∧
      ∃ e, reader.query after f batch limit = .error e) := by
  intro after content
  obtain ⟨ledger, proper', printable, serving⟩ := unlogged.wrote here proper
  have serves : Serves reader after home := serving reader there
  by_cases isLog : IsLog batch
  · have kept : content = _ := ledger.kept batch isLog
    have size : content.length = logSize ((printed calls).filter (·.goesTo batch)) := by
      rw [kept, length_logText_eq]
    obtain ⟨folder, name, log, -⟩ := reader.log?_eq isLog
    cases fits : (folder.child name).fits with
    | true =>
      rcases ledger.events_cases proper' printable serves isLog log fits f with
        ⟨-, shown, ends, all, events⟩ | ⟨⟨present, misfit⟩, e, failed⟩
      · have query := (gives_of_events log events).query limit
        obtain ⟨events, answers⟩ := answers_of_query ends query
        exact .inl ⟨shown, events, answers, fun _ holds => all (size ▸ holds)⟩
      · have query := (gives_of_events log failed).query limit
        exact .inr ⟨isLog, .inr ⟨present, misfit⟩, e, query⟩
    | false =>
      rcases ledger.exists?_of_not_fits serves isLog log fits with failed | ⟨absent, missing⟩
      · have query := (gives_of_events log (Sink.events_of_error failed f)).query limit
        exact .inr ⟨isLog, .inl ((Sink.fits_eq log).trans fits), _, query⟩
      · -- there is no such log, so nothing has been written to it
        have empty : content = [] := by
          rw [Store.isFile, serves.place_of_log? isLog log, Option.isSome_eq_false_iff,
            Option.isNone_iff_eq_none] at missing
          unfold content Store.content
          exact congrArg (fun file => (Option.map Stored.content file).getD []) missing
        rw [empty] at size
        have query := (gives_of_events log (Sink.events_of_absent absent f)).query limit
        obtain ⟨events, answers⟩ := answers_of_query List.nil_suffix query
        exact .inl ⟨[], events, answers, fun _ _ => (eq_nil_of_logSize size.symm).symm⟩
  · have query := reader.query_of_not_isLog isLog after f limit
    have nothing : takeInt (min limit 2000) ([] : List Value) = [] := by
      rw [takeInt_eq_take, List.take_nil]
    obtain ⟨events, answers⟩ := answers_of_query
      (List.nil_suffix (l := (printed calls).filter _))
      (query.trans (congrArg Except.ok nothing.symm))
    exact .inl ⟨[], events, answers, fun found => absurd found isLog⟩

end

section

attribute [local instance] Limits.standard Formats.standard

theorem holds_numberedCalls :
    Window.standard.Holds ((writeAll {} numberedCalls).1.content (logPlace [] none)).length := by
  rw [ledger_numberedCalls.kept none isLog_own, length_logText_numberedCalls]
  exact (by decide : ((332 : Nat) : Int) ≤ 2097152)

/-- With a limit of one the newer of two events is given, and with a limit of zero none. -/
theorem query_limited_numbered :
    let reader : Sink := ⟨⟨false, []⟩, .standard⟩
    let after := (writeAll {} numberedCalls).1
    reader.query after {} none 1 = .ok [(numberedCall 2).event.shown] ∧
      reader.query after {} none 0 = .ok [] := by
  intro reader after
  have there : Serves reader {} [] := serves_of_straight List.not_mem_nil
  have goes : (numberedCall 1).goesTo none = true ∧ (numberedCall 2).goesTo none = true := by decide
  have all : found numberedCalls {} none =
      [(numberedCall 1).event.shown, (numberedCall 2).event.shown] := by
    simp [found, numberedCalls, goes, Filter.admits]
  have query (limit : Int) : ∃ events, reader.query after {} none limit = .ok events ∧
      events = [(numberedCall 2).event.shown, (numberedCall 1).event.shown].take (allowed limit 2) := by
    rcases query_limited (unlogged_empty []) serves_numberedCalls isProper_numberedCalls there {} none
      limit with ⟨shown, events, answers, whole⟩ | ⟨-, long | ⟨-, misfit⟩, -⟩
    · have whole := whole isLog_own holds_numberedCalls
      rw [printed_numberedCalls, filter_goesTo_numberedCalls] at whole
      subst whole
      have given := answers.allowed.eq
      rw [all] at given
      exact ⟨events, answers.query, given⟩
    · exact absurd long (by decide)
    · rw [Window.tail?_of_holds holds_numberedCalls] at misfit
      cases misfit
  obtain ⟨one, first, rfl⟩ := query 1
  obtain ⟨none, second, rfl⟩ := query 0
  exact ⟨first, second⟩

/-- A limit below zero does not keep events back. -/
theorem negative_limit_gives_event :
    let reader : Sink := ⟨⟨false, []⟩, .standard⟩
    let after := (writeAll {} numberedCalls).1
    reader.query after {} none (-1) = .ok [(numberedCall 2).event.shown] := by
  intro reader after
  have serves : Serves reader after [] := serves_of_straight List.not_mem_nil
  have holds : reader.window.Holds (logSize (numberedCalls.filter (·.goesTo none))) := by
    rw [← length_logText_eq, length_logText_numberedCalls]
    exact (by decide : ((332 : Nat) : Int) ≤ 2097152)
  have own : reader.log? none = some reader.log := rfl
  have goes : (numberedCall 1).goesTo none = true ∧ (numberedCall 2).goesTo none = true := by decide
  have events := ledger_numberedCalls.events_of_shows? isProper_numberedCalls
    isPrintable_numberedCalls serves isLog_own own (by decide) (Window.shows?_of_holds holds) {}
  have all : found (numberedCalls.filter (·.goesTo none)) {} none =
      [(numberedCall 1).event.shown, (numberedCall 2).event.shown] := by
    rw [filter_goesTo_numberedCalls]
    simp [found, numberedCalls, goes, Filter.admits]
  rw [(gives_of_events own events).query, all]
  rfl

end

end Reckon.Log
