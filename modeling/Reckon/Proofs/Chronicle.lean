import Mathlib
import Reckon.Command.Run
import Reckon.Proofs.Attempts
import Reckon.Proofs.Causes
import Reckon.Proofs.Finiteness

/-!
The log as a chronicle. In a project with the usual settings, whose log can be written, the log
tells of every formula that was evaluated or checked what the answer told: the result or the cause
of the failure, the formulas that are not well-formed, and their number. A call that is refused
before it evaluates anything leaves nothing.
-/

namespace Reckon.Log

open Store (Path Place)
open Text (Bytes)

/-! ### Plain events -/

/-- What commands tell: texts, lists of texts, floats, and integers that are short enough to be
shown. -/
inductive IsPlain : Value → Prop where
  | text (s : String) : IsPlain (.text s)
  | texts (items : List String) : IsPlain (.list (items.map .text))
  | float (x : Float) : IsPlain (.float x)
  | int {n : Int} (short : n.natAbs < Value.tooLong) : IsPlain (.int n)

theorem truncateItems_texts (items : List String) :
    truncateItems (items.map .text) = (items.map truncateText).map .text := by
  induction items with
  | nil => rfl
  | cons item items ih =>
    simp only [List.map_cons, truncateItems, truncate, ih]

theorem storableItems_texts (items : List String) :
    Event.storableItems (items.map .text) = items.map .text := by
  induction items with
  | nil => rfl
  | cons item items ih => simp only [List.map_cons, Event.storableItems, Event.storable, ih]

theorem heightOfItems_texts (items : List String) :
    Value.heightOfItems (items.map .text) ≤ 1 := by
  induction items with
  | nil => exact Nat.zero_le _
  | cons item items ih => exact max_le le_rfl ih

namespace IsPlain

variable {value : Value} (plain : IsPlain value)
include plain

theorem truncate : IsPlain (truncate value) := by
  cases plain with
  | text s => exact .text _
  | texts items =>
    rw [Log.truncate, truncateItems_texts]
    exact .texts _
  | float x => exact .float x
  | int short => exact .int short

theorem height_le : value.height ≤ 2 := by
  cases plain with
  | texts items => exact Nat.succ_le_succ (heightOfItems_texts items)
  | _ => exact Nat.le_succ 1

theorem isShort : (Event.storable value).isShort = true := by
  cases plain with
  | text s => rfl
  | texts items =>
    rw [Event.storable, storableItems_texts, Value.isShort, Value.areShort_iff,
      List.forall_mem_map]
    exact fun _ _ => rfl
  | float x =>
    rw [Event.storable]
    split <;> rfl
  | int short => simpa [Event.storable, Value.isShort] using short

end IsPlain

section

variable [Limits]

theorem isRecordable_of_isPlain {e : Event} (version : e.schemaVersion = 1)
    (plain : ∀ field ∈ e.context, IsPlain field.2) : e.IsRecordable := by
  have plain' : ∀ field ∈ e.truncated.context, IsPlain field.2 := by
    rw [Event.truncated, truncateFields_eq_map, List.forall_mem_map]
    exact fun field member => (plain field member).truncate
  exact Event.isRecordable_of_values version (fun field member => (plain field member).height_le)
    (fun field member => (plain' field member).height_le)
    fun field member => (plain' field member).isShort

/-! ### Logs that work -/

/-- Bytes have come to the project's own log, and no other file has changed. Its folder may be
new. -/
structure Appended (home : Place) (s after : Store) (bytes : Bytes) : Prop where
  tree : after.IsTree
  added : after.content (logPlace home none) = s.content (logPlace home none) ++ bytes
  others : ∀ place, place ≠ logPlace home none → after.file? place = s.file? place
  kept : ∀ place, s.isFolder place = true → after.isFolder place = true
  new : ∀ place, after.isFolder place = true → s.isFolder place = true ∨ place = logFolder home

namespace Appended

variable {home : Place} {s mid after : Store} {bytes more : Bytes}

omit [Limits] in
theorem refl (tree : s.IsTree) : Appended home s s [] where
  tree := tree
  added := (List.append_nil _).symm
  others _ _ := rfl
  kept _ := id
  new _ := .inl

omit [Limits] in
theorem trans (first : Appended home s mid bytes) (second : Appended home mid after more) :
    Appended home s after (bytes ++ more) where
  tree := second.tree
  added := by rw [second.added, first.added, List.append_assoc]
  others place different := (second.others place different).trans (first.others place different)
  kept place there := second.kept place (first.kept place there)
  new place there := (second.new place there).elim (first.new place) .inr

end Appended

/-- The project's own log can be written: no file is in the way of its folder, and it is no folder
itself. -/
structure Works (home : Place) (s : Store) : Prop where
  tree : s.IsTree
  clear : s.IsClear (logFolder home)
  free : s.isFolder (logPlace home none) = false

omit [Limits] in
theorem Works.of_appended {home : Place} {s after : Store} {bytes : Bytes} (works : Works home s)
    (appended : Appended home s after bytes) : Works home after where
  tree := appended.tree
  clear other above := by
    have different : other ≠ logPlace home none := by
      rintro rfl
      exact absurd above.length_le (by simp [logPlace, logFolder])
    rw [Store.isFile, appended.others other different]
    exact works.clear other above
  free := by
    rw [Bool.eq_false_iff]
    intro found
    rcases appended.new _ found with old | same
    · exact Bool.false_ne_true (works.free.symm.trans old)
    · simp [logPlace, logFolder] at same

/-- A path of folders that are there leads to the project, and that of the log is not too long. -/
structure Leads (project : Path) (home : Place) (s : Store) : Prop where
  place : project.place = home
  way : ∀ place ∈ project.visited, s.isFolder place = true
  short : Sink.fits ⟨project, .standard⟩ none = true

variable {home : Place} {s after : Store} {project : Path} {bytes : Bytes}

namespace Leads

variable (leads : Leads project home s)
include leads

theorem of_appended (appended : Appended home s after bytes) : Leads project home after :=
  ⟨leads.place, fun place member => appended.kept place (leads.way place member), leads.short⟩

theorem place_log : (Sink.log ⟨project, .standard⟩).place = logPlace home none :=
  leads.place ▸ Sink.place_of_log? (k := ⟨project, .standard⟩) isLog_own rfl

theorem through_log :
    (Sink.log ⟨project, .standard⟩).through = project.visited ++ [logFolder home] := by
  rw [Sink.log, Path.through_child, Sink.visited_folder, Path.visited, logFolder, ← leads.place,
    List.append_assoc]
  rfl

end Leads

/-- Where a path leads to a log that works, bytes can be added to it. -/
theorem Works.appends (works : Works home s) (leads : Leads project home s) (bytes : Bytes) :
    (Appender.standard s (Sink.log ⟨project, .standard⟩) bytes).2 = none := by
  have named : IsNamed (Sink.log ⟨project, .standard⟩) := isNamed_child _ (by decide)
  rw [standard_eq_none_iff works.tree named, leads.place_log, leads.through_log]
  refine ⟨Sink.fits_none ⟨project, .standard⟩ ▸ leads.short, ?_, works.free, ?_⟩
  · refine List.forall_mem_append.mpr ⟨fun place member => ?_, ?_⟩
    · exact works.tree.apart place (leads.way place member)
    · exact List.forall_mem_singleton.mpr (works.clear _ (List.prefix_refl _))
  · rw [List.mem_append, List.mem_singleton, not_or]
    refine ⟨fun member => ?_, by simp [logPlace, logFolder]⟩
    exact Bool.false_ne_true (works.free.symm.trans (leads.way _ member))

theorem appended_of_extended (leads : Leads project home s)
    (extended : Extended s after [Sink.log ⟨project, .standard⟩] bytes) :
    Appended home s after bytes where
  tree := extended.tree
  added := by
    rw [← leads.place_log]
    exact extended.added _ List.mem_cons_self
  others other different := extended.others other (by simpa [leads.place_log] using different)
  kept _ := extended.kept
  new other found := by
    refine ((extended.folders other).mp found).elim .inl ?_
    rintro ⟨path, member, inside⟩
    rw [List.mem_singleton.mp member, leads.through_log] at inside
    exact (List.mem_append.mp inside).imp (leads.way other) List.mem_singleton.mp

theorem appended_emit (works : Works home s) (leads : Leads project home s) {e : Event}
    (recordable : e.IsRecordable) :
    Appended home s (emit .standard (some ⟨project, .standard⟩) s e none)
      (lines [e.truncated]) := by
  have went := works.appends leads (lines [e.truncated])
  rcases appends : Appender.standard s (Sink.log ⟨project, .standard⟩) (lines [e.truncated])
    with ⟨after, failure⟩
  rw [appends] at went
  obtain rfl : failure = none := went
  have wrote : Sink.write .standard ⟨project, .standard⟩ s e.truncated none = (after, none) := by
    rw [lines, List.flatMap_singleton] at appends
    simp only [Sink.write, Event.printed_of_isPrintable recordable.printable, Sink.targets,
      Sink.appendAll, appends]
    rfl
  rw [emit_of_fits .standard recordable.fits, wrote]
  exact appended_of_extended leads
    (extended_of_standard works.tree (isNamed_child _ (by decide)) appends)

end

end Reckon.Log

namespace Reckon.Session

open Log (Appended Event Leads Works lines)
open Store (Path Place)

variable [Limits] {host : Host} {s : Session} {project : Path} {home : Place}

/-- Events that can be recorded reach a log that works, one after the other. -/
theorem appended_emitAll (appends : host.append = .standard)
    (sink : s.sink = some ⟨project, .standard⟩) (works : Works home s.store)
    (leads : Leads project home s.store) {events : List Event}
    (recordable : ∀ e ∈ events, e.IsRecordable) :
    ∃ after, events.foldl (fun s e => s.emit host e none) s = { s with store := after } ∧
      Appended home s.store after (lines (events.map (·.truncated))) := by
  induction events generalizing s with
  | nil => exact ⟨s.store, rfl, .refl works.tree⟩
  | cons e events ih =>
    obtain ⟨first, others⟩ := List.forall_mem_cons.mp recordable
    have one : Appended home s.store (s.emit host e none).store (lines [e.truncated]) := by
      rw [emit, appends, sink]
      exact Log.appended_emit works leads first
    obtain ⟨after, recorded, rest⟩ := ih (s := s.emit host e none) sink (works.of_appended one)
      (leads.of_appended one) others
    refine ⟨after, recorded, ?_⟩
    rw [List.map_cons, ← List.singleton_append, Log.lines_append]
    exact one.trans rest

end Reckon.Session

namespace Reckon.Command

open Formula (Arithmetic Error IsCause Outcome)
open Log (Appended Event Leads Sink Works lines logFolder logPlace truncateText)
open Project (Settings)
open Store (Path Place)
open Text (Bytes)

/-! ### What events tell -/

structure IsResult (formula : String) (o : Outcome) (e : Event) : Prop where
  topic : e.topic = .evalCompleted
  level : e.level = .info
  code : e.code = none
  subject : e.context.lookup "formula" = some (.text (truncateText formula))
  names : e.context.lookup "variables" = some (.list ((o.names.map truncateText).map .text))
  result : e.context.lookup "result" = some (.float o.result)

structure IsFailure (formula : String) (cause : Error) (e : Event) : Prop where
  topic : e.topic = .evalFailed
  level : e.level = .error
  code : e.code = some
    (if cause.isSyntactic then "formula_syntax_error" else "formula_eval_error")
  subject : e.context.lookup "formula" = some (.text (truncateText formula))
  reason : e.context.lookup "cause" = some (.text cause.label)
  message : e.message = (Error.evaluation cause).message

structure IsWarning (formula : String) (e : Event) : Prop where
  topic : e.topic = .formulaInvalid
  level : e.level = .warning
  code : e.code = some "formula_syntax_error"
  subject : e.context.lookup "formula" = some (.text (truncateText formula))
  message : (Formula.faults formula).head?.map (·.message) = some e.message

structure IsTally (total invalid : Nat) (e : Event) : Prop where
  topic : e.topic = .validateCompleted
  level : e.level = .info
  code : e.code = none
  total : e.context.lookup "total" = some (.int total)
  invalid : e.context.lookup "invalid" = some (.int invalid)

theorem isResult_completedEvent (now formula : String) (o : Outcome) :
    IsResult formula o (completedEvent now formula o).truncated := by
  refine ⟨rfl, rfl, rfl, rfl, ?_, rfl⟩
  rw [← Log.truncateItems_texts]
  rfl

theorem length_label_le (cause : Error) : cause.label.length ≤ Log.keptLength := by
  cases cause with
  | general stage message => cases stage <;> dsimp only [Error.label] <;> decide
  | lexical e =>
    obtain ⟨flaw, text, start⟩ := e
    cases flaw <;> dsimp only [Error.label, Formula.Flaw.label] <;> decide
  | _ => dsimp only [Error.label]; decide

theorem truncateText_label (cause : Error) : truncateText cause.label = cause.label :=
  if_neg (Nat.not_lt.mpr (length_label_le cause))

theorem isFailure_failedEvent [Limits] (now formula : String) (cause : Error) :
    IsFailure formula cause
      (failedEvent now formula (.evaluation cause) cause).truncated := by
  refine ⟨rfl, rfl, ?_, rfl, ?_, rfl⟩
  · simp only [Event.truncated, failedEvent]
    split <;> rfl
  · rw [← truncateText_label]
    rfl

theorem forall₂_warnings (now : String) (formulas : List String) :
    List.Forall₂ IsWarning (formulas.filter (!Formula.isValid ·))
      (((formulas.map Verdict.of).filterMap (·.event? now)).map (·.truncated)) := by
  induction formulas with
  | nil => exact .nil
  | cons formula formulas ih =>
    cases faults : Formula.faults formula with
    | nil =>
      have silent : (Verdict.of formula).event? now = none := by
        simp [Verdict.of, faults, Verdict.event?]
      have valid : Formula.isValid formula = true := by simp [Formula.isValid, faults]
      rw [List.filter_cons_of_neg (by simp [valid]), List.map_cons, List.filterMap_cons_none silent]
      exact ih
    | cons first others =>
      have warns : (Verdict.of formula).event? now = some
          { time := now, level := .warning, topic := .formulaInvalid, message := first.message,
            context := [("formula", .text formula),
              ("errors", .list ((Verdict.of formula).faults.map .text))],
            code := Log.Code.formulaSyntax.label } := by
        simp [Verdict.of, faults, Verdict.event?]
      have invalid : Formula.isValid formula = false := by simp [Formula.isValid, faults]
      rw [List.filter_cons_of_pos (by simp [invalid]), List.map_cons,
        List.filterMap_cons_some warns, List.map_cons]
      exact .cons ⟨rfl, rfl, rfl, rfl, by rw [faults]; rfl⟩ ih

theorem isTally_validatedEvent (now : String) (total invalid : Nat) :
    IsTally total invalid (validatedEvent now total invalid).truncated :=
  ⟨rfl, rfl, rfl, rfl, rfl⟩

theorem length_invalid (formulas : List String) :
    ((formulas.map Verdict.of).filter (!·.isValid)).length =
      (formulas.filter (!Formula.isValid ·)).length := by
  rw [List.filter_map, List.length_map]
  congr 2
  funext formula
  simp [Verdict.of, Verdict.isValid, Formula.isValid]

/-! ### Answers and events -/

def resultLine (o : Outcome) (json : Bool) : String :=
  if json then
    Json.compact (.record [("result", .float o.result), ("variables", .list (o.names.map .text))])
  else Project.fullText o.result

/-- What is answered to a request, and the events that tell it in the log. An evaluation ends with
status 0 and the result that the log tells, or with status 1 and the failure that it tells; without
either, it was refused before it began. Checking formulas ends with status 1 just if one of them is
not well-formed, and the log tells which. Help ends with status 0, and the log tells nothing. -/
inductive Tells [Limits] (a : Arithmetic) : Request → Report → List Event → Prop where
  | evaluated {project formula : String} {values : List Float} {items : List String} {json : Bool}
      {o : Outcome} {e : Event} (apart : values = [] ∨ items = [])
      (computed : outcome a.operations formula values items = .ok (.ok o))
      (finite : o.result.isFinite = true) (told : IsResult formula o e) :
      Tells a (.evaluate project formula values items json) (.lines [resultLine o json]) [e]
  | failed {project formula : String} {values : List Float} {items : List String} {json : Bool}
      {cause : Error} {e : Event} (apart : values = [] ∨ items = [])
      (computed : outcome a.operations formula values items = .ok (.error (.evaluation cause)))
      (syntactic : cause.isSyntactic = true ↔ Formula.compile formula = .error cause)
      (told : IsFailure formula cause e) :
      Tells a (.evaluate project formula values items json)
        (.failure (Error.evaluation cause).message) [e]
  | mixed {project formula : String} {values : List Float} {items : List String} {json : Bool}
      (values_given : values ≠ []) (items_given : items ≠ []) (message : String) :
      Tells a (.evaluate project formula values items json) (.failure message) []
  | unbound {project formula : String} {values : List Float} {items : List String} {json : Bool}
      {message : String} (items_given : items ≠ []) (refused : bindings items = .error message) :
      Tells a (.evaluate project formula values items json) (.failure message) []
  | validated {project : String} {formulas : List String} {explain json : Bool}
      {warnings : List Event} {last : Event} {invalid : Nat}
      (count : invalid = (formulas.filter (!Formula.isValid ·)).length)
      (warned : List.Forall₂ IsWarning (formulas.filter (!Formula.isValid ·)) warnings)
      (closes : IsTally formulas.length invalid last) (text : String) :
      Tells a (.validate project formulas explain json)
        (.done (if invalid = 0 then 0 else 1) text "") (warnings ++ [last])
  | help (command : Option String) (text : String) :
      Tells a (.help command) (.done 0 text "") []

/-! ### Evaluating -/

/-- What each step of a fold keeps, the fold keeps. -/
theorem kept_of_foldlM {ε α β : Type} {P : β → Prop} {f : β → α → Except ε β}
    (step : ∀ before item after, P before → f before item = .ok after → P after) {items : List α}
    {before after : β} (holds : P before) (folds : items.foldlM f before = .ok after) :
    P after := by
  induction items generalizing before with
  | nil =>
    cases folds
    exact holds
  | cons item items ih =>
    obtain ⟨next, first, rest⟩ := Formula.bind_eq_ok_iff.mp folds
    exact ih (step before item next holds first) rest

theorem areFloats_bindings {items : List String} {bound : Fields}
    (binds : bindings items = .ok bound) : Formula.AreFloats bound := by
  refine kept_of_foldlM (P := Formula.AreFloats) ?_ (by simp [Formula.AreFloats]) binds
  intro before item after floats step
  split at step
  case h_1 => cases step
  case h_2 name numeral _ =>
    dsimp only at step
    split at step
    case h_1 x _ =>
      cases step
      have new : ∀ field ∈ [(String.ofList (Text.trim Text.isBlank name.toList), Value.float x)],
          ∃ y, field.2 = .float y := by
        simp
      exact Log.forall_mem_setAll (P := fun value => ∃ y, value = .float y) floats new
    case h_2 => cases step

variable {a : Arithmetic} {formula : String} {values : List Float} {items : List String}

theorem isFinite_of_outcome [Limits] (sound : a.Sound) {o : Outcome}
    (computed : outcome a.operations formula values items = .ok (.ok o)) :
    o.result.isFinite = true := by
  unfold outcome at computed
  split at computed
  case isTrue => exact Formula.isFinite_of_evaluate sound (Except.ok.inj computed)
  case isFalse =>
    obtain ⟨bound, -, named⟩ := Formula.map_eq_ok_iff.mp computed
    obtain ⟨x, evaluated, rfl⟩ := Formula.map_eq_ok_iff.mp named
    exact Formula.isFinite_of_evaluateNamed sound evaluated

theorem exists_cause_of_outcome [Limits] {e : Error}
    (failed : outcome a.operations formula values items = .ok (.error e)) :
    ∃ cause, e = .evaluation cause ∧ IsCause formula cause := by
  unfold outcome at failed
  split at failed
  case isTrue => exact Formula.exists_cause_of_evaluate (Except.ok.inj failed)
  case isFalse =>
    obtain ⟨bound, binds, named⟩ := Formula.map_eq_ok_iff.mp failed
    exact Formula.exists_cause_of_evaluateNamed (areFloats_bindings binds)
      (Formula.map_eq_error_iff.mp named)

theorem bindings_of_outcome [Limits] {ops : Formula.Operations} {message : String}
    (refused : outcome ops formula values items = .error message) :
    items ≠ [] ∧ bindings items = .error message := by
  unfold outcome at refused
  split at refused
  case isTrue => cases refused
  case isFalse given =>
    refine ⟨by simpa using given, ?_⟩
    cases binds : bindings items with
    | error e =>
      rw [binds] at refused
      exact congrArg Except.error (Except.error.inj refused)
    | ok bound =>
      rw [binds] at refused
      cases refused

/-! ### Projects -/

/-- The project has the usual settings, be it without a file, and its log can be written. -/
structure Ready [Formats] (home : Place) (s : Store) : Prop extends Works home s where
  usual : ∀ bytes, s.bytes? (home ++ [Settings.fileName]) = some bytes →
    Settings.ofBytes bytes = .ok .defaults
  plain : s.isFolder (home ++ [Settings.fileName]) = false

namespace Ready

variable [Formats] {home : Place}

/-- Events that were added to the log have not changed the settings. -/
theorem of_appended {s after : Store} {bytes : Bytes} (ready : Ready home s)
    (appended : Appended home s after bytes) : Ready home after where
  toWorks := ready.toWorks.of_appended appended
  usual content found := by
    have apart : home ++ [Settings.fileName] ≠ logPlace home none := by
      simp [logPlace]
    rw [Store.bytes?, appended.others _ apart] at found
    exact ready.usual content found
  plain := by
    rw [Bool.eq_false_iff]
    intro found
    rcases appended.new _ found with old | same
    · exact Bool.false_ne_true (ready.plain.symm.trans old)
    · simp [logFolder, Settings.fileName] at same

variable [Limits]

omit [Formats] in
/-- The name of the settings file is no longer than that of the log behind its folder. -/
theorem fits_settings {s : Store} {project : Path} (leads : Leads project home s) :
    (project.child Settings.fileName).fits = true := by
  have long := leads.short
  rw [Sink.fits_none, Sink.log, Path.fits_child_iff] at long
  obtain ⟨short, -, folder⟩ := long
  have name : Settings.fileName.utf8ByteSize = 15 := by decide +kernel
  have longer : "logs".utf8ByteSize + "events.ndjson".utf8ByteSize = 17 := by decide +kernel
  refine Path.fits_child_iff.mpr ⟨le_trans ?_ short, name ▸ Limits.name_ge, Path.fits_of_child folder⟩
  simp only [Path.size, Path.child, Sink.folder, Path.span_append, Path.span, name]
  omega

theorem load_eq {s : Store} (ready : Ready home s) {project : Path} (leads : Leads project home s) :
    Settings.load s project = .ok .defaults := by
  have place : (project.child Settings.fileName).place = home ++ [Settings.fileName] := by
    rw [Path.place_child project (by decide), leads.place]
  have way : ∀ place ∈ (project.child Settings.fileName).through, s.isFolder place = true := by
    rw [Path.through_child]
    exact leads.way
  have fits := fits_settings leads
  have free : s.obstacle? (project.child Settings.fileName) = none :=
    Store.obstacle?_eq_none_iff.mpr ⟨fits, way⟩
  have folders := List.all_eq_true.mpr way
  rw [Settings.load]
  simp only [Store.exists?_of_fits fits, folders, Bool.true_and, Store.has, place, ready.plain,
    Bool.or_false]
  cases stored : s.file? (home ++ [Settings.fileName]) with
  | none =>
    have absent : s.isFile (home ++ [Settings.fileName]) = false := by rw [Store.isFile, stored]; rfl
    rw [absent]
    rfl
  | some file =>
    have there : s.isFile (home ++ [Settings.fileName]) = true := by rw [Store.isFile, stored]; rfl
    have opened : Log.IsOpen s (project.child Settings.fileName) :=
      ⟨Store.refusal?_eq_none_iff.mpr ⟨free, place ▸ ready.plain⟩, place ▸ there⟩
    have read := Sink.read_of_isOpen opened (place.symm ▸ stored)
    rw [there]
    simp only [read]
    exact ready.usual file.content (by rw [Store.bytes?, stored]; rfl)

variable {s : Session}

theorem setProject_eq (ready : Ready home s.store) {project : Path}
    (leads : Leads project home s.store) :
    s.setProject project = ({ s with sink := some ⟨project, .standard⟩ }, .ok .defaults) := by
  simp only [Session.setProject, ready.load_eq leads]
  rfl

end Ready

/-! ### Calls -/

theorem outcomeReport_defaults (o : Outcome) (json : Bool) :
    outcomeReport .defaults o json = .lines [resultLine o json] := by
  cases json <;> rfl

section

variable [Limits]

theorem isRecordable_completedEvent (now formula : String) (o : Outcome) :
    (completedEvent now formula o).IsRecordable := by
  refine Log.isRecordable_of_isPlain rfl ?_
  simp only [completedEvent, List.forall_mem_cons]
  exact ⟨.text _, .texts _, .float _, by simp⟩

theorem isRecordable_failedEvent (now formula : String) (e cause : Error) :
    (failedEvent now formula e cause).IsRecordable := by
  refine Log.isRecordable_of_isPlain rfl ?_
  simp only [failedEvent, List.forall_mem_cons]
  exact ⟨.text _, .text _, by simp⟩

theorem isRecordable_event {now : String} {v : Verdict} {e : Event} (warns : v.event? now = some e) :
    e.IsRecordable := by
  obtain ⟨first, -, rfl⟩ := Option.map_eq_some_iff.mp warns
  refine Log.isRecordable_of_isPlain rfl ?_
  simp only [List.forall_mem_cons]
  exact ⟨.text _, .texts _, by simp⟩

theorem isRecordable_validatedEvent (now : String) {total invalid : Nat}
    (short : total < Value.tooLong) (part : invalid ≤ total) :
    (validatedEvent now total invalid).IsRecordable := by
  refine Log.isRecordable_of_isPlain rfl ?_
  simp only [validatedEvent, List.forall_mem_cons]
  have number {n : Nat} (small : n < Value.tooLong) : Log.IsPlain (.int n) := by
    refine .int ?_
    rwa [Int.natAbs_natCast]
  exact ⟨number short, number (part.trans_lt short), by simp⟩

end

variable {host : Host} {s : Session} {home : Place}

section

variable [Limits] [Formats] (computes : host.operations = a.operations) (sound : a.Sound)
  (appends : host.append = .standard) (ready : Ready home s.store)
include computes sound appends ready

theorem tells_evaluate {project : String} (leads : Leads (.ofText project) home s.store)
    (formula : String) (values : List Float) (items : List String) (json : Bool) :
    let ended := runEvaluate host s project formula values items json
    ∃ events, Tells a (.evaluate project formula values items json) ended.2 events ∧
      Appended home s.store ended.1.store (lines events) := by
  simp only [runEvaluate]
  split
  case isTrue given =>
    rw [Bool.and_eq_true] at given
    exact ⟨[], .mixed (by simpa using given.1) (by simpa using given.2) _, .refl ready.tree⟩
  case isFalse apart =>
    have apart : values = [] ∨ items = [] := by
      simpa [Classical.or_iff_not_imp_left] using apart
    simp only [ready.setProject_eq leads, computes]
    split
    case h_1 message refused =>
      obtain ⟨given, unbound⟩ := bindings_of_outcome refused
      exact ⟨[], .unbound given unbound, .refl ready.tree⟩
    case h_2 result computed =>
      have recorded {e : Event} (recordable : e.IsRecordable) :
          Appended home s.store
            ({ s with sink := some ⟨.ofText project, .standard⟩ }.emit host e none).store
            (lines [e.truncated]) := by
        rw [Session.emit, appends]
        exact Log.appended_emit ready.toWorks leads recordable
      cases result with
      | ok o =>
        rw [conclude, outcomeReport_defaults]
        exact ⟨_, .evaluated apart computed (isFinite_of_outcome sound computed)
          (isResult_completedEvent host.now formula o),
          recorded (isRecordable_completedEvent host.now formula o)⟩
      | error e =>
        obtain ⟨cause, rfl, isCause⟩ := exists_cause_of_outcome computed
        exact ⟨_, .failed apart computed isCause.syntactic
          (isFailure_failedEvent host.now formula cause),
          recorded (isRecordable_failedEvent host.now formula (.evaluation cause) cause)⟩

omit computes sound in
theorem tells_validate {project : String} (leads : Leads (.ofText project) home s.store)
    {formulas : List String} (short : formulas.length < Value.tooLong) (explain json : Bool) :
    let ended := runValidate host s project formulas explain json
    ∃ events, Tells a (.validate project formulas explain json) ended.2 events ∧
      Appended home s.store ended.1.store (lines events) := by
  simp only [runValidate, ready.setProject_eq leads]
  have part : (formulas.filter (!Formula.isValid ·)).length ≤ formulas.length :=
    List.length_filter_le _ _
  have recordable : ∀ e ∈ (formulas.map Verdict.of).filterMap (·.event? host.now) ++
      [validatedEvent host.now (formulas.map Verdict.of).length
        ((formulas.map Verdict.of).filter (!·.isValid)).length],
      e.IsRecordable := by
    intro e member
    rcases List.mem_append.mp member with warning | last
    · obtain ⟨v, -, warns⟩ := List.mem_filterMap.mp warning
      exact isRecordable_event warns
    · rw [List.mem_singleton.mp last, length_invalid, List.length_map]
      exact isRecordable_validatedEvent host.now short part
  obtain ⟨after, recorded, appended⟩ := Session.appended_emitAll
    (s := { s with sink := some ⟨.ofText project, .standard⟩ }) appends rfl ready.toWorks leads
    recordable
  rw [recorded]
  refine ⟨_, ?_, appended⟩
  rw [List.map_append, length_invalid, List.length_map]
  exact .validated rfl (forall₂_warnings host.now formulas) (isTally_validatedEvent _ _ _) _

/-- The request evaluates a formula of the project, or checks formulas: no more of them than an
event can count, and through a path that leaves room for that of the log. Or it asks for help. -/
inductive IsInquiry (home : Place) : Request → Prop where
  | evaluate {project formula : String} {values : List Float} {items : List String} {json : Bool}
      (here : (Path.ofText project).place = home)
      (fits : Sink.fits ⟨.ofText project, .standard⟩ none = true) :
      IsInquiry home (.evaluate project formula values items json)
  | validate {project : String} {formulas : List String} {explain json : Bool}
      (here : (Path.ofText project).place = home)
      (fits : Sink.fits ⟨.ofText project, .standard⟩ none = true)
      (short : formulas.length < Value.tooLong) :
      IsInquiry home (.validate project formulas explain json)
  | help (command : Option String) : IsInquiry home (.help command)

def Inquires (home : Place) (words : List String) : Prop :=
  ∀ request, Request.ofWords? words = some request → IsInquiry home request

def IsRequest (s : Store) (words : List String) (request : Request) : Prop :=
  Request.ofWords? words = some request ∧ request.needed.all (isThere s) = true

omit computes sound appends in
theorem leads_of_isThere {project : String} (here : (Path.ofText project).place = home)
    (fits : Sink.fits ⟨.ofText project, .standard⟩ none = true)
    (there : isThere s.store project = true) : Leads (.ofText project) home s.store := by
  obtain ⟨free, has⟩ := Store.exists?_eq_true_iff.mp (exists?_of_isThere there)
  have way := (Store.obstacle?_eq_none_iff.mp free).2
  have clear : s.store.isFile home = false :=
    ready.clear home (List.prefix_append _ _)
  rw [here, Store.has, clear, Bool.false_or] at has
  refine ⟨here, List.forall_mem_append.mpr ⟨way, ?_⟩, fits⟩
  rw [List.forall_mem_singleton, here]
  exact has

/-- A call leaves in the log the events that tell its answer, and nothing if it is a usage error. -/
theorem tells_call {words : List String} (inquires : Inquires home words) :
    let ended := run host s words
    ∃ events, Appended home s.store ended.1.store (lines events) ∧
      ((ended.2 = .usage ∧ events = [] ∧ ∀ request, ¬ IsRequest s.store words request) ∨
        ∃ request, IsRequest s.store words request ∧ Tells a request ended.2 events) := by
  simp only [run]
  split
  case h_1 nothing =>
    refine ⟨[], .refl ready.tree, .inl ⟨rfl, rfl, fun request asked => ?_⟩⟩
    cases nothing.symm.trans asked.1
  case h_2 request read =>
    split
    case isFalse missing =>
      refine ⟨[], .refl ready.tree, .inl ⟨rfl, rfl, fun request' asked => missing ?_⟩⟩
      obtain rfl := Option.some.inj (read.symm.trans asked.1)
      exact asked.2
    case isTrue there =>
      cases inquires request read with
      | @evaluate project formula values items json here fits =>
        have leads := leads_of_isThere ready here fits (by simpa [Request.needed] using there)
        obtain ⟨events, tells, appended⟩ :=
          tells_evaluate computes sound appends ready leads formula values items json
        exact ⟨events, appended, .inr ⟨_, ⟨read, there⟩, tells⟩⟩
      | @validate project formulas explain json here fits short =>
        have leads := leads_of_isThere ready here fits (by simpa [Request.needed] using there)
        obtain ⟨events, tells, appended⟩ :=
          tells_validate appends ready leads short explain json
        exact ⟨events, appended, .inr ⟨_, ⟨read, there⟩, tells⟩⟩
      | help command =>
        exact ⟨[], .refl ready.tree, .inr ⟨_, ⟨read, there⟩, .help command _⟩⟩

end

section

variable [Limits] [Formats]

def afterCalls (host : Host) (s : Session) (calls : List (List String)) : Session :=
  calls.foldl (fun s words => (run host s words).1) s

/-- A project stays ready through any inquiries. -/
theorem ready_afterCalls (computes : host.operations = a.operations) (sound : a.Sound)
    (appends : host.append = .standard) (ready : Ready home s.store) {calls : List (List String)}
    (inquire : ∀ words ∈ calls, Inquires home words) :
    Ready home (afterCalls host s calls).store := by
  induction calls generalizing s with
  | nil => exact ready
  | cons words calls ih =>
    obtain ⟨first, others⟩ := List.forall_mem_cons.mp inquire
    obtain ⟨events, appended, -⟩ := tells_call computes sound appends ready first
    exact ih (s := (run host s words).1) (ready.of_appended appended) others

end

theorem ready_empty [Formats] (home : Place) : Ready home {} where
  tree := Store.isTree_of_flat rfl (by simp)
  clear _ _ := rfl
  free := by simp [Store.isFolder, logPlace, List.append_eq_singleton_iff]
  usual bytes found := by cases found
  plain := by simp [Store.isFolder, Settings.fileName, List.append_eq_singleton_iff]

section

attribute [local instance] Limits.standard Formats.standard

def clockedHost : Host where
  append := .standard
  now := "2024-01-01T00:00:00.000000Z"
  batchName _ := "b-1"
  help _ := ""

def Request.formula? : Request → Option String
  | .evaluate project formula values items _ =>
    if project = "." ∧ values.isEmpty ∧ items.isEmpty then some formula else none
  | _ => none

theorem exists_evaluate {words : List String} {formula : String}
    (asked : (Request.ofWords? words).bind Request.formula? = some formula) :
    ∃ json, Request.ofWords? words = some (.evaluate "." formula [] [] json) := by
  obtain ⟨request, read, own⟩ := Option.bind_eq_some_iff.mp asked
  cases request with
  | evaluate project given values items json =>
    simp only [Request.formula?, Option.ite_none_right_eq_some, List.isEmpty_iff] at own
    obtain ⟨⟨rfl, rfl, rfl⟩, same⟩ := own
    exact ⟨json, Option.some.inj same ▸ read⟩
  | _ => cases own

def isDivisionByZero : Except Error Outcome → Bool
  | .error (.evaluation .divisionByZero) => true
  | _ => false

end

end Reckon.Command
