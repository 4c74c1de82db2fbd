import Mathlib
import Reckon.Proofs.Chronicle
import Reckon.Proofs.Limits

/-!
Settings that are accepted and cannot be used. The checks of a project's settings let pass a
precision that is a truth value or too great, and any value as the number of bytes of a log that are
read. What follows from these values is told here for each use, and it is all that can keep a
project with accepted settings from answering.
-/

namespace Reckon.Project

/-! ### Places -/

/-- An accepted precision with which no result can be shown. -/
inductive IsUnshowable : Value → Prop where
  | flag (b : Bool) : IsUnshowable (.bool b)
  | far {n : Int} (great : 2 ^ 31 ≤ n) : IsUnshowable (.int n)

theorem exists_display_count_iff {n : Int} (positive : 0 ≤ n) (x : Float) :
    (∃ text, display (.count n) x = .ok text) ↔ n < 2 ^ 31 := by
  have longest : ((Nat.pow 2 63 : Nat) : Int) = 9223372036854775808 := by decide
  have greatest : ((Nat.pow 2 31 : Nat) : Int) = 2147483648 := by decide
  rw [display, if_neg (by omega), longest, greatest]
  split
  case isTrue far => exact iff_of_false (by rintro ⟨text, ⟨⟩⟩) (by omega)
  case isFalse =>
    split
    case isTrue far => exact iff_of_false (by rintro ⟨text, ⟨⟩⟩) (by omega)
    case isFalse near => exact iff_of_true ⟨_, rfl⟩ (by omega)

namespace Settings

variable {settings : Settings}

theorem isPrecision_of_check {s : Settings} (checks : check s = .ok settings) :
    isPrecision (settings.get "precision") = true := by
  unfold check at checks
  split at checks
  case isTrue => cases checks
  case isFalse =>
    split at checks
    case isTrue => cases checks
    case isFalse accepted =>
      cases checks
      simpa using accepted

theorem isPrecision_of_ofValue {value : Value} (reads : ofValue value = .ok settings) :
    isPrecision (settings.get "precision") = true := by
  unfold ofValue at reads
  split at reads
  case isTrue => exact isPrecision_of_check reads
  case isFalse =>
    split at reads
    case h_1 => exact isPrecision_of_check reads
    case h_2 => cases reads

theorem isPrecision_of_load [Limits] [Formats] {s : Store} {folder : Store.Path}
    (loads : load s folder = .ok settings) : isPrecision (settings.get "precision") = true := by
  unfold load at loads
  dsimp only at loads
  split at loads
  case h_1 => cases loads
  case h_2 => exact isPrecision_of_ofValue loads
  case h_3 =>
    obtain ⟨bytes, -, reads⟩ := Formula.bind_eq_ok_iff.mp loads
    obtain ⟨text, -, parsed⟩ := Formula.bind_eq_ok_iff.mp reads
    obtain ⟨value, -, checked⟩ := Formula.bind_eq_ok_iff.mp parsed
    exact isPrecision_of_ofValue checked

/-- The file of the settings has been looked for, so its path is not too long. -/
theorem size_le_of_load [Limits] [Formats] {s : Store} {folder : Store.Path}
    (loads : load s folder = .ok settings) : (folder.child fileName).size ≤ Limits.path := by
  by_contra long
  have seen : s.exists? (folder.child fileName) = .error (.tooLong (folder.child fileName).text) := by
    rw [Store.exists?, Store.obstacle?, if_pos (Nat.not_le.mp long)]
  simp only [load, seen] at loads
  cases loads

/-- A result can be shown with accepted settings, unless the precision is one with which none
can. -/
theorem exists_display_iff (accepted : isPrecision (settings.get "precision") = true) (x : Float) :
    (∃ text, display settings.places x = .ok text) ↔ ¬ IsUnshowable (settings.get "precision") := by
  unfold places
  cases precision : settings.get "precision" with
  | bool b => exact iff_of_false (by rintro ⟨text, ⟨⟩⟩) (not_not_intro (.flag b))
  | int n =>
    rw [precision] at accepted
    have positive : 0 ≤ n := by simpa [isPrecision] using accepted
    rw [exists_display_count_iff positive, ← not_le, not_iff_not]
    exact ⟨.far, fun unshowable => by cases unshowable; assumption⟩
  | _ => exact iff_of_true ⟨_, rfl⟩ (by rintro ⟨⟩)

end Settings

end Reckon.Project

namespace Reckon.Log

open Store (Path Place)
open Text (Bytes)

/-! ### Numbers of bytes -/

inductive IsCount : Value → Prop where
  | null : IsCount .null
  | bool (b : Bool) : IsCount (.bool b)
  | int (n : Int) : IsCount (.int n)
  | float {x : Float} (finite : x.isFinite = true) : IsCount (.float x)
  | text {s : String} {n : Int} (numeral : Decimal.int s = .ok n) : IsCount (.text s)
  | other {o : Foreign} {s : String} {n : Int} (spelled : o.numeral = some s)
      (numeral : Decimal.int s = .ok n) : IsCount (.other o)

/-- A setting that gives no number of bytes, for which the sink has no message. -/
inductive IsNoCount : Value → Prop where
  | list (items : List Value) : IsNoCount (.list items)
  | record (fields : Fields) : IsNoCount (.record fields)
  | infinite {x : Float} (infinite : x.isFinite = false) (number : x.isNaN = false) :
      IsNoCount (.float x)
  | other {o : Foreign} (wordless : o.numeral = none) : IsNoCount (.other o)

inductive Misfits [Limits] (size : Nat) : Value → Prop where
  | text {s : String} (given : s ≠ "") : Misfits size (.text s)
  | list {items : List Value} (given : items ≠ []) : Misfits size (.list items)
  | record {fields : Fields} (given : fields ≠ []) : Misfits size (.record fields)
  | float {x : Float} (given : (x == 0) = false) (short : ¬ Float.ofNat size ≤ x) :
      Misfits size (.float x)
  | int {n : Int} (below : n < 0) (far : (Limits.place : Int) ≤ size - n) : Misfits size (.int n)
  | other {o : Foreign} (given : o.isEmpty = false) : Misfits size (.other o)

namespace Window

theorem truncated?_of_isFinite {x : Float} (finite : x.isFinite = true) :
    ∃ n, Decimal.truncated? x = some n := by
  rw [Decimal.truncated?, if_pos finite]
  exact ⟨_, rfl⟩

theorem truncated?_of_not_isFinite {x : Float} (infinite : x.isFinite = false) :
    Decimal.truncated? x = none := by
  rw [Decimal.truncated?, if_neg (by simp [infinite])]

/-- A numeral gives a number of bytes, or there is an error that has a message. -/
theorem ofNumeral_cases (shown numeral : String) :
    (∃ n, Decimal.int numeral = .ok n ∧ ofNumeral shown numeral = .ok (ofCount n)) ∨
      (∀ n, Decimal.int numeral ≠ .ok n) ∧
        ∃ e, ofNumeral shown numeral = .error e ∧ e.isReported = true := by
  unfold ofNumeral
  cases Decimal.int numeral with
  | ok n => exact .inl ⟨n, rfl, rfl⟩
  | error e =>
    refine .inr ⟨by simp, ?_⟩
    cases e with
    | malformed => exact ⟨_, rfl, rfl⟩
    | tooLong digits => exact ⟨_, rfl, rfl⟩

/-- What becomes of a setting: it gives a number of bytes, or there is an error, which has no
message just if the setting is no number of bytes at all. -/
theorem ofSetting_cases (value : Value) :
    (IsCount value ∧ ¬ IsNoCount value ∧ ∃ window, ofSetting value = .ok window) ∨
      ¬ IsCount value ∧
        ∃ e, ofSetting value = .error e ∧ (e.isReported = false ↔ IsNoCount value) := by
  cases value with
  | null => exact .inl ⟨.null, by rintro ⟨⟩, _, rfl⟩
  | bool b => exact .inl ⟨.bool b, by rintro ⟨⟩, _, rfl⟩
  | int n => exact .inl ⟨.int n, by rintro ⟨⟩, _, rfl⟩
  | float x =>
    cases finite : x.isFinite with
    | true =>
      obtain ⟨n, whole⟩ := truncated?_of_isFinite finite
      refine .inl ⟨.float finite, ?_, ofCount n, by simp only [ofSetting, whole]⟩
      intro noCount
      cases noCount with
      | infinite infinite => exact Bool.false_ne_true (infinite.symm.trans finite)
    | false =>
      have fails : ofSetting (.float x) = .error (if x.isNaN then .nan else .infinite) := by
        simp only [ofSetting, truncated?_of_not_isFinite finite]
      refine .inr ⟨?_, _, fails, ?_⟩
      · intro count
        cases count with
        | float finite' => exact Bool.false_ne_true (finite.symm.trans finite')
      · cases number : x.isNaN with
        | true =>
          refine iff_of_false (by simp [Error.isReported]) ?_
          intro noCount
          cases noCount with
          | infinite _ number' => exact Bool.false_ne_true (number'.symm.trans number)
        | false => exact iff_of_true rfl (.infinite finite number)
  | text s =>
    rcases ofNumeral_cases (Text.quoted s) s with ⟨n, numeral, counts⟩ | ⟨noNumber, e, fails, told⟩
    · exact .inl ⟨.text numeral, by rintro ⟨⟩, ofCount n, counts⟩
    · refine .inr ⟨?_, e, fails, iff_of_false (by simp [told]) (by rintro ⟨⟩)⟩
      rintro ⟨⟩
      exact noNumber _ ‹_›
  | other o =>
    cases spelled : o.numeral with
    | none =>
      have fails : ofSetting (.other o) = .error (.kind (.other o)) := by
        simp only [ofSetting, spelled]
      refine .inr ⟨?_, _, fails, iff_of_true rfl (.other spelled)⟩
      intro count
      cases count with
      | other spelled' => cases spelled.symm.trans spelled'
    | some s =>
      have same : ofSetting (.other o) = ofNumeral o.shown s := by simp only [ofSetting, spelled]
      have wordy : ¬ IsNoCount (.other o) := by
        intro noCount
        cases noCount with
        | other wordless => cases spelled.symm.trans wordless
      rcases ofNumeral_cases o.shown s with ⟨n, numeral, counts⟩ | ⟨noNumber, e, fails, told⟩
      · exact .inl ⟨.other spelled numeral, wordy, ofCount n, same.trans counts⟩
      · refine .inr ⟨?_, e, same.trans fails, iff_of_false (by simp [told]) wordy⟩
        intro count
        cases count with
        | other spelled' numeral =>
          obtain rfl := Option.some.inj (spelled.symm.trans spelled')
          exact noNumber _ numeral
  | list items => exact .inr ⟨by rintro ⟨⟩, _, rfl, iff_of_true rfl (.list items)⟩
  | record fields => exact .inr ⟨by rintro ⟨⟩, _, rfl, iff_of_true rfl (.record fields)⟩

theorem exists_ofSetting_iff {value : Value} :
    (∃ window, ofSetting value = .ok window) ↔ IsCount value := by
  rcases ofSetting_cases value with ⟨count, -, counts⟩ | ⟨noCount, e, fails, -⟩
  · exact iff_of_true counts count
  · refine iff_of_false ?_ noCount
    rintro ⟨window, counts⟩
    cases fails.symm.trans counts

/-- A sink fails without a message for the settings that are no number of bytes at all. -/
theorem exists_unreported_iff {value : Value} :
    (∃ e, ofSetting value = .error e ∧ e.isReported = false) ↔ IsNoCount value := by
  rcases ofSetting_cases value with ⟨-, usable, window, counts⟩ | ⟨-, e, fails, reported⟩
  · refine iff_of_false ?_ usable
    rintro ⟨e, fails, -⟩
    cases fails.symm.trans counts
  · rw [← reported]
    refine ⟨?_, fun unreported => ⟨e, fails, unreported⟩⟩
    rintro ⟨e', fails', unreported⟩
    rwa [Except.error.inj (fails.symm.trans fails')]

variable [Limits]

theorem tail?_bytes_eq_none_iff {count : Int} {content : Bytes} :
    tail? (.bytes count) content = none ↔
      count < 0 ∧ (Limits.place : Int) ≤ content.length - count := by
  rw [tail?]
  split
  case isTrue whole => exact iff_of_false (Option.some_ne_none _) (by omega)
  case isFalse =>
    split
    case isTrue far => exact iff_of_true rfl far
    case isFalse near => exact iff_of_false (Option.some_ne_none _) near

theorem tail?_standard_ne_none (content : Bytes) : standard.tail? content ≠ none := by
  rw [standard, ne_eq, tail?_bytes_eq_none_iff]
  omega

/-- A log cannot be read just if the setting misfits it. -/
theorem tail?_ofValue_eq_none_iff {value : Value} {content : Bytes} :
    (ofValue value).tail? content = none ↔ Misfits content.length value := by
  unfold ofValue
  split
  case isTrue falsy =>
    refine iff_of_false (tail?_standard_ne_none content) fun misfits => ?_
    cases misfits with
    | text given => exact given (by simpa [Value.isFalsy] using falsy)
    | list given => exact given (by simpa [Value.isFalsy] using falsy)
    | record given => exact given (by simpa [Value.isFalsy] using falsy)
    | float given => exact Bool.false_ne_true (given.symm.trans falsy)
    | int below => exact below.ne (by simpa [Value.isFalsy] using falsy)
    | other given => exact Bool.false_ne_true (given.symm.trans falsy)
  case isFalse truthy =>
    cases value with
    | null => exact absurd rfl truthy
    | bool b =>
      refine iff_of_false ?_ (by rintro ⟨⟩)
      rw [tail?_bytes_eq_none_iff]
      omega
    | int n =>
      rw [tail?_bytes_eq_none_iff]
      refine ⟨fun beyond => .int beyond.1 beyond.2, fun misfits => ?_⟩
      cases misfits with
      | int below far => exact ⟨below, far⟩
    | float x =>
      have given : (x == 0) = false := by simpa [Value.isFalsy] using truthy
      simp only [tail?]
      split
      case isTrue fits =>
        refine iff_of_false (Option.some_ne_none _) fun misfits => ?_
        cases misfits with
        | float _ short => exact short fits
      case isFalse short => exact iff_of_true rfl (.float given short)
    | text s => exact iff_of_true rfl (.text (by simpa [Value.isFalsy] using truthy))
    | list items => exact iff_of_true rfl (.list (by simpa [Value.isFalsy] using truthy))
    | record fields => exact iff_of_true rfl (.record (by simpa [Value.isFalsy] using truthy))
    | other o => exact iff_of_true rfl (.other (by simpa [Value.isFalsy] using truthy))

end Window

end Reckon.Log

namespace Reckon.Command

open Log (Call IsCount IsLog IsNoCount Ledger Misfits Serves Sink innerFolder logPlace logText)
open Project (IsUnshowable Settings)
open Store (Path Place)

/-! ### Showing events -/

theorem isSome_eventLine?_shown (e : Log.Event) : (eventLine? e.shown).isSome = true := by
  have record : e.shown = .record (Json.sortedFields e.fields) := by
    rw [Log.Event.shown, Json.sorted]
  have level : (Json.sortedFields e.fields).lookup "level" = some (.text e.level.label) := by
    rw [Json.lookup_sortedFields]
    rfl
  rw [record, eventLine?]
  simp only [level]
  rfl

def Report.isCrash : Report → Bool
  | .crash _ => true
  | _ => false

theorem not_isCrash_eventReport [Limits] {events : List Value}
    (shown : ∀ v ∈ events, (∃ e, v = Log.Event.shown e) ∧ v.height ≤ Log.maxHeight + 2)
    (json : Bool) : (eventReport events json).isCrash = false := by
  have lines : ∃ texts, events.mapM eventLine? = some texts := by
    induction events with
    | nil => exact ⟨[], rfl⟩
    | cons v events ih =>
      obtain ⟨⟨⟨e, rfl⟩, -⟩, others⟩ := List.forall_mem_cons.mp shown
      obtain ⟨texts, rest⟩ := ih others
      obtain ⟨text, line⟩ := Option.isSome_iff_exists.mp (isSome_eventLine?_shown e)
      exact ⟨text :: texts, by simp [List.mapM_cons, line, rest]⟩
  obtain ⟨texts, lines⟩ := lines
  have low : (Value.list events).height ≤ Limits.laidOut :=
    le_trans (Nat.succ_le_succ (Value.heightOfItems_le_iff.mpr fun v member => (shown v member).2))
      Limits.laidOut_ge
  simp only [eventReport, lines, if_pos low]
  split
  case isTrue => rfl
  case isFalse => split <;> rfl

theorem mem_of_mem_takeInt {α : Type} {limit : Int} {items : List α} {item : α}
    (member : item ∈ Log.takeInt limit items) : item ∈ items := by
  unfold Log.takeInt at member
  split at member <;> exact List.mem_of_mem_take member

theorem exists_batches [Limits] {k : Sink} (fits : k.batchFolder.fits = true) (s : Store) :
    ∃ names, k.batches s = .ok names := by
  have seen := Store.exists?_of_fits (s := s) fits
  simp only [Sink.batches, seen, Except.mapError, bind, Except.bind]
  split <;> exact ⟨_, rfl⟩

/-- The log cannot be looked at: its path is too long as a whole, or its name is, in a folder that is
there. -/
def IsOutOfReach [Limits] (s : Store) (home : Place) (path : Path) : Prop :=
  Limits.path < path.size ∨ path.fits = false ∧ s.isFolder (innerFolder home) = true

instance [Limits] (s : Store) (home : Place) (path : Path) : Decidable (IsOutOfReach s home path) :=
  inferInstanceAs (Decidable (_ ∨ _ ∧ _))

section

variable [Limits] [Formats] {s : Store} {project : String} {settings : Settings}
  {written : List Call} (loaded : Settings.load s (.ofText project) = .ok settings)
  (there : isThere s project = true)
include there

omit [Formats] in
theorem serves_of_isThere (window : Log.Window) :
    Serves ⟨.ofText project, window⟩ s (Path.ofText project).place := by
  have free := (Store.exists?_eq_true_iff.mp (exists?_of_isThere there)).1
  exact ⟨rfl, fun place member => .inr ((Store.obstacle?_eq_none_iff.mp free).2 place member)⟩

include loaded

/-- The folder of the logs of batches has no longer name than the settings file. -/
theorem fits_batchFolder_of_load (window : Log.Window) :
    (Sink.mk (.ofText project) window).batchFolder.fits = true := by
  have free := (Store.exists?_eq_true_iff.mp (exists?_of_isThere there)).1
  have fits := (Store.obstacle?_eq_none_iff.mp free).1
  have short := Settings.size_le_of_load loaded
  have name := Limits.name_ge
  have lengths : "logs".utf8ByteSize = 4 ∧ "batches".utf8ByteSize = 7 ∧
      Settings.fileName.utf8ByteSize = 15 := by decide +kernel
  obtain ⟨outer, inner, file⟩ := lengths
  refine Path.fits_child_iff.mpr ⟨?_, by omega, Path.fits_child_iff.mpr ⟨?_, by omega, fits⟩⟩
  all_goals
    refine le_trans ?_ short
    simp only [Sink.folder, Path.size, Path.child, Path.span_append, Path.span]
    omega

theorem not_isCrash_listBatches (limit : Int) (json : Bool) :
    (runListBatches s project limit json).isCrash = false := by
  obtain ⟨names, listed⟩ := exists_batches (fits_batchFolder_of_load loaded there
    (.ofValue (settings.get "logging_tail_bytes"))) s
  simp only [runListBatches, readingSink, loaded, listed, batchReport]
  split
  case isTrue => rfl
  case isFalse => split <;> rfl

/-- A log whose path is too long cannot be looked at, or there is no folder for it and so nothing is
found. -/
theorem events_of_not_fits {window : Log.Window} (tree : s.IsTree) {which : Option String}
    (isLog : IsLog which) {path : Path}
    (log : (Sink.mk (.ofText project) window).log? which = some path) (long : path.fits = false)
    (f : Log.Filter) :
    let k : Sink := ⟨.ofText project, window⟩
    (IsOutOfReach s (Path.ofText project).place path ∧
        k.events s path f = .error (.file (.tooLong path.text))) ∨
      ¬ IsOutOfReach s (Path.ofText project).place path ∧ k.events s path f = .ok [] := by
  intro k
  by_cases whole : Limits.path < path.size
  · have seen : s.exists? path = .error (.tooLong path.text) := by
      rw [Store.exists?, Store.obstacle?, if_pos whole]
    exact .inl ⟨.inl whole, Sink.events_of_error seen f⟩
  -- a path that is short as a whole has too long a name at its end, which only a batch can have
  have inner := fits_batchFolder_of_load loaded there window
  cases which with
  | none =>
    obtain rfl : k.log = path := Option.some.inj log
    have name : "events.ndjson".utf8ByteSize ≤ 15 := by decide +kernel
    have fits : k.log.fits = true := Path.fits_child_iff.mpr
      ⟨Nat.not_lt.mp whole, name.trans Limits.name_ge, Path.fits_of_child inner⟩
    exact absurd (long.symm.trans fits) Bool.false_ne_true
  | some batch =>
    have usable : Log.isBatchName batch = true := isLog
    obtain rfl : k.batchFolder.child (batch ++ Sink.batchSuffix) = path :=
      Option.some.inj ((if_pos usable).symm.trans log)
    have seen := Store.exists?_child_of_not_fits (s := s) inner long
    simp only [(serves_of_isThere there window).isFolder_visited_iff tree] at seen
    by_cases folder : s.isFolder (innerFolder (Path.ofText project).place) = true
    · exact .inl ⟨.inr ⟨long, folder⟩, Sink.events_of_error (seen.trans (if_pos (.inr folder))) f⟩
    · have absent := seen.trans (if_neg (not_or.mpr ⟨whole, folder⟩))
      refine .inr ⟨?_, Sink.events_of_absent absent f⟩
      exact not_or.mpr ⟨whole, fun reach => folder reach.2⟩

omit loaded there in
omit [Formats] in
theorem recorded_of_found {shown : List Call} (old : shown ⊆ written)
    (proper : ∀ c ∈ written, (Value.record c.event.context).IsProper)
    (printable : ∀ c ∈ written, c.event.isPrintable = true) (f : Log.Filter)
    (which : Option String) (limit : Int) :
    ∀ v ∈ Log.takeInt limit (Log.found shown f which).reverse,
      (∃ e, v = Log.Event.shown e) ∧ v.height ≤ Log.maxHeight + 2 := by
  intro v member
  obtain ⟨c, inside, rfl⟩ := List.mem_map.mp (List.mem_reverse.mp (mem_of_mem_takeInt member))
  have old := old (List.mem_of_mem_filter inside)
  exact ⟨⟨c.event, rfl⟩, Log.Event.height_shown_le (proper c old) (printable c old)⟩

/-- Events that were written are found in a log, unless it is out of reach, or there and misfit by
the setting. -/
theorem events_cases_of_load (ledger : Ledger s (Path.ofText project).place (logText written))
    (proper : ∀ c ∈ written, (Value.record c.event.context).IsProper)
    (printable : ∀ c ∈ written, c.event.isPrintable = true) {which : Option String}
    (isLog : IsLog which) {path : Path} {value : Value}
    (log : (Sink.mk (.ofText project) (.ofValue value)).log? which = some path) (f : Log.Filter) :
    let k : Sink := ⟨.ofText project, .ofValue value⟩
    let lost := IsOutOfReach s (Path.ofText project).place path ∨ path.fits = true ∧
      s.has path.place = true ∧ Misfits (s.content path.place).length value
    (¬ lost ∧ ∃ shown, shown ⊆ written ∧ k.events s path f = .ok (Log.found shown f which)) ∨
      lost ∧ ∃ e, k.events s path f = .error e := by
  intro k lost
  unfold lost
  have serves := serves_of_isThere there (.ofValue value)
  have place := serves.place_of_log? isLog log
  cases fits : path.fits with
  | false =>
    rcases events_of_not_fits loaded there ledger.tree isLog log fits f with
      ⟨out, failed⟩ | ⟨inside, found⟩
    · exact .inr ⟨.inl out, _, failed⟩
    · exact .inl ⟨by simp [inside], [], List.nil_subset _, found⟩
  | true =>
    have inside : ¬ IsOutOfReach s (Path.ofText project).place path := by
      rintro (long | ⟨long, -⟩)
      · exact absurd (Path.fits_iff.mp fits).1 (Nat.not_le.mpr long)
      · exact Bool.false_ne_true (long.symm.trans fits)
    rw [or_iff_right inside, and_iff_right rfl, ← Log.Window.tail?_ofValue_eq_none_iff, place]
    rcases ledger.events_cases proper printable serves isLog log fits f with
      ⟨fitting, shown, ends, -, events⟩ | ⟨misfits, failed⟩
    · exact .inl ⟨fitting, shown,
        List.Subset.trans ends.subset (List.filter_subset_self _), events⟩
    · exact .inr ⟨misfits, failed⟩

/-- Showing recorded events ends without an answer just if the log is out of reach, or if there is
one that the setting misfits. -/
theorem isCrash_events_iff (ledger : Ledger s (Path.ofText project).place (logText written))
    (proper : ∀ c ∈ written, (Value.record c.event.context).IsProper)
    (printable : ∀ c ∈ written, c.event.isPrintable = true) (selection : Selection) (json : Bool) :
    (runEvents s project selection json).isCrash = true ↔
      ∃ path, (Sink.mk (.ofText project) .standard).log? selection.batch = some path ∧
        (IsOutOfReach s (Path.ofText project).place path ∨ path.fits = true ∧
          s.has path.place = true ∧
            Misfits (s.content path.place).length (settings.get "logging_tail_bytes")) := by
  let k : Sink := ⟨.ofText project, .ofValue (settings.get "logging_tail_bytes")⟩
  have same : ∀ which, (Sink.mk (.ofText project) .standard).log? which = k.log? which := by
    rintro (_ | _) <;> rfl
  simp only [runEvents, readingSink, loaded, same]
  cases unusable : selection.batch.filter (!Log.isBatchName ·) with
  | some batch =>
    obtain ⟨given, invalid⟩ := Option.filter_eq_some_iff.mp unusable
    refine iff_of_false Bool.false_ne_true ?_
    rintro ⟨path, log, -⟩
    have none : k.log? (some batch) = none := if_neg (by simpa using invalid)
    rw [given, none] at log
    cases log
  | none =>
    have isLog : IsLog selection.batch := Log.isLog_iff.mpr unusable
    obtain ⟨folder, name, log, -⟩ := k.log?_eq isLog
    simp only [log, Option.some_inj, exists_eq_left']
    rw [Log.Sink.query_eq log]
    rcases events_cases_of_load loaded there ledger proper printable isLog log
      ⟨selection.level, selection.topic⟩ with ⟨kept, shown, old, events⟩ | ⟨lost, e, failed⟩
    · refine iff_of_false ?_ kept
      rw [events]
      exact Bool.eq_false_iff.mp
        (not_isCrash_eventReport (recorded_of_found old proper printable _ _ _) json)
    · refine iff_of_true ?_ lost
      rw [failed]
      rfl

end

/-! ### Opening projects -/

/-- The sink of the project is asked for, and fails without a message. -/
def Breaks (settings : Settings) : Prop :=
  settings.isLogging = true ∧ IsNoCount (settings.get "logging_tail_bytes")

def Opens (settings : Settings) : Prop :=
  settings.isLogging = true → IsCount (settings.get "logging_tail_bytes")

section

variable {s : Session} {settings : Settings} {folder : Path}

/-- A project with accepted settings is opened, unless events are to be recorded and the setting
gives no number of bytes. -/
theorem setProject_cases_of_load [Limits] [Formats] (loaded : Settings.load s.store folder = .ok settings) :
    (∃ e, s.setProject folder = (s, .error (.window e)) ∧ settings.isLogging = true ∧
        Log.Window.ofSetting (settings.get "logging_tail_bytes") = .error e) ∨
      ∃ sink, s.setProject folder = ({ s with sink }, .ok settings) ∧ Opens settings := by
  simp only [Session.setProject, loaded, Session.sinkFor]
  cases logging : settings.isLogging with
  | false =>
    have opens : Opens settings := fun logging' => by cases logging.symm.trans logging'
    exact .inr ⟨none, rfl, opens⟩
  | true =>
    cases counts : Log.Window.ofSetting (settings.get "logging_tail_bytes") with
    | ok window =>
      exact .inr ⟨_, rfl, fun _ => Log.Window.exists_ofSetting_iff.mp ⟨window, counts⟩⟩
    | error e => exact .inl ⟨e, rfl, rfl, rfl⟩

theorem isCrash_projectFailure (e : Log.Window.Error) :
    (projectFailure (.window e)).isCrash = !e.isReported := by
  cases e <;> rfl

theorem not_breaks_of_opens (opens : Opens settings) : ¬ Breaks settings := by
  rintro ⟨logging, noCount⟩
  obtain ⟨e, fails, -⟩ := Log.Window.exists_unreported_iff.mpr noCount
  obtain ⟨window, counts⟩ := Log.Window.exists_ofSetting_iff.mpr (opens logging)
  cases fails.symm.trans counts

theorem breaks_iff {e : Log.Window.Error} (logging : settings.isLogging = true)
    (fails : Log.Window.ofSetting (settings.get "logging_tail_bytes") = .error e) :
    (!e.isReported) = true ↔ Breaks settings := by
  rw [Bool.not_eq_true', Breaks, and_iff_right logging, ← Log.Window.exists_unreported_iff, fails]
  simp

theorem not_opens {e : Log.Window.Error} (logging : settings.isLogging = true)
    (fails : Log.Window.ofSetting (settings.get "logging_tail_bytes") = .error e) :
    ¬ Opens settings := by
  intro opens
  obtain ⟨window, counts⟩ := Log.Window.exists_ofSetting_iff.mpr (opens logging)
  cases fails.symm.trans counts

variable [Limits] [Formats] {project : String}
  (loaded : Settings.load s.store (.ofText project) = .ok settings)
include loaded

theorem isCrash_validate_iff (host : Host) (formulas : List String) (explain json : Bool) :
    (runValidate host s project formulas explain json).2.isCrash = true ↔ Breaks settings := by
  simp only [runValidate]
  rcases setProject_cases_of_load loaded with ⟨e, refused, logging, fails⟩ | ⟨sink, opened, opens⟩
  · simp only [refused]
    rw [isCrash_projectFailure, breaks_iff logging fails]
  · simp only [opened]
    exact iff_of_false Bool.false_ne_true (not_breaks_of_opens opens)

theorem isCrash_outcomeReport_iff (o : Formula.Outcome) (json : Bool) :
    (outcomeReport settings o json).isCrash = true ↔
      json = false ∧ IsUnshowable (settings.get "precision") := by
  have shows := Settings.exists_display_iff (Settings.isPrecision_of_load loaded) o.result
  unfold outcomeReport
  cases json with
  | true => exact iff_of_false Bool.false_ne_true (by simp)
  | false =>
    rw [if_neg Bool.false_ne_true, and_iff_right rfl]
    cases shown : Project.display settings.places o.result with
    | ok text => exact iff_of_false Bool.false_ne_true (shows.mp ⟨text, shown⟩)
    | error e =>
      refine iff_of_true rfl (Classical.not_not.mp fun usable => ?_)
      obtain ⟨text, shown'⟩ := shows.mpr usable
      cases shown.symm.trans shown'

/-- Evaluating a formula ends without an answer just if the sink of the project cannot be made, or
if there is a result that cannot be shown. -/
theorem isCrash_evaluate_iff {host : Host} {a : Formula.Arithmetic}
    (computes : host.operations = a.operations) (formula : String) (values : List Float)
    (items : List String) (json : Bool) :
    (runEvaluate host s project formula values items json).2.isCrash = true ↔
      (values = [] ∨ items = []) ∧ (Breaks settings ∨
        Opens settings ∧ json = false ∧ IsUnshowable (settings.get "precision") ∧
          ∃ o, outcome a.operations formula values items = .ok (.ok o)) := by
  simp only [runEvaluate]
  split
  case isTrue mixed =>
    refine iff_of_false Bool.false_ne_true ?_
    rintro ⟨rfl | rfl, -⟩ <;> simp at mixed
  case isFalse apart =>
    have apart : values = [] ∨ items = [] := by
      simpa [Classical.or_iff_not_imp_left] using apart
    rw [and_iff_right apart]
    rcases setProject_cases_of_load loaded with ⟨e, refused, logging, fails⟩ | ⟨sink, opened, opens⟩
    · simp only [refused]
      rw [isCrash_projectFailure, breaks_iff logging fails]
      exact (or_iff_left fun shown => not_opens logging fails shown.1).symm
    · simp only [opened, computes]
      rw [or_iff_right (not_breaks_of_opens opens), and_iff_right opens]
      cases computed : outcome a.operations formula values items with
      | error message => exact iff_of_false Bool.false_ne_true (by simp)
      | ok result =>
        cases result with
        | ok o =>
          simp only [conclude]
          rw [isCrash_outcomeReport_iff loaded]
          simp
        | error e =>
          obtain ⟨cause, rfl, -⟩ := exists_cause_of_outcome computed
          exact iff_of_false Bool.false_ne_true (by simp)

end

/-- What can keep a project with accepted settings from answering. An evaluation ends without an
answer just if the sink of the project cannot be made or the result cannot be shown; checking
formulas, just if the sink cannot be made; listing batches, never; showing the events of a log that
has only ever been written by sinks, just if the setting misfits the log. And a float can be shown
just if the precision is none with which nothing can be shown. -/
theorem accepted_settings_answer [Limits] [Formats] {host : Host} {a : Formula.Arithmetic}
    (computes : host.operations = a.operations) {s : Session} {project : String}
    {settings : Settings} (loaded : Settings.load s.store (.ofText project) = .ok settings)
    (there : isThere s.store project = true) :
    (∀ formula values items json,
      ((Request.evaluate project formula values items json).run host s).2.isCrash = true ↔
        (values = [] ∨ items = []) ∧ (Breaks settings ∨
          Opens settings ∧ json = false ∧ IsUnshowable (settings.get "precision") ∧
            ∃ o, outcome a.operations formula values items = .ok (.ok o))) ∧
    (∀ formulas explain json,
      ((Request.validate project formulas explain json).run host s).2.isCrash = true ↔
        Breaks settings) ∧
    (∀ limit json,
      ((Request.listBatches project limit json).run host s).2.isCrash = false) ∧
    (∀ written : List Call, Ledger s.store (Path.ofText project).place (logText written) →
      (∀ c ∈ written, (Value.record c.event.context).IsProper ∧ c.event.isPrintable = true) →
      ∀ selection json,
        ((Request.events project selection json).run host s).2.isCrash = true ↔
          ∃ path, (Sink.mk (.ofText project) .standard).log? selection.batch = some path ∧
            (IsOutOfReach s.store (Path.ofText project).place path ∨ path.fits = true ∧
              s.store.has path.place = true ∧
              Misfits (s.store.content path.place).length (settings.get "logging_tail_bytes"))) ∧
    ∀ x : Float, (∃ text, Project.display settings.places x = .ok text) ↔
      ¬ IsUnshowable (settings.get "precision") := by
  refine ⟨isCrash_evaluate_iff loaded computes, isCrash_validate_iff loaded host,
    not_isCrash_listBatches loaded there, fun written ledger lines selection json => ?_,
    Settings.exists_display_iff (Settings.isPrecision_of_load loaded)⟩
  exact isCrash_events_iff loaded there ledger (fun c member => (lines c member).1)
    (fun c member => (lines c member).2) selection json

section

attribute [local instance] Limits.standard Formats.standard

def settingsSession (text : String) : Session where
  store := ({} : Store).put [Settings.fileName] (Text.encode text)

theorem unlogged_settingsSession (text : String) :
    Log.Unlogged (settingsSession text).store [] := by
  have elsewhere {place : Place} (apart : place ≠ [Settings.fileName]) :
      (settingsSession text).store.isFile place = false := by
    rw [settingsSession, Store.isFile, Store.file?_put_of_ne apart]
    rfl
  constructor
  · exact Store.isTree_of_flat rfl (by simp [settingsSession, Store.put, Entries.set, Settings.fileName])
  · rintro other above
    refine elsewhere ?_
    rintro rfl
    have first := (List.cons_prefix_cons.mp above).1
    exact absurd first (by decide)
  · intro which isLog
    rw [Store.has, elsewhere (by cases which <;> simp [logPlace, Log.innerFolder])]
    cases which <;> simp [settingsSession, Store.put, Store.isFolder, logPlace, Log.innerFolder]

/-- With this precision no result is shown, but as a record; the number of bytes is a text, which
misfits logs, but there is none yet. -/
theorem accepted_settings_answer_flag :
    let s := settingsSession "precision: true\nlogging:\n  tail_bytes: '100'\n"
    ((Request.evaluate "." "1" [] [] false).run clockedHost s).2.isCrash = true ∧
      ((Request.evaluate "." "1" [] [] true).run clockedHost s).2.isCrash = false ∧
      ((Request.validate "." ["1"] false false).run clockedHost s).2.isCrash = false ∧
      ((Request.events "." {} false).run clockedHost s).2.isCrash = false := by
  intro s
  have computes : clockedHost.operations = Formula.Arithmetic.machine.operations := rfl
  have parts : (Settings.load s.store (.ofText ".")).toOption.map (fun settings =>
      (settings.places,
        (Log.Window.ofSetting (settings.get "logging_tail_bytes")).toOption.isSome)) =
      some (.flag true, true) := by
    decide +kernel
  obtain ⟨settings, read, same⟩ := Option.map_eq_some_iff.mp parts
  obtain ⟨flag, numeral⟩ := Prod.mk.inj same
  have loaded := Formula.eq_ok_of_toOption read
  obtain ⟨window, counts⟩ := Option.isSome_iff_exists.mp numeral
  have opens : Opens settings := fun _ =>
    Log.Window.exists_ofSetting_iff.mp ⟨window, Formula.eq_ok_of_toOption counts⟩
  have computed : ((outcome Formula.Arithmetic.machine.operations "1" [] []).toOption.bind
      Except.toOption).isSome = true := by
    decide +kernel
  obtain ⟨o, valued⟩ := Option.isSome_iff_exists.mp computed
  obtain ⟨result, bound, value⟩ := Option.bind_eq_some_iff.mp valued
  have evaluates : ∃ o, outcome Formula.Arithmetic.machine.operations "1" [] [] = .ok (.ok o) :=
    ⟨o, by rw [Formula.eq_ok_of_toOption bound, Formula.eq_ok_of_toOption value]⟩
  have root : (Path.ofText ".").place = [] := by decide +kernel
  have unlogged := unlogged_settingsSession "precision: true\nlogging:\n  tail_bytes: '100'\n"
  have there : isThere s.store "." = true := by decide +kernel
  obtain ⟨evaluation, checks, -, logs, shows⟩ := accepted_settings_answer computes loaded there
  have unshowable : IsUnshowable (settings.get "precision") := by
    by_contra usable
    obtain ⟨text, shown⟩ := (shows 1).mpr usable
    rw [flag] at shown
    cases shown
  refine ⟨(evaluation _ _ _ _).mpr ⟨.inl rfl, .inr ⟨opens, rfl, unshowable, evaluates⟩⟩,
    ?_, ?_, ?_⟩
  · refine Bool.eq_false_iff.mpr fun crash => ?_
    rcases ((evaluation _ _ _ _).mp crash).2 with breaks | ⟨-, text, -⟩
    · exact not_breaks_of_opens opens breaks
    · cases text
  · exact Bool.eq_false_iff.mpr fun crash => not_breaks_of_opens opens ((checks _ _ _).mp crash)
  · rw [root] at logs
    refine Bool.eq_false_iff.mpr fun crash => ?_
    obtain ⟨path, log, reach | ⟨-, has, -⟩⟩ := (logs [] unlogged.ledger (by simp) {} false).mp crash
    · obtain rfl := Option.some.inj log
      have within : ¬ IsOutOfReach s.store [] (Sink.mk (.ofText ".") .standard).log := by
        decide +kernel
      exact within reach
    · have place := Sink.place_of_log? Log.isLog_own log
      rw [place, root] at has
      exact Bool.false_ne_true ((unlogged.absent none Log.isLog_own).symm.trans has)

/-- A precision that is a truth value is accepted, and no result can be shown with it. -/
theorem flag_is_no_precision :
    let s := settingsSession "precision: true\n"
    (Settings.load s.store (.ofText ".")).toOption.isSome = true ∧
      (run clockedHost s ["eval", "1"]).2.isCrash = true := by
  decide +kernel

end

end Reckon.Command
