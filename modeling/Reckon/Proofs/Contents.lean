import Mathlib
import Reckon.Proofs.History

/-!
Logs of any content. Whatever bytes are in a log, reading goes from line to line: lines that are
blank or no JSON are passed over, and the values on the others are found in their order. Reading
ends at the first line that is no text, holds too long an integer or opens too many brackets, and, if
it looks for events of a kind, at the first value that is no record.
-/

namespace Reckon.Log

open Store (Path)
open Text (Bytes)

/-! ### Lines -/

/-- The lines of some bytes. A line ends at a line feed, at a carriage return, or at the two one
after the other; the last one may have no end. -/
inductive Splits : Bytes → List Bytes → Prop where
  | nil : Splits [] []
  | last {body : Bytes} (inner : ∀ b ∈ body, IsInner b) (some : body ≠ []) : Splits body [body]
  | feed {body rest : Bytes} {lines : List Bytes} (inner : ∀ b ∈ body, IsInner b)
      (others : Splits rest lines) : Splits (body ++ 10 :: rest) (body :: lines)
  | carriage {body rest : Bytes} {lines : List Bytes} (inner : ∀ b ∈ body, IsInner b)
      (alone : rest.head? ≠ some 10) (others : Splits rest lines) :
      Splits (body ++ 13 :: rest) (body :: lines)
  | both {body rest : Bytes} {lines : List Bytes} (inner : ∀ b ∈ body, IsInner b)
      (others : Splits rest lines) : Splits (body ++ 13 :: 10 :: rest) (body :: lines)

theorem foldr_pushByte_fst (bytes : Bytes) :
    (bytes.foldr pushByte (none, [])).1 = bytes.head? := by
  cases bytes with
  | nil => rfl
  | cons b rest =>
    rw [List.foldr_cons]
    generalize rest.foldr pushByte (none, []) = after
    unfold pushByte
    split_ifs
    · rfl
    · rfl
    · obtain ⟨next, lines⟩ := after
      cases lines <;> rfl

theorem foldr_carriage (rest : Bytes) :
    (13 :: rest).foldr pushByte (none, []) =
      (some 13, if rest.head? = some 10 then splitLines rest else [] :: splitLines rest) := by
  rw [← foldr_pushByte_fst, splitLines]
  rfl

section

variable {body : Bytes} (inner : ∀ b ∈ body, IsInner b)
include inner

theorem splitLines_append {tail : Bytes} {next : Option UInt8} {lines : List Bytes}
    (starts : tail.foldr pushByte (none, []) = (next, [] :: lines)) :
    splitLines (body ++ tail) = body :: lines := by
  rw [splitLines, List.foldr_append, starts, foldr_pushByte inner, List.append_nil]

theorem splitLines_carriage {rest : Bytes} (alone : rest.head? ≠ some 10) :
    splitLines (body ++ 13 :: rest) = body :: splitLines rest :=
  splitLines_append inner (by rw [foldr_carriage, if_neg alone])

theorem splitLines_both (rest : Bytes) :
    splitLines (body ++ 13 :: 10 :: rest) = body :: splitLines rest :=
  splitLines_append inner (by rw [foldr_carriage, List.head?_cons, if_pos rfl]; rfl)

theorem splitLines_last (some : body ≠ []) : splitLines body = [body] := by
  obtain ⟨front, b, rfl⟩ := List.eq_nil_or_concat' body |>.resolve_left some
  simp only [List.forall_mem_append, List.forall_mem_singleton] at inner
  obtain ⟨others, feed, carriage⟩ := inner
  have single : [b].foldr pushByte (none, []) = (.some b, [[b]]) := by
    simp [pushByte, feed, carriage]
  rw [splitLines, List.foldr_append, single, foldr_pushByte others]

end

theorem exists_inner (bytes : Bytes) :
    ∃ body rest, bytes = body ++ rest ∧ (∀ b ∈ body, IsInner b) ∧
      (rest = [] ∨ ∃ more, rest = 10 :: more ∨ rest = 13 :: more) := by
  induction bytes with
  | nil => exact ⟨[], [], rfl, by simp, .inl rfl⟩
  | cons b bytes ih =>
    by_cases feed : b = 10
    · exact ⟨[], b :: bytes, rfl, by simp, .inr ⟨bytes, .inl (by rw [feed])⟩⟩
    · by_cases carriage : b = 13
      · exact ⟨[], b :: bytes, rfl, by simp, .inr ⟨bytes, .inr (by rw [carriage])⟩⟩
      · obtain ⟨body, rest, rfl, inner, ends⟩ := ih
        exact ⟨b :: body, rest, rfl, List.forall_mem_cons.mpr ⟨⟨feed, carriage⟩, inner⟩, ends⟩

theorem splits_splitLines (bytes : Bytes) : Splits bytes (splitLines bytes) := by
  -- each line leaves fewer bytes for the others
  induction length : bytes.length using Nat.strong_induction_on generalizing bytes with
  | _ n ih =>
    subst length
    obtain ⟨body, rest, rfl, inner, rfl | ⟨more, rfl | rfl⟩⟩ := exists_inner bytes
    · rw [List.append_nil]
      by_cases some : body = []
      · rw [some]
        exact .nil
      · rw [splitLines_last inner some]
        exact .last inner some
    · rw [splitLines_cons inner]
      exact .feed inner (ih _ (by simp; omega) _ rfl)
    · by_cases alone : more.head? = some 10
      · obtain ⟨rest, rfl⟩ := List.head?_eq_some_iff.mp alone
        rw [splitLines_both inner]
        exact .both inner (ih _ (by simp; omega) _ rfl)
      · rw [splitLines_carriage inner alone]
        exact .carriage inner alone (ih _ (by simp; omega) _ rfl)

theorem Splits.eq {bytes : Bytes} {lines : List Bytes} (splits : Splits bytes lines) :
    splitLines bytes = lines := by
  induction splits with
  | nil => rfl
  | last inner some => exact splitLines_last inner some
  | feed inner others ih => rw [splitLines_cons inner, ih]
  | carriage inner alone others ih => rw [splitLines_carriage inner alone, ih]
  | both inner others ih => rw [splitLines_both inner, ih]

/-! ### One line -/

section

variable [Limits]

inductive Finds (line : Bytes) : Option Value → Prop where
  | blank (blank : line.all isBlankByte = true) : Finds line none
  | malformed {chars : List Char} (visible : line.all isBlankByte = false)
      (text : Text.decodeDetected? line = some chars)
      (bad : Json.read chars = .error .malformed) : Finds line none
  | value {chars : List Char} {value : Value} (visible : line.all isBlankByte = false)
      (text : Text.decodeDetected? line = some chars)
      (good : Json.read chars = .ok value) : Finds line (some value)

/-- Why reading with a filter ends at a line. -/
inductive Filter.Stops (f : Filter) (line : Bytes) : ReadError → Prop where
  | illegible (visible : line.all isBlankByte = false)
      (noText : Text.decodeDetected? line = none) : Stops f line .encoding
  | tooLong {chars : List Char} {digits : Nat} (visible : line.all isBlankByte = false)
      (text : Text.decodeDetected? line = some chars)
      (long : Json.read chars = .error (.tooLong digits)) : Stops f line (.length digits)
  | tooDeep {chars : List Char} (visible : line.all isBlankByte = false)
      (text : Text.decodeDetected? line = some chars)
      (deep : Json.read chars = .error .tooDeep) : Stops f line .depth
  | foreign {value : Value} (finds : Finds line (some value)) (noRecord : ∀ r, value ≠ .record r)
      (wanting : f.level.isSome ∨ f.topic.isSome) : Stops f line .shape

/-- The values that a filter lets pass. Without a wish any value passes, and otherwise a record with
the level and the topic that are wanted. -/
def Filter.passes (f : Filter) : Value → Bool
  | .record fields => wants f.level "level" fields && wants f.topic "event_type" fields
  | _ => f.level.isNone && f.topic.isNone

def Filter.Legible (f : Filter) (line : Bytes) : Prop :=
  ∀ e, ¬f.Stops line e

variable {line : Bytes} {f : Filter} {e : ReadError}

theorem finds_iff {found : Option Value} : Finds line found ↔ readLine line = .ok found := by
  constructor
  · rintro (blank | ⟨visible, text, bad⟩ | ⟨visible, text, good⟩)
    · rw [readLine, if_pos blank]
    · simp [readLine, visible, text, bad]
    · simp [readLine, visible, text, good]
  · intro read
    unfold readLine at read
    split at read
    case isTrue blank =>
      cases read
      exact .blank blank
    case isFalse visible =>
      rw [Bool.not_eq_true] at visible
      split at read
      case h_1 => cases read
      case h_2 chars text =>
        split at read
        case h_1 value good =>
          cases read
          exact .value visible text good
        case h_2 bad =>
          cases read
          exact .malformed visible text bad
        case h_3 => cases read
        case h_4 => cases read

theorem stops_of_readLine (failed : readLine line = .error e) : f.Stops line e := by
  unfold readLine at failed
  split at failed
  case isTrue => cases failed
  case isFalse visible =>
    rw [Bool.not_eq_true] at visible
    split at failed
    case h_1 noText =>
      cases failed
      exact .illegible visible noText
    case h_2 chars text =>
      split at failed
      case h_1 => cases failed
      case h_2 => cases failed
      case h_3 digits long =>
        cases failed
        exact .tooLong visible text long
      case h_4 deep =>
        cases failed
        exact .tooDeep visible text deep

end

section

variable {value : Value}

theorem accepts_record (f : Filter) (fields : Fields) :
    f.accepts (.record fields) = .ok (f.passes (.record fields)) := by
  rw [Filter.accepts, Filter.passes]
  split
  case isTrue unfiltered =>
    simp only [Bool.and_eq_true, Option.isNone_iff_eq_none] at unfiltered
    rw [unfiltered.1, unfiltered.2]
    rfl
  case isFalse => rfl

theorem accepts_foreign (f : Filter) (foreign : ∀ r, value ≠ .record r) :
    f.passes value = (f.level.isNone && f.topic.isNone) ∧
      f.accepts value = if f.passes value then .ok true else .error .shape := by
  have passes : f.passes value = (f.level.isNone && f.topic.isNone) := by
    cases value with
    | record fields => exact absurd rfl (foreign fields)
    | _ => rfl
  refine ⟨passes, ?_⟩
  rw [passes]
  cases value with
  | record fields => exact absurd rfl (foreign fields)
  | _ => rfl

/-- A value is judged by the filter, or it is no record and ends the reading. -/
theorem accepts_cases (f : Filter) (value : Value) :
    f.accepts value = .ok (f.passes value) ∨
      f.accepts value = .error .shape ∧ (∀ r, value ≠ .record r) ∧
        (f.level.isSome ∨ f.topic.isSome) := by
  by_cases foreign : ∀ r, value ≠ .record r
  · obtain ⟨passes, accepts⟩ := accepts_foreign f foreign
    cases unfiltered : f.passes value with
    | true => exact .inl (by rw [accepts, if_pos unfiltered])
    | false =>
      refine .inr ⟨by rw [accepts, unfiltered]; rfl, foreign, ?_⟩
      rw [passes] at unfiltered
      cases level : f.level <;> cases topic : f.topic <;> simp_all
  · push Not at foreign
    obtain ⟨fields, rfl⟩ := foreign
    exact .inl (accepts_record f fields)

end

section

variable [Limits]

theorem stops_iff {f : Filter} {line : Bytes} {e : ReadError} :
    f.Stops line e ↔
      readLine line = .error e ∨
        ∃ value, readLine line = .ok (some value) ∧ f.accepts value = .error e := by
  constructor
  · rintro (⟨visible, noText⟩ | ⟨visible, text, long⟩ | ⟨visible, text, deep⟩ |
      ⟨finds, foreign, wanting⟩)
    · exact .inl (by simp [readLine, visible, noText])
    · exact .inl (by simp [readLine, visible, text, long])
    · exact .inl (by simp [readLine, visible, text, deep])
    · obtain ⟨passes, accepts⟩ := accepts_foreign f foreign
      refine .inr ⟨_, finds_iff.mp finds, ?_⟩
      rw [accepts, passes]
      rcases wanting with wanted | wanted <;> simp [Option.isNone_eq_false_iff.mpr wanted]
  · rintro (failed | ⟨value, read, refused⟩)
    · exact stops_of_readLine failed
    · rcases accepts_cases f value with judged | ⟨shape, foreign, wanting⟩
      · rw [judged] at refused
        cases refused
      · rw [shape] at refused
        cases refused
        exact .foreign (finds_iff.mpr read) foreign wanting

/-! ### Many lines -/

/-- How the reading of some lines goes: all of them are read, and the values that pass are found, or
it ends at the first one where it must. -/
inductive Filter.Collects (f : Filter) : List Bytes → Except ReadError (List Value) → Prop where
  | done {lines : List Bytes} {found : List (Option Value)}
      (legible : ∀ line ∈ lines, f.Legible line) (finds : List.Forall₂ Finds lines found) :
      Collects f lines (.ok ((found.filterMap id).filter f.passes))
  | stopped {front back : List Bytes} {line : Bytes} {e : ReadError}
      (legible : ∀ other ∈ front, f.Legible other) (stops : f.Stops line e) :
      Collects f (front ++ line :: back) (.error e)

theorem Filter.Collects.cons {f : Filter} {line : Bytes} {found : Option Value}
    {lines : List Bytes} {result : Except ReadError (List Value)} (legible : f.Legible line)
    (finds : Finds line found) (rest : f.Collects lines result) :
    f.Collects (line :: lines)
      (result.map fun values => ((found.filter f.passes).toList ++ values)) := by
  cases rest with
  | done others each =>
    have all := Filter.Collects.done (List.forall_mem_cons.mpr ⟨legible, others⟩) (.cons finds each)
    rw [List.filterMap_cons] at all
    cases found with
    | none => exact all
    | some value =>
      dsimp only [id] at all
      rw [List.filter_cons] at all
      cases passes : f.passes value <;> simpa [Except.map, Option.filter, passes] using all
  | stopped others stops =>
    exact Filter.Collects.stopped (List.forall_mem_cons.mpr ⟨legible, others⟩) stops

section

variable {f : Filter} {line : Bytes} {value : Value} (lines : List Bytes)

theorem collect_of_error {e : ReadError} (failed : readLine line = .error e) :
    collect f (line :: lines) = .error e := by
  rw [collect, failed]
  rfl

theorem collect_of_none (read : readLine line = .ok none) :
    collect f (line :: lines) = collect f lines := by
  rw [collect, read]
  rfl

theorem collect_of_accepts {accepted : Bool} (read : readLine line = .ok (some value))
    (judged : f.accepts value = .ok accepted) :
    collect f (line :: lines) =
      (collect f lines).map fun rest => if accepted then value :: rest else rest := by
  simp only [collect, read, judged, bind, Except.bind]
  cases collect f lines <;> rfl

theorem collect_of_refuses {e : ReadError} (read : readLine line = .ok (some value))
    (refused : f.accepts value = .error e) : collect f (line :: lines) = .error e := by
  rw [collect, read]
  simp only [bind, Except.bind, refused]

end

theorem Filter.Collects.first {f : Filter} {line : Bytes} {e : ReadError} (lines : List Bytes)
    (stops : f.Stops line e) : f.Collects (line :: lines) (.error e) :=
  .stopped (List.forall_mem_nil _) stops

theorem collects_collect (f : Filter) (lines : List Bytes) : f.Collects lines (collect f lines) := by
  induction lines with
  | nil => exact .done (by simp) .nil
  | cons line lines ih =>
    cases read : readLine line with
    | error e =>
      rw [collect_of_error lines read]
      exact .first lines (stops_iff.mpr (.inl read))
    | ok found =>
      have finds := finds_iff.mpr read
      cases found with
      | none =>
        have legible : f.Legible line := by
          intro e stops
          rw [stops_iff, read] at stops
          simp at stops
        have more := ih.cons legible finds
        rw [collect_of_none lines read]
        generalize collect f lines = result at more
        cases result <;> exact more
      | some value =>
        rcases accepts_cases f value with judged | ⟨shape, foreign, wanting⟩
        · have legible : f.Legible line := by
            intro e stops
            rw [stops_iff, read] at stops
            simp [judged] at stops
          have more := ih.cons legible finds
          rw [collect_of_accepts lines read judged]
          cases passes : f.passes value <;> simpa [Option.filter, passes] using more
        · rw [collect_of_refuses lines read shape]
          exact .first lines (.foreign finds foreign wanting)

theorem Filter.Collects.exists_ok_iff {f : Filter} {lines : List Bytes}
    {result : Except ReadError (List Value)} (collects : f.Collects lines result) :
    (∃ values, result = .ok values) ↔ ∀ line ∈ lines, f.Legible line := by
  cases collects with
  | done legible finds => exact iff_of_true ⟨_, rfl⟩ legible
  | stopped legible stops =>
    refine iff_of_false (by simp) fun all => ?_
    exact all _ (by simp) _ stops

/-! ### Logs -/

/-- What the readers of a log give: a query the newest of what has been found first, and the reader
of a batch all of it. -/
structure Gives (k : Sink) (s : Store) (which : Option String) (f : Filter)
    (result : Except ReadError (List Value)) : Prop where
  query : ∀ limit : Int,
    k.query s f which limit = result.map fun found => takeInt (min limit 2000) found.reverse
  batch : f = {} → ∀ batch, which = some batch → k.readBatch s batch = result

/-- Whatever is in a log that the window holds, its readers go through the lines of the log. If all
lines are legible, the values on them that pass the filter are found, and what is malformed or blank
is passed over. Otherwise the first line that is not legible ends the reading. -/
theorem read_contents {s : Store} {k : Sink} {which : Option String} {path : Path} {stored : Stored}
    (log : k.log? which = some path) (opened : IsOpen s path)
    (file : s.file? path.place = some stored)
    (held : k.window.Holds stored.content.length) :
    ∃ lines, Splits stored.content lines ∧ ∀ f : Filter, ∃ result,
      f.Collects lines result ∧ Gives k s which f result ∧
      ((∃ values, result = .ok values) ↔ ∀ line ∈ lines, f.Legible line) := by
  refine ⟨_, splits_splitLines _, fun f => ?_⟩
  have collects := collects_collect f (splitLines stored.content)
  have events : k.events s path f = collect f (splitLines stored.content) := by
    rw [Sink.events_eq opened file, Window.tail?_of_holds held]
  refine ⟨_, collects, ⟨fun limit => ?_, ?_⟩, collects.exists_ok_iff⟩
  · rw [Sink.query_eq log, events]
    rfl
  · rintro rfl batch rfl
    rw [Sink.readBatch_eq log, events]

end

section

attribute [local instance] Limits.standard

def storeOf (bytes : Bytes) : Store :=
  { files := [(["logs", "events.ndjson"], ⟨bytes, 0⟩)], folders := [["logs"]] }

/-- A torn line and a number are legible, but the number is not with a wish for a level. -/
theorem read_contents_number :
    let k : Sink := ⟨⟨false, []⟩, .standard⟩
    let s := storeOf [0x7b, 0x22, 0x0a, 0x35, 0x0d, 0x0a, 0x7b, 0x7d]
    (∃ values, k.query s {} none 200 = .ok values) ∧
      ¬∃ values, k.query s { level := some "info" } none 200 = .ok values := by
  intro k s
  have torn : readLine [0x7b, 0x22] = .ok none := rfl
  have number : readLine [0x35] = .ok (some (.int 5)) := rfl
  have record : readLine [0x7b, 0x7d] = .ok (some (.record [])) := rfl
  have log : k.log? none = some k.log := rfl
  have opened : IsOpen s k.log := ⟨by decide, by decide⟩
  have file : s.file? k.log.place = some ⟨_, 0⟩ := rfl
  have held : k.window.Holds 8 := (by decide : ((8 : Nat) : Int) ≤ 2097152)
  obtain ⟨lines, splits, reads⟩ := read_contents log opened file held
  obtain rfl : [[0x7b, 0x22], [0x35], [0x7b, 0x7d]] = lines := splits.eq
  constructor
  · obtain ⟨result, -, gives, legible⟩ := reads {}
    obtain ⟨values, rfl⟩ := legible.mpr <| by
      simp [Filter.Legible, stops_iff, torn, number, record, Filter.accepts]
    exact ⟨_, gives.query 200⟩
  · obtain ⟨result, -, gives, legible⟩ := reads { level := some "info" }
    rw [gives.query]
    rintro ⟨values, found⟩
    have all := legible.mp <| by
      cases result with
      | ok values => exact ⟨values, rfl⟩
      | error e => cases found
    exact all [0x35] (by simp) .shape (.foreign (finds_iff.mpr number) (by simp) (.inl rfl))

/-- A byte that is no text hides a record behind it. -/
theorem illegible_line_hides_record :
    let k : Sink := ⟨⟨false, []⟩, .standard⟩
    let s := storeOf [0xff, 0x0a, 0x7b, 0x7d, 0x0a]
    k.window.Holds 5 ∧ Finds [0x7b, 0x7d] (some (.record [])) ∧
      k.query s {} none 200 = .error .encoding :=
  ⟨(by decide : ((5 : Nat) : Int) ≤ 2097152), finds_iff.mpr rfl, rfl⟩

end

end Reckon.Log
