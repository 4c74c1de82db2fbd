import Mathlib
import Reckon.Proofs.Contents
import Reckon.Proofs.Newest

/-!
What windows show of a log of written events. A window shows whole lines, and these are the last
ones of the log: no event is shown without all newer ones, and none in part. A wider window shows
the same lines and perhaps some more in front of them.
-/

namespace Reckon.Log

open Store (Path Place)
open Text (Bytes)

/-! ### Ends of a list -/

section

variable {α : Type} {size : α → Nat} {items part : List α}

theorem endWithin_suffix (size : α → Nat) (bound : Nat) (items : List α) :
    endWithin size bound items <:+ items :=
  (isLongestEnd_endWithin size bound items).ends

theorem endWithin_mono {lower upper : Nat} (wider : lower ≤ upper) :
    endWithin size lower items <:+ endWithin size upper items := by
  have fits := (isLongestEnd_endWithin size lower items).fits
  exact (isLongestEnd_endWithin size upper items).longest _ (endWithin_suffix size lower items)
    (fits.trans wider)

theorem endWithin_zero (positive : ∀ item ∈ items, 0 < size item) : endWithin size 0 items = [] := by
  have fits := (isLongestEnd_endWithin size 0 items).fits
  cases found : endWithin size 0 items with
  | nil => rfl
  | cons item rest =>
    have inside : item ∈ items := (endWithin_suffix size 0 items).subset (by simp [found])
    have some := positive item inside
    rw [found, List.map_cons, List.sum_cons] at fits
    omega

end

/-! ### Lines that are shown -/

theorem Call.lineLength_pos (c : Call) : 0 < c.lineLength := by
  have last : Sink.line c.event.fields =
      Text.encode (Json.compact (Json.sorted (.record c.event.fields))) ++ [10] := by
    simp only [Sink.line, Text.encode, String.toList_append, List.flatMap_append]
    rfl
  rw [Call.lineLength, last, List.length_append, List.length_singleton]
  omega

def logSize (lines : List Call) : Nat :=
  (lines.map Call.lineLength).sum

theorem eq_nil_of_logSize {lines : List Call} (empty : logSize lines = 0) : lines = [] := by
  cases lines with
  | nil => rfl
  | cons c rest =>
    have some := c.lineLength_pos
    rw [logSize, List.map_cons, List.sum_cons] at empty
    omega

namespace Window

/-- How many bytes whole lines may take in a window of so many bytes. If lines in front of them are
cut off, a line that would fill the window is taken for a cut one too. -/
def room (count : Int) (size : Nat) : Nat :=
  if (size : Int) ≤ count then count.toNat else (count - 1).toNat

/-- The lines at the end of a log that a window shows, unless it does not fit the log. -/
def shows? [Limits] (window : Window) (lines : List Call) : Option (List Call) :=
  match window with
  | .bytes count =>
    if count < 0 ∧ (Limits.place : Int) ≤ logSize lines - count then none
    else some (endWithin Call.lineLength (room count (logSize lines)) lines)
  | .bound greatest => if Float.ofNat (logSize lines) ≤ greatest then some lines else none
  | .unusable => none

variable {window : Window} {lines shown : List Call}

theorem room_mono {lower upper : Int} (wider : lower ≤ upper) (size : Nat) :
    room lower size ≤ room upper size := by
  unfold room
  split_ifs <;> omega

theorem room_le {count : Nat} (size : Nat) : room count size ≤ count := by
  unfold room
  split_ifs <;> omega

theorem suffix_of_shows? [Limits] (shows : window.shows? lines = some shown) : shown <:+ lines := by
  cases window with
  | bytes count =>
    rw [shows?, Option.ite_none_left_eq_some] at shows
    rw [← Option.some.inj shows.2]
    exact endWithin_suffix _ _ _
  | bound greatest =>
    rw [shows?, Option.ite_none_right_eq_some] at shows
    rw [← Option.some.inj shows.2]
  | unusable => cases shows

theorem endWithin_room {count : Int} (held : (logSize lines : Int) ≤ count) :
    endWithin Call.lineLength (room count (logSize lines)) lines = lines := by
  rw [room, if_pos held]
  exact endWithin_of_le ((Int.le_toNat (by omega)).mpr held)

theorem shows?_of_holds [Limits] (holds : window.Holds (logSize lines)) : window.shows? lines = some lines := by
  cases window with
  | bytes count =>
    have held : (logSize lines : Int) ≤ count := holds
    rw [shows?, if_neg (by omega), endWithin_room held]
  | bound greatest => exact if_pos holds
  | unusable => exact holds.elim

theorem shows?_of_positive [Limits] {count : Int} (positive : 1 ≤ count) (lines : List Call) :
    (Window.bytes count).shows? lines =
      some (endWithin Call.lineLength (room count (logSize lines)) lines) :=
  if_neg (by omega)

end Window

/-! ### Bytes that are read -/

section

variable [Limits] {written shown : List Call} {which : Option String}

theorem logText_filter (written : List Call) (which : Option String) :
    logText (written.filter (·.goesTo which)) which = logText written which := by
  simp [logText, List.filter_filter]

theorem length_logText_eq (written : List Call) (which : Option String) :
    (logText written which).length = logSize (written.filter (·.goesTo which)) :=
  length_logText written which

variable (proper : ∀ c ∈ written, (Value.record c.event.context).IsProper)
  (printable : ∀ c ∈ written, c.event.isPrintable = true)
include proper printable

/-- The part of a log that is read are the lines that the window shows. -/
theorem Window.tail?_eq (window : Window) (which : Option String) :
    window.tail? (logText written which) =
      (window.shows? (written.filter (·.goesTo which))).map (logText · which) := by
  have size := length_logText_eq written which
  have whole := logText_filter written which
  cases window with
  | unusable => rfl
  | bound greatest =>
    rw [tail?, shows?, size]
    split
    case isTrue => rw [Option.map_some, whole]
    case isFalse => rfl
  | bytes count =>
    by_cases held : ((logText written which).length : Int) ≤ count
    · have holds : (Window.bytes count).Holds (logSize (written.filter (·.goesTo which))) := size ▸ held
      rw [shows?_of_holds holds, Option.map_some, whole, tail?_of_holds (size ▸ holds)]
    · rw [tail?, if_neg held, shows?, ← size]
      by_cases far : count < 0 ∧ (Limits.place : Int) ≤ (logText written which).length - count
      · rw [if_pos far, if_pos far]
        rfl
      · rw [if_neg far, if_neg far, Option.map_some, room, if_neg held]
        by_cases positive : 1 ≤ count
        · obtain ⟨bytes, rfl⟩ := Int.eq_ofNat_of_zero_le (by omega : 0 ≤ count)
          have newest := tail?_logText proper printable (by omega : 1 ≤ bytes)
            (by omega : bytes < (logText written which).length)
          have one : ((bytes : Int) - 1).toNat = bytes - 1 := by omega
          rw [tail?, if_neg held, if_neg far] at newest
          rw [newest, one, Log.newest]
        · -- nothing stands behind the end of the log
          have none : (count - 1).toNat = 0 := by omega
          rw [List.drop_of_length_le (by omega), none, endWithin_zero fun c _ => c.lineLength_pos]
          rfl

end

/-! ### Events that are found -/

section

variable [Limits]

theorem found_eq_map {shown : List Call} {which : Option String}
    (own : ∀ c ∈ shown, c.goesTo which = true) :
    found shown {} which = shown.map (·.event.shown) := by
  have all : shown.filter (fun c => c.goesTo which && Filter.admits {} c.event) = shown := by
    rw [List.filter_eq_self]
    intro c member
    rw [own c member]
    rfl
  rw [found, all]

theorem gives_of_events {k : Sink} {s : Store} {which : Option String} {path : Path} {f : Filter}
    {result : Except ReadError (List Value)} (log : k.log? which = some path)
    (events : k.events s path f = result) : Gives k s which f result where
  query limit := by
    rw [Sink.query_eq log, events]
    rfl
  batch := by
    rintro rfl batch rfl
    rw [Sink.readBatch_eq log, events]

section

variable {home : Place} {s : Store} {written : List Call} {k : Sink} {which : Option String}
  {path : Path} (ledger : Ledger s home (logText written))
  (proper : ∀ c ∈ written, (Value.record c.event.context).IsProper)
  (printable : ∀ c ∈ written, c.event.isPrintable = true) (serves : Serves k s home)
  (isLog : IsLog which) (log : k.log? which = some path) (fits : path.fits = true)
include ledger proper printable serves isLog log fits

/-- The events on the lines that a window shows are found. -/
theorem Ledger.events_of_shows? {shown : List Call}
    (shows : k.window.shows? (written.filter (·.goesTo which)) = some shown) (f : Filter) :
    k.events s path f = .ok (found shown f which) := by
  have inside : ∀ c ∈ shown, c ∈ written := fun c member =>
    List.mem_of_mem_filter ((Window.suffix_of_shows? shows).subset member)
  have seen : k.window.tail? (logText written which) = some (logText shown which) := by
    rw [Window.tail?_eq proper printable, shows]
    rfl
  exact ledger.events_of_tail (fun c member => proper c (inside c member))
    (fun c member => printable c (inside c member)) serves isLog log fits seen f

/-- A reader finds events on the last lines of a log, unless there is a log that its window
misfits. -/
theorem Ledger.events_cases (f : Filter) :
    let lines := written.filter (·.goesTo which)
    let misfits := s.has (logPlace home which) = true ∧
      k.window.tail? (s.content (logPlace home which)) = none
    (¬ misfits ∧ ∃ shown, shown <:+ lines ∧ (k.window.Holds (logSize lines) → shown = lines) ∧
        k.events s path f = .ok (found shown f which)) ∨
      misfits ∧ ∃ e, k.events s path f = .error e := by
  intro lines misfits
  have place := serves.place_of_log? isLog log
  have kept := ledger.kept which isLog
  have sight := ledger.exists?_eq serves isLog log fits
  cases file : s.file? path.place with
  | none =>
    have absent : s.isFile path.place = false := by rw [Store.isFile, file]; rfl
    have missing : s.has (logPlace home which) = false := by
      rw [Store.has, ← place, absent, place, ledger.free which isLog]
      rfl
    have empty : lines = [] := by
      have nothing : logText written which = [] := by simp [← kept, Store.content, ← place, file]
      have size := length_logText_eq written which
      rw [nothing] at size
      exact eq_nil_of_logSize size.symm
    rw [absent] at sight
    refine .inl ⟨fun misfits => Bool.false_ne_true (missing.symm.trans misfits.1), [],
      List.nil_suffix, fun _ => empty.symm, Sink.events_of_absent sight f⟩
  | some stored =>
    have there : s.isFile path.place = true := by rw [Store.isFile, file]; rfl
    have present : s.has (logPlace home which) = true := by simp [Store.has, ← place, there]
    have content : s.content (logPlace home which) = stored.content := by
      simp [Store.content, ← place, file]
    have seen := Window.tail?_eq proper printable k.window which
    rw [← kept] at seen
    cases shows : k.window.shows? lines with
    | none =>
      have none : k.window.tail? (s.content (logPlace home which)) = none := by rw [seen, shows]; rfl
      refine .inr ⟨⟨present, none⟩, .window k.window, ?_⟩
      rw [content] at none
      rw [Sink.events_eq (ledger.isOpen serves isLog log fits there) file, none]
    | some shown =>
      have fitting : ¬ misfits := by
        rintro ⟨-, nothing⟩
        rw [seen, shows] at nothing
        cases nothing
      refine .inl ⟨fitting, shown, Window.suffix_of_shows? shows, fun holds => ?_,
        ledger.events_of_shows? proper printable serves isLog log fits shows f⟩
      exact Option.some.inj (shows.symm.trans (Window.shows?_of_holds holds))

end

/-- Which lines of a log are shown by the number of bytes that are read: the last ones that fit, and
each of them whole. -/
structure ShowsEnds (after : Store) (home : Place) (which : Option String) (lines : List Call)
    (shown : Nat → List Call) : Prop where
  /-- The part of the log that is read are these lines, and the events on them are found. -/
  read : ∀ count : Nat, 1 ≤ count → ∀ reader : Sink, Serves reader after home →
    reader.fits which = true → reader.window = .bytes count →
    reader.window.tail? (after.content (logPlace home which)) = some (logText (shown count) which) ∧
      ∀ f, Gives reader after which f (.ok (found (shown count) f which))
  /-- Without a filter every event on the lines is found, with all its fields. -/
  whole : ∀ count, found (shown count) {} which = (shown count).map (·.event.shown) ∧
    ∀ c ∈ shown count, Value.Same c.event.shown (.record c.event.fields)
  ends : ∀ count, shown count <:+ lines
  fits : ∀ count, ((shown count).map Call.lineLength).sum ≤ count
  nested : ∀ lower upper, lower ≤ upper → shown lower <:+ shown upper
  /-- All lines are shown if they fit, and otherwise the most that leave a byte to spare. -/
  longest : ∀ count,
    let size := (after.content (logPlace home which)).length
    (size ≤ count → shown count = lines) ∧
      (count < size → IsLongestEnd Call.lineLength (count - 1) lines (shown count))

/-- A bounded read of a log of written events never shows a piece of a line, and no event without
all newer ones; and what is read with a greater bound ends with what is read with a lower one. -/
theorem windows_show_ends {home : Place} {s : Store} {calls : List Call}
    (unlogged : Unlogged s home) (here : ∀ c ∈ calls, Serves c.sink s home)
    (proper : ∀ c ∈ calls, (Value.record c.event.context).IsProper)
    {which : Option String} (isLog : IsLog which) :
    ∃ shown, ShowsEnds (writeAll s calls).1 home which
      ((printed calls).filter (·.goesTo which)) shown := by
  obtain ⟨ledger, proper', printable, -⟩ := unlogged.wrote here proper
  let lines := (printed calls).filter (·.goesTo which)
  have ends (count : Nat) := endWithin_suffix Call.lineLength (Window.room count (logSize lines)) lines
  have kept := ledger.kept which isLog
  refine ⟨fun count => endWithin Call.lineLength (Window.room count (logSize lines)) lines, ?_⟩
  constructor
  case read =>
    intro count positive reader serves fits window
    have shows := Window.shows?_of_positive (by omega : (1 : Int) ≤ count) lines
    rw [← window] at shows
    obtain ⟨folder, name, log, -⟩ := reader.log?_eq isLog
    rw [Sink.fits_eq log] at fits
    refine ⟨?_, fun f => gives_of_events log ?_⟩
    · rw [kept, Window.tail?_eq proper' printable, shows]
      rfl
    · exact ledger.events_of_shows? proper' printable serves isLog log fits shows f
  case whole =>
    intro count
    have inside := (ends count).subset
    refine ⟨found_eq_map fun c member => (List.mem_filter.mp (inside member)).2, ?_⟩
    intro c member
    have old := List.mem_of_mem_filter (inside member)
    exact Event.same_shown (proper' c old) (printable c old)
  case ends => exact ends
  case fits =>
    intro count
    exact (isLongestEnd_endWithin _ _ _).fits.trans (Window.room_le _)
  case nested =>
    intro lower upper wider
    exact endWithin_mono (Window.room_mono (Int.ofNat_le.mpr wider) _)
  case longest =>
    intro count
    dsimp only
    rw [kept, length_logText_eq]
    refine ⟨fun held => Window.endWithin_room (Int.ofNat_le.mpr held), fun cut => ?_⟩
    have short : count < logSize lines := cut
    have room : Window.room count (logSize lines) = count - 1 := by
      rw [Window.room, if_neg (by omega)]
      omega
    rw [room]
    exact isLongestEnd_endWithin _ _ _

end

section

attribute [local instance] Limits.standard

/-- With room for both lines but one byte, only the newer event is found. -/
theorem windows_show_ends_numbered :
    let reader (count : Nat) : Sink := ⟨⟨false, []⟩, .bytes count⟩
    let after := (writeAll {} numberedCalls).1
    (reader 331).query after {} none 200 = .ok [(numberedCall 2).event.shown] ∧
      (reader 332).query after {} none 200 =
        .ok [(numberedCall 2).event.shown, (numberedCall 1).event.shown] := by
  intro reader after
  obtain ⟨shown, shows⟩ :=
    windows_show_ends (unlogged_empty []) serves_numberedCalls isProper_numberedCalls isLog_own
  have size : (after.content (logPlace [] none)).length = 332 := by
    rw [ledger_numberedCalls.kept none isLog_own, length_logText_numberedCalls]
  rw [printed_numberedCalls, filter_goesTo_numberedCalls] at shows
  have both : shown 332 = numberedCalls := (shows.longest 332).1 size.le
  have newer : shown 331 = [numberedCall 2] := by
    have longest := (shows.longest 331).2 (by rw [size]; decide)
    exact newest_numberedCalls.1 ▸ longest.eq (isLongestEnd_endWithin _ _ _)
  have found (count : Nat) (positive : 1 ≤ count) :
      (reader count).query after {} none 200 =
        .ok (takeInt 200 ((shown count).map (·.event.shown)).reverse) := by
    have serves : Serves (reader count) after [] := serves_of_straight List.not_mem_nil
    have fits : (reader count).fits none = true :=
      (by decide : (⟨⟨false, []⟩, .standard⟩ : Sink).fits none = true)
    rw [((shows.read count positive (reader count) serves fits rfl).2 {}).query,
      (shows.whole count).1]
    rfl
  rw [found 331 (by decide), found 332 (by decide), both, newer]
  exact ⟨rfl, rfl⟩

end

end Reckon.Log
