import Mathlib
import Reckon.Proofs.History

/-!
The newest events of a log. A reader whose window is shorter than the log is shown whole lines only,
the last ones that fit. A line that starts just where the window starts is taken for a cut one, so
lines that fill the window to the last byte are not all shown.
-/

namespace Reckon.Log

open Store (Place)
open Text (Bytes)

/-! ### The longest end within a bound -/

section

variable {α β : Type} {size : α → Nat} {bound : Nat} {items part other : List α}

structure IsLongestEnd (size : α → Nat) (bound : Nat) (items part : List α) : Prop where
  ends : part <:+ items
  fits : (part.map size).sum ≤ bound
  longest : ∀ other, other <:+ items → (other.map size).sum ≤ bound → other <:+ part

def endWithin (size : α → Nat) (bound : Nat) : List α → List α
  | [] => []
  | a :: rest =>
    if ((a :: rest).map size).sum ≤ bound then a :: rest else endWithin size bound rest

theorem endWithin_of_le (fits : (items.map size).sum ≤ bound) :
    endWithin size bound items = items := by
  cases items with
  | nil => rfl
  | cons a rest => exact if_pos fits

theorem endWithin_cons_of_lt {a : α} (long : bound < ((a :: items).map size).sum) :
    endWithin size bound (a :: items) = endWithin size bound items :=
  if_neg (Nat.not_le_of_lt long)

theorem isLongestEnd_endWithin (size : α → Nat) (bound : Nat) (items : List α) :
    IsLongestEnd size bound items (endWithin size bound items) := by
  induction items with
  | nil => exact ⟨List.suffix_rfl, Nat.zero_le _, fun _ ends _ => ends⟩
  | cons a rest ih =>
    by_cases fits : ((a :: rest).map size).sum ≤ bound
    · rw [endWithin_of_le fits]
      exact ⟨List.suffix_rfl, fits, fun _ ends _ => ends⟩
    · rw [endWithin_cons_of_lt (Nat.lt_of_not_le fits)]
      refine ⟨ih.ends.trans (List.suffix_cons a rest), ih.fits, fun other ends fits' => ?_⟩
      rcases List.suffix_cons_iff.mp ends with rfl | shorter
      · exact absurd fits' fits
      · exact ih.longest other shorter fits'

theorem map_endWithin (f : α → β) (size : β → Nat) (bound : Nat) (items : List α) :
    (endWithin (size ∘ f) bound items).map f = endWithin size bound (items.map f) := by
  induction items with
  | nil => rfl
  | cons a rest ih =>
    have sums : ((a :: rest).map (size ∘ f)).sum = ((f a :: rest.map f).map size).sum := by
      rw [← List.map_cons, List.map_map]
    rw [List.map_cons]
    by_cases fits : ((a :: rest).map (size ∘ f)).sum ≤ bound
    · rw [endWithin_of_le fits, endWithin_of_le (sums ▸ fits), List.map_cons]
    · have long := Nat.lt_of_not_le fits
      rw [endWithin_cons_of_lt long, endWithin_cons_of_lt (sums ▸ long), ih]

theorem endWithin_congr {other : α → Nat} (same : ∀ a ∈ items, size a = other a) :
    endWithin size bound items = endWithin other bound items := by
  induction items with
  | nil => rfl
  | cons a rest ih =>
    have sums : ((a :: rest).map size).sum = ((a :: rest).map other).sum :=
      congrArg List.sum (List.map_congr_left same)
    rw [endWithin, endWithin, sums, ih (List.forall_mem_cons.mp same).2]

theorem IsLongestEnd.eq (first : IsLongestEnd size bound items part)
    (second : IsLongestEnd size bound items other) : part = other := by
  have near := second.longest part first.ends first.fits
  have far := first.longest other second.ends second.fits
  exact near.eq_of_length (Nat.le_antisymm near.length_le far.length_le)

theorem sum_le_of_suffix (size : α → Nat) (ends : part <:+ items) :
    (part.map size).sum ≤ (items.map size).sum := by
  obtain ⟨front, rfl⟩ := ends
  rw [List.map_append, List.sum_append]
  exact Nat.le_add_left _ _

/-- A bound that is lower by one makes no difference unless some end reaches the bound. -/
theorem isLongestEnd_pred_iff (positive : 0 < bound)
    (longest : IsLongestEnd size (bound - 1) items part) :
    IsLongestEnd size bound items part ↔
      ∀ other, other <:+ items → (other.map size).sum ≠ bound := by
  constructor
  · -- an end that reaches the bound is no part of one that stays below it
    intro full other ends reached
    have inside := sum_le_of_suffix size (full.longest other ends reached.le)
    have fits := longest.fits
    omega
  · intro missed
    refine ⟨longest.ends, longest.fits.trans (Nat.sub_le _ _), fun other ends fits => ?_⟩
    have apart := missed other ends
    exact longest.longest other ends (by omega)

end

/-! ### The lines that a window shows -/

theorem afterLineBreak_append {body : Bytes} (inner : ∀ b ∈ body, IsInner b) (rest : Bytes) :
    Window.afterLineBreak (body ++ 10 :: rest) = rest := by
  have skipped : (body ++ 10 :: rest).dropWhile (· ≠ 10) = 10 :: rest := by
    rw [List.dropWhile_append_of_pos fun b member => by simpa using (inner b member).1]
    rfl
  rw [Window.afterLineBreak, skipped]

/-- Behind a place within some lines, what comes after the first line break are the lines that start
later. -/
theorem afterLineBreak_drop {bodies : List Bytes} (inner : ∀ body ∈ bodies, ∀ b ∈ body, IsInner b)
    {start : Nat} (within : start < (bodies.flatMap (· ++ [10])).length) :
    Window.afterLineBreak ((bodies.flatMap (· ++ [10])).drop start) =
      (endWithin (·.length + 1) ((bodies.flatMap (· ++ [10])).length - start - 1) bodies).flatMap
        (· ++ [10]) := by
  have total (lines : List Bytes) :
      (lines.map (·.length + 1)).sum = (lines.flatMap (· ++ [10])).length := by
    simp [List.length_flatMap]
  induction bodies generalizing start with
  | nil => exact absurd within (Nat.not_lt_zero _)
  | cons body rest ih =>
    obtain ⟨first, others⟩ := List.forall_mem_cons.mp inner
    have length : ((body :: rest).flatMap (· ++ [10])).length =
        body.length + 1 + (rest.flatMap (· ++ [10])).length := by
      rw [← total, ← total, List.map_cons, List.sum_cons]
    rw [length] at within ⊢
    have cut : endWithin (·.length + 1)
        (body.length + 1 + (rest.flatMap (· ++ [10])).length - start - 1) (body :: rest) =
        endWithin (·.length + 1)
          (body.length + 1 + (rest.flatMap (· ++ [10])).length - start - 1) rest := by
      refine endWithin_cons_of_lt ?_
      rw [total, length]
      omega
    rw [cut, List.flatMap_cons, List.append_assoc, List.singleton_append]
    by_cases here : start ≤ body.length
    · -- the place is in the first line, and all the others start later
      have later : ∀ b ∈ body.drop start, IsInner b :=
        fun b member => first b (List.mem_of_mem_drop member)
      rw [List.drop_append_of_le_length here, afterLineBreak_append later, endWithin_of_le]
      rw [total]
      omega
    · obtain ⟨ahead, rfl⟩ : ∃ ahead, start = body.length + 1 + ahead :=
        ⟨start - (body.length + 1), by omega⟩
      have behind : (body ++ 10 :: rest.flatMap (· ++ [10])).drop (body.length + 1 + ahead) =
          (rest.flatMap (· ++ [10])).drop ahead := by
        rw [← List.drop_drop, List.append_cons, List.drop_left' (by simp)]
      rw [behind, ih others (by omega)]
      congr 3
      omega

def Call.lineLength (c : Call) : Nat :=
  (Sink.line c.event.fields).length

section

variable [Limits]

theorem length_logText (written : List Call) (which : Option String) :
    (logText written which).length =
      ((written.filter (·.goesTo which)).map Call.lineLength).sum := by
  rw [logText, List.length_flatMap]
  rfl

def newest (bound : Nat) (written : List Call) (which : Option String) : List Call :=
  endWithin Call.lineLength bound (written.filter (·.goesTo which))

theorem filter_newest (bound : Nat) (written : List Call) (which : Option String) :
    (newest bound written which).filter (·.goesTo which) = newest bound written which := by
  rw [List.filter_eq_self]
  intro c member
  have inside := (isLongestEnd_endWithin _ _ _).ends.subset member
  exact (List.mem_filter.mp inside).2

section

variable {written : List Call} {which : Option String}
  (proper : ∀ c ∈ written, (Value.record c.event.context).IsProper)
  (printable : ∀ c ∈ written, c.event.isPrintable = true)
include proper printable

theorem bodies_newest (bound : Nat) (which : Option String) :
    bodies (newest bound written which) which =
      endWithin (·.length + 1) bound (bodies written which) := by
  have lengths : ∀ c ∈ written.filter (·.goesTo which),
      c.lineLength = ((·.length + 1) ∘ fun c : Call => body c.event.shown) c := by
    intro c member
    have inside := (List.mem_filter.mp member).1
    have line : Sink.line c.event.fields = body c.event.shown ++ [10] :=
      encode_line (Event.isLossless_shown (proper c inside) (printable c inside))
    rw [Call.lineLength, line, List.length_append]
    rfl
  rw [bodies, filter_newest, newest, endWithin_congr lengths, map_endWithin, bodies]

/-- A window that is too short for a log shows the lines that fit with a byte to spare. -/
theorem tail?_logText {count : Nat} (positive : 1 ≤ count)
    (short : count < (logText written which).length) :
    Window.tail? (.bytes count) (logText written which) =
      some (logText (newest (count - 1) written which) which) := by
  have inside : ∀ c ∈ newest (count - 1) written which, c ∈ written := by
    intro c member
    exact (List.mem_filter.mp ((isLongestEnd_endWithin _ _ _).ends.subset member)).1
  have seen := logText_eq (fun c member => proper c (inside c member))
    (fun c member => printable c (inside c member)) which
  have start : ((logText written which).length - (count : Int)).toNat =
      (logText written which).length - count := by omega
  rw [Window.tail?, if_neg (by omega), if_neg (by omega), start, seen,
    bodies_newest proper printable]
  rw [logText_eq proper printable] at short ⊢
  rw [afterLineBreak_drop (isInner_bodies proper printable which) (by omega)]
  congr 3
  omega

end

/-! ### Reading the newest events -/

/-- A reader finds the events on some last lines of a log, through a query or, if the log is that of
a batch, all at once. -/
structure Reads (reader : Sink) (s : Store) (which : Option String) (shown : List Call) : Prop where
  query : ∀ (f : Filter) (limit : Int), 0 ≤ limit →
    reader.query s f which limit = .ok ((found shown f which).reverse.take (min limit 2000).toNat)
  batch : ∀ batch, which = some batch → reader.readBatch s batch = .ok (found shown {} which)

section

variable {home : Place} {s : Store} {written : List Call} {reader : Sink} {which : Option String}
  (proper : ∀ c ∈ written, (Value.record c.event.context).IsProper)
  (printable : ∀ c ∈ written, c.event.isPrintable = true)
include proper printable

theorem Ledger.reads {shown : List Call} (ledger : Ledger s home (logText written))
    (serves : Serves reader s home) (isLog : IsLog which) (fits : reader.fits which = true)
    (inside : ∀ c ∈ shown, c ∈ written)
    (seen : reader.window.tail? (logText written which) = some (logText shown which)) :
    Reads reader s which shown where
  query f limit countable :=
    ledger.query_of_tail (fun c member => proper c (inside c member))
      (fun c member => printable c (inside c member)) serves isLog fits seen f countable
  batch := by
    rintro batch rfl
    exact ledger.readBatch_of_tail (fun c member => proper c (inside c member))
      (fun c member => printable c (inside c member)) serves isLog fits seen

theorem Ledger.reads_all (ledger : Ledger s home (logText written))
    (serves : Serves reader s home) (isLog : IsLog which) (fits : reader.fits which = true)
    {count : Nat} (window : reader.window = .bytes count)
    (held : (logText written which).length ≤ count) :
    Reads reader s which (written.filter (·.goesTo which)) := by
  refine ledger.reads proper printable serves isLog fits (fun _ => List.mem_of_mem_filter) ?_
  have same : logText (written.filter (·.goesTo which)) which = logText written which := by
    simp [logText, List.filter_filter]
  rw [same, window]
  exact Window.tail?_of_holds (Int.ofNat_le.mpr held)

theorem Ledger.reads_newest (ledger : Ledger s home (logText written))
    (serves : Serves reader s home) (isLog : IsLog which) (fits : reader.fits which = true)
    {count : Nat} (window : reader.window = .bytes count) (positive : 1 ≤ count)
    (short : count < (logText written which).length) :
    Reads reader s which (newest (count - 1) written which) := by
  refine ledger.reads proper printable serves isLog fits (fun c member => ?_) ?_
  · exact List.mem_of_mem_filter ((isLongestEnd_endWithin _ _ _).ends.subset member)
  · rw [window]
    exact tail?_logText proper printable positive short

end

/-- What a reader finds in a log of written events. All of the log is found if the window holds it.
A shorter window shows the most lines of the end of the log that leave one of its bytes free, and
these are the most that fit unless some lines fill it to the last byte. -/
theorem read_newest {home : Place} {s : Store} {calls : List Call} {reader : Sink}
    (unlogged : Unlogged s home) (here : ∀ c ∈ calls, Serves c.sink s home)
    (proper : ∀ c ∈ calls, (Value.record c.event.context).IsProper)
    (there : Serves reader s home) {count : Nat} (window : reader.window = .bytes count)
    (positive : 1 ≤ count) {which : Option String} (isLog : IsLog which)
    (fits : reader.fits which = true) :
    let after := (writeAll s calls).1
    ∃ shown : List Call, Reads reader after which shown ∧
      let lines := (printed calls).filter (·.goesTo which)
      let size := (after.content (logPlace home which)).length
      (size ≤ count → shown = lines) ∧
      (count < size → IsLongestEnd Call.lineLength (count - 1) lines shown) ∧
      (IsLongestEnd Call.lineLength count lines shown ↔
        size ≤ count ∨ ∀ part, part <:+ lines → (part.map Call.lineLength).sum ≠ count) := by
  intro after
  obtain ⟨ledger, proper', printable, serving⟩ := unlogged.wrote here proper
  have serves : Serves reader after home := serving reader there
  rw [ledger.kept which isLog]
  generalize printed calls = written at *
  have size := length_logText written which
  by_cases held : (logText written which).length ≤ count
  · refine ⟨_, ledger.reads_all proper' printable serves isLog fits window held, fun _ => rfl,
      fun short => absurd held (Nat.not_le_of_lt short), ?_⟩
    exact iff_of_true ⟨List.suffix_rfl, size ▸ held, fun _ ends _ => ends⟩ (.inl held)
  · have short := Nat.lt_of_not_le held
    have longest := isLongestEnd_endWithin Call.lineLength (count - 1)
      (written.filter (·.goesTo which))
    refine ⟨_, ledger.reads_newest proper' printable serves isLog fits window positive short,
      fun all => absurd all held, fun _ => longest, ?_⟩
    rw [or_iff_right held]
    exact isLongestEnd_pred_iff positive longest

end

section

attribute [local instance] Limits.standard

def numberedCall (n : Nat) : Call where
  sink := ⟨⟨false, []⟩, .standard⟩
  event := {
    time := "2024-01-01T00:00:00.000000Z"
    level := .info
    topic := .evalCompleted
    context := [("n", .int n)]
    message := s!"m{n}" }

def numberedCalls : List Call :=
  [numberedCall 1, numberedCall 2]

theorem isProper_numberedCalls :
    ∀ c ∈ numberedCalls, (Value.record c.event.context).IsProper := by
  have proper (n : Nat) : (Value.record (numberedCall n).event.context).IsProper :=
    .record (by simpa [numberedCall] using .int _) (by simp [numberedCall])
  simp [numberedCalls, proper]

theorem isPrintable_numberedCalls : ∀ c ∈ numberedCalls, c.event.isPrintable = true := by
  decide +kernel

theorem lineLength_numberedCalls : ∀ c ∈ numberedCalls, c.lineLength = 166 := by
  decide +kernel

theorem printed_numberedCalls : printed numberedCalls = numberedCalls :=
  List.filter_eq_self.mpr isPrintable_numberedCalls

theorem serves_numberedCalls : ∀ c ∈ numberedCalls, Serves c.sink {} [] := by
  simp only [numberedCalls, List.forall_mem_cons]
  exact ⟨serves_of_straight (by decide), serves_of_straight (by decide), by simp⟩

theorem ledger_numberedCalls :
    Ledger (writeAll {} numberedCalls).1 [] (logText numberedCalls) := by
  have wrote := ((unlogged_empty []).wrote serves_numberedCalls isProper_numberedCalls).1
  rwa [printed_numberedCalls] at wrote

theorem filter_goesTo_numberedCalls : numberedCalls.filter (·.goesTo none) = numberedCalls :=
  List.filter_eq_self.mpr (by decide +kernel)

theorem length_logText_numberedCalls : (logText numberedCalls none).length = 332 := by
  have own := filter_goesTo_numberedCalls
  have lengths : numberedCalls.map Call.lineLength = numberedCalls.map fun _ => 166 :=
    List.map_congr_left lineLength_numberedCalls
  rw [length_logText, own, lengths]
  rfl

theorem newest_numberedCalls :
    newest 330 numberedCalls none = [numberedCall 2] ∧ newest 165 numberedCalls none = [] := by
  have own := filter_goesTo_numberedCalls
  have lengths := lineLength_numberedCalls
  simp only [numberedCalls, List.forall_mem_cons] at own lengths
  simp [newest, numberedCalls, own, endWithin, lengths.1, lengths.2.1]

/-- With a window that is a byte shorter than both lines, the newer one is shown. -/
theorem read_newest_numbered :
    let reader : Sink := ⟨⟨false, []⟩, .bytes 331⟩
    let after := (writeAll {} numberedCalls).1
    reader.query after {} none 200 = .ok [(numberedCall 2).event.shown] := by
  intro reader after
  have there : Serves reader {} [] := serves_of_straight (by decide)
  have window : reader.window = .bytes (331 : Nat) := rfl
  obtain ⟨shown, reads, -, longest, -⟩ :=
    read_newest (unlogged_empty []) serves_numberedCalls isProper_numberedCalls there window
      (by decide) isLog_own (by decide)
  have size : (after.content (logPlace [] none)).length = 332 := by
    rw [ledger_numberedCalls.kept none isLog_own, length_logText_numberedCalls]
  have last := longest (by rw [size]; decide)
  rw [printed_numberedCalls] at last
  obtain rfl : shown = [numberedCall 2] :=
    newest_numberedCalls.1 ▸ last.eq (isLongestEnd_endWithin _ _ _)
  have goes : (numberedCall 2).goesTo none = true := by decide
  have one : found [numberedCall 2] {} none = [(numberedCall 2).event.shown] := by
    simp [found, goes, Filter.admits]
  rw [reads.query {} 200 (by decide), one]
  rfl

/-- A line that is as long as the window is not shown. -/
theorem newest_line_not_shown :
    let reader : Sink := ⟨⟨false, []⟩, .bytes 166⟩
    let after := (writeAll {} numberedCalls).1
    (numberedCall 2).lineLength = 166 ∧ reader.query after {} none 200 = .ok [] := by
  intro reader after
  have serves : Serves reader after [] := serves_of_straight (by decide)
  have window : reader.window = .bytes (166 : Nat) := rfl
  have reads := ledger_numberedCalls.reads_newest isProper_numberedCalls isPrintable_numberedCalls
    serves isLog_own (by decide) window (by decide) (by rw [length_logText_numberedCalls]; decide)
  rw [newest_numberedCalls.2] at reads
  exact ⟨lineLength_numberedCalls _ (by simp [numberedCalls]), reads.query {} 200 (by decide)⟩

end

end Reckon.Log
