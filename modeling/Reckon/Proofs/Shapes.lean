import Mathlib
import Reckon.Proofs.Keys
import Reckon.Proofs.Rows
import Reckon.Session.Batch

/-!
The shape of tables. In a table that is read from a file every column has a cell for each row, and
evaluating a table keeps its rows and adds what became of each of them.
-/

namespace Reckon.Table

open Formula (Arithmetic Reports bind_eq_error_iff bind_eq_ok_iff compile evaluateNamed
  mapError_eq_error_iff mapError_eq_ok_iff map_eq_ok_iff variableNames)

/-! ### Tables from files -/

namespace Csv

structure Fits (cells : Cells) (count : Nat) : Prop where
  length : cells.length = count
  wide : ∀ n, some (.int n) ∈ cells.values → n.natAbs < 2 ^ 128

section

variable {α : Type} {read? : List Char → Option α} {column : List Cell} {values : List (Option α)}

theorem convert_cons {cell : Cell} {rest : List Cell}
    (converted : convert read? (cell :: rest) = .ok values) :
    ∃ value others, values = value :: others ∧ convert read? rest = .ok others ∧
      ∀ a, value = some a → read? cell.content = some a := by
  obtain ⟨others, later, same⟩ := bind_eq_ok_iff.mp converted
  split at same
  case isTrue =>
    cases same
    exact ⟨none, others, rfl, later, nofun⟩
  case isFalse =>
    split at same
    case h_1 value read =>
      cases same
      exact ⟨some value, others, rfl, later, by rintro a ⟨⟩; exact read⟩
    case h_2 => cases same

theorem length_convert (converted : convert read? column = .ok values) :
    values.length = column.length := by
  induction column generalizing values with
  | nil =>
    cases converted
    rfl
  | cons cell rest ih =>
    obtain ⟨value, others, rfl, later, -⟩ := convert_cons converted
    rw [List.length_cons, List.length_cons, ih later]

theorem exists_of_mem_convert (converted : convert read? column = .ok values) {a : α}
    (member : some a ∈ values) : ∃ chars, read? chars = some a := by
  induction column generalizing values with
  | nil =>
    cases converted
    cases member
  | cons cell rest ih =>
    obtain ⟨value, others, rfl, later, reads⟩ := convert_cons converted
    rcases List.mem_cons.mp member with here | there
    · exact ⟨_, reads a here.symm⟩
    · exact ih later there

end

theorem natAbs_lt_of_integer? {bits : Nat} {chars : List Char} {n : Int} (narrow : bits ≤ 128)
    (read : integer? bits chars = some n) : n.natAbs < 2 ^ 128 := by
  simp only [integer?, bind, Option.bind_eq_some_iff] at read
  obtain ⟨digits, -, m, -, bounded⟩ := read
  split at bounded
  case isTrue inside =>
    cases bounded
    have power : (2 : Nat).pow (bits - 1) ≤ 2 ^ 127 :=
      Nat.pow_le_pow_right (by decide) (by omega)
    omega
  case isFalse => cases bounded

theorem fits_map_convert {α : Type} {read? : List Char → Option α} {make : List (Option α) → Cells}
    {column : List Cell} {cells : Cells} (read : (convert read? column).map make = .ok cells)
    (length : ∀ values, (make values).length = values.length)
    (wide : ∀ values n, some (.int n) ∈ (make values).values →
      (∀ a, some a ∈ values → ∃ chars, read? chars = some a) → n.natAbs < 2 ^ 128) :
    Fits cells column.length := by
  obtain ⟨values, converted, rfl⟩ := map_eq_ok_iff.mp read
  refine ⟨(length values).trans (length_convert converted), fun n member => ?_⟩
  exact wide values n member fun a => exists_of_mem_convert converted

theorem fits_typed {column : List Cell} {cells : Cells} (read : typed column = .ok cells) :
    Fits cells column.length := by
  have ofTexts : Fits (.texts (texts column)) column.length :=
    ⟨List.length_map _, by simp [Cells.values]⟩
  unfold typed at read
  dsimp only at read
  split at read
  case isTrue =>
    cases read
    exact ofTexts
  case isFalse =>
    split at read
    case isTrue =>
      refine fits_map_convert read (fun _ => rfl) fun values n member found => ?_
      obtain ⟨m, inside, same⟩ : ∃ m, some m ∈ values ∧ m = n := by
        simpa [Cells.values] using member
      obtain ⟨chars, reads⟩ := found m inside
      subst same
      refine natAbs_lt_of_integer? ?_ reads
      split <;> decide
    case isFalse =>
      split at read
      case isTrue => exact fits_map_convert read (fun _ => rfl) (by simp [Cells.values])
      case isFalse =>
        split at read
        case isTrue => exact fits_map_convert read (fun _ => rfl) (by simp [Cells.values])
        case isFalse =>
          cases read
          exact ofTexts

theorem fits_columns {names : List String} {lines : List (List Cell)} {frame : Frame}
    (read : columns names lines = .ok frame) :
    ∀ column ∈ frame, Fits column.cells lines.length := by
  induction names generalizing lines frame with
  | nil =>
    cases read
    simp
  | cons name names ih =>
    obtain ⟨cells, typed, rest⟩ := bind_eq_ok_iff.mp read
    obtain ⟨others, later, same⟩ := bind_eq_ok_iff.mp rest
    cases same
    have first := fits_typed typed
    have more := ih later
    rw [List.length_map] at first more
    exact List.forall_mem_cons.mpr ⟨first, more⟩

theorem isShaped_read {text : String} {frame : Frame} (found : read text = .ok frame) :
    frame.IsShaped := by
  unfold read at found
  dsimp only at found
  split at found
  case h_1 => cases found
  case h_2 header rows _ =>
    split at found
    case isTrue => cases found
    case isFalse =>
      split at found
      case isTrue => cases found
      case isFalse =>
        have fits := fits_columns found
        refine ⟨fun column member => ?_, fun column member => (fits column member).wide⟩
        rw [(fits column member).length]
        cases frame with
        | nil => cases member
        | cons first others => exact (fits first List.mem_cons_self).length.symm

end Csv

theorem isShaped_load [Limits] [Formats] (sound : Formats.Sound) {s : Store} {path : Store.Path}
    {frame : Frame} (loaded : load s path = .ok frame) : frame.IsShaped := by
  obtain ⟨bytes, -, decoded⟩ := bind_eq_ok_iff.mp loaded
  exact sound.table bytes frame (mapError_eq_ok_iff.mp decoded)

/-! ### Evaluated tables -/

section

variable {ops : Formula.Operations} {formula : String} {frame done : Frame}
  {result onError : Value}

/-- A table is only evaluated if the formula and the options fit it. -/
theorem admits_of_evaluate [Limits] (evaluated : evaluate ops formula frame result onError = .ok done) :
    ∃ name mode, Admits formula frame result onError name mode := by
  unfold evaluate at evaluated
  split at evaluated
  case h_2 => cases evaluated
  case h_1 mode chosen =>
    obtain ⟨⟨⟩, allowed, read⟩ := bind_eq_ok_iff.mp evaluated
    obtain ⟨tokens, compiled, present⟩ := bind_eq_ok_iff.mp read
    dsimp only at present
    split at present
    case isTrue => cases present
    case isFalse complete =>
      obtain ⟨results, -, named⟩ := bind_eq_ok_iff.mp present
      split at named
      case h_2 => cases named
      case h_1 name found =>
        refine ⟨name, mode, ⟨chosen, found, allowed⟩, ⟨_, mapError_eq_ok_iff.mp compiled⟩, ?_⟩
        simpa [List.filter_eq_nil_iff] using complete

theorem option_of_checkOptions {needed columns : List String} {mode : Mode} {e : Error}
    (refused : checkOptions needed columns result mode = .error e) : ∃ o, e = .option o := by
  have absent (failed : checkOptions.errorsAbsent columns mode = .error e) : ∃ o, e = .option o := by
    unfold checkOptions.errorsAbsent at failed
    split at failed
    case isTrue => exact ⟨_, (Except.error.inj failed).symm⟩
    case isFalse => cases failed
  unfold checkOptions at refused
  split at refused
  case h_1 name =>
    split at refused
    case isTrue => exact ⟨_, (Except.error.inj refused).symm⟩
    case isFalse =>
      split at refused
      case isTrue => exact ⟨_, (Except.error.inj refused).symm⟩
      case isFalse => exact absent refused
  case h_2 => exact absent refused

theorem row_of_rowResults [Limits] {mode : Mode} {rows : List (Except Formula.Error Float)}
    (reports : ∀ row ∈ rows, Reports row) {index : Nat} {e : Error}
    (failed : rowResults mode index rows = .error e) : ∃ i cause, e = .row i cause := by
  cases mode with
  | record =>
    obtain ⟨results, ran, -⟩ := rowResults_record reports index
    rw [ran] at failed
    cases failed
  | raise =>
    obtain ⟨xs, rfl⟩ | ⟨xs, cause, rest, rfl⟩ := values_or_failure rows
    · rw [rowResults_raise_ok] at failed
      cases failed
    · rw [rowResults_raise_error (reports (.error cause) (by simp) cause rfl)] at failed
      exact ⟨_, _, (Except.error.inj failed).symm⟩

end

theorem Frame.height_withColumn {frame : Frame} {column : Column}
    (same : column.cells.length = frame.height) :
    (frame.withColumn column).height = frame.height := by
  cases frame with
  | nil => exact same
  | cons first rest =>
    rw [Frame.withColumn]
    split
    case isTrue => exact same
    case isFalse => rfl

theorem height_withResults {frame : Frame} {results : List RowResult}
    (count : results.length = frame.height) (name : String) (mode : Mode) :
    (withResults frame name mode results).height = frame.height := by
  have values : (frame.withColumn ⟨name, .floats (results.map (·.1))⟩).height = frame.height :=
    Frame.height_withColumn ((List.length_map _).trans count)
  cases mode with
  | raise => exact values
  | record =>
    have errors : (Cells.texts (results.map (·.2))).length = frame.height :=
      (List.length_map _).trans count
    exact (Frame.height_withColumn (errors.trans values.symm)).trans values

section

variable [Limits] {a : Arithmetic} {formula : String} {frame done : Frame}
  {result onError : Value} (shaped : frame.IsShaped)
include shaped

theorem evaluation_of_evaluate {e : Formula.Error}
    (failed : evaluate a.operations formula frame result onError = .error (.formula e)) :
    ∃ cause, e = .evaluation cause := by
  -- of all that can fail, only the compilation fails with an error of the formula as a whole
  unfold evaluate at failed
  split at failed
  case h_2 => cases failed
  case h_1 mode chosen =>
    rcases bind_eq_error_iff.mp failed with refused | ⟨-, -, failed⟩
    · obtain ⟨o, same⟩ := option_of_checkOptions refused
      cases same
    · rcases bind_eq_error_iff.mp failed with unread | ⟨tokens, compiled, failed⟩
      · obtain ⟨cause, uncompiled, same⟩ := mapError_eq_error_iff.mp unread
        rw [wrap_of_isReported (Formula.reported_of_compile uncompiled)] at same
        exact ⟨cause, (Error.formula.inj same).symm⟩
      · dsimp only at failed
        split at failed
        case isTrue => cases failed
        case isFalse =>
          rcases bind_eq_error_iff.mp failed with stopped | ⟨results, -, unnamed⟩
          · rw [← computed_eq (mapError_eq_ok_iff.mp compiled) _ shaped] at stopped
            obtain ⟨i, cause, same⟩ := row_of_rowResults (reports_computed shaped) stopped
            cases same
          · split at unnamed <;> cases unnamed

/-- A table that has been evaluated has a result for each of its rows. -/
theorem exists_results {ops : Formula.Operations}
    (evaluated : evaluate ops formula frame result onError = .ok done) :
    ∃ name mode results, Admits formula frame result onError name mode ∧
      List.Forall₂ Records (outcomes ops formula frame) results ∧
      done = withResults frame name mode results := by
  obtain ⟨name, mode, admits⟩ := admits_of_evaluate evaluated
  rw [evaluate_of_admits ops shaped admits] at evaluated
  obtain ⟨results, ran, rfl⟩ := map_eq_ok_iff.mp evaluated
  refine ⟨name, mode, results, admits, ?_, rfl⟩
  rw [outcomes_eq]
  exact records_of_rowResults ran

omit shaped in
theorem length_of_records {ops : Formula.Operations} {results : List RowResult}
    (recorded : List.Forall₂ Records (outcomes ops formula frame) results) :
    results.length = frame.height := by
  rw [← recorded.length_eq, outcomes, List.length_map, List.length_range]

theorem height_of_evaluate {ops : Formula.Operations}
    (evaluated : evaluate ops formula frame result onError = .ok done) :
    done.height = frame.height := by
  obtain ⟨name, mode, results, -, recorded, rfl⟩ := exists_results shaped evaluated
  exact height_withResults (length_of_records recorded) name mode

end

end Reckon.Table

namespace Reckon.Formats

attribute [local instance] Formats.standard

theorem sound_standard : Sound where
  settings text value read := by
    simp only [readSettings] at read
    split at read
    case h_1 found =>
      obtain rfl := Except.ok.inj read
      exact Yaml.isProper_of_read? found
    case h_2 => cases read
  table bytes frame read := by
    simp only [readTable] at read
    split at read
    case h_1 => exact Table.Csv.isShaped_read read
    case h_2 => cases read

end Reckon.Formats
