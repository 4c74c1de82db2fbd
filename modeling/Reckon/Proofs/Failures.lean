import Mathlib
import Reckon.Proofs.Shapes
import Reckon.Session.Batch

/-!
The rows that fail in a batch. What a run takes from the column of errors are the rows without a
value under the formula, in their order, each with the message of its failure.
-/

namespace Reckon.Session.Batch

open Formula (Arithmetic Operations)
open Table (Cells Frame Mode Records RowResult errorColumn outcomes)

/-! ### Texts and their places -/

def marked (cells : List (Option String)) : List (Nat × String) :=
  cells.zipIdx.filterMap fun (cell, place) => cell.map (place, ·)

theorem mem_marked {cells : List (Option String)} {place : Nat} {text : String} :
    (place, text) ∈ marked cells ↔ cells[place]? = some (some text) := by
  simp [marked, List.mem_filterMap, List.mem_zipIdx_iff_getElem?]

theorem pairwise_marked (cells : List (Option String)) : (marked cells).Pairwise (·.1 < ·.1) := by
  have places : cells.zipIdx.Pairwise (·.2 < ·.2) := by
    rw [← List.pairwise_map, List.zipIdx_map_snd]
    exact List.pairwise_lt_range'
  refine places.filterMap _ fun (here, place) (there, later) before found isHere next isThere => ?_
  obtain ⟨text, -, rfl⟩ := Option.map_eq_some_iff.mp isHere
  obtain ⟨text, -, rfl⟩ := Option.map_eq_some_iff.mp isThere
  exact before

theorem length_marked_le (cells : List (Option String)) : (marked cells).length ≤ cells.length :=
  (List.length_filterMap_le _ _).trans_eq List.length_zipIdx

/-! ### Failing rows -/

/-- The rows of a table under which the formula fails, with the messages of the failures. -/
structure IsFailing [Limits] (ops : Operations) (formula : String) (frame : Frame)
    (failing : List (Nat × String)) : Prop where
  ascending : failing.Pairwise (·.1 < ·.1)
  mem_iff : ∀ row message, (row, message) ∈ failing ↔
    ∃ cause, (outcomes ops formula frame)[row]? = some (.error (.evaluation cause)) ∧
      message = cause.message

theorem isFailing_of_records [Limits] {ops : Operations} {formula : String} {frame : Frame}
    {results : List RowResult}
    (recorded : List.Forall₂ Records (outcomes ops formula frame) results) :
    IsFailing ops formula frame (marked (results.map (·.2))) := by
  refine ⟨pairwise_marked _, fun row message => ?_⟩
  rw [mem_marked, List.getElem?_map]
  generalize outcomes ops formula frame = rows at recorded
  induction recorded generalizing row with
  | nil => simp
  | cons first others ih =>
    cases row with
    | succ row => exact ih row
    | zero =>
      cases first with
      | value x => simp
      | failure cause =>
        simp [eq_comm]

theorem rowErrors_eq {frame : Frame} {cells : List (Option String)}
    (errors : frame.cells? errorColumn = some (.texts cells)) : rowErrors frame = marked cells := by
  rw [rowErrors, errors]
  rfl

theorem cell?_of_texts {frame : Frame} {cells : List (Option String)}
    (errors : frame.cells? errorColumn = some (.texts cells)) (row : Nat) (message : String) :
    frame.cell? errorColumn row = some (.text message) ↔ cells[row]? = some (some message) := by
  rw [Frame.cell?, errors, Option.bind_some, Option.join_eq_some_iff, Cells.values,
    List.getElem?_map]
  rcases cells[row]? with _ | _ | text <;> simp

section

variable [Limits] {a : Arithmetic} {formula : String} {frame done : Frame} {result onError : Value}
  (shaped : frame.IsShaped)
  (evaluated : Table.evaluate a.operations formula frame result onError = .ok done)
include shaped evaluated

theorem exists_errors (chosen : Mode.ofValue? onError = some .record) :
    ∃ results : List RowResult,
      List.Forall₂ Records (outcomes a.operations formula frame) results ∧
      done.cells? errorColumn = some (.texts (results.map (·.2))) := by
  obtain ⟨name, mode, results, admits, recorded, rfl⟩ := Table.exists_results shaped evaluated
  obtain rfl : mode = .record := Option.some.inj (admits.chosen.symm.trans chosen)
  exact ⟨results, recorded, Table.cells?_withResults_errors frame name results⟩

theorem exists_values (chosen : Mode.ofValue? onError = some .raise) :
    ∃ xs : List Float, outcomes a.operations formula frame = xs.map .ok := by
  obtain ⟨name, mode, admits⟩ := Table.admits_of_evaluate evaluated
  obtain rfl : mode = .raise := Option.some.inj (admits.chosen.symm.trans chosen)
  obtain ⟨rows, reports, wrapped, same⟩ := Table.evaluate_eq (a := a) shaped admits
  obtain ⟨xs, rfl⟩ | ⟨xs, cause, rest, rfl⟩ := Table.values_or_failure rows
  · refine ⟨xs, ?_⟩
    rw [wrapped, List.map_map]
    rfl
  · rw [same, Table.rowResults_raise_error (reports (.error cause) (by simp) cause rfl)] at evaluated
    cases evaluated

theorem isFailing_failures :
    IsFailing a.operations formula frame (failures onError done) := by
  obtain ⟨name, mode, admits⟩ := Table.admits_of_evaluate evaluated
  cases mode with
  | record =>
    obtain ⟨results, recorded, errors⟩ := exists_errors shaped evaluated admits.chosen
    rw [failures, admits.chosen]
    exact rowErrors_eq errors ▸ isFailing_of_records recorded
  | raise =>
    obtain ⟨xs, values⟩ := exists_values shaped evaluated admits.chosen
    rw [failures, admits.chosen]
    refine ⟨.nil, fun row message => iff_of_false List.not_mem_nil ?_⟩
    rintro ⟨cause, failed, -⟩
    simp [values, List.getElem?_map] at failed

/-- The failures that are recorded are the cells in the column of errors. -/
theorem mem_failures_iff (chosen : Mode.ofValue? onError = some .record) (row : Nat)
    (message : String) :
    (row, message) ∈ failures onError done ↔
      done.cell? errorColumn row = some (.text message) := by
  obtain ⟨results, -, errors⟩ := exists_errors shaped evaluated chosen
  rw [failures, chosen, cell?_of_texts errors]
  exact rowErrors_eq errors ▸ mem_marked

theorem lt_height_of_mem_failures : ∀ failure ∈ failures onError done, failure.1 < frame.height := by
  rintro ⟨row, message⟩ member
  obtain ⟨cause, failed, -⟩ :=
    ((isFailing_failures shaped evaluated).mem_iff row message).mp member
  obtain ⟨inside, -⟩ := List.getElem?_eq_some_iff.mp failed
  rwa [outcomes, List.length_map, List.length_range] at inside

theorem length_failures_le : (failures onError done).length ≤ frame.height := by
  obtain ⟨name, mode, admits⟩ := Table.admits_of_evaluate evaluated
  rw [failures, admits.chosen]
  cases mode with
  | raise => exact Nat.zero_le _
  | record =>
    obtain ⟨results, recorded, errors⟩ := exists_errors shaped evaluated admits.chosen
    have fewer := length_marked_le (results.map (·.2))
    rw [← rowErrors_eq errors, List.length_map, Table.length_of_records recorded] at fewer
    exact fewer

end

end Reckon.Session.Batch
