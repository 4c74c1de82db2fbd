import Mathlib
import Reckon.Proofs.Naming
import Reckon.Proofs.Shapes

/-!
What an evaluation leaves of a table as it was. The results take the place of a column of their own
name or come behind all others, and the messages of failures come last. A column that the formula
reads is never one of them, for the options with which it would be are refused.
-/

namespace Reckon.Formula

theorem ne_empty_of_mem_names {chars : List Char} {name : String} (member : name ∈ names chars) :
    name ≠ "" := by
  fun_induction names chars with
  | case1 => cases member
  | case2 c rest letter ih =>
    rcases List.mem_cons.mp member with rfl | later
    · simp
    · exact ih later
  | case3 c rest other ih => exact ih member

theorem ne_empty_of_mem_variableNames {formula name : String}
    (member : name ∈ variableNames formula) : name ≠ "" :=
  ne_empty_of_mem_names (List.mem_filter.mp (mem_sortNames.mp member)).1

end Reckon.Formula

namespace Reckon.Table

open Formula (Operations variableNames)

/-! ### A column more -/

namespace Frame

variable {f : Frame} {column other : Column} {i : Nat}

theorem length_names (f : Frame) : f.names.length = f.length :=
  List.length_map _

theorem getElem?_names (f : Frame) (i : Nat) : f.names[i]? = f[i]?.map (·.name) :=
  List.getElem?_map

theorem withColumn_of_mem (present : column.name ∈ f.names) :
    f.withColumn column = f.set (f.names.idxOf column.name) column := by
  induction f with
  | nil => cases present
  | cons first rest ih =>
    rw [withColumn]
    by_cases same : first.name = column.name
    · simp [names, same]
    · have later : column.name ∈ Frame.names rest := by simpa [names, Ne.symm same] using present
      have place : (Frame.names (first :: rest)).idxOf column.name =
          (Frame.names rest).idxOf column.name + 1 := List.idxOf_cons_ne _ same
      rw [if_neg same, ih later, place, List.set_cons_succ]

theorem withColumn_of_not_mem (absent : column.name ∉ f.names) :
    f.withColumn column = f ++ [column] := by
  induction f with
  | nil => rfl
  | cons first rest ih =>
    obtain ⟨different, absent⟩ := not_or.mp (mt List.mem_cons.mpr absent)
    rw [withColumn, if_neg (Ne.symm different), ih absent, List.cons_append]

theorem names_withColumn :
    (f.withColumn column).names =
      if column.name ∈ f.names then f.names else f.names ++ [column.name] := by
  split
  case isTrue present =>
    have inside := List.idxOf_lt_length_iff.mpr present
    have named : f.names[f.names.idxOf column.name] = column.name := List.getElem_idxOf inside
    rw [withColumn_of_mem present]
    calc Frame.names (f.set (f.names.idxOf column.name) column)
        = f.names.set (f.names.idxOf column.name) column.name := List.map_set
      _ = f.names.set (f.names.idxOf column.name) f.names[f.names.idxOf column.name] := by rw [named]
      _ = f.names := List.set_getElem_self inside
  case isFalse absent =>
    rw [withColumn_of_not_mem absent, names, List.map_append]
    rfl

theorem getElem?_withColumn_of_ne (here : f[i]? = some other) (different : other.name ≠ column.name) :
    (f.withColumn column)[i]? = some other := by
  by_cases present : column.name ∈ f.names
  · have elsewhere : f.names.idxOf column.name ≠ i := by
      rintro rfl
      have named := List.getElem?_idxOf present
      rw [getElem?_names, here] at named
      exact different (Option.some.inj named)
    rw [withColumn_of_mem present, List.getElem?_set_ne elsewhere, here]
  · obtain ⟨inside, -⟩ := List.getElem?_eq_some_iff.mp here
    rw [withColumn_of_not_mem present, List.getElem?_append_left inside, here]

theorem getElem?_withColumn_self :
    (f.withColumn column)[f.names.idxOf column.name]? = some column := by
  by_cases present : column.name ∈ f.names
  · have inside := List.idxOf_lt_length_iff.mpr present
    rw [length_names] at inside
    rw [withColumn_of_mem present]
    exact List.getElem?_set_self inside
  · have behind := List.idxOf_eq_length_iff.mpr present
    rw [withColumn_of_not_mem present, behind, length_names, List.getElem?_concat_length]

theorem mem_of_mem_withColumn (member : other ∈ f.withColumn column) : other ∈ f ∨ other = column := by
  by_cases present : column.name ∈ f.names
  · rw [withColumn_of_mem present] at member
    exact List.mem_or_eq_of_mem_set member
  · rw [withColumn_of_not_mem present] at member
    simpa using member

theorem IsShaped.withColumn (shaped : f.IsShaped) (same : column.cells.length = f.height)
    (wide : ∀ n, some (.int n) ∈ column.cells.values → n.natAbs < 2 ^ 128) :
    (f.withColumn column).IsShaped := by
  constructor
  · intro other member
    rw [height_withColumn same]
    rcases mem_of_mem_withColumn member with old | rfl
    · exact shaped.height other old
    · exact same
  · intro other member
    rcases mem_of_mem_withColumn member with old | rfl
    · exact shaped.wide other old
    · exact wide

theorem cell?_of_values {α : Type} {g : α → Value} {cells : Cells} {entries : List (Option α)}
    {name : String} (found : f.cells? name = some cells)
    (values : cells.values = entries.map (·.map g)) (row : Nat) :
    f.cell? name row = entries[row]?.join.map g := by
  rw [cell?, found, Option.bind_some, values, List.getElem?_map]
  rcases entries[row]? with _ | _ | entry <;> rfl

end Frame

/-! ### Results and errors -/

def errorColumns (mode : Mode) (results : List RowResult) : Frame :=
  match mode with
  | .raise => []
  | .record => [⟨errorColumn, .texts (results.map (·.2))⟩]

section

variable {formula : String} {frame : Frame} {result onError : Value} {name : String} {mode : Mode}
  (admits : Admits formula frame result onError name mode)
include admits

theorem Admits.name_not_mem : name ∉ variableNames formula := by
  have named := admits.named
  cases result with
  | text given =>
    cases named
    exact ((accepted_of_checkOptions admits.allowed).2 name rfl).1
  | null =>
    cases named
    exact fun member => Formula.ne_empty_of_mem_variableNames member rfl
  | _ => cases named

theorem Admits.withResults_eq (results : List RowResult) :
    withResults frame name mode results =
      frame.withColumn ⟨name, .floats (results.map (·.1))⟩ ++ errorColumns mode results := by
  cases mode with
  | raise => exact (List.append_nil _).symm
  | record =>
    have absent := (accepted_of_checkOptions admits.allowed).1 rfl
    refine Frame.withColumn_of_not_mem ?_
    rw [Frame.names_withColumn]
    split
    case isTrue => exact absent
    case isFalse =>
      rw [List.mem_append, List.mem_singleton]
      exact not_or.mpr ⟨absent, Ne.symm admits.name_ne⟩

theorem Admits.getElem?_withResults {results : List RowResult} {i : Nat} {column : Column}
    (here : (frame.withColumn ⟨name, .floats (results.map (·.1))⟩)[i]? = some column) :
    (withResults frame name mode results)[i]? = some column := by
  obtain ⟨inside, -⟩ := List.getElem?_eq_some_iff.mp here
  rw [admits.withResults_eq, List.getElem?_append_left inside, here]

theorem Admits.names_withResults (results : List RowResult) :
    (withResults frame name mode results).names =
      (if name ∈ frame.names then frame.names else frame.names ++ [name]) ++
        (if mode = .record then [errorColumn] else []) := by
  rw [admits.withResults_eq, Frame.names, List.map_append]
  refine congrArg₂ _ Frame.names_withColumn ?_
  cases mode <;> rfl

end

theorem isShaped_withResults {frame : Frame} (shaped : frame.IsShaped) {results : List RowResult}
    (count : results.length = frame.height) (name : String) (mode : Mode) :
    (withResults frame name mode results).IsShaped := by
  have length : (Cells.floats (results.map (·.1))).length = frame.height :=
    (List.length_map _).trans count
  have values : (frame.withColumn ⟨name, .floats (results.map (·.1))⟩).IsShaped :=
    shaped.withColumn length (by simp [Cells.values])
  cases mode with
  | raise => exact values
  | record =>
    have errors : (Cells.texts (results.map (·.2))).length = frame.height :=
      (List.length_map _).trans count
    exact values.withColumn (errors.trans (Frame.height_withColumn length).symm)
      (by simp [Cells.values])

theorem Records.exclusive {outcome : Except Formula.Error Float} {result : RowResult}
    (records : Records outcome result) : result.1 = none ↔ result.2 ≠ none := by
  cases records <;> simp

/-- What an evaluation makes of a table: the results stand in the column `name`, the messages of
failures, where they are recorded, in a last column, and everything else is as it was. -/
structure Completes (formula : String) (frame : Frame) (name : String) (mode : Mode)
    (done : Frame) : Prop where
  shaped : done.IsShaped
  height : done.height = frame.height
  names : done.names = (if name ∈ frame.names then frame.names else frame.names ++ [name]) ++
    (if mode = .record then [errorColumn] else [])
  kept : ∀ (i : Nat) (column : Column), frame[i]? = some column → column.name ≠ name →
    done[i]? = some column
  read : ∀ (i : Nat) (column : Column), frame[i]? = some column →
    column.name ∈ variableNames formula → done[i]? = some column
  /-- The place of a name is its first one, or the one behind all others. -/
  values : ∃ cells, done[frame.names.idxOf name]? = some ⟨name, .floats cells⟩
  errors : mode = .record → name ≠ errorColumn ∧ errorColumn ∉ frame.names ∧
    ∃ cells, done.getLast? = some ⟨errorColumn, .texts cells⟩
  exclusive : mode = .record → ∀ row < frame.height,
    (done.cell? name row = none ↔ done.cell? errorColumn row ≠ none)

section

variable [Limits] {ops : Operations} {formula : String} {frame done : Frame}
  {result onError : Value}

theorem exclusive_withResults {name : String} {results : List RowResult}
    (apart : name ≠ errorColumn)
    (recorded : List.Forall₂ Records (outcomes ops formula frame) results) {row : Nat}
    (inside : row < frame.height) :
    (withResults frame name .record results).cell? name row = none ↔
      (withResults frame name .record results).cell? errorColumn row ≠ none := by
  have bound : row < results.length := (length_of_records recorded).symm ▸ inside
  have here : results[row]? = some results[row] := List.getElem?_eq_getElem bound
  have exclusive : results[row].1 = none ↔ results[row].2 ≠ none :=
    (recorded.get (recorded.length_eq.symm ▸ bound) bound).exclusive
  rw [Frame.cell?_of_values (cells?_withResults (fun _ => apart) frame results) rfl,
    Frame.cell?_of_values (cells?_withResults_errors frame name results) rfl]
  simpa [here] using exclusive

/-- A table that has been evaluated is as long as it was, and nothing of it is overwritten but for a
column with the name of the results. This is none that the formula reads. Where failures are
recorded, each row has either a result or a message. -/
theorem evaluate_completes (shaped : frame.IsShaped)
    (evaluated : evaluate ops formula frame result onError = .ok done) :
    ∃ name mode, columnName? result = some name ∧ Mode.ofValue? onError = some mode ∧
      Completes formula frame name mode done := by
  obtain ⟨name, mode, results, admits, recorded, rfl⟩ := exists_results shaped evaluated
  have count := length_of_records recorded
  have kept (i : Nat) (column : Column) (here : frame[i]? = some column)
      (different : column.name ≠ name) : (withResults frame name mode results)[i]? = some column :=
    admits.getElem?_withResults (Frame.getElem?_withColumn_of_ne here different)
  refine ⟨name, mode, admits.named, admits.chosen, ?_⟩
  exact
    { shaped := isShaped_withResults shaped count name mode
      height := height_withResults count name mode
      names := admits.names_withResults results
      kept := kept
      read := fun i column here member =>
        kept i column here (ne_of_mem_of_not_mem member admits.name_not_mem)
      values := ⟨_, admits.getElem?_withResults Frame.getElem?_withColumn_self⟩
      errors := by
        rintro rfl
        refine ⟨admits.name_ne, (accepted_of_checkOptions admits.allowed).1 rfl,
          results.map (·.2), ?_⟩
        rw [admits.withResults_eq]
        exact List.getLast?_concat
      exclusive := by
        rintro rfl row inside
        exact exclusive_withResults admits.name_ne recorded inside }

end

section

attribute [local instance] Limits.standard

/-- The results take the place of a column, and the errors come behind. -/
theorem evaluate_completes_quotient :
    Completes "1/a" [⟨"b", .texts [some "x", none]⟩, ⟨"a", .floats [some 4, none]⟩] "b" .record
      [⟨"b", .floats [some 0.25, none]⟩, ⟨"a", .floats [some 4, none]⟩,
        ⟨errorColumn, .texts [none, some "Variable 'a' not provided"]⟩] := by
  have compiled : Formula.compile "1/a" =
      .ok [⟨.number, "1", some 0⟩, ⟨.name, "a", some 2⟩, ⟨.operator, "/", some 1⟩] :=
    Formula.eq_ok_of_toOption (by decide +kernel)
  have names : variableNames "1/a" = ["a"] := by decide +kernel
  have shaped : Frame.IsShaped [⟨"b", .texts [some "x", none]⟩, ⟨"a", .floats [some 4, none]⟩] := by
    constructor <;> simp [Frame.height, Cells.length, Cells.values]
  have admits : Admits "1/a" [⟨"b", .texts [some "x", none]⟩, ⟨"a", .floats [some 4, none]⟩]
      (.text "b") (.text "null") "b" .record :=
    ⟨⟨rfl, rfl, by rw [names]; rfl⟩, ⟨_, compiled⟩, by rw [names]; simp [Frame.names]⟩
  have quarter : Formula.compute .machine "1/a" [("a", .float 4)] = .ok 0.25 :=
    Formula.eq_ok_of_toOption (by decide +kernel)
  have missing : Formula.compute .machine "1/a" [] = .error (.notProvided "a" []) := by
    rw [compute_eq compiled]
    rfl
  have rows : computed .machine "1/a"
        [⟨"b", .texts [some "x", none]⟩, ⟨"a", .floats [some 4, none]⟩] =
      [.ok 0.25, .error (.notProvided "a" [])] := by
    rw [← quarter, ← missing, computed, names]
    rfl
  have evaluated : evaluate .machine "1/a"
        [⟨"b", .texts [some "x", none]⟩, ⟨"a", .floats [some 4, none]⟩] (.text "b") (.text "null") =
      .ok [⟨"b", .floats [some 0.25, none]⟩, ⟨"a", .floats [some 4, none]⟩,
        ⟨errorColumn, .texts [none, some "Variable 'a' not provided"]⟩] := by
    rw [evaluate_of_admits .machine shaped admits, rows]
    rfl
  obtain ⟨name, mode, named, chosen, completes⟩ := evaluate_completes shaped evaluated
  cases named
  cases chosen
  exact completes

end

end Reckon.Table
