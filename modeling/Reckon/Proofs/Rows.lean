import Mathlib
import Reckon.Proofs.Reporting
import Reckon.Table.Evaluation

/-!
A table evaluated row by row. Each row binds the variables of the formula on its own, and what the
table holds afterwards is told by the values of the formula under these bindings. The two modes
differ only in what they do about the first failure.
-/

namespace Reckon.Table

open Formula (Arithmetic Operations Reports bind_eq_ok_iff compile evaluateNamed evaluatePostfix
  variableNames)

/-! ### Rows -/

namespace Frame

def cell? (f : Frame) (name : String) (i : Nat) : Option Value :=
  (f.cells? name).bind fun cells => cells.values[i]?.join

def row (f : Frame) (names : List String) (i : Nat) : Fields :=
  names.filterMap fun name => (f.cell? name i).map (name, ·)

theorem exists_of_cells? {f : Frame} {name : String} {cells : Cells}
    (found : f.cells? name = some cells) : ∃ column ∈ f, column.cells = cells := by
  obtain ⟨column, here, same⟩ := Option.map_eq_some_iff.mp found
  exact ⟨column, List.mem_of_find?_eq_some here, same⟩

theorem length_values (cells : Cells) : cells.values.length = cells.length := by
  cases cells <;> exact List.length_map _

theorem row_cons (f : Frame) (name : String) (names : List String) (i : Nat) :
    f.row (name :: names) i = extendRow name (f.cell? name i) (f.row names i) := by
  rw [row, List.filterMap_cons]
  cases f.cell? name i <;> rfl

theorem zipWith_range {α β γ : Type} (g : Option α → β → γ) {cells : List (Option α)} {n : Nat}
    (length : cells.length = n) (rows : Nat → β) :
    List.zipWith g cells ((List.range n).map rows) =
      (List.range n).map fun i => g cells[i]?.join (rows i) := by
  refine List.ext_getElem (by simp [length]) fun i near far => ?_
  have inside : i < cells.length := by simpa using far.trans_eq (by simp [length])
  simp [List.getElem?_eq_getElem inside]

/-- The rows of a table, cell by cell. -/
theorem rows_eq {f : Frame} (shaped : f.IsShaped) (names : List String) :
    f.rows names = (List.range f.height).map (f.row names) := by
  induction names with
  | nil =>
    have empty : f.row [] = fun _ => [] := rfl
    rw [empty, List.map_const', List.length_range]
    rfl
  | cons name names ih =>
    rw [funext (f.row_cons name names)]
    cases found : f.cells? name with
    | none =>
      have same : f.rows (name :: names) = f.rows names := by
        simp only [rows, List.foldr_cons, found]
      rw [same, ih]
      simp only [cell?, found, Option.bind_none, extendRow]
    | some cells =>
      have extended : f.rows (name :: names) =
          List.zipWith (extendRow name) cells.values (f.rows names) := by
        simp only [rows, List.foldr_cons, found]
      obtain ⟨column, member, rfl⟩ := exists_of_cells? found
      have length := (length_values _).trans (shaped.height column member)
      rw [extended, ih]
      simp only [zipWith_range _ length, cell?, found, Option.bind_some]

/-! ### Values of rows -/

theorem mem_values_of_cell? {f : Frame} {name : String} {i : Nat} {value : Value}
    (here : f.cell? name i = some value) :
    ∃ column ∈ f, some value ∈ column.cells.values := by
  obtain ⟨cells, found, entry⟩ := Option.bind_eq_some_iff.mp here
  obtain ⟨column, member, rfl⟩ := exists_of_cells? found
  exact ⟨column, member, List.mem_of_getElem? (Option.join_eq_some_iff.mp entry)⟩

theorem cell?_of_lookup {f : Frame} {names : List String} {i : Nat} {name : String} {value : Value}
    (bound : (f.row names i).lookup name = some value) : f.cell? name i = some value := by
  obtain ⟨front, back, same, -⟩ := List.lookup_eq_some_iff.mp bound
  have entry : (name, value) ∈ f.row names i := by simp [same]
  obtain ⟨other, -, here⟩ := List.mem_filterMap.mp entry
  obtain ⟨cell, found, pair⟩ : ∃ cell, f.cell? other i = some cell ∧ (other, cell) = (name, value) :=
    Option.map_eq_some_iff.mp here
  obtain ⟨rfl, rfl⟩ := Prod.mk.inj pair
  exact found

end Frame

theorem ofInt?_isSome_of_wide {n : Int} (wide : n.natAbs < 2 ^ 128) :
    (Decimal.ofInt? n).isSome = true := by
  have small : n.natAbs < Decimal.tooLarge := wide.trans (by decide +kernel)
  rw [Decimal.ofInt?, if_pos small]
  rfl

theorem isUnruly_of_cell [Limits] {cells : Cells} {value : Value}
    (member : some value ∈ cells.values)
    (wide : ∀ n, some (.int n) ∈ cells.values → n.natAbs < 2 ^ 128) : value.isUnruly = false := by
  have calm {value : Value} (low : value.height = 1) (short : value.isShort = true) :
      (!value.isShowable) = false := by
    rw [Formula.isShowable_of_height low short]
    rfl
  cases cells with
  | ints entries =>
    obtain ⟨entry, -, same⟩ := List.mem_map.mp member
    obtain ⟨n, -, rfl⟩ := Option.map_eq_some_iff.mp same
    have whole := ofInt?_isSome_of_wide (wide n member)
    rw [Value.isUnruly, Option.isNone_eq_false_iff, whole]
  | floats entries =>
    obtain ⟨entry, -, same⟩ := List.mem_map.mp member
    obtain ⟨x, -, rfl⟩ := Option.map_eq_some_iff.mp same
    exact calm rfl rfl
  | texts entries =>
    obtain ⟨entry, -, same⟩ := List.mem_map.mp member
    obtain ⟨text, -, rfl⟩ := Option.map_eq_some_iff.mp same
    exact calm rfl rfl
  | bools entries =>
    obtain ⟨entry, -, same⟩ := List.mem_map.mp member
    obtain ⟨b, -, rfl⟩ := Option.map_eq_some_iff.mp same
    exact calm rfl rfl
  | others kind entries =>
    obtain ⟨entry, -, same⟩ := List.mem_map.mp member
    obtain ⟨o, -, rfl⟩ := Option.map_eq_some_iff.mp same
    exact calm rfl rfl

section

variable {formula : String} {tokens : List Formula.Token}
  (compiled : compile formula = .ok tokens)
include compiled

theorem compute_eq (ops : Operations) (assignment : Fields) :
    Formula.compute ops formula assignment = evaluatePostfix ops assignment tokens := by
  rw [Formula.compute, compiled]
  rfl

theorem evaluateNamed_eq [Limits] (ops : Operations) (assignment : Fields) :
    evaluateNamed ops formula assignment =
      (evaluatePostfix ops assignment tokens).mapError .wrap := by
  rw [evaluateNamed, compute_eq compiled]

end

theorem reports_row [Limits] {a : Arithmetic} {formula : String} {frame : Frame} (shaped : frame.IsShaped)
    (names : List String) (i : Nat) :
    Reports (Formula.compute a.operations formula (frame.row names i)) := by
  refine Formula.reports_compute ?_
  rintro ⟨-, -, -, t, -, -, -, -, -, value, bound, unruly⟩
  obtain ⟨column, member, entry⟩ := Frame.mem_values_of_cell? (Frame.cell?_of_lookup bound)
  rw [isUnruly_of_cell entry (shaped.wide column member)] at unruly
  cases unruly

/-! ### Results -/

section

variable [Limits]

/-- What is recorded of a row: its value, or the message of the cause of its failure. -/
inductive Records : Except Formula.Error Float → RowResult → Prop where
  | value (x : Float) : Records (.ok x) (some x, none)
  | failure (cause : Formula.Error) :
      Records (.error (.evaluation cause)) (none, some cause.message)

theorem wrap_of_isReported {cause : Formula.Error} (reported : cause.isReported = true) :
    cause.wrap = .evaluation cause :=
  if_pos reported

/-- Where the work comes to its end, it is recorded of each row what it came to. -/
theorem records_of_rowResults {mode : Mode} {rows : List (Except Formula.Error Float)} {index : Nat}
    {results : List RowResult} (ran : rowResults mode index rows = .ok results) :
    List.Forall₂ Records (rows.map (·.mapError Formula.Error.wrap)) results := by
  induction rows generalizing index results with
  | nil =>
    cases ran
    exact .nil
  | cons row rows ih =>
    have behind {first : RowResult} (here : Records (row.mapError Formula.Error.wrap) first)
        (step : (rowResults mode (index + 1) rows).bind (fun more => .ok (first :: more)) = .ok results) :
        List.Forall₂ Records ((row :: rows).map (·.mapError Formula.Error.wrap)) results := by
      obtain ⟨others, later, same⟩ := bind_eq_ok_iff.mp step
      cases same
      exact .cons here (ih later)
    cases row with
    | ok x => exact behind (.value x) ran
    | error cause =>
      cases mode with
      | raise =>
        rw [rowResults] at ran
        split at ran <;> cases ran
      | record =>
        rw [rowResults] at ran
        split at ran
        case isTrue => cases ran
        case isFalse shown =>
          refine behind ?_ ran
          rw [Except.mapError, wrap_of_isReported (by simpa using shown)]
          exact .failure cause

theorem rowResults_record {rows : List (Except Formula.Error Float)}
    (reports : ∀ row ∈ rows, Reports row) (index : Nat) :
    ∃ results, rowResults .record index rows = .ok results ∧
      List.Forall₂ Records (rows.map (·.mapError Formula.Error.wrap)) results := by
  have ends : ∃ results, rowResults .record index rows = .ok results := by
    induction rows generalizing index with
    | nil => exact ⟨[], rfl⟩
    | cons row rows ih =>
      obtain ⟨first, others⟩ := List.forall_mem_cons.mp reports
      obtain ⟨results, later⟩ := ih others (index + 1)
      cases row with
      | ok x =>
        rw [rowResults, later]
        exact ⟨_, rfl⟩
      | error cause =>
        rw [rowResults, first cause rfl, later]
        exact ⟨_, rfl⟩
  obtain ⟨results, ran⟩ := ends
  exact ⟨results, ran, records_of_rowResults ran⟩

theorem rowResults_raise_ok (xs : List Float) (index : Nat) :
    rowResults .raise index (xs.map .ok) = .ok (xs.map fun x => (some x, none)) := by
  induction xs generalizing index with
  | nil => rfl
  | cons x xs ih =>
    rw [List.map_cons, rowResults, ih]
    rfl

theorem rowResults_raise_error {cause : Formula.Error} (reported : cause.isReported = true)
    (xs : List Float) (rest : List (Except Formula.Error Float)) (index : Nat) :
    rowResults .raise index (xs.map .ok ++ .error cause :: rest) =
      .error (.row (index + xs.length) cause) := by
  induction xs generalizing index with
  | nil =>
    rw [List.map_nil, List.nil_append, rowResults, reported]
    rfl
  | cons x xs ih =>
    rw [List.map_cons, List.cons_append, rowResults, ih, List.length_cons, Nat.add_right_comm,
      Nat.add_assoc]
    rfl

end

/-- Either all results are values, or some stand in front of the first failure. -/
theorem values_or_failure (rows : List (Except Formula.Error Float)) :
    (∃ xs : List Float, rows = xs.map .ok) ∨
      ∃ (xs : List Float) (e : Formula.Error) (rest : List (Except Formula.Error Float)),
        rows = xs.map .ok ++ .error e :: rest := by
  induction rows with
  | nil => exact .inl ⟨[], rfl⟩
  | cons row rows ih =>
    cases row with
    | error e => exact .inr ⟨[], e, rows, rfl⟩
    | ok x =>
      obtain ⟨xs, rfl⟩ | ⟨xs, e, rest, rfl⟩ := ih
      · exact .inl ⟨x :: xs, rfl⟩
      · exact .inr ⟨x :: xs, e, rest, rfl⟩

/-! ### Columns -/

namespace Frame

theorem cells?_withColumn_self (column : Column) (f : Frame) :
    (f.withColumn column).cells? column.name = some column.cells := by
  induction f with
  | nil => simp [withColumn, cells?]
  | cons other rest ih =>
    rw [withColumn]
    by_cases same : other.name = column.name
    · simp [same, cells?]
    · rw [if_neg same, ← ih]
      simp [cells?, same]

theorem cells?_withColumn_of_ne {column : Column} {name : String} (different : column.name ≠ name)
    (f : Frame) : (f.withColumn column).cells? name = f.cells? name := by
  induction f with
  | nil => simp [withColumn, cells?, different]
  | cons other rest ih =>
    rw [withColumn]
    by_cases same : other.name = column.name
    · simp [same, cells?, different]
    · rw [if_neg same]
      by_cases here : other.name = name
      · simp [cells?, here]
      · simpa [cells?, here] using ih

end Frame

theorem cells?_withResults {mode : Mode} {name : String} (apart : mode = .record → name ≠ errorColumn)
    (frame : Frame) (results : List RowResult) :
    (withResults frame name mode results).cells? name = some (.floats (results.map (·.1))) := by
  have named := Frame.cells?_withColumn_self ⟨name, .floats (results.map (·.1))⟩ frame
  cases mode with
  | raise => exact named
  | record => exact (Frame.cells?_withColumn_of_ne (Ne.symm (apart rfl)) _).trans named

theorem cells?_withResults_errors (frame : Frame) (name : String) (results : List RowResult) :
    (withResults frame name .record results).cells? errorColumn =
      some (.texts (results.map (·.2))) :=
  Frame.cells?_withColumn_self ⟨errorColumn, _⟩ _

def outcomes [Limits] (ops : Operations) (formula : String) (frame : Frame) :
    List (Except Formula.Error Float) :=
  (List.range frame.height).map fun i =>
    evaluateNamed ops formula (frame.row (variableNames formula) i)

/-- What the formula comes to under the bindings of each row, for whatever reason it fails. -/
def computed (ops : Operations) (formula : String) (frame : Frame) :
    List (Except Formula.Error Float) :=
  (List.range frame.height).map fun i =>
    Formula.compute ops formula (frame.row (variableNames formula) i)

theorem outcomes_eq [Limits] (ops : Operations) (formula : String) (frame : Frame) :
    outcomes ops formula frame =
      (computed ops formula frame).map (·.mapError Formula.Error.wrap) := by
  rw [computed, List.map_map]
  rfl

theorem computed_eq {formula : String} {tokens : List Formula.Token}
    (compiled : compile formula = .ok tokens) (ops : Operations) {frame : Frame}
    (shaped : frame.IsShaped) :
    computed ops formula frame = (frame.rows (variableNames formula)).map fun row =>
      evaluatePostfix ops row tokens := by
  rw [Frame.rows_eq shaped, List.map_map]
  simp only [computed, compute_eq compiled]
  rfl

theorem reports_computed [Limits] {a : Arithmetic} {formula : String} {frame : Frame}
    (shaped : frame.IsShaped) : ∀ row ∈ computed a.operations formula frame, Reports row := by
  simp only [computed, List.forall_mem_map]
  exact fun i _ => reports_row shaped _ i

structure Accepts (formula : String) (frame : Frame) (result onError : Value) (name : String)
    (mode : Mode) : Prop where
  chosen : Mode.ofValue? onError = some mode
  named : columnName? result = some name
  allowed : checkOptions (variableNames formula) frame.names result mode = .ok ()

/-- The formula can be evaluated over the table: it can be read, there is a column for each of its
variables, and the options are accepted for the result column `name`. -/
structure Admits (formula : String) (frame : Frame) (result onError : Value) (name : String)
    (mode : Mode) : Prop extends Accepts formula frame result onError name mode where
  compiles : ∃ tokens, compile formula = .ok tokens
  present : ∀ needed ∈ variableNames formula, needed ∈ frame.names

def missingNames (formula : String) (frame : Frame) : List String :=
  (variableNames formula).filter (· ∉ frame.names)

theorem missingNames_eq_nil_iff {formula : String} {frame : Frame} :
    missingNames formula frame = [] ↔ ∀ needed ∈ variableNames formula, needed ∈ frame.names := by
  simp [missingNames, List.filter_eq_nil_iff]

section

variable {a : Arithmetic} {formula : String} {frame : Frame} {result onError : Value}
  {name : String} {mode : Mode}

/-- Once the options are accepted, it is the formula, then the columns, and then the rows that can
keep a table from being evaluated. -/
theorem evaluate_of_accepts [Limits] (ops : Operations)
    (accepts : Accepts formula frame result onError name mode) :
    evaluate ops formula frame result onError =
      ((compile formula).mapError fun e => Error.formula e.wrap).bind fun tokens =>
        if missingNames formula frame ≠ [] then
          .error (.missingColumns (missingNames formula frame) frame.names)
        else
          (rowResults mode 0 ((frame.rows (variableNames formula)).map fun row =>
            evaluatePostfix ops row tokens)).map (withResults frame name mode) := by
  obtain ⟨chosen, named, allowed⟩ := accepts
  rw [evaluate, chosen]
  simp only [evaluateWith, allowed, named, bind, Except.bind]
  cases compile formula with
  | error e => rfl
  | ok tokens =>
    simp only [Except.mapError, missingNames]
    by_cases complete : (variableNames formula).filter (· ∉ frame.names) = []
    · simp only [complete, ne_eq, not_true_eq_false, if_false]
      generalize rowResults mode 0 _ = recorded
      cases recorded <;> rfl
    · simp only [complete, ne_eq, not_false_eq_true, if_true]
      rfl

theorem evaluate_of_admits [Limits] (ops : Operations) (shaped : frame.IsShaped)
    (admits : Admits formula frame result onError name mode) :
    evaluate ops formula frame result onError =
      (rowResults mode 0 (computed ops formula frame)).map (withResults frame name mode) := by
  obtain ⟨tokens, compiled⟩ := admits.compiles
  rw [evaluate_of_accepts ops admits.toAccepts, compiled, missingNames_eq_nil_iff.mpr admits.present,
    computed_eq compiled ops shaped]
  rfl

/-- The tokens are computed once, and each row is evaluated with them. -/
theorem evaluate_eq [Limits] (shaped : frame.IsShaped)
    (admits : Admits formula frame result onError name mode) :
    ∃ rows : List (Except Formula.Error Float), (∀ row ∈ rows, Reports row) ∧
      outcomes a.operations formula frame = rows.map (·.mapError Formula.Error.wrap) ∧
      evaluate a.operations formula frame result onError =
        (rowResults mode 0 rows).map (withResults frame name mode) :=
  ⟨computed a.operations formula frame, reports_computed shaped, outcomes_eq _ _ _,
    evaluate_of_admits _ shaped admits⟩

theorem accepted_of_checkOptions {needed columns : List String}
    (allowed : checkOptions needed columns result mode = .ok ()) :
    (mode = .record → errorColumn ∉ columns) ∧ ∀ given, result = .text given →
      given ∉ needed ∧ (mode = .record → given ≠ errorColumn) := by
  have absent (passed : checkOptions.errorsAbsent columns mode = .ok ()) :
      mode = .record → errorColumn ∉ columns := by
    intro records present
    rw [checkOptions.errorsAbsent, if_pos ⟨records, present⟩] at passed
    cases passed
  unfold checkOptions at allowed
  split at allowed
  case h_1 given =>
    split at allowed
    case isTrue => cases allowed
    case isFalse unused =>
      split at allowed
      case isTrue => cases allowed
      case isFalse apart =>
        refine ⟨absent allowed, ?_⟩
        rintro _ ⟨⟩
        exact ⟨unused, fun records same => apart ⟨records, same⟩⟩
  case h_2 other => exact ⟨absent allowed, fun given same => absurd same (other given)⟩

theorem Admits.name_ne (admits : Admits formula frame result onError name .record) :
    name ≠ errorColumn := by
  have named := admits.named
  cases result with
  | text given =>
    cases named
    exact ((accepted_of_checkOptions admits.allowed).2 name rfl).2 rfl
  | null =>
    cases named
    decide
  | _ => cases named

/-- A table is evaluated row by row. If failures are recorded, then the result column holds the
values, and beside each missing one stands the message of its failure. Otherwise the table either
has the same result column without a failure, or the first failing row ends the evaluation. -/
theorem evaluate_rows [Limits] (a : Arithmetic) (shaped : frame.IsShaped)
    (admits : Admits formula frame result onError name mode) :
    match mode with
    | .record => ∃ (done : Frame) (results : List RowResult),
        evaluate a.operations formula frame result onError = .ok done ∧
        List.Forall₂ Records (outcomes a.operations formula frame) results ∧
        done.cells? name = some (.floats (results.map (·.1))) ∧
        done.cells? errorColumn = some (.texts (results.map (·.2)))
    | .raise =>
        (∃ (done : Frame) (xs : List Float), outcomes a.operations formula frame = xs.map .ok ∧
          evaluate a.operations formula frame result onError = .ok done ∧
          done.cells? name = some (.floats (xs.map some))) ∨
        (∃ (xs : List Float) (cause : Formula.Error) (rest : List (Except Formula.Error Float)),
          outcomes a.operations formula frame = xs.map .ok ++ .error (.evaluation cause) :: rest ∧
          evaluate a.operations formula frame result onError = .error (.row xs.length cause)) := by
  obtain ⟨rows, reports, wrapped, evaluated⟩ := evaluate_eq (a := a) shaped admits
  rw [wrapped, evaluated]
  cases mode with
  | record =>
    obtain ⟨results, ran, recorded⟩ := rowResults_record reports 0
    exact ⟨_, results, congrArg (Except.map _) ran, recorded,
      cells?_withResults (fun _ => admits.name_ne) frame results,
      cells?_withResults_errors frame name results⟩
  | raise =>
    obtain ⟨xs, rfl⟩ | ⟨xs, cause, rest, rfl⟩ := values_or_failure rows
    · have column := @cells?_withResults .raise name nofun frame
        (xs.map fun x => ((some x, none) : RowResult))
      rw [List.map_map] at column
      refine .inl ⟨_, xs, ?_, congrArg (Except.map _) (rowResults_raise_ok xs 0), column⟩
      rw [List.map_map]
      rfl
    · have reported := reports (.error cause) (by simp) cause rfl
      have stopped := rowResults_raise_error reported xs rest 0
      rw [Nat.zero_add] at stopped
      refine .inr ⟨xs, cause, rest.map (·.mapError Formula.Error.wrap), ?_,
        congrArg (Except.map _) stopped⟩
      rw [List.map_append, List.map_cons, List.map_map, ← wrap_of_isReported reported]
      rfl

end

section

attribute [local instance] Limits.standard

/-- A row with a number, one with a zero, and one with a missing cell. -/
theorem evaluate_rows_quotient :
    ∃ done : Frame, evaluate .machine "1/a" [⟨"a", .ints [some 4, some 0, none]⟩] (.text "b")
        (.text "null") = .ok done ∧
      done.cells? "b" = some (.floats [some 0.25, none, none]) ∧
      done.cells? errorColumn =
        some (.texts [none, some "Division by zero", some "Variable 'a' not provided"]) := by
  have compiled : compile "1/a" =
      .ok [⟨.number, "1", some 0⟩, ⟨.name, "a", some 2⟩, ⟨.operator, "/", some 1⟩] :=
    Formula.eq_ok_of_toOption (by decide +kernel)
  have names : variableNames "1/a" = ["a"] := by decide +kernel
  have shaped : Frame.IsShaped [⟨"a", .ints [some 4, some 0, none]⟩] := by
    constructor
    · simp [Frame.height]
    · simp only [List.forall_mem_singleton, Cells.values]
      simp
  have admits : Admits "1/a" [⟨"a", .ints [some 4, some 0, none]⟩] (.text "b") (.text "null") "b"
      .record :=
    ⟨⟨rfl, rfl, by rw [names]; rfl⟩, ⟨_, compiled⟩, by rw [names]; simp [Frame.names]⟩
  obtain ⟨done, results, evaluated, recorded, values, errors⟩ := evaluate_rows .machine shaped admits
  have quarter : evaluateNamed .machine "1/a" [("a", .int 4)] = .ok 0.25 :=
    Formula.eq_ok_of_toOption (by decide +kernel)
  have zero : evaluateNamed .machine "1/a" [("a", .int 0)] =
      .error (.evaluation .divisionByZero) := by
    have one : Formula.literal "1" = .ok 1 := Formula.eq_ok_of_toOption (by decide +kernel)
    have bound : Formula.lookup [("a", .int 0)] "a" = .ok 0 :=
      Formula.eq_ok_of_toOption (by decide +kernel)
    have divides : Formula.Operator.ofText? "/" = some .div := rfl
    have same : ((0 : Float) == 0) = true := by decide +kernel
    rw [evaluateNamed_eq compiled]
    simp only [evaluatePostfix, Formula.evaluationStack, Formula.evaluationStep, one, bound, divides,
      Formula.push, Except.map, Operations.machine, Arithmetic.operations, Arithmetic.apply, same,
      if_true]
    rfl
  have missing : evaluateNamed .machine "1/a" [] = .error (.evaluation (.notProvided "a" [])) := by
    rw [evaluateNamed_eq compiled]
    rfl
  have rows : outcomes Formula.Arithmetic.machine.operations "1/a"
        [⟨"a", .ints [some 4, some 0, none]⟩] =
      [.ok 0.25, .error (.evaluation .divisionByZero), .error (.evaluation (.notProvided "a" []))] := by
    rw [← quarter, ← zero, ← missing, outcomes, names]
    rfl
  rw [rows] at recorded
  cases recorded with
  | cons first others =>
    cases others with
    | cons second others =>
      cases others with
      | cons third others =>
        cases others
        cases first
        cases second
        cases third
        exact ⟨done, evaluated, values, errors⟩

end

end Reckon.Table
