import Mathlib
import Reckon.Proofs.Causes
import Reckon.Proofs.Shapes

/-!
Tables and formulas that have no tree. A formula whose tokens cannot be read or ordered is refused
before any row is looked at. One whose operands do not fit its operators is found out by the rows
alone, and each of them fails by itself.
-/

namespace Reckon.Formula

/-- The operands of a formula do not fit its operators. -/
inductive Error.Miscounts : Error → Prop where
  | lacking (operator : String) : Miscounts (.insufficientOperands operator)
  | remaining (count : Nat) : Miscounts (.shape count)

theorem Error.Miscounts.not_syntactic {e : Error} (miscounts : e.Miscounts) :
    e.isSyntactic = false := by
  cases miscounts <;> rfl

/-! ### Building -/

section

variable {formula : String} {e : Error}

theorem miscounts_of_buildStep {t : Token} (terminal : t.IsTerminal) {stack : List Tree}
    (failed : Tree.buildStep stack t = .error e) : e.Miscounts := by
  unfold Tree.buildStep at failed
  split at failed
  case h_1 kind =>
    obtain ⟨x, reads⟩ : ∃ x, literal t.text = .ok x := by
      simpa [Token.IsTerminal, kind] using terminal
    rw [reads] at failed
    cases failed
  case h_2 => cases failed
  case h_3 =>
    split at failed
    case h_1 => cases failed
    case h_2 =>
      cases failed
      exact .lacking _
  case h_4 =>
    split at failed
    case h_1 => cases failed
    case h_2 =>
      cases failed
      exact .lacking _

theorem miscounts_of_buildStack {ts : List Token} (terminals : ∀ t ∈ ts, t.IsTerminal)
    {stack : List Tree} (failed : Tree.buildStack stack ts = .error e) : e.Miscounts := by
  induction ts generalizing stack with
  | nil => cases failed
  | cons t ts ih =>
    obtain ⟨terminal, terminals⟩ := List.forall_mem_cons.mp terminals
    rw [Tree.buildStack_cons] at failed
    rcases bind_eq_error_iff.mp failed with stopped | ⟨next, -, failed⟩
    · exact miscounts_of_buildStep terminal stopped
    · exact ih terminals failed

theorem miscounts_of_ofPostfix {ts : List Token} (terminals : ∀ t ∈ ts, t.IsTerminal)
    (failed : Tree.ofPostfix ts = .error e) : e.Miscounts := by
  rcases bind_eq_error_iff.mp failed with stopped | ⟨trees, -, several⟩
  · exact miscounts_of_buildStack terminals stopped
  · rw [shape_of_only several]
    exact .remaining trees.length

theorem ofFormula_eq (formula : String) :
    Tree.ofFormula formula = (compile formula).bind Tree.ofPostfix := by
  unfold Tree.ofFormula compile
  cases tokenize formula <;> rfl

/-- A formula that has no tree either has no order of evaluation, or its operands do not fit. -/
theorem cases_of_unparsed (unparsed : Tree.ofFormula formula = .error e) :
    (e.isSyntactic = true ∧ compile formula = .error e) ∨
      (e.Miscounts ∧ ∃ ts, compile formula = .ok ts) := by
  rw [ofFormula_eq] at unparsed
  rcases bind_eq_error_iff.mp unparsed with uncompiled | ⟨ts, compiled, unbuilt⟩
  · exact .inl ⟨isSyntactic_of_compile uncompiled, uncompiled⟩
  · have lexemes := isLexeme_of_compile compiled
    exact .inr ⟨miscounts_of_ofPostfix (fun t member => (lexemes t member).terminal) unbuilt, ts,
      compiled⟩

/-- A formula that has no tree has no value, and it is only blamed for having none. -/
theorem exists_cause_of_unparsed (unparsed : Tree.ofFormula formula = .error e) (a : Arithmetic)
    (assignment : Fields) :
    ∃ cause, compute a.operations formula assignment = .error cause ∧
      (cause.isStructural = true → cause = e) := by
  have mirrors := mirrors_formula a.operations assignment formula
  obtain ⟨cause, failed⟩ := mirrors.exists_error unparsed
  refine ⟨cause, failed, fun structural => ?_⟩
  have calm : ¬a.operations.Raises cause := fun raised =>
    Bool.false_ne_true ((Arithmetic.not_structural_of_raises raised).symm.trans structural)
  exact Except.error.inj ((mirrors.error_eq failed structural calm).symm.trans unparsed)

end

end Reckon.Formula

namespace Reckon.Table

open Formula (Arithmetic Operations Tree compile evaluateNamed)

/-! ### Rows that all fail -/

/-- What becomes of a table if all its rows fail: the first one ends the work, or the messages of
all of them are recorded. -/
def ofCauses (frame : Frame) (name : String) : Mode → List Formula.Error → Except Error Frame
  | .raise, cause :: _ => .error (.row 0 cause)
  | mode, causes =>
    .ok (withResults frame name mode (causes.map fun cause => (none, some cause.message)))

theorem rowResults_record_errors [Limits] {causes : List Formula.Error}
    (reported : ∀ cause ∈ causes, cause.isReported = true) (index : Nat) :
    rowResults .record index (causes.map .error) =
      .ok (causes.map fun cause => (none, some cause.message)) := by
  induction causes generalizing index with
  | nil => rfl
  | cons cause causes ih =>
    obtain ⟨first, others⟩ := List.forall_mem_cons.mp reported
    rw [List.map_cons, rowResults, first, ih others]
    rfl

theorem rowResults_errors [Limits] {causes : List Formula.Error}
    (reported : ∀ cause ∈ causes, cause.isReported = true) (frame : Frame) (name : String)
    (mode : Mode) :
    (rowResults mode 0 (causes.map .error)).map (withResults frame name mode) =
      ofCauses frame name mode causes := by
  cases mode with
  | record =>
    rw [rowResults_record_errors reported]
    rfl
  | raise =>
    cases causes with
    | nil => rfl
    | cons cause causes =>
      have first := reported cause List.mem_cons_self
      have stopped := rowResults_raise_error first [] (causes.map .error) 0
      exact congrArg (Except.map _) stopped

section

variable [Limits] {formula : String} {frame : Frame} {result onError : Value} {name : String}
  {mode : Mode} {e : Formula.Error}

theorem exists_causes_of_unparsed (a : Arithmetic) (shaped : frame.IsShaped)
    (unparsed : Tree.ofFormula formula = .error e) :
    ∃ causes : List Formula.Error, computed a.operations formula frame = causes.map .error ∧
      ∀ cause ∈ causes, cause.isReported = true ∧ (cause.isStructural = true → cause = e) := by
  choose cause failed blamed using fun i : Nat => Formula.exists_cause_of_unparsed unparsed a
    (frame.row (Formula.variableNames formula) i)
  refine ⟨(List.range frame.height).map cause, ?_, ?_⟩
  · rw [computed, List.map_map]
    exact List.map_congr_left fun i _ => failed i
  · simp only [List.forall_mem_map]
    exact fun i _ => ⟨reports_row shaped _ i (cause i) (failed i), blamed i⟩

/-- A table is refused as a whole if the tokens of the formula cannot be read or ordered. If it is
the operands that do not fit, then a missing column comes first, and after that every row fails on
its own: for the values it has met until then, or else for the reason why the formula has no tree.
So a table without rows is evaluated all the same. -/
theorem evaluate_of_unparsed (a : Arithmetic) (shaped : frame.IsShaped)
    (accepts : Accepts formula frame result onError name mode)
    (unparsed : Tree.ofFormula formula = .error e) :
    (e.isSyntactic = true → ∀ ops : Operations,
      evaluate ops formula frame result onError = .error (.formula (.evaluation e))) ∧
    (e.isSyntactic = false → e.Miscounts ∧
      (missingNames formula frame ≠ [] → ∀ ops : Operations,
        evaluate ops formula frame result onError =
          .error (.missingColumns (missingNames formula frame) frame.names)) ∧
      (missingNames formula frame = [] → ∃ causes : List Formula.Error,
        outcomes a.operations formula frame = causes.map (fun cause => .error (.evaluation cause)) ∧
        (∀ cause ∈ causes, cause.isStructural = true → cause = e) ∧
        evaluate a.operations formula frame result onError = ofCauses frame name mode causes)) := by
  rcases Formula.cases_of_unparsed unparsed with ⟨syntactic, failed⟩ | ⟨miscounts, ts, compiled⟩
  · refine ⟨fun _ ops => ?_, fun other => ?_⟩
    · rw [evaluate_of_accepts ops accepts, failed,
        ← wrap_of_isReported (Formula.reported_of_compile failed)]
      rfl
    · rw [syntactic] at other
      cases other
  · refine ⟨fun syntactic => ?_, fun _ => ⟨miscounts, fun missing ops => ?_, fun present => ?_⟩⟩
    · rw [miscounts.not_syntactic] at syntactic
      cases syntactic
    · rw [evaluate_of_accepts ops accepts, compiled]
      exact if_pos missing
    · obtain ⟨causes, same, reports⟩ := exists_causes_of_unparsed a shaped unparsed
      have reported : ∀ cause ∈ causes, cause.isReported = true :=
        fun cause member => (reports cause member).1
      refine ⟨causes, ?_, fun cause member => (reports cause member).2, ?_⟩
      · rw [outcomes_eq, same, List.map_map]
        refine List.map_congr_left fun cause member => ?_
        exact congrArg Except.error (wrap_of_isReported (reported cause member))
      · have admits : Admits formula frame result onError name mode :=
          ⟨accepts, ⟨ts, compiled⟩, missingNames_eq_nil_iff.mp present⟩
        rw [evaluate_of_admits _ shaped admits, same, rowResults_errors reported]

end

section

attribute [local instance] Limits.standard

theorem Frame.isShaped_floats (name : String) (cells : List (Option Float)) :
    Frame.IsShaped [⟨name, .floats cells⟩] := by
  constructor <;> simp [Frame.height, Cells.values]

theorem compile_unfinished :
    compile "a +" = .ok [⟨.name, "a", some 0⟩, ⟨.operator, "+", some 2⟩] :=
  Formula.eq_ok_of_toOption (by decide +kernel)

theorem unparsed_unfinished : Tree.ofFormula "a +" = .error (.insufficientOperands "+") := by
  rw [Formula.ofFormula_eq, compile_unfinished]
  rfl

theorem variableNames_unfinished : Formula.variableNames "a +" = ["a"] := by
  decide +kernel

theorem compute_unfinished :
    Formula.compute .machine "a +" [("a", .float 1)] = .error (.insufficientOperands "+") := by
  have bound : Formula.lookup [("a", .float 1)] "a" = .ok 1 :=
    Formula.eq_ok_of_toOption (by decide +kernel)
  rw [compute_eq compile_unfinished]
  simp only [Formula.evaluatePostfix, Formula.evaluationStack, Formula.evaluationStep, bound]
  rfl

/-- A row that lacks the second operand, and one that lacks the first one before. -/
theorem evaluate_of_unparsed_sum :
    evaluate .machine "a +" [⟨"a", .floats [some 1, none]⟩] (.text "b") (.text "null") =
      .ok [⟨"a", .floats [some 1, none]⟩, ⟨"b", .floats [none, none]⟩,
        ⟨errorColumn, .texts [some "Insufficient operands for operator '+'",
          some "Variable 'a' not provided"]⟩] := by
  have shaped := Frame.isShaped_floats "a" [some 1, none]
  have accepts : Accepts "a +" [⟨"a", .floats [some 1, none]⟩] (.text "b") (.text "null") "b"
      .record :=
    ⟨rfl, rfl, by rw [variableNames_unfinished]; rfl⟩
  have present : missingNames "a +" [⟨"a", .floats [some 1, none]⟩] = [] := by
    rw [missingNames, variableNames_unfinished]
    rfl
  obtain ⟨-, -, rows⟩ := (evaluate_of_unparsed .machine shaped accepts unparsed_unfinished).2 rfl
  obtain ⟨causes, failed, -, evaluated⟩ := rows present
  have short : evaluateNamed .machine "a +" [("a", .float 1)] =
      .error (.evaluation (.insufficientOperands "+")) := by
    rw [evaluateNamed, compute_unfinished]
    rfl
  have missing : evaluateNamed .machine "a +" [] = .error (.evaluation (.notProvided "a" [])) := by
    rw [evaluateNamed_eq compile_unfinished]
    rfl
  have two : outcomes .machine "a +" [⟨"a", .floats [some 1, none]⟩] =
      [.error (.evaluation (.insufficientOperands "+")),
        .error (.evaluation (.notProvided "a" []))] := by
    rw [← short, ← missing, outcomes, variableNames_unfinished]
    rfl
  have apart : Function.Injective fun cause : Formula.Error =>
      (.error (.evaluation cause) : Except Formula.Error Float) :=
    fun first second same => Formula.Error.evaluation.inj (Except.error.inj same)
  obtain rfl : [.insufficientOperands "+", .notProvided "a" []] = causes :=
    List.map_injective_iff.mpr apart (two.symm.trans failed)
  exact evaluated

/-- A formula without a tree is not refused as a whole: its last operator lacks an operand in the
first row, and if there are no rows, then nothing fails. -/
theorem missing_operand_blames_row :
    Tree.ofFormula "a +" = .error (.insufficientOperands "+") ∧
      evaluate .machine "a +" [⟨"a", .floats [some 1]⟩] (.text "result") (.text "raise") =
        .error (.row 0 (.insufficientOperands "+")) ∧
      evaluate .machine "a +" [⟨"a", .floats []⟩] (.text "result") (.text "raise") =
        .ok [⟨"a", .floats []⟩, ⟨"result", .floats []⟩] := by
  have admits (cells : List (Option Float)) :
      Admits "a +" [⟨"a", .floats cells⟩] (.text "result") (.text "raise") "result" .raise :=
    ⟨⟨rfl, rfl, by rw [variableNames_unfinished]; rfl⟩, ⟨_, compile_unfinished⟩,
      by rw [variableNames_unfinished]; simp [Frame.names]⟩
  refine ⟨unparsed_unfinished, ?_, ?_⟩
  · have one : computed .machine "a +" [⟨"a", .floats [some 1]⟩] =
        [.error (.insufficientOperands "+")] := by
      rw [← compute_unfinished, computed, variableNames_unfinished]
      rfl
    rw [evaluate_of_admits _ (Frame.isShaped_floats "a" [some 1]) (admits [some 1]), one]
    rfl
  · rw [evaluate_of_admits _ (Frame.isShaped_floats "a" []) (admits [])]
    rfl

end

end Reckon.Table
