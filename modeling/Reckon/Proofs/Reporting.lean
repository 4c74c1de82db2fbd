import Mathlib
import Reckon.Proofs.Acceptance
import Reckon.Proofs.Group
import Reckon.Proofs.Pairing

/-!
How evaluations fail. The tokens of a formula can fail to be ordered only for their parentheses,
and its operations fail for reasons that are reported. So an evaluation wraps every error, but
for one source: a variable whose value is too large an integer, or cannot be shown in the report
because it holds too long an integer or too deep a value.
-/

namespace Reckon.Formula

/-! ### Ordering -/

theorem mismatched_of_toPostfix {ts : List Token} (lexemes : ∀ t ∈ ts, t.IsLexeme) {e : Error}
    (failed : toPostfix ts = .error e) : e = .mismatchedParentheses := by
  rcases toPostfix_cases fun t member => (lexemes t member).isKnown with ⟨-, _, ordered⟩ | ⟨-, same⟩
  · cases failed.symm.trans ordered
  · exact Except.error.inj (failed.symm.trans same)

theorem error_of_compile {formula : String} {e : Error} (failed : compile formula = .error e) :
    (∃ e', e = .lexical e') ∨ e = .mismatchedParentheses := by
  rcases bind_eq_error_iff.mp failed with unread | ⟨ts, read, unordered⟩
  · obtain ⟨e', -, same⟩ := mapError_eq_error_iff.mp unread
    exact .inl ⟨e', same.symm⟩
  · have lexemes := tokenize_isLexeme (mapError_eq_ok_iff.mp read)
    exact .inr (mismatched_of_toPostfix lexemes unordered)

theorem reported_of_compile [Limits] {formula : String} {e : Error} (failed : compile formula = .error e) :
    e.isReported = true := by
  rcases error_of_compile failed with ⟨e', rfl⟩ | rfl <;> rfl

theorem isLexeme_of_compile {formula : String} {ts : List Token}
    (compiled : compile formula = .ok ts) : ∀ t ∈ ts, t.IsLexeme := by
  obtain ⟨tokens, read, ordered⟩ := bind_eq_ok_iff.mp compiled
  intro t member
  have kept := (perm_of_toPostfix ordered).mem_iff.mp member
  exact tokenize_isLexeme (mapError_eq_ok_iff.mp read) t (List.mem_filter.mp kept).1

/-! ### Evaluating -/

/-- Why an evaluation stops at a token. -/
inductive StopsAt (ops : Operations) (assignment : Fields) (t : Token) : Error → Prop where
  | number {e : Error} (kind : t.kind = .number) (unread : literal t.text = .error e) :
      StopsAt ops assignment t e
  | name {e : Error} (kind : t.kind = .name) (missing : lookup assignment t.text = .error e) :
      StopsAt ops assignment t e
  | operands (operator : String) : StopsAt ops assignment t (.insufficientOperands operator)
  | operation {e : Error} (raised : ops.Raises e) : StopsAt ops assignment t e
  | unknown (other : ¬t.IsNode) : StopsAt ops assignment t (.unknown t)

section

variable {ops : Operations} {assignment : Fields} {e : Error}

theorem notNumeral_of_literal {text : String} (failed : literal text = .error e) :
    e = .notNumeral text := by
  unfold literal at failed
  split at failed
  case h_1 => cases failed
  case h_2 => exact (Except.error.inj failed).symm

theorem stopsAt_of_step {t : Token} {stack : List Float}
    (failed : evaluationStep ops assignment stack t = .error e) : StopsAt ops assignment t e := by
  unfold evaluationStep at failed
  split at failed
  case h_1 kind => exact .number kind (map_eq_error_iff.mp failed)
  case h_2 kind => exact .name kind (map_eq_error_iff.mp failed)
  case h_3 kind =>
    split at failed
    case h_1 => exact .operation (.inr ⟨_, map_eq_error_iff.mp failed⟩)
    case h_2 =>
      cases failed
      exact .operands _
  case h_4 kind =>
    split at failed
    case h_1 unspelled =>
      cases failed
      refine .unknown fun node => ?_
      simp [Token.IsNode, Token.isOperand, Token.operator?, kind, unspelled] at node
    case h_2 o spelled =>
      split at failed
      case h_1 => exact .operation (.inl ⟨o, _, _, map_eq_error_iff.mp failed⟩)
      case h_2 =>
        cases failed
        exact .operands _
  case h_5 number name root operator =>
    cases failed
    refine .unknown fun node => ?_
    rcases node with operand | kind | ⟨o, spells⟩
    · exact (Token.isOperand_iff.mp operand).elim number name
    · exact root kind
    · exact operator (Token.kind_of_operator? spells)

theorem exists_stopsAt {ts : List Token} {stack : List Float}
    (failed : evaluationStack ops assignment stack ts = .error e) :
    ∃ t ∈ ts, StopsAt ops assignment t e := by
  induction ts generalizing stack with
  | nil => cases failed
  | cons t ts ih =>
    rw [evaluationStack_cons] at failed
    rcases bind_eq_error_iff.mp failed with stopped | ⟨next, -, failed⟩
    · exact ⟨t, List.mem_cons_self, stopsAt_of_step stopped⟩
    · obtain ⟨later, member, stops⟩ := ih failed
      exact ⟨later, List.mem_cons_of_mem t member, stops⟩

theorem shape_of_only {α : Type} {results : List α} (failed : only results = .error e) :
    e = .shape results.length := by
  unfold only at failed
  split at failed
  case h_1 => cases failed
  case h_2 => exact (Except.error.inj failed).symm

/-- An evaluation fails at one of the tokens, or because it does not leave one value. -/
theorem error_of_evaluatePostfix {ts : List Token}
    (failed : evaluatePostfix ops assignment ts = .error e) :
    (∃ t ∈ ts, StopsAt ops assignment t e) ∨ ∃ remaining, e = .shape remaining := by
  rcases bind_eq_error_iff.mp failed with stopped | ⟨results, -, several⟩
  · exact .inl (exists_stopsAt stopped)
  · exact .inr ⟨results.length, shape_of_only several⟩

end

/-! ### Reports -/

def Reports [Limits] {α : Type} (result : Except Error α) : Prop :=
  ∀ e, result = .error e → e.isReported = true

namespace Reports

variable [Limits] {α : Type} {first second : Except Error α}

theorem ok (a : α) : Reports (.ok a) := by
  intro e failed
  cases failed

theorem error {e : Error} (reported : e.isReported = true) :
    Reports (.error e : Except Error α) := by
  intro e' failed
  cases failed
  exact reported

theorem ite {condition : Prop} [Decidable condition] (yes : Reports first)
    (no : Reports second) : Reports (if condition then first else second) := by
  split
  case isTrue => exact yes
  case isFalse => exact no

end Reports

theorem reports_of_raises [Limits] {a : Arithmetic} {e : Error} (raised : a.operations.Raises e) :
    e.isReported = true := by
  cases Arithmetic.fails_of_raises raised <;> rfl

theorem reports_only [Limits] {α : Type} (results : List α) : Reports (only results) := by
  intro e failed
  rw [shape_of_only failed]
  rfl

end Reckon.Formula

namespace Reckon.Value

mutual

/-- A value is in the way of itself just if it is too deep, or holds too long an integer. -/
theorem obstacle?_eq_none_iff (room : Nat) (value : Value) :
    value.obstacle? room = none ↔ value.height ≤ room ∧ value.isShort = true := by
  cases room with
  | zero => cases value <;> simp [obstacle?, height]
  | succ room =>
    cases value with
    | list items => simp [obstacle?, height, isShort, obstacleOfItems?_eq_none_iff room items]
    | record fields => simp [obstacle?, height, isShort, obstacleOfFields?_eq_none_iff room fields]
    | _ => simp [obstacle?, height, isShort]

theorem obstacleOfItems?_eq_none_iff (room : Nat) (items : List Value) :
    obstacleOfItems? room items = none ↔ heightOfItems items ≤ room ∧ areShort items = true := by
  cases items with
  | nil => simp [obstacleOfItems?, heightOfItems, areShort]
  | cons item rest =>
    simp only [obstacleOfItems?, heightOfItems, areShort, Option.or_eq_none_iff, max_le_iff,
      Bool.and_eq_true, obstacle?_eq_none_iff room item, obstacleOfItems?_eq_none_iff room rest]
    exact and_and_and_comm

theorem obstacleOfFields?_eq_none_iff (room : Nat) (fields : List (String × Value)) :
    obstacleOfFields? room fields = none ↔ heightOfFields fields ≤ room ∧ haveShort fields = true := by
  match fields with
  | [] => simp [obstacleOfFields?, heightOfFields, haveShort]
  | (_, value) :: rest =>
    simp only [obstacleOfFields?, heightOfFields, haveShort, Option.or_eq_none_iff, max_le_iff,
      Bool.and_eq_true, obstacle?_eq_none_iff room value, obstacleOfFields?_eq_none_iff room rest]
    exact and_and_and_comm

end

variable [Limits]

theorem isShowable_iff {value : Value} :
    value.isShowable = true ↔ value.height ≤ Limits.shown ∧ value.isShort = true := by
  rw [isShowable, Option.isNone_iff_eq_none, obstacle?_eq_none_iff]

/-- A value that is neither read as a number nor shown in a report. -/
def isUnruly : Value → Bool
  | int n => (Decimal.ofInt? n).isNone
  | value => !value.isShowable

end Reckon.Value

namespace Reckon.Formula

inductive Error.Escapes [Limits] : Error → Prop where
  | integerTooLarge : Escapes .integerTooLarge
  | unshowable {name : String} {value : Value} (hidden : value.isShowable = false) :
      Escapes (.invalidValue name value)

theorem Error.Escapes.isReported [Limits] {e : Error} (escapes : e.Escapes) : e.isReported = false := by
  cases escapes with
  | integerTooLarge => rfl
  | unshowable hidden => exact hidden

section

variable {assignment : Fields} {name : String} {value : Value}

theorem ofValue_int {n : Int} {reading : Option Float} (reads : Decimal.ofInt? n = reading) :
    Reading.ofValue (.int n) = reading.elim .outOfRange .number := by
  unfold Reading.ofValue
  dsimp only
  rw [reads]
  cases reading <;> rfl

theorem ofNumeral_eq (s : String) :
    Reading.ofValue.ofNumeral s = (Decimal.float? s).elim .noNumber .number := by
  unfold Reading.ofValue.ofNumeral
  cases Decimal.float? s <;> rfl

theorem ofNumeral_ne_outOfRange (s : String) : Reading.ofValue.ofNumeral s ≠ .outOfRange := by
  rw [ofNumeral_eq]
  cases Decimal.float? s <;> simp

theorem ofValue_other (o : Foreign) : Reading.ofValue (.other o) =
    (o.numeral.map Reading.ofValue.ofNumeral).getD .noNumber :=
  rfl

theorem tooLarge_le_tooLong : Decimal.tooLarge ≤ Value.tooLong := by
  decide +kernel

variable [Limits]

/-- Only what holds other values, and integers, can fail to be shown. -/
theorem isShowable_of_height (low : value.height = 1) (short : value.isShort = true) :
    value.isShowable = true :=
  Value.isShowable_iff.mpr ⟨low ▸ Limits.shown_ge, short⟩

theorem escapes_of_lookup (bound : assignment.lookup name = some value)
    (unruly : value.isUnruly = true) : ∃ e, lookup assignment name = .error e ∧ e.Escapes := by
  have flat (low : value.height = 1) (short : value.isShort = true)
      (hidden : (!value.isShowable) = true) : False := by
    rw [isShowable_of_height low short] at hidden
    cases hidden
  simp only [lookup, bound]
  cases value with
  | int n =>
    rw [Value.isUnruly, Option.isNone_iff_eq_none] at unruly
    rw [ofValue_int unruly]
    exact ⟨_, rfl, .integerTooLarge⟩
  | list items => exact ⟨_, rfl, .unshowable (by simpa [Value.isUnruly] using unruly)⟩
  | record fields => exact ⟨_, rfl, .unshowable (by simpa [Value.isUnruly] using unruly)⟩
  | _ => exact (flat rfl rfl unruly).elim

/-- A value that can be shown is reported, if it is not a number out of range. -/
theorem reports_of_reading (bound : assignment.lookup name = some value)
    (shown : value.isShowable = true) (inRange : Reading.ofValue value ≠ .outOfRange) :
    Reports (lookup assignment name) := by
  simp only [lookup, bound]
  cases reads : Reading.ofValue value with
  | number x => exact .ite (.ok x) (.error shown)
  | noNumber => exact .error shown
  | outOfRange => exact absurd reads inRange

theorem isShowable_of_ofInt? {n : Int} {x : Float} (reads : Decimal.ofInt? n = some x) :
    (Value.int n).isShowable = true := by
  rw [Decimal.ofInt?] at reads
  refine isShowable_of_height rfl ?_
  rw [Value.isShort, decide_eq_true_iff]
  by_cases small : n.natAbs < Decimal.tooLarge
  · exact Nat.lt_of_lt_of_le small tooLarge_le_tooLong
  · rw [if_neg small] at reads
    cases reads

theorem isShowable_of_calm (calm : value.isUnruly = false) : value.isShowable = true := by
  cases value with
  | int n =>
    rw [Value.isUnruly, Option.isNone_eq_false_iff, Option.isSome_iff_exists] at calm
    obtain ⟨x, reads⟩ := calm
    exact isShowable_of_ofInt? reads
  | list items => simpa [Value.isUnruly] using calm
  | record fields => simpa [Value.isUnruly] using calm
  | _ => exact isShowable_of_height rfl rfl

theorem inRange_of_calm (calm : value.isUnruly = false) : Reading.ofValue value ≠ .outOfRange := by
  cases value with
  | int n =>
    rw [Value.isUnruly, Option.isNone_eq_false_iff, Option.isSome_iff_exists] at calm
    obtain ⟨x, reads⟩ := calm
    simp [ofValue_int reads]
  | text s => exact ofNumeral_ne_outOfRange s
  | other o =>
    rw [ofValue_other]
    cases o.numeral with
    | none => simp
    | some s => exact ofNumeral_ne_outOfRange s
  | _ =>
    intro same
    cases same

/-- A variable fails without a report only for an unruly value. -/
theorem reports_lookup
    (calm : ∀ value, assignment.lookup name = some value → value.isUnruly = false) :
    Reports (lookup assignment name) := by
  cases bound : assignment.lookup name with
  | none =>
    simp only [lookup, bound]
    exact .error rfl
  | some value =>
    have calm := calm value bound
    exact reports_of_reading bound (isShowable_of_calm calm) (inRange_of_calm calm)

end

section

variable [Limits] {a : Arithmetic} {assignment : Fields}

def IsUnruly (assignment : Fields) (t : Token) : Prop :=
  t.kind = .name ∧ ∃ value, assignment.lookup t.text = some value ∧ value.isUnruly = true

theorem reports_step {t : Token} (lexeme : t.IsLexeme) (calm : ¬IsUnruly assignment t)
    (stack : List Float) : Reports (evaluationStep a.operations assignment stack t) := by
  intro e failed
  cases stopsAt_of_step failed with
  | number kind unread =>
    obtain ⟨x, reads⟩ : ∃ x, literal t.text = .ok x := by
      simpa [Token.IsTerminal, kind] using lexeme.terminal
    cases reads.symm.trans unread
  | name kind missing =>
    refine reports_lookup (fun value bound => ?_) e missing
    exact Bool.eq_false_iff.mpr fun unruly => calm ⟨kind, value, bound, unruly⟩
  | operands operator => rfl
  | operation raised => exact reports_of_raises raised
  | unknown other => rfl

theorem escapes_of_step {t : Token} (unruly : IsUnruly assignment t) (stack : List Float) :
    ∃ e, evaluationStep a.operations assignment stack t = .error e ∧ e.Escapes := by
  obtain ⟨kind, value, bound, unruly⟩ := unruly
  obtain ⟨e, failed, escapes⟩ := escapes_of_lookup bound unruly
  refine ⟨e, ?_, escapes⟩
  simp only [evaluationStep, kind, failed]
  rfl

def ComesToUnruly (ops : Operations) (assignment : Fields) (stack : List Float)
    (ts : List Token) : Prop :=
  ∃ front t back next, ts = front ++ t :: back ∧
    evaluationStack ops assignment stack front = .ok next ∧ IsUnruly assignment t

theorem escapes_of_stack {stack : List Float} {ts : List Token}
    (comes : ComesToUnruly a.operations assignment stack ts) :
    ∃ e, evaluationStack a.operations assignment stack ts = .error e ∧ e.Escapes := by
  obtain ⟨front, t, back, next, rfl, ran, unruly⟩ := comes
  obtain ⟨e, failed, escapes⟩ := escapes_of_step (a := a) unruly next
  refine ⟨e, ?_, escapes⟩
  rw [evaluationStack_append, ran]
  change evaluationStack a.operations assignment next (t :: back) = _
  rw [evaluationStack_cons, failed]
  rfl

/-- The run comes to an unruly value, if it does, before it fails. -/
theorem reports_stack {ts : List Token} (lexemes : ∀ t ∈ ts, t.IsLexeme) {stack : List Float}
    (calm : ¬ComesToUnruly a.operations assignment stack ts) :
    Reports (evaluationStack a.operations assignment stack ts) := by
  induction ts generalizing stack with
  | nil => exact .ok stack
  | cons t ts ih =>
    obtain ⟨first, others⟩ := List.forall_mem_cons.mp lexemes
    have reports := reports_step (a := a) first
      (fun unruly => calm ⟨[], t, ts, stack, rfl, rfl, unruly⟩) stack
    rw [evaluationStack_cons]
    cases stepped : evaluationStep a.operations assignment stack t with
    | error e => exact .error (reports e stepped)
    | ok next =>
      refine ih others fun ⟨front, t', back, last, same, ran, unruly⟩ => calm ?_
      refine ⟨t :: front, t', back, last, by rw [same, List.cons_append], ?_, unruly⟩
      rw [evaluationStack_cons, stepped]
      exact ran

/-! ### Wrapping -/

def Wrapped {α : Type} (result : Except Error α) : Prop :=
  ∀ e, result = .error e → ∃ cause, e = .evaluation cause ∧ cause.isReported = true

def MeetsUnruly (ops : Operations) (formula : String) (assignment : Fields) : Prop :=
  ∃ ts, compile formula = .ok ts ∧ ComesToUnruly ops assignment [] ts

theorem reports_compute {formula : String}
    (calm : ¬MeetsUnruly a.operations formula assignment) :
    Reports (compute a.operations formula assignment) := by
  unfold compute
  cases compiled : compile formula with
  | error e => exact .error (reported_of_compile compiled)
  | ok ts =>
    have reports := reports_stack (isLexeme_of_compile compiled) fun comes =>
      calm ⟨ts, compiled, comes⟩
    change Reports (evaluatePostfix a.operations assignment ts)
    unfold evaluatePostfix
    cases ran : evaluationStack a.operations assignment [] ts with
    | error e => exact .error (reports e ran)
    | ok results => exact reports_only results

theorem escapes_of_compute {formula : String}
    (meets : MeetsUnruly a.operations formula assignment) :
    ∃ e, compute a.operations formula assignment = .error e ∧ e.Escapes := by
  obtain ⟨ts, compiled, comes⟩ := meets
  obtain ⟨e, failed, escapes⟩ := escapes_of_stack comes
  refine ⟨e, ?_, escapes⟩
  rw [compute, compiled]
  change (evaluationStack a.operations assignment [] ts).bind only = _
  rw [failed]
  rfl

theorem Reports.wrapped {α : Type} {result : Except Error α} (reports : Reports result) :
    Wrapped (result.mapError .wrap) := by
  intro e failed
  cases result with
  | ok x => cases failed
  | error cause =>
    have reported := reports cause rfl
    refine ⟨cause, ?_, reported⟩
    have wrapped : cause.wrap = e := Except.error.inj failed
    rw [← wrapped, Error.wrap, if_pos reported]

theorem Wrapped.map {α β : Type} {result : Except Error α} (wrapped : Wrapped result) (f : α → β) :
    Wrapped (result.map f) := by
  intro e failed
  cases result with
  | error e' =>
    cases failed
    exact wrapped e rfl
  | ok x => cases failed

theorem Error.Escapes.wrap_eq {e : Error} (escapes : e.Escapes) : e.wrap = e := by
  rw [Error.wrap, if_neg (by simp [escapes.isReported])]

end

/-- Every failure of an evaluation is wrapped, with a reported cause, unless the evaluation comes
to a variable with an unruly value. Then the error of this value is what escapes. -/
theorem evaluation_wraps [Limits] (a : Arithmetic) (formula : String) :
    (∀ assignment, ¬MeetsUnruly a.operations formula assignment →
      Wrapped (evaluateNamed a.operations formula assignment)) ∧
    (∀ assignment, MeetsUnruly a.operations formula assignment →
      ∃ e, evaluateNamed a.operations formula assignment = .error e ∧ e.Escapes) ∧
    (∀ values, ((variableNames formula).length = values.length →
        ¬MeetsUnruly a.operations formula ((variableNames formula).zip values)) →
      Wrapped (evaluate a.operations formula values)) ∧
    (∀ values, (variableNames formula).length = values.length →
      MeetsUnruly a.operations formula ((variableNames formula).zip values) →
      ∃ e, evaluate a.operations formula values = .error e ∧ e.Escapes) := by
  refine ⟨fun assignment calm => (reports_compute calm).wrapped, fun assignment meets => ?_,
    fun values calm => ?_, fun values count meets => ?_⟩
  · obtain ⟨e, failed, escapes⟩ := escapes_of_compute meets
    refine ⟨e, ?_, escapes⟩
    rw [evaluateNamed, failed]
    exact congrArg Except.error escapes.wrap_eq
  · have reports : Reports (if (variableNames formula).length ≠ values.length then
        .error (.countMismatch (variableNames formula) values.length)
        else compute a.operations formula ((variableNames formula).zip values)) := by
      split
      case isTrue => exact .error rfl
      case isFalse count => exact reports_compute (calm (Decidable.not_not.mp count))
    exact reports.wrapped.map _
  · obtain ⟨e, failed, escapes⟩ := escapes_of_compute meets
    refine ⟨e, ?_, escapes⟩
    simp only [evaluate, count, ne_eq, not_true_eq_false, if_false, failed]
    exact congrArg Except.error escapes.wrap_eq

section

attribute [local instance] Limits.standard

/-- An integer beyond the range of floats escapes. -/
theorem evaluateNamed_integerTooLarge :
    evaluateNamed .machine "a" [("a", .int (10 ^ 400))] = .error .integerTooLarge ∧
      ¬Wrapped (evaluateNamed .machine "a" [("a", .int (10 ^ 400))]) := by
  have escapes (n : Int) (far : Decimal.ofInt? n = none) :
      evaluateNamed .machine "a" [("a", .int n)] = .error .integerTooLarge := by
    have tokens : compile "a" = .ok [⟨.name, "a", some 0⟩] := eq_ok_of_toOption (by decide +kernel)
    have bound : List.lookup "a" [("a", Value.int n)] = some (.int n) := List.lookup_cons_self
    have failed : lookup [("a", .int n)] "a" = .error .integerTooLarge := by
      simp only [lookup, bound, ofValue_int far, Option.elim]
    rw [evaluateNamed, compute, tokens]
    simp only [Except.bind, evaluatePostfix, evaluationStack, evaluationStep, failed]
    rfl
  have far := escapes (10 ^ 400) (Option.isNone_iff_eq_none.mp (by decide +kernel))
  refine ⟨far, fun wrapped => ?_⟩
  obtain ⟨cause, same, -⟩ := wrapped _ far
  cases same

end

end Reckon.Formula
