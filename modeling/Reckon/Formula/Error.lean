import Reckon.Formula.Token
import Reckon.Value.Shown

/-!
Why a formula has no value. Each constructor is a cause; `message` puts it into words.
-/

namespace Reckon.Formula

inductive Flaw where
  | character
  /-- A number with letters directly behind it. -/
  | adjacency
  | number (reason : String)
  | name
  | other (message : String)
  deriving DecidableEq

def Flaw.label : Flaw → String
  | .character => "InvalidCharacterError"
  | .adjacency => "InvalidNumberAdjacencyError"
  | .number _ => "InvalidNumberLiteralError"
  | .name => "InvalidVariableNameError"
  | .other _ => "FormulaTokenError"

structure LexError where
  flaw : Flaw
  text : String
  start : Option Nat
  deriving DecidableEq

namespace LexError

def onePoint : String := "A number may contain at most one decimal point."

def tooLarge : String := "The value is too large."

def message (e : LexError) : String :=
  let text := Text.quoted e.text
  let problem := match e.flaw with
    | .character => s!"Invalid character in formula: {text}"
    | .adjacency =>
      s!"Invalid token: {text}. Numbers cannot be directly followed by letters."
    | .number reason => s!"Invalid number: {text}. {reason}"
    | .name =>
      s!"Invalid variable name: {text}. Variable names can only contain letters and underscores."
    | .other message => message
  match e.start with
  | some start => s!"{problem} (at position {start})"
  | none => problem

end LexError

inductive Stage where
  | any
  | structuring
  | computing
  deriving DecidableEq

inductive Error where
  | general (stage : Stage) (message : String)
  | lexical (error : LexError)
  | mismatchedParentheses
  /-- Something that cannot stand where it stands, and what kind of thing it is. -/
  | unknownToken (item : Value) (kind : String)
  | notProvided (name : String) (available : List String)
  | insufficientOperands (operator : String)
  | negativeRoot (operand : Float)
  | divisionByZero
  | invalidValue (name : String) (value : Value)
  | nonFinite (operator : String) (left right : Float)
  | domain (base exponent : Float) (reason : String)
  | unknownOperator (symbol : String)
  | unknownNode (kind : String)
  /-- Not one value but `remaining` of them were left at the end. -/
  | shape (remaining : Nat)
  | countMismatch (names : List String) (got : Nat)
  /-- An evaluation failed for the cause. -/
  | evaluation (cause : Error)
  /-- A function waits whose text is no known operator or function. -/
  | unranked (text : String)
  | notNumeral (text : String)
  | integerTooLarge

namespace Error

def unknown (t : Token) : Error :=
  unknownToken (.text t.text) t.kind.label

def isSyntactic : Error → Bool
  | general stage _ => stage == .structuring
  | lexical _ => true
  | mismatchedParentheses => true
  | unknownToken _ _ => true
  | _ => false

/-- The errors that say what is wrong with a formula or its values. The others arise only
from tokens that no formula has, from integers that are beyond the range of floats, and from
values that cannot be shown. -/
def isReported [Limits] : Error → Bool
  | invalidValue _ value => value.isShowable
  | unranked _ => false
  | notNumeral _ => false
  | integerTooLarge => false
  | _ => true

def wrap [Limits] (e : Error) : Error :=
  if e.isReported then evaluation e else e

def label : Error → String
  | general .any _ => "FormulaError"
  | general .structuring _ => "FormulaParseError"
  | general .computing _ => "FormulaRuntimeError"
  | lexical e => e.flaw.label
  | mismatchedParentheses => "MismatchedParenthesesError"
  | unknownToken _ _ => "UnknownTokenError"
  | notProvided _ _ => "VariableNotProvidedError"
  | insufficientOperands _ => "InsufficientOperandsError"
  | negativeRoot _ => "NegativeSqrtOperandError"
  | divisionByZero => "DivisionByZeroError"
  | invalidValue _ _ => "InvalidVariableValueError"
  | nonFinite _ _ _ => "NonFiniteResultError"
  | domain _ _ _ => "ArithmeticDomainError"
  | unknownOperator _ => "FormulaRuntimeError"
  | unknownNode _ => "FormulaRuntimeError"
  | shape _ => "InvalidExpressionShapeError"
  | countMismatch _ _ => "VariableCountMismatchError"
  | evaluation _ => "FormulaEvaluationError"
  | unranked _ => "UnrankedTokenError"
  | notNumeral _ => "InvalidNumeralError"
  | integerTooLarge => "IntegerTooLargeError"

def message : Error → String
  | general _ message => message
  | lexical e => e.message
  | mismatchedParentheses => "Mismatched parentheses"
  | unknownToken item kind => s!"Unknown token: {Text.quoted item.plain} ({kind})"
  | notProvided name available =>
    let problem := s!"Variable {Text.quoted name} not provided"
    if available.isEmpty then problem
    else s!"{problem}. Available: {Text.quotedList available}"
  | insufficientOperands operator =>
    if operator = rootName then "Insufficient operands for sqrt function"
    else s!"Insufficient operands for operator {Text.quoted operator}"
  | negativeRoot operand =>
    s!"Cannot take square root of negative number ({Decimal.text operand})"
  | divisionByZero => "Division by zero"
  | invalidValue name value =>
    s!"Variable {Text.quoted name} must be a finite number, got {value.shown}"
  | nonFinite operator left right =>
    s!"Result of {Decimal.text left} {operator} {Decimal.text right} is not a finite number"
  | domain base exponent reason =>
    s!"Cannot raise {Decimal.text base} to the power {Decimal.text exponent}: {reason}"
  | unknownOperator symbol => s!"Unknown operator: {Text.quoted symbol}"
  | unknownNode kind => s!"Unknown node type: {kind}"
  | shape remaining => s!"Invalid expression ({remaining} values left after evaluation)"
  | countMismatch names got =>
    let listed := ", ".intercalate names
    s!"Expected {names.length} values for variables [{listed}], but got {got}"
  | evaluation cause => s!"Formula evaluation failed: {cause.message}"
  | unranked text => Text.quoted text
  | notNumeral text => s!"could not convert string to float: Token('NUMBER', {Text.quoted text})"
  | integerTooLarge => "int too large to convert to float"

end Error

end Reckon.Formula
