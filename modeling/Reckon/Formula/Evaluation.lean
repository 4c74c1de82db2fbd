import Reckon.Formula.Arithmetic
import Reckon.Formula.Lexer
import Reckon.Formula.Names
import Reckon.Formula.Postfix

/-!
The value of a formula under an assignment. Tokens in the order of evaluation work on a
stack of floats: an operand goes onto it, an operation takes its operands from it.
-/

namespace Reckon.Formula

inductive Reading where
  | number (x : Float)
  | noNumber
  | outOfRange

/-- Truth values count as one and zero, texts and what else spells a numeral as that. -/
def Reading.ofValue : Value → Reading
  | .bool b => .number (if b then 1 else 0)
  | .int n =>
    match Decimal.ofInt? n with
    | some x => .number x
    | none => .outOfRange
  | .float x => .number x
  | .text s => ofNumeral s
  | .other o => (o.numeral.map ofNumeral).getD .noNumber
  | _ => .noNumber
where
  ofNumeral (s : String) : Reading :=
    match Decimal.float? s with
    | some x => .number x
    | none => .noNumber

def lookup (assignment : Fields) (name : String) : Except Error Float :=
  match assignment.lookup name with
  | none => .error (.notProvided name (sortNames (assignment.map (·.1))))
  | some value =>
    match Reading.ofValue value with
    | .number x => if x.isFinite then .ok x else .error (.invalidValue name value)
    | .noNumber => .error (.invalidValue name value)
    | .outOfRange => .error .integerTooLarge

def literal (text : String) : Except Error Float :=
  match Decimal.float? text with
  | some x => .ok x
  | none => .error (.notNumeral text)

def push (stack : List Float) (result : Except Error Float) : Except Error (List Float) :=
  result.map (· :: stack)

def evaluationStep (ops : Operations) (assignment : Fields) (stack : List Float) (t : Token) :
    Except Error (List Float) :=
  match t.kind with
  | .number => push stack (literal t.text)
  | .name => push stack (lookup assignment t.text)
  | .root =>
    match stack with
    | a :: rest => push rest (ops.root a)
    | [] => .error (.insufficientOperands rootName)
  | .operator =>
    match Operator.ofText? t.text with
    | none => .error (.unknown t)
    | some o =>
      match stack with
      | right :: left :: rest => push rest (ops.apply o left right)
      | _ => .error (.insufficientOperands t.text)
  | _ => .error (.unknown t)

def evaluationStack (ops : Operations) (assignment : Fields) (stack : List Float) :
    List Token → Except Error (List Float)
  | [] => .ok stack
  | t :: ts =>
    match evaluationStep ops assignment stack t with
    | .error e => .error e
    | .ok next => evaluationStack ops assignment next ts

def only {α : Type} : List α → Except Error α
  | [a] => .ok a
  | results => .error (.shape results.length)

def evaluatePostfix (ops : Operations) (assignment : Fields) (tokens : List Token) :
    Except Error Float :=
  (evaluationStack ops assignment [] tokens).bind only

def compile (formula : String) : Except Error (List Token) :=
  ((tokenize formula).mapError .lexical).bind toPostfix

def compute (ops : Operations) (formula : String) (assignment : Fields) : Except Error Float :=
  (compile formula).bind (evaluatePostfix ops assignment)

def evaluateNamed [Limits] (ops : Operations) (formula : String) (assignment : Fields) :
    Except Error Float :=
  (compute ops formula assignment).mapError .wrap

structure Outcome where
  result : Float
  names : List String

def evaluate [Limits] (ops : Operations) (formula : String) (values : List Value) :
    Except Error Outcome :=
  let names := variableNames formula
  let result :=
    if names.length ≠ values.length then .error (.countMismatch names values.length)
    else compute ops formula (names.zip values)
  (result.mapError .wrap).map fun x => ⟨x, names⟩

end Reckon.Formula
