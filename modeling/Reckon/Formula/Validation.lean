import Reckon.Formula.Lexer
import Reckon.Formula.Postfix

/-!
Whether a formula is well formed, told without evaluating it. The tokens are checked
against their neighbours, and the parentheses by ordering the tokens.
-/

namespace Reckon.Formula

inductive Fault where
  | empty
  | operatorFirst (operator : String)
  | operatorLast (operator : String)
  | operatorsTogether (first second : String) (start : Option Nat)
  | impliedProduct (operand : String) (start : Option Nat)
  | bareRoot (start : Option Nat)
  | emptyRoot (start : Option Nat)
  | operandsTogether (first second : String)
  | error (e : Error)

namespace Fault

def place (start : Option Nat) : String :=
  match start with
  | some n => s!"position {n}"
  | none => "no position"

def message : Fault → String
  | empty => "Formula is empty"
  | operatorFirst o => s!"Operator {Text.quoted o} at the start of the formula"
  | operatorLast o => s!"Operator {Text.quoted o} at the end of the formula"
  | operatorsTogether first second start =>
    s!"Consecutive operators {Text.quoted first} and {Text.quoted second} at {place start}"
  | impliedProduct operand start =>
    s!"'(' directly after {Text.quoted operand} at {place start}; " ++
      "implicit multiplication is not supported"
  | bareRoot start => s!"sqrt at {place start} must be followed by '('"
  | emptyRoot start => s!"sqrt at {place start} has an empty argument"
  | operandsTogether first second =>
    s!"Operands {Text.quoted first} and {Text.quoted second} are not separated by an operator"
  | error e => e.message

end Fault

def operatorFaults (before : Option Token) (t : Token) (after : List Token) : List Fault :=
  if t.kind = .operator then
    (if before.isNone then [.operatorFirst t.text] else []) ++
    (if after.isEmpty then [.operatorLast t.text] else []) ++
    (match before with
      | some b => if b.kind = .operator then [.operatorsTogether b.text t.text t.start] else []
      | none => [])
  else []

def openingFaults (before : Option Token) (t : Token) : List Fault :=
  match before with
  | some b => if t.kind = .opening ∧ b.isOperand then [.impliedProduct b.text t.start] else []
  | none => []

/-- A square root needs a parenthesis behind it, and something behind that. -/
def rootFaults (t : Token) (after : List Token) : List Fault :=
  if t.kind = .root then
    match after with
    | next :: rest =>
      if next.kind ≠ .opening then [.bareRoot t.start]
      else match rest with
        | last :: _ => if last.kind = .closing then [.emptyRoot t.start] else []
        | [] => []
    | [] => [.bareRoot t.start]
  else []

def operandFaults (before : Option Token) (t : Token) : List Fault :=
  match before with
  | some b => if t.isOperand ∧ b.isOperand then [.operandsTogether b.text t.text] else []
  | none => []

def neighbourFaults (before : Option Token) : List Token → List Fault
  | [] => []
  | t :: after =>
    operatorFaults before t after ++ openingFaults before t ++ rootFaults t after ++
      operandFaults before t ++ neighbourFaults (some t) after

def faults (formula : String) : List Fault :=
  if formula.toList.all Text.isBlank then [.empty]
  else match tokenize formula with
    | .error e => [.error (.lexical e)]
    | .ok tokens =>
      neighbourFaults none tokens ++
        (match toPostfix tokens with
          | .error e => [.error e]
          | .ok _ => [])

def isValid (formula : String) : Bool :=
  (faults formula).isEmpty

end Reckon.Formula
