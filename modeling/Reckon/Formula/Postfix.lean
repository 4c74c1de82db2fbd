import Reckon.Formula.Error

/-!
Putting tokens into the order of evaluation: operands before their operator. Operators,
functions and opening parentheses wait on a stack until what binds tighter is done.
Operators of one rank group to the left.
-/

namespace Reckon.Formula

/-- Tokens on their way into the order of evaluation. -/
structure Yard where
  /-- The tokens that have their place, the last one first. -/
  output : List Token
  /-- The tokens that wait, the last one first. -/
  stack : List Token

namespace Yard

/-- Moves waiting tokens to the output while they bind at least as tightly as `rank`. -/
def release (rank : Nat) (output : List Token) : List Token → Except Error Yard
  | [] => .ok ⟨output, []⟩
  | top :: stack =>
    if top.kind = .opening then .ok ⟨output, top :: stack⟩
    else match rank? top.text with
      | none => .error (.unranked top.text)
      | some waiting =>
        if rank ≤ waiting then release rank (top :: output) stack
        else .ok ⟨output, top :: stack⟩

/-- Moves waiting tokens to the output up to the opening parenthesis, which is dropped. -/
def close (output : List Token) : List Token → Except Error Yard
  | [] => .error .mismatchedParentheses
  | top :: stack =>
    if top.kind = .opening then .ok ⟨output, stack⟩ else close (top :: output) stack

def step (yard : Yard) (t : Token) : Except Error Yard :=
  match t.kind with
  | .number | .name => .ok { yard with output := t :: yard.output }
  | .root | .opening => .ok { yard with stack := t :: yard.stack }
  | .closing => close yard.output yard.stack
  | .operator =>
    match Operator.ofText? t.text with
    | none => .error (.unknown t)
    | some o =>
      match release o.rank yard.output yard.stack with
      | .error e => .error e
      | .ok released => .ok { released with stack := t :: released.stack }
  | .foreign _ => .error (.unknown t)

def drain (output : List Token) : List Token → Except Error (List Token)
  | [] => .ok output.reverse
  | top :: stack =>
    if top.kind = .opening then .error .mismatchedParentheses else drain (top :: output) stack

def run (yard : Yard) : List Token → Except Error Yard
  | [] => .ok yard
  | t :: ts =>
    match yard.step t with
    | .error e => .error e
    | .ok next => next.run ts

end Yard

def toPostfix (tokens : List Token) : Except Error (List Token) :=
  match Yard.run ⟨[], []⟩ tokens with
  | .error e => .error e
  | .ok yard => Yard.drain yard.output yard.stack

end Reckon.Formula
