/-!
Tokens of the formula language: numbers, names, the square root, the five binary
operators and parentheses. A token keeps the text it was written with, and the place of
its first character when it was read from a formula.
-/

namespace Reckon.Formula

inductive Operator where
  | add
  | sub
  | mul
  | div
  | pow
  deriving DecidableEq

namespace Operator

def symbol : Operator → Char
  | add => '+'
  | sub => '-'
  | mul => '*'
  | div => '/'
  | pow => '^'

def ofChar? : Char → Option Operator
  | '+' => some add
  | '-' => some sub
  | '*' => some mul
  | '/' => some div
  | '^' => some pow
  | _ => none

def text (o : Operator) : String :=
  String.singleton o.symbol

def ofText? (text : String) : Option Operator :=
  match text.toList with
  | [c] => ofChar? c
  | _ => none

def rank : Operator → Nat
  | add => 1
  | sub => 1
  | mul => 2
  | div => 2
  | pow => 3

end Operator

def rootName : String := "sqrt"

/-- How tightly a waiting operator or function binds, told by its text. The square root
binds tighter than every binary operator. -/
def rank? (text : String) : Option Nat :=
  if text = rootName then some 4 else (Operator.ofText? text).map Operator.rank

inductive Kind where
  | number
  | name
  | root
  | operator
  | opening
  | closing
  /-- A kind that the formula language does not have. -/
  | foreign (label : String)
  deriving DecidableEq

namespace Kind

def label : Kind → String
  | number => "NUMBER"
  | name => "NAME"
  | root => "SQRT"
  | operator => "OPERATOR"
  | opening => "LPAR"
  | closing => "RPAR"
  | foreign label => label

def ofLabel (label : String) : Kind :=
  match [number, name, root, operator, opening, closing].find? (·.label == label) with
  | some kind => kind
  | none => foreign label

end Kind

structure Token where
  kind : Kind
  text : String
  start : Option Nat := none
  deriving DecidableEq

namespace Token

def isOperand (t : Token) : Bool :=
  t.kind == .number || t.kind == .name

def operator? (t : Token) : Option Operator :=
  if t.kind = .operator then Operator.ofText? t.text else none

def finish? (t : Token) : Option Nat :=
  t.start.map (· + t.text.length)

def column? (t : Token) : Option Nat :=
  t.start.map (· + 1)

end Token

end Reckon.Formula
