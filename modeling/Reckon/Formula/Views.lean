import Reckon.Formula.Tree

/-!
A tree in other forms: as a formula with all its parentheses, as nested records, and as
lines with one node each. Forms are built along the postorder, lines along the preorder;
a node of an unknown kind has no form.
-/

namespace Reckon.Formula

/-- A number as formulas spell it: whole numbers without a point. -/
def numberText (x : Float) : String :=
  match Decimal.wholeNumber? x with
  | some n => toString n
  | none => Decimal.text x

def Label.text? : Label → Option String
  | .number value => some (numberText value)
  | .name text => some text
  | .call function => some function
  | .binary operator => some operator
  | .foreign _ _ => none

namespace Tree

def formatStep (stack : List String) (label : Label) : Except UnknownNode (List String) :=
  match label, stack with
  | .number value, _ => .ok (numberText value :: stack)
  | .name text, _ => .ok (text :: stack)
  | .call function, operand :: rest => .ok (s!"{function}({operand})" :: rest)
  | .binary operator, right :: left :: rest => .ok (s!"({left} {operator} {right})" :: rest)
  | .foreign kind _, _ => .error ⟨kind⟩
  | _, _ => .ok stack

def format (t : Tree) : Except UnknownNode String :=
  t.result "" formatStep

def recordStep (stack : List Value) (label : Label) : Except UnknownNode (List Value) :=
  let type := ("type", Value.text label.kind)
  match label, stack with
  | .number value, _ => .ok (.record [type, ("value", .float value)] :: stack)
  | .name text, _ => .ok (.record [type, ("name", .text text)] :: stack)
  | .call function, operand :: rest =>
    .ok (.record [type, ("name", .text function), ("operand", operand)] :: rest)
  | .binary operator, right :: left :: rest =>
    .ok (.record [type, ("operator", .text operator), ("left", left), ("right", right)] :: rest)
  | .foreign kind _, _ => .error ⟨kind⟩
  | _, _ => .ok stack

def toRecord (t : Tree) : Except UnknownNode Value :=
  t.result .null recordStep

/-- One line for each node, parents first. The trees wait with their depth. -/
def lines (indent : String) : List (Tree × Nat) → Except UnknownNode (List String)
  | [] => .ok []
  | (t, depth) :: rest =>
    match t.label.text? with
    | none => .error ⟨t.label.kind⟩
    | some text =>
      let line := String.join (List.replicate depth indent) ++ s!"{t.label.kind}\t{text}"
      match lines indent (t.parts.map (·, depth + 1) ++ rest) with
      | .error e => .error e
      | .ok below => .ok (line :: below)
termination_by trees => sizes (trees.map Prod.fst)
decreasing_by
  have whole := size_eq t
  have moved : (t.parts.map (·, depth + 1)).map Prod.fst = t.parts := by
    rw [List.map_map]
    exact List.map_id t.parts
  simp only [List.map_append, List.map_cons, sizes_append, sizes, moved]
  omega

def pretty (indent : String) (t : Tree) : Except UnknownNode (List String) :=
  lines indent [(t, 0)]

end Tree

end Reckon.Formula
