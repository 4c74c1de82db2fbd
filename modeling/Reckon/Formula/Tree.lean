import Reckon.Formula.Evaluation

/-!
Expression trees, and their walks. A walk keeps the nodes that wait on a list of its own:
`postorder` lists the nodes children first, which is the order of evaluation, and results
are combined along it on a stack. A tree may also hold nodes of kinds that formulas do
not have; they cannot be printed or evaluated.
-/

namespace Reckon.Formula

inductive Tree where
  | number (value : Float)
  | name (text : String)
  | call (function : String) (operand : Tree)
  | binary (operator : String) (left right : Tree)
  | foreign (kind : String) (texts : List Value) (parts : List Tree)
  deriving Inhabited

inductive Label where
  | number (value : Float)
  | name (text : String)
  | call (function : String)
  | binary (operator : String)
  | foreign (kind : String) (texts : List Value)

structure UnknownNode where
  kind : String
  deriving DecidableEq

def UnknownNode.message (e : UnknownNode) : String :=
  s!"Unknown node type: {e.kind}"

namespace Label

def kind : Label → String
  | number _ => "number_literal"
  | name _ => "variable_ref"
  | call _ => "unary_function"
  | binary _ => "binary_op"
  | foreign kind _ => kind

end Label

namespace Tree

def label : Tree → Label
  | number value => .number value
  | name text => .name text
  | call function _ => .call function
  | binary operator _ _ => .binary operator
  | foreign kind texts _ => .foreign kind texts

def parts : Tree → List Tree
  | number _ => []
  | name _ => []
  | call _ operand => [operand]
  | binary _ left right => [left, right]
  | foreign _ _ parts => parts

mutual

def size : Tree → Nat
  | number _ => 1
  | name _ => 1
  | call _ operand => operand.size + 1
  | binary _ left right => left.size + right.size + 1
  | foreign _ _ parts => sizes parts + 1

def sizes : List Tree → Nat
  | [] => 0
  | t :: ts => t.size + sizes ts

end

theorem sizes_append (front back : List Tree) :
    sizes (front ++ back) = sizes front + sizes back := by
  induction front with
  | nil => simp [sizes]
  | cons t front ih =>
    simp only [List.cons_append, sizes, ih]
    omega

theorem size_eq (t : Tree) : t.size = sizes t.parts + 1 := by
  cases t <;> simp [size, sizes, parts]

/-- A step of a walk: to visit a tree, or to leave a node whose subtrees are done. -/
inductive Visit where
  | enter (t : Tree)
  | leave (label : Label)

namespace Visit

/-- A bound for the steps of a walk that are still to be taken. -/
def costs : List Visit → Nat
  | [] => 0
  | enter t :: rest => 2 * t.size + costs rest
  | leave _ :: rest => 1 + costs rest

theorem costs_append (front back : List Visit) :
    costs (front ++ back) = costs front + costs back := by
  induction front with
  | nil => simp [costs]
  | cons visit front ih =>
    cases visit <;> simp only [List.cons_append, costs, ih] <;> omega

theorem costs_enter (ts : List Tree) : costs (ts.map enter) = 2 * sizes ts := by
  induction ts with
  | nil => simp [costs, sizes]
  | cons t ts ih =>
    simp only [List.map_cons, costs, sizes, ih]
    omega

end Visit

def walk : List Visit → List Label
  | [] => []
  | .leave label :: rest => label :: walk rest
  | .enter t :: rest => walk (t.parts.map .enter ++ .leave t.label :: rest)
termination_by visits => Visit.costs visits
decreasing_by
  · simp [Visit.costs]
  · have entered := Visit.costs_enter t.parts
    have whole := size_eq t
    simp only [Visit.costs_append, Visit.costs, entered]
    omega

def postorder (t : Tree) : List Label :=
  walk [.enter t]

/-- Takes the nodes of a postorder in turn, with the results so far on a stack. -/
def combine {ε α : Type} (step : List α → Label → Except ε (List α)) (stack : List α) :
    List Label → Except ε (List α)
  | [] => .ok stack
  | label :: labels =>
    match step stack label with
    | .error e => .error e
    | .ok next => combine step next labels

def result {ε α : Type} (default : α) (step : List α → Label → Except ε (List α)) (t : Tree) :
    Except ε α :=
  (combine step [] t.postorder).map fun stack => stack.headD default

def variableNames (t : Tree) : List String :=
  sortNames (t.postorder.filterMap fun
    | .name text => some text
    | _ => none)

/-! ### Building -/

def buildStep (stack : List Tree) (t : Token) : Except Error (List Tree) :=
  match t.kind with
  | .number => (literal t.text).map fun x => number x :: stack
  | .name => .ok (name t.text :: stack)
  | .root =>
    match stack with
    | operand :: rest => .ok (call rootName operand :: rest)
    | [] => .error (.insufficientOperands rootName)
  | _ =>
    match stack with
    | right :: left :: rest => .ok (binary t.text left right :: rest)
    | _ => .error (.insufficientOperands t.text)

def buildStack (stack : List Tree) : List Token → Except Error (List Tree)
  | [] => .ok stack
  | t :: ts =>
    match buildStep stack t with
    | .error e => .error e
    | .ok next => buildStack next ts

def ofPostfix (tokens : List Token) : Except Error Tree :=
  (buildStack [] tokens).bind only

def ofTokens (tokens : List Token) : Except Error Tree :=
  (toPostfix tokens).bind ofPostfix

def ofFormula (formula : String) : Except Error Tree :=
  ((tokenize formula).mapError .lexical).bind ofTokens

/-! ### Evaluating -/

def evaluateStep (ops : Operations) (assignment : Fields) (stack : List Float) (label : Label) :
    Except Error (List Float) :=
  match label, stack with
  | .number value, _ => .ok (value :: stack)
  | .name text, _ => push stack (lookup assignment text)
  | .call _, operand :: rest => push rest (ops.root operand)
  | .binary operator, right :: left :: rest =>
    match Operator.ofText? operator with
    | some o => push rest (ops.apply o left right)
    | none => .error (.unknownOperator operator)
  | .foreign kind _, _ => .error (.unknownNode kind)
  | _, _ => .error (.shape stack.length)

/-- The value of a tree. Of several errors the one of the first node in postorder counts. -/
def evaluate (ops : Operations) (t : Tree) (assignment : Fields) : Except Error Float :=
  t.result 0 (evaluateStep ops assignment)

end Tree

end Reckon.Formula
