import Reckon.Formula.Views
import Reckon.Proofs.Walk

/-!
What the walks of a tree come to. A tree is evaluated, printed and turned into records along its
postorder, and each time the result is that of recursion over the tree. Where a tree fails, it does
so for the first node in postorder that fails by itself. Its lines stand in preorder, one for each
node, and there the first unknown node in preorder counts.
-/

namespace Reckon.Formula

def Label.unknown? : Label → Option String
  | .foreign kind _ => some kind
  | _ => none

theorem Label.unknown?_of_text? {label : Label} {text : String} (spoken : label.text? = some text) :
    label.unknown? = none := by
  cases label with
  | foreign kind texts => cases spoken
  | _ => rfl

theorem Label.unknown?_of_text?_eq_none {label : Label} (unspoken : label.text? = none) :
    label.unknown? = some label.kind := by
  cases label with
  | foreign kind texts => rfl
  | _ => cases unspoken

def failure? {ε α : Type} : Except ε α → Option ε
  | .error e => some e
  | .ok _ => none

theorem findSome?_flatMap {α β γ : Type} {f : β → Option γ} {g : α → List β} {h : α → Option γ}
    {l : List α} (each : ∀ a ∈ l, (g a).findSome? f = h a) :
    (l.flatMap g).findSome? f = l.findSome? h := by
  induction l with
  | nil => rfl
  | cons a l ih =>
    obtain ⟨first, others⟩ := List.forall_mem_cons.mp each
    rw [List.flatMap_cons, List.findSome?_append, first, ih others, List.findSome?_cons]
    cases h a <;> rfl

namespace Tree

/-! ### Nodes in postorder -/

mutual

/-- The trees at the nodes, in postorder: those of the parts from left to right, and then the tree
itself. -/
def subtrees : Tree → List Tree
  | number value => [number value]
  | name text => [name text]
  | call function operand => operand.subtrees ++ [call function operand]
  | binary operator left right => left.subtrees ++ right.subtrees ++ [binary operator left right]
  | foreign kind texts parts => subtreesOf parts ++ [foreign kind texts parts]

def subtreesOf : List Tree → List Tree
  | [] => []
  | t :: ts => t.subtrees ++ subtreesOf ts

end

theorem subtreesOf_eq (ts : List Tree) : subtreesOf ts = ts.flatMap subtrees := by
  induction ts with
  | nil => rfl
  | cons t ts ih => rw [subtreesOf, ih, List.flatMap_cons]

theorem subtrees_eq (t : Tree) : t.subtrees = t.parts.flatMap subtrees ++ [t] := by
  cases t <;> simp [subtrees, subtreesOf_eq, parts]

theorem postorder_eq_map (t : Tree) : t.postorder = t.subtrees.map label := by
  induction t using induct with
  | node t ih =>
    rw [postorder_eq, subtrees_eq, List.map_append, List.map_flatMap, List.map_singleton,
      List.flatMap_def, List.flatMap_def, List.map_congr_left ih]

def unknown? (t : Tree) : Option String :=
  t.subtrees.findSome? fun s => s.label.unknown?

theorem unknown?_eq (t : Tree) :
    t.unknown? = (t.parts.findSome? unknown?).or t.label.unknown? := by
  rw [unknown?, subtrees_eq, List.findSome?_append, findSome?_flatMap fun _ _ => rfl,
    List.findSome?_singleton]
  rfl

section

variable {ε α : Type} {work : Label → List α → Except ε α}

theorem failure?_folds (ts : List Tree) :
    failure? (folds work ts) = ts.findSome? fun t => failure? (t.fold work) := by
  induction ts with
  | nil => rfl
  | cons t ts ih =>
    rw [folds, List.findSome?_cons, ← ih]
    cases t.fold work with
    | error e => rfl
    | ok x => cases folds work ts <;> rfl

/-- A tree fails as the first node in postorder does that fails by itself. -/
theorem failure?_fold {own : Tree → Option ε}
    (fails : ∀ t xs, folds work t.parts = .ok xs → own t = failure? (work t.label xs)) (t : Tree) :
    failure? (t.fold work) = t.subtrees.findSome? own := by
  induction t using induct with
  | node t ih =>
    rw [subtrees_eq, List.findSome?_append, findSome?_flatMap fun p member => (ih p member).symm,
      ← failure?_folds, List.findSome?_singleton, fold_eq]
    cases done : folds work t.parts with
    | error e => rfl
    | ok xs => exact (fails t xs done).symm

end

/-! ### Values -/

/-- The error of a node by itself: it is of an unknown kind, or its parts have values and the
operation fails on them. -/
def fault (ops : Operations) (assignment : Fields) (t : Tree) : Option Error :=
  match t.label, values ops assignment t.parts with
  | .foreign kind _, _ => some (.unknownNode kind)
  | label, .ok xs => failure? (operate ops assignment label xs)
  | _, .error _ => none

theorem fault_eq {ops : Operations} {assignment : Fields} {t : Tree} {xs : List Float}
    (done : values ops assignment t.parts = .ok xs) :
    t.fault ops assignment = failure? (operate ops assignment t.label xs) := by
  rw [fault, done]
  cases t.label <;> rfl

/-- A tree has the error of the first node in postorder that has one by itself. -/
theorem failure?_evaluate (ops : Operations) (assignment : Fields) (t : Tree) :
    failure? (t.evaluate ops assignment) = t.subtrees.findSome? (fault ops assignment) := by
  rw [evaluate_eq_value, value_eq_fold]
  refine failure?_fold (fun s xs done => fault_eq ?_) t
  rw [values_eq_folds, done]

/-! ### Texts and records -/

def formed {α : Type} (unknown? : Option String) (form : α) : Except UnknownNode α :=
  match unknown? with
  | some kind => .error ⟨kind⟩
  | none => .ok form

/-- A node of a known kind has its form from the forms of its parts, and no other node has one. -/
structure Forms {α : Type} (work : Label → List α → Except UnknownNode α) (form : Tree → α) :
    Prop where
  number : ∀ value, work (.number value) [] = .ok (form (.number value))
  name : ∀ text, work (.name text) [] = .ok (form (.name text))
  call : ∀ function operand,
    work (.call function) [form operand] = .ok (form (.call function operand))
  binary : ∀ operator left right,
    work (.binary operator) [form left, form right] = .ok (form (.binary operator left right))
  foreign : ∀ kind texts xs, work (.foreign kind texts) xs = .error ⟨kind⟩

section

variable {α : Type} {work : Label → List α → Except UnknownNode α} {form : Tree → α}

theorem Forms.work_eq (forms : Forms work form) (t : Tree) :
    work t.label (t.parts.map form) = formed t.label.unknown? (form t) := by
  cases t with
  | number value => exact forms.number value
  | name text => exact forms.name text
  | call function operand => exact forms.call function operand
  | binary operator left right => exact forms.binary operator left right
  | foreign kind texts parts => exact forms.foreign kind texts _

theorem folds_eq_formed {ts : List Tree}
    (each : ∀ t ∈ ts, t.fold work = formed t.unknown? (form t)) :
    folds work ts = formed (ts.findSome? unknown?) (ts.map form) := by
  induction ts with
  | nil => rfl
  | cons t ts ih =>
    obtain ⟨first, others⟩ := List.forall_mem_cons.mp each
    rw [folds, first, ih others, List.findSome?_cons]
    cases t.unknown? with
    | some kind => rfl
    | none => cases ts.findSome? unknown? <;> rfl

theorem fold_eq_formed (forms : Forms work form) (t : Tree) :
    t.fold work = formed t.unknown? (form t) := by
  induction t using induct with
  | node t ih =>
    rw [fold_eq, folds_eq_formed ih, unknown?_eq]
    cases t.parts.findSome? unknown? with
    | some kind => rfl
    | none => exact forms.work_eq t

end

def formatted : Tree → String
  | number value => numberText value
  | name text => text
  | call function operand => s!"{function}({operand.formatted})"
  | binary operator left right => s!"({left.formatted} {operator} {right.formatted})"
  | foreign _ _ _ => ""

def spell : Label → List String → Except UnknownNode String
  | .number value, _ => .ok (numberText value)
  | .name text, _ => .ok text
  | .call function, [operand] => .ok s!"{function}({operand})"
  | .binary operator, [left, right] => .ok s!"({left} {operator} {right})"
  | .foreign kind _, _ => .error ⟨kind⟩
  | _, _ => .ok ""

def recorded : Tree → Value
  | number value => .record [("type", .text "number_literal"), ("value", .float value)]
  | name text => .record [("type", .text "variable_ref"), ("name", .text text)]
  | call function operand =>
    .record [("type", .text "unary_function"), ("name", .text function),
      ("operand", operand.recorded)]
  | binary operator left right =>
    .record [("type", .text "binary_op"), ("operator", .text operator), ("left", left.recorded),
      ("right", right.recorded)]
  | foreign _ _ _ => .null

def describe (label : Label) (parts : List Value) : Except UnknownNode Value :=
  let type := ("type", Value.text label.kind)
  match label, parts with
  | .number value, _ => .ok (.record [type, ("value", .float value)])
  | .name text, _ => .ok (.record [type, ("name", .text text)])
  | .call function, [operand] =>
    .ok (.record [type, ("name", .text function), ("operand", operand)])
  | .binary operator, [left, right] =>
    .ok (.record [type, ("operator", .text operator), ("left", left), ("right", right)])
  | .foreign kind _, _ => .error ⟨kind⟩
  | _, _ => .ok .null

theorem performs_formatStep : Performs spell formatStep where
  number _ _ := rfl
  name _ _ := rfl
  call _ _ _ := rfl
  binary _ _ _ _ := rfl
  foreign _ _ _ _ := rfl

theorem performs_recordStep : Performs describe recordStep where
  number _ _ := rfl
  name _ _ := rfl
  call _ _ _ := rfl
  binary _ _ _ _ := rfl
  foreign _ _ _ _ := rfl

theorem forms_formatted : Forms spell formatted where
  number _ := rfl
  name _ := rfl
  call _ _ := rfl
  binary _ _ _ := rfl
  foreign _ _ _ := rfl

theorem forms_recorded : Forms describe recorded where
  number _ := rfl
  name _ := rfl
  call _ _ := rfl
  binary _ _ _ := rfl
  foreign _ _ _ := rfl

theorem format_eq (t : Tree) : t.format = formed t.unknown? t.formatted := by
  rw [format, result_eq_fold performs_formatStep, fold_eq_formed forms_formatted]

theorem toRecord_eq (t : Tree) : t.toRecord = formed t.unknown? t.recorded := by
  rw [toRecord, result_eq_fold performs_recordStep, fold_eq_formed forms_recorded]

/-! ### Lines -/

mutual

/-- The nodes in preorder, each with its depth: first the node itself, and then those of the parts
from left to right, one step deeper. -/
def outline (depth : Nat) : Tree → List (Nat × Label)
  | number value => [(depth, .number value)]
  | name text => [(depth, .name text)]
  | call function operand => (depth, .call function) :: operand.outline (depth + 1)
  | binary operator left right =>
    (depth, .binary operator) :: (left.outline (depth + 1) ++ right.outline (depth + 1))
  | foreign kind texts parts => (depth, .foreign kind texts) :: outlines (depth + 1) parts

def outlines (depth : Nat) : List Tree → List (Nat × Label)
  | [] => []
  | t :: ts => t.outline depth ++ outlines depth ts

end

theorem outlines_eq (depth : Nat) (ts : List Tree) :
    outlines depth ts = ts.flatMap (outline depth) := by
  induction ts with
  | nil => rfl
  | cons t ts ih => rw [outlines, ih, List.flatMap_cons]

theorem outline_eq (depth : Nat) (t : Tree) :
    t.outline depth = (depth, t.label) :: t.parts.flatMap (outline (depth + 1)) := by
  cases t <;> simp [outline, outlines_eq, parts, label]

theorem length_outline (depth : Nat) (t : Tree) : (t.outline depth).length = t.size := by
  induction t using induct generalizing depth with
  | node t ih =>
    rw [outline_eq, List.length_cons, length_flatMap fun p member => ih p member (depth + 1),
      size_eq]

def line (indent : String) (depth : Nat) (label : Label) : String :=
  let text := label.text?.getD ""
  String.join (List.replicate depth indent) ++ s!"{label.kind}\t{text}"

def listed (indent : String) (nodes : List (Nat × Label)) : Except UnknownNode (List String) :=
  formed (nodes.findSome? fun node => node.2.unknown?)
    (nodes.map fun node => line indent node.1 node.2)

theorem listed_cons_of_unknown {indent : String} {depth : Nat} {label : Label} {kind : String}
    (unknown : label.unknown? = some kind) (nodes : List (Nat × Label)) :
    listed indent ((depth, label) :: nodes) = .error ⟨kind⟩ := by
  rw [listed, List.findSome?_cons, unknown]
  rfl

theorem listed_cons_of_known {indent : String} {depth : Nat} {label : Label}
    (known : label.unknown? = none) (nodes : List (Nat × Label)) :
    listed indent ((depth, label) :: nodes) =
      (listed indent nodes).map (line indent depth label :: ·) := by
  rw [listed, listed, List.findSome?_cons, known, List.map_cons]
  cases nodes.findSome? fun node => node.2.unknown? <;> rfl

/-- The lines of the trees that wait are those of their nodes in preorder, tree after tree. -/
theorem lines_eq (indent : String) (trees : List (Tree × Nat)) :
    lines indent trees = listed indent (trees.flatMap fun tree => tree.1.outline tree.2) := by
  have inner (t : Tree) (depth : Nat) (rest : List (Tree × Nat)) :
      (t.parts.map (·, depth + 1) ++ rest).flatMap (fun tree => tree.1.outline tree.2) =
        t.parts.flatMap (outline (depth + 1)) ++
          rest.flatMap fun tree => tree.1.outline tree.2 := by
    rw [List.flatMap_append, List.flatMap_map]
  fun_induction lines indent trees with
  | case1 => rfl
  | case2 t depth rest unspoken =>
    rw [List.flatMap_cons, outline_eq, List.cons_append,
      listed_cons_of_unknown (Label.unknown?_of_text?_eq_none unspoken)]
  | case3 t depth rest text spoken e failed ih =>
    rw [inner, failed] at ih
    rw [List.flatMap_cons, outline_eq, List.cons_append,
      listed_cons_of_known (Label.unknown?_of_text? spoken), ← ih]
    rfl
  | case4 t depth rest text spoken line below done ih =>
    rw [inner, done] at ih
    rw [List.flatMap_cons, outline_eq, List.cons_append,
      listed_cons_of_known (Label.unknown?_of_text? spoken), ← ih, Tree.line, spoken]
    rfl

theorem pretty_eq (indent : String) (t : Tree) : t.pretty indent = listed indent (t.outline 0) := by
  rw [pretty, lines_eq, List.flatMap_singleton]

end Tree

end Reckon.Formula
