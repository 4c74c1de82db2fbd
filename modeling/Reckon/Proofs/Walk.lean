import Reckon.Formula.Tree

/-!
The walk of a tree by recursion. The postorder of a node is that of its subtrees, one after
the other, and then the node itself. What is worked out along it with a stack of results is what
recursion works out: first the results of the parts from left to right, then that of the node
from them. The value of a tree is such a result.
-/

namespace Reckon.Formula

namespace Tree

theorem size_lt_of_mem_parts {t p : Tree} (member : p ∈ t.parts) : p.size < t.size := by
  obtain ⟨front, back, same⟩ := List.append_of_mem member
  rw [size_eq t, same, sizes_append, sizes]
  omega

/-- What holds of a tree whenever it holds of its parts holds of every tree. -/
theorem induct {P : Tree → Prop} (node : ∀ t, (∀ p ∈ t.parts, P p) → P t) (t : Tree) : P t :=
  node t fun p _ => induct node p
termination_by t.size
decreasing_by exact size_lt_of_mem_parts ‹_›

theorem walk_append (front back : List Visit) : walk (front ++ back) = walk front ++ walk back := by
  fun_induction walk front with
  | case1 => rfl
  | case2 label rest ih => rw [List.cons_append, walk, ih, List.cons_append]
  | case3 t rest ih => rw [List.cons_append, walk, ← ih, List.append_assoc, List.cons_append]

theorem walk_enter (ts : List Tree) : walk (ts.map .enter) = ts.flatMap postorder := by
  induction ts with
  | nil => simp [walk]
  | cons t ts ih =>
    rw [List.map_cons, ← List.singleton_append, walk_append, ih]
    rfl

theorem postorder_eq (t : Tree) : t.postorder = t.parts.flatMap postorder ++ [t.label] := by
  rw [postorder, walk, walk_append, walk_enter]
  simp [walk]

theorem length_flatMap {α : Type} {list : Tree → List α} {ts : List Tree}
    (each : ∀ t ∈ ts, (list t).length = t.size) : (ts.flatMap list).length = sizes ts := by
  induction ts with
  | nil => rfl
  | cons t ts ih =>
    obtain ⟨first, others⟩ := List.forall_mem_cons.mp each
    rw [List.flatMap_cons, List.length_append, first, ih others, sizes]

theorem length_postorder (t : Tree) : t.postorder.length = t.size := by
  induction t using induct with
  | node t ih =>
    rw [postorder_eq, List.length_append, length_flatMap ih, size_eq, List.length_singleton]

@[simp]
theorem postorder_number (value : Float) : (number value).postorder = [.number value] := by
  rw [postorder_eq]
  rfl

@[simp]
theorem postorder_name (text : String) : (name text).postorder = [.name text] := by
  rw [postorder_eq]
  rfl

@[simp]
theorem postorder_call (function : String) (operand : Tree) :
    (call function operand).postorder = operand.postorder ++ [.call function] := by
  rw [postorder_eq]
  simp [parts, label]

@[simp]
theorem postorder_binary (operator : String) (left right : Tree) :
    (binary operator left right).postorder =
      left.postorder ++ right.postorder ++ [.binary operator] := by
  rw [postorder_eq]
  simp [parts, label]

@[simp]
theorem postorder_foreign (kind : String) (texts : List Value) (parts : List Tree) :
    (foreign kind texts parts).postorder = parts.flatMap postorder ++ [.foreign kind texts] := by
  rw [postorder_eq]
  rfl

section

variable {ε α : Type} (work : Label → List α → Except ε α)

mutual

/-- The result of a tree: first the results of its parts from left to right, then what the node
makes of them. -/
def fold : Tree → Except ε α
  | number value => work (.number value) []
  | name text => work (.name text) []
  | call function operand => (fold operand).bind fun x => work (.call function) [x]
  | binary operator left right =>
    (fold left).bind fun x => (fold right).bind fun y => work (.binary operator) [x, y]
  | foreign kind texts parts => (folds parts).bind fun xs => work (.foreign kind texts) xs

def folds : List Tree → Except ε (List α)
  | [] => .ok []
  | t :: ts => (fold t).bind fun x => (folds ts).map (x :: ·)

end

theorem fold_eq (t : Tree) : t.fold work = (folds work t.parts).bind (work t.label) := by
  cases t with
  | number value => rfl
  | name text => rfl
  | call function operand =>
    simp only [fold, parts, folds, label]
    cases operand.fold work <;> rfl
  | binary operator left right =>
    simp only [fold, parts, folds, label]
    cases left.fold work with
    | error e => rfl
    | ok x => cases right.fold work <;> rfl
  | foreign kind texts parts => rfl

theorem length_of_folds {ts : List Tree} {xs : List α} (done : folds work ts = .ok xs) :
    xs.length = ts.length := by
  induction ts generalizing xs with
  | nil =>
    cases done
    rfl
  | cons t ts ih =>
    rw [folds] at done
    cases first : t.fold work with
    | error e => simp [first, Except.bind] at done
    | ok x =>
      cases rest : folds work ts with
      | error e => simp [first, rest, Except.bind, Except.map] at done
      | ok ys =>
        simp only [first, rest, Except.bind, Except.map, Except.ok.injEq] at done
        rw [← done, List.length_cons, List.length_cons, ih rest]

/-- The step takes the results of the parts from the stack, the last one first, and puts there what
the node makes of them. -/
structure Performs (step : List α → Label → Except ε (List α)) : Prop where
  number : ∀ value stack, step stack (.number value) = (work (.number value) []).map (· :: stack)
  name : ∀ text stack, step stack (.name text) = (work (.name text) []).map (· :: stack)
  call : ∀ function x stack,
    step (x :: stack) (.call function) = (work (.call function) [x]).map (· :: stack)
  binary : ∀ operator x y stack,
    step (y :: x :: stack) (.binary operator) = (work (.binary operator) [x, y]).map (· :: stack)
  foreign : ∀ kind texts xs stack, step (xs.reverse ++ stack) (.foreign kind texts) =
    (work (.foreign kind texts) xs).map (· :: stack)

variable {work} {step : List α → Label → Except ε (List α)}

theorem Performs.step_eq (performs : Performs work step) (t : Tree) {xs : List α}
    (same : xs.length = t.parts.length) (stack : List α) :
    step (xs.reverse ++ stack) t.label = (work t.label xs).map (· :: stack) := by
  cases t with
  | number value =>
    rw [List.length_eq_zero_iff.mp same]
    exact performs.number value stack
  | name text =>
    rw [List.length_eq_zero_iff.mp same]
    exact performs.name text stack
  | call function operand =>
    obtain ⟨x, rfl⟩ := List.length_eq_one_iff.mp same
    exact performs.call function x stack
  | binary operator left right =>
    match xs, same with
    | [x, y], _ => exact performs.binary operator x y stack
  | foreign kind texts parts => exact performs.foreign kind texts xs stack

theorem combine_cons (stack : List α) (label : Label) (labels : List Label) :
    combine step stack (label :: labels) =
      (step stack label).bind fun next => combine step next labels := by
  rw [combine]
  cases step stack label <;> rfl

/-- What the walk does with the parts, if it leaves the result of each part on the stack. -/
theorem combine_parts {ts : List Tree}
    (each : ∀ t ∈ ts, ∀ stack labels, combine step stack (t.postorder ++ labels) =
      (t.fold work).bind fun x => combine step (x :: stack) labels)
    (stack : List α) (labels : List Label) :
    combine step stack (ts.flatMap postorder ++ labels) =
      (folds work ts).bind fun xs => combine step (xs.reverse ++ stack) labels := by
  induction ts generalizing stack with
  | nil => rfl
  | cons t ts ih =>
    obtain ⟨first, others⟩ := List.forall_mem_cons.mp each
    rw [List.flatMap_cons, List.append_assoc, first, folds]
    cases t.fold work with
    | error e => rfl
    | ok x =>
      change combine _ _ _ = _
      rw [ih others]
      cases folds work ts with
      | error e => rfl
      | ok xs => simp [Except.bind, Except.map]

/-- The walk leaves the result of the tree on the stack. -/
theorem combine_postorder (performs : Performs work step) (t : Tree) (stack : List α)
    (labels : List Label) :
    combine step stack (t.postorder ++ labels) =
      (t.fold work).bind fun x => combine step (x :: stack) labels := by
  induction t using induct generalizing stack labels with
  | node t ih =>
    rw [postorder_eq, List.append_assoc, combine_parts fun p member => ih p member, fold_eq]
    cases done : folds work t.parts with
    | error e => rfl
    | ok xs =>
      have stepped := performs.step_eq t (length_of_folds work done) stack
      simp only [Except.bind, List.singleton_append, combine_cons, stepped]
      cases work t.label xs <;> rfl

theorem result_eq_fold (performs : Performs work step) (default : α) (t : Tree) :
    t.result default step = t.fold work := by
  have whole := combine_postorder performs t [] []
  rw [List.append_nil] at whole
  rw [result, whole]
  cases t.fold work <;> rfl

end

mutual

/-- The value of a tree: first the values of its parts from left to right, then the
operation. -/
def value (ops : Operations) (assignment : Fields) : Tree → Except Error Float
  | number x => .ok x
  | name text => lookup assignment text
  | call _ operand => (value ops assignment operand).bind ops.root
  | binary operator left right =>
    (value ops assignment left).bind fun x => (value ops assignment right).bind fun y =>
      match Operator.ofText? operator with
      | some o => ops.apply o x y
      | none => .error (.unknownOperator operator)
  | foreign kind _ parts => (values ops assignment parts).bind fun _ => .error (.unknownNode kind)

def values (ops : Operations) (assignment : Fields) : List Tree → Except Error (List Float)
  | [] => .ok []
  | t :: ts => (value ops assignment t).bind fun x => (values ops assignment ts).map (x :: ·)

end

section

variable (ops : Operations) (assignment : Fields)

def operate : Label → List Float → Except Error Float
  | .number x, _ => .ok x
  | .name text, _ => lookup assignment text
  | .call _, [x] => ops.root x
  | .binary operator, [x, y] =>
    match Operator.ofText? operator with
    | some o => ops.apply o x y
    | none => .error (.unknownOperator operator)
  | .foreign kind _, _ => .error (.unknownNode kind)
  | _, xs => .error (.shape xs.length)

mutual

theorem value_eq_fold (t : Tree) : t.value ops assignment = t.fold (operate ops assignment) := by
  cases t with
  | number x => rfl
  | name text => rfl
  | call function operand => rw [value, fold, value_eq_fold operand]; rfl
  | binary operator left right => rw [value, fold, value_eq_fold left, value_eq_fold right]; rfl
  | foreign kind texts parts => rw [value, fold, values_eq_folds parts]; rfl

theorem values_eq_folds (ts : List Tree) :
    values ops assignment ts = folds (operate ops assignment) ts := by
  cases ts with
  | nil => rfl
  | cons t ts => rw [values, folds, value_eq_fold t, values_eq_folds ts]

end

theorem performs_evaluateStep :
    Performs (operate ops assignment) (evaluateStep ops assignment) where
  number _ _ := rfl
  name _ _ := rfl
  call _ _ _ := rfl
  binary operator _ _ _ := by
    simp only [evaluateStep, operate]
    cases Operator.ofText? operator <;> rfl
  foreign _ _ _ _ := rfl

theorem evaluate_eq_value (t : Tree) : t.evaluate ops assignment = t.value ops assignment := by
  rw [evaluate, result_eq_fold (performs_evaluateStep ops assignment), value_eq_fold]

end

end Tree

end Reckon.Formula
