import Mathlib
import Reckon.Proofs.Forms

/-!
Walks that keep their results in a table. Each node has a key. On the way along the postorder the
results of the parts are taken out of the table, and the result of the node is put there under its
key. If no two nodes have the same key, each result is there when it is asked for, and the walk
comes to what recursion comes to. A tree in which one node stands in two places has no such keys:
the result of this node is taken out for the first of them and is missed for the second.
-/

namespace Reckon.Formula.Tree

/-! ### Places -/

mutual

/-- The trees at the nodes in postorder, each with its place. A place tells from the inside out
which part is meant. -/
def spots (place : List Nat) : Tree → List (List Nat × Tree)
  | number value => [(place, number value)]
  | name text => [(place, name text)]
  | call function operand => operand.spots (0 :: place) ++ [(place, call function operand)]
  | binary operator left right =>
    left.spots (0 :: place) ++ right.spots (1 :: place) ++ [(place, binary operator left right)]
  | foreign kind texts parts => spotsFrom 0 place parts ++ [(place, foreign kind texts parts)]

def spotsFrom (first : Nat) (place : List Nat) : List Tree → List (List Nat × Tree)
  | [] => []
  | t :: ts => t.spots (first :: place) ++ spotsFrom (first + 1) place ts

end

theorem spots_eq (place : List Nat) (t : Tree) :
    t.spots place = spotsFrom 0 place t.parts ++ [(place, t)] := by
  cases t <;> simp [spots, spotsFrom, parts]

theorem map_spotsFrom {ts : List Tree}
    (each : ∀ t ∈ ts, ∀ place, (t.spots place).map Prod.snd = t.subtrees) (first : Nat)
    (place : List Nat) : (spotsFrom first place ts).map Prod.snd = ts.flatMap subtrees := by
  induction ts generalizing first with
  | nil => rfl
  | cons t ts ih =>
    obtain ⟨here, others⟩ := List.forall_mem_cons.mp each
    rw [spotsFrom, List.map_append, here, ih others, List.flatMap_cons]

theorem map_spots (place : List Nat) (t : Tree) : (t.spots place).map Prod.snd = t.subtrees := by
  induction t using induct generalizing place with
  | node t ih => rw [spots_eq, List.map_append, map_spotsFrom ih, subtrees_eq, List.map_singleton]

theorem mem_spots (place : List Nat) (t : Tree) : (place, t) ∈ t.spots place := by
  rw [spots_eq]
  exact List.mem_append_right _ (List.mem_singleton_self _)

section

variable {α κ : Type} (key : List Nat → κ)

def partKeys (first : Nat) (place : List Nat) (ts : List Tree) : List κ :=
  (List.range' first ts.length).map fun i => key (i :: place)

theorem partKeys_cons (first : Nat) (place : List Nat) (t : Tree) (ts : List Tree) :
    partKeys key first place (t :: ts) =
      key (first :: place) :: partKeys key (first + 1) place ts := by
  rw [partKeys, List.length_cons, List.range'_succ, List.map_cons]
  rfl

theorem partKeys_sublist (first : Nat) (place : List Nat) (ts : List Tree) :
    (partKeys key first place ts).Sublist
      ((spotsFrom first place ts).map fun node => key node.1) := by
  induction ts generalizing first with
  | nil => exact List.nil_sublist _
  | cons t ts ih =>
    have root : [key (first :: place)].Sublist
        ((t.spots (first :: place)).map fun node => key node.1) :=
      List.singleton_sublist.mpr (List.mem_map_of_mem (mem_spots (first :: place) t))
    rw [partKeys_cons, spotsFrom, List.map_append]
    exact root.append (ih (first + 1))

/-- No two nodes have the same key, and the table has nothing under any of their keys. -/
structure Fresh (done : κ → Option α) (nodes : List (List Nat × Tree)) : Prop where
  distinct : (nodes.map fun node => key node.1).Nodup
  unused : ∀ node ∈ nodes, done (key node.1) = none

variable {key} {done : κ → Option α}

/-- Nodes side by side have keys of their own. -/
theorem Fresh.apart {front back : List (List Nat × Tree)} (fresh : Fresh key done (front ++ back)) :
    (front.map fun node => key node.1).Nodup ∧ (back.map fun node => key node.1).Nodup ∧
      ∀ earlier ∈ front, ∀ later ∈ back, key earlier.1 ≠ key later.1 := by
  have distinct := fresh.distinct
  rw [List.map_append, List.nodup_append] at distinct
  obtain ⟨first, second, different⟩ := distinct
  exact ⟨first, second, fun earlier before later behind =>
    different _ (List.mem_map_of_mem before) _ (List.mem_map_of_mem behind)⟩

theorem Fresh.left {front back : List (List Nat × Tree)} (fresh : Fresh key done (front ++ back)) :
    Fresh key done front where
  distinct := fresh.apart.1
  unused node member := fresh.unused node (List.mem_append_left back member)

end

/-! ### Tables -/

section

variable {ε α κ : Type} [DecidableEq κ]

def pops (done : κ → Option α) : List κ → Option (List α × (κ → Option α))
  | [] => some ([], done)
  | k :: ks =>
    (done k).bind fun x =>
      (pops (Function.update done k none) ks).map fun taken => (x :: taken.1, taken.2)

def enter (done : κ → Option α) : List κ → List α → κ → Option α
  | k :: ks, x :: xs => Function.update (enter done ks xs) k (some x)
  | _, _ => done

theorem enter_of_not_mem {k : κ} {ks : List κ} (other : k ∉ ks) (done : κ → Option α)
    (xs : List α) : enter done ks xs k = done k := by
  induction ks generalizing xs with
  | nil => rfl
  | cons l ks ih =>
    obtain ⟨different, other⟩ := not_or.mp (mt List.mem_cons.mpr other)
    cases xs with
    | nil => rfl
    | cons x xs => rw [enter, Function.update_of_ne different, ih other]

theorem enter_update {k : κ} {ks : List κ} (other : k ∉ ks) (done : κ → Option α)
    (result : Option α) (xs : List α) :
    enter (Function.update done k result) ks xs = Function.update (enter done ks xs) k result := by
  induction ks generalizing xs with
  | nil => rfl
  | cons l ks ih =>
    obtain ⟨different, other⟩ := not_or.mp (mt List.mem_cons.mpr other)
    cases xs with
    | nil => rfl
    | cons x xs => rw [enter, enter, ih other, Function.update_comm different]

/-- What was put into the table under new keys is taken out again. -/
theorem pops_enter {done : κ → Option α} {ks : List κ} {xs : List α} (distinct : ks.Nodup)
    (unused : ∀ k ∈ ks, done k = none) (same : xs.length = ks.length) :
    pops (enter done ks xs) ks = some (xs, done) := by
  induction ks generalizing xs with
  | nil => rw [List.length_eq_zero_iff.mp same]; rfl
  | cons k ks ih =>
    obtain ⟨other, distinct⟩ := List.nodup_cons.mp distinct
    obtain ⟨free, unused⟩ := List.forall_mem_cons.mp unused
    cases xs with
    | nil => cases same
    | cons x xs =>
      have emptied : Function.update (enter done ks xs) k none = enter done ks xs :=
        Function.update_eq_self_iff.mpr ((enter_of_not_mem other done xs).trans free).symm
      rw [pops, enter, Function.update_self, Function.update_idem, emptied]
      simp only [Option.bind_some, ih distinct unused (Nat.succ.inj same), Option.map_some]

/-! ### Walks -/

variable (key : List Nat → κ) (work : Label → List α → Except ε α)

/-- Takes the nodes in turn. The error `none` tells that a result is missing. -/
def tabulate (done : κ → Option α) : List (List Nat × Tree) → Except (Option ε) (κ → Option α)
  | [] => .ok done
  | (place, t) :: rest =>
    match pops done (partKeys key 0 place t.parts) with
    | none => .error none
    | some (xs, left) =>
      match work t.label xs with
      | .error e => .error (some e)
      | .ok x => tabulate (Function.update left (key place) (some x)) rest

def tabulated (t : Tree) : Except (Option ε) α :=
  (tabulate key work (fun _ => none) (t.spots [])).bind fun done =>
    match done (key []) with
    | some x => .ok x
    | none => .error none

variable {key work} {done : κ → Option α}

/-- The table stays free for later nodes when the result of an earlier one is put there. -/
theorem Fresh.right {front back : List (List Nat × Tree)} (fresh : Fresh key done (front ++ back))
    {node : List Nat × Tree} (member : node ∈ front) (result : Option α) :
    Fresh key (Function.update done (key node.1) result) back where
  distinct := fresh.apart.2.1
  unused later behind := by
    rw [Function.update_of_ne (fresh.apart.2.2 node member later behind).symm]
    exact fresh.unused later (List.mem_append_right front behind)

/-- What the walk does with trees side by side, if it enters the result of each. -/
theorem tabulate_spotsFrom {ts : List Tree}
    (each : ∀ t ∈ ts, ∀ place done rest, Fresh key done (t.spots place) →
      tabulate key work done (t.spots place ++ rest) = ((t.fold work).mapError some).bind fun x =>
        tabulate key work (Function.update done (key place) (some x)) rest)
    (first : Nat) (place : List Nat) (rest : List (List Nat × Tree))
    (fresh : Fresh key done (spotsFrom first place ts)) :
    tabulate key work done (spotsFrom first place ts ++ rest) =
      ((folds work ts).mapError some).bind fun xs =>
        tabulate key work (enter done (partKeys key first place ts) xs) rest := by
  induction ts generalizing first done with
  | nil => rfl
  | cons t ts ih =>
    obtain ⟨here, others⟩ := List.forall_mem_cons.mp each
    rw [spotsFrom] at fresh
    have distinct := (partKeys_sublist key first place (t :: ts)).nodup fresh.distinct
    rw [partKeys_cons] at distinct
    rw [spotsFrom, List.append_assoc, here _ _ _ fresh.left, folds]
    cases t.fold work with
    | error e => rfl
    | ok x =>
      change tabulate key work _ _ = _
      rw [ih others (first + 1) (fresh.right (mem_spots (first :: place) t) (some x))]
      cases folds work ts with
      | error e => rfl
      | ok xs =>
        simp only [Except.mapError, Except.bind, Except.map]
        rw [enter_update (List.nodup_cons.mp distinct).1, partKeys_cons, enter]

/-- The walk enters the result of the tree under the key of its root, and what it entered for the
parts is taken out again. -/
theorem tabulate_spots (t : Tree) (place : List Nat) (done : κ → Option α)
    (rest : List (List Nat × Tree)) (fresh : Fresh key done (t.spots place)) :
    tabulate key work done (t.spots place ++ rest) = ((t.fold work).mapError some).bind fun x =>
      tabulate key work (Function.update done (key place) (some x)) rest := by
  induction t using induct generalizing place done rest with
  | node t ih =>
    rw [spots_eq] at fresh
    rw [spots_eq, List.append_assoc, tabulate_spotsFrom ih 0 place _ fresh.left, fold_eq]
    cases results : folds work t.parts with
    | error e => rfl
    | ok xs =>
      have keys := partKeys_sublist key 0 place t.parts
      have taken : pops (enter done (partKeys key 0 place t.parts) xs)
          (partKeys key 0 place t.parts) = some (xs, done) := by
        refine pops_enter (keys.nodup fresh.left.distinct) ?_ ?_
        · intro k member
          obtain ⟨node, inside, rfl⟩ := List.mem_map.mp (keys.subset member)
          exact fresh.left.unused node inside
        · rw [partKeys, List.length_map, List.length_range', length_of_folds work results]
      simp only [Except.mapError, Except.bind, List.singleton_append, tabulate, taken]
      cases work t.label xs <;> rfl

/-- With a key of its own for each node the walk comes to the same result as recursion. -/
theorem tabulated_eq_fold {t : Tree} (distinct : ((t.spots []).map fun node => key node.1).Nodup) :
    t.tabulated key work = (t.fold work).mapError some := by
  have fresh : Fresh key (fun _ => (none : Option α)) (t.spots []) := ⟨distinct, fun _ _ => rfl⟩
  have whole : tabulate key work _ _ = _ := tabulate_spots t [] _ [] fresh
  rw [List.append_nil] at whole
  rw [tabulated, whole]
  cases t.fold work with
  | error e => rfl
  | ok x => simp [Except.mapError, Except.bind, tabulate]

/-- In `a + a` with one node for both operands the second one has no result. -/
example : (binary "+" (name "a") (name "a")).tabulated List.length spell = .error none := rfl

theorem tabulated_eq_result {step : List α → Label → Except ε (List α)}
    (performs : Performs work step) (default : α) {t : Tree}
    (distinct : ((t.spots []).map fun node => key node.1).Nodup) :
    t.tabulated key work = (t.result default step).mapError some := by
  rw [tabulated_eq_fold distinct, result_eq_fold performs]

end

/-- The walks of a tree come to what recursion over the tree comes to, also where they fail. It
makes no difference whether they keep results on a stack or in a table with a key of its own for
each node. -/
theorem walks_eq_recursion (t : Tree) :
    t.postorder = t.subtrees.map label ∧
    (∀ (ops : Operations) (assignment : Fields),
      t.evaluate ops assignment = t.value ops assignment ∧
      failure? (t.evaluate ops assignment) = t.subtrees.findSome? (fault ops assignment)) ∧
    t.format = formed t.unknown? t.formatted ∧
    t.toRecord = formed t.unknown? t.recorded ∧
    (∀ indent, t.pretty indent = listed indent (t.outline 0)) ∧
    (t.outline 0).length = t.size ∧
    (t.spots []).map Prod.snd = t.subtrees ∧
    ∀ (κ : Type) [DecidableEq κ] (key : List Nat → κ),
      ((t.spots []).map fun node => key node.1).Nodup →
        (∀ (ops : Operations) (assignment : Fields), t.tabulated key (operate ops assignment) =
          (t.evaluate ops assignment).mapError some) ∧
        t.tabulated key spell = t.format.mapError some ∧
        t.tabulated key describe = t.toRecord.mapError some := by
  refine ⟨t.postorder_eq_map, fun ops assignment => ⟨?_, ?_⟩, t.format_eq, t.toRecord_eq,
    fun indent => pretty_eq indent t, length_outline 0 t, map_spots [] t,
    fun κ _ key distinct => ⟨fun ops assignment => ?_, ?_, ?_⟩⟩
  · exact evaluate_eq_value ops assignment t
  · exact failure?_evaluate ops assignment t
  · exact tabulated_eq_result (performs_evaluateStep ops assignment) 0 distinct
  · exact tabulated_eq_result performs_formatStep "" distinct
  · exact tabulated_eq_result performs_recordStep .null distinct

theorem walks_eq_recursion_difference :
    let t := binary "-" (call "sqrt" (name "a")) (name "b")
    t.format = .ok "(sqrt(a) - b)" ∧ t.tabulated id spell = .ok "(sqrt(a) - b)" := by
  intro t
  obtain ⟨-, -, formatted, -, -, -, -, tables⟩ := t.walks_eq_recursion
  obtain ⟨-, spelled, -⟩ := tables (List Nat) id (by decide)
  exact ⟨formatted, spelled.trans (congrArg (Except.mapError some) formatted)⟩

end Reckon.Formula.Tree
