import Reckon.Proofs.Order
import Reckon.Proofs.Walk

/-!
Trees and the tokens they are built from. The postorder of a derivation builds its tree, and
whatever builds a tree is the postorder of a derivation of that tree. Tokens build a tree
exactly if each operation finds its operands, which can be told by counting.
-/

namespace Reckon.Formula

def Token.label? (t : Token) : Option Label :=
  match t.kind with
  | .number => (Decimal.float? t.text).map .number
  | .name => some (.name t.text)
  | .root => some (.call rootName)
  | .operator => some (.binary t.text)
  | _ => none

theorem literal_eq_ok_iff {text : String} {x : Float} :
    literal text = .ok x ↔ Decimal.float? text = some x := by
  unfold literal
  cases Decimal.float? text <;> simp

namespace Tree

inductive Builds : List Tree → Token → List Tree → Prop where
  | number {trees : List Tree} {t : Token} {x : Float} (kind : t.kind = .number)
      (reads : literal t.text = .ok x) : Builds trees t (.number x :: trees)
  | name {trees : List Tree} {t : Token} (kind : t.kind = .name) :
      Builds trees t (.name t.text :: trees)
  | root {trees : List Tree} {t : Token} {operand : Tree} (kind : t.kind = .root) :
      Builds (operand :: trees) t (.call rootName operand :: trees)
  | binary {trees : List Tree} {t : Token} {o : Operator} {left right : Tree}
      (spells : t.operator? = some o) :
      Builds (right :: left :: trees) t (.binary t.text left right :: trees)

theorem buildStep_of_builds {trees next : List Tree} {t : Token} (builds : Builds trees t next) :
    buildStep trees t = .ok next := by
  cases builds with
  | number kind reads => simp [buildStep, kind, reads, Except.map]
  | name kind => simp [buildStep, kind]
  | root kind => simp [buildStep, kind]
  | binary spells => simp [buildStep, Token.kind_of_operator? spells]

theorem builds_of_buildStep {trees next : List Tree} {t : Token} (node : t.IsNode)
    (built : buildStep trees t = .ok next) : Builds trees t next := by
  rcases node with operand | kind | ⟨o, spells⟩
  · rcases Token.isOperand_iff.mp operand with kind | kind
    · cases reads : literal t.text with
      | error e => simp [buildStep, kind, reads, Except.map] at built
      | ok x =>
        simp only [buildStep, kind, reads, Except.map, Except.ok.injEq] at built
        exact built ▸ .number kind reads
    · simp only [buildStep, kind, Except.ok.injEq] at built
      exact built ▸ .name kind
  · simp only [buildStep, kind] at built
    split at built
    case h_1 => exact Except.ok.inj built ▸ .root kind
    case h_2 => cases built
  · simp only [buildStep, Token.kind_of_operator? spells] at built
    split at built
    case h_1 => exact Except.ok.inj built ▸ .binary spells
    case h_2 => cases built

theorem buildStack_cons (trees : List Tree) (t : Token) (ts : List Token) :
    buildStack trees (t :: ts) = (buildStep trees t).bind fun next => buildStack next ts := by
  rw [buildStack]
  cases buildStep trees t <;> rfl

theorem buildStack_of_builds {trees next : List Tree} {t : Token} (builds : Builds trees t next)
    (ts : List Token) : buildStack trees (t :: ts) = buildStack next ts := by
  rw [buildStack_cons, buildStep_of_builds builds]
  rfl

/-- A token that is labelled as the root of a tree builds the tree from its parts. -/
theorem builds_of_label {t : Tree} {token : Token} (node : token.IsNode)
    (labelled : token.label? = some t.label) (trees : List Tree) :
    Builds (t.parts.reverse ++ trees) token (t :: trees) := by
  rcases node with operand | kind | ⟨o, spells⟩
  · rcases Token.isOperand_iff.mp operand with kind | kind
    · simp only [Token.label?, kind, Option.map_eq_some_iff] at labelled
      obtain ⟨x, reads, same⟩ := labelled
      cases t with
      | number value =>
        cases same
        exact .number kind (literal_eq_ok_iff.mpr reads)
      | _ => cases same
    · simp only [Token.label?, kind, Option.some.injEq] at labelled
      cases t with
      | name text =>
        cases labelled
        exact .name kind
      | _ => cases labelled
  · simp only [Token.label?, kind, Option.some.injEq] at labelled
    cases t with
    | call function operand =>
      cases labelled
      exact .root kind
    | _ => cases labelled
  · simp only [Token.label?, Token.kind_of_operator? spells, Option.some.injEq] at labelled
    cases t with
    | binary operator left right =>
      cases labelled
      exact .binary spells
    | _ => cases labelled

/-- The parts are built one after the other, if each is built from its labels. -/
theorem buildStack_of_parts {parts : List Tree}
    (each : ∀ p ∈ parts, ∀ ts, (∀ token ∈ ts, token.IsNode) →
      ts.map Token.label? = p.postorder.map some →
        ∀ trees rest, buildStack trees (ts ++ rest) = buildStack (p :: trees) rest)
    {ts : List Token} (nodes : ∀ token ∈ ts, token.IsNode)
    (labels : ts.map Token.label? = (parts.flatMap postorder).map some) (trees : List Tree)
    (rest : List Token) :
    buildStack trees (ts ++ rest) = buildStack (parts.reverse ++ trees) rest := by
  induction parts generalizing ts trees with
  | nil =>
    rw [List.map_eq_nil_iff.mp labels]
    rfl
  | cons p parts ih =>
    obtain ⟨here, others⟩ := List.forall_mem_cons.mp each
    rw [List.flatMap_cons, List.map_append] at labels
    obtain ⟨front, back, rfl, first, later⟩ := List.map_eq_append_iff.mp labels
    obtain ⟨front_nodes, back_nodes⟩ := List.forall_mem_append.mp nodes
    rw [List.append_assoc, here front front_nodes first, ih others back_nodes later,
      List.reverse_cons, List.append_assoc, List.singleton_append]

/-- Tokens that are labelled as the postorder of a tree build the tree. -/
theorem buildStack_of_labels (t : Tree) (ts : List Token) (nodes : ∀ token ∈ ts, token.IsNode)
    (labels : ts.map Token.label? = t.postorder.map some) (trees : List Tree)
    (rest : List Token) : buildStack trees (ts ++ rest) = buildStack (t :: trees) rest := by
  induction t using induct generalizing ts trees rest with
  | node t ih =>
    rw [postorder_eq, List.map_append] at labels
    obtain ⟨front, back, rfl, inner, last⟩ := List.map_eq_append_iff.mp labels
    obtain ⟨token, rfl, labelled⟩ := List.map_eq_singleton_iff.mp last
    obtain ⟨front_nodes, back_nodes⟩ := List.forall_mem_append.mp nodes
    have root := builds_of_label (back_nodes token (List.mem_singleton_self _)) labelled trees
    rw [List.append_assoc, buildStack_of_parts ih front_nodes inner, List.singleton_append]
    exact buildStack_of_builds root rest

theorem ofPostfix_of_labels {t : Tree} {ts : List Token} (nodes : ∀ token ∈ ts, token.IsNode)
    (labels : ts.map Token.label? = t.postorder.map some) : ofPostfix ts = .ok t := by
  have built := buildStack_of_labels t ts nodes labels [] []
  rw [List.append_nil] at built
  rw [ofPostfix, built]
  rfl

end Tree

namespace Derivation

theorem label_postorder {level : Level} (d : Derivation level) :
    d.postorder.map Token.label? = d.tree.postorder.map some := by
  induction d with
  | binary o own left token spells right left_ih right_ih =>
    simp [postorder, tree, left_ih, right_ih, Token.label?, Token.kind_of_operator? spells]
  | tighter inner ih => exact ih
  | root token kind operand ih => simp [postorder, tree, ih, Token.label?, kind]
  | number token kind value reads =>
    simp [postorder, tree, Token.label?, kind, literal_eq_ok_iff.mp reads]
  | name token kind => simp [postorder, tree, Token.label?, kind]
  | group first last opens ends inner ih => exact ih

theorem buildStack_postorder {level : Level} (d : Derivation level) (trees : List Tree)
    (rest : List Token) :
    Tree.buildStack trees (d.postorder ++ rest) = Tree.buildStack (d.tree :: trees) rest := by
  induction d generalizing trees rest with
  | binary o own left token spells right left_ih right_ih =>
    rw [postorder, List.append_assoc, List.append_assoc, left_ih, right_ih, List.singleton_append]
    exact Tree.buildStack_of_builds (.binary spells) rest
  | tighter inner ih => exact ih trees rest
  | root token kind operand ih =>
    rw [postorder, List.append_assoc, ih, List.singleton_append]
    exact Tree.buildStack_of_builds (.root kind) rest
  | number token kind value reads => exact Tree.buildStack_of_builds (.number kind reads) rest
  | name token kind => exact Tree.buildStack_of_builds (.name kind) rest
  | group first last opens ends inner ih => exact ih trees rest

theorem ofPostfix_postorder {level : Level} (d : Derivation level) :
    Tree.ofPostfix d.postorder = .ok d.tree := by
  have built := d.buildStack_postorder [] []
  rw [List.append_nil] at built
  rw [Tree.ofPostfix, built]
  rfl

theorem ofTokens_tokens {level : Level} (d : Derivation level)
    (spelled : ∀ t ∈ d.tokens, t.Spelled) : Tree.ofTokens d.tokens = .ok d.tree := by
  rw [Tree.ofTokens, d.toPostfix_tokens spelled]
  exact d.ofPostfix_postorder

/-- The tree of an expression is the tree of its derivation, and the order of evaluation is
the postorder of this tree. -/
theorem parses (d : Derivation .sum) (spelled : ∀ t ∈ d.tokens, t.Spelled) :
    Tree.ofTokens d.tokens = .ok d.tree ∧ toPostfix d.tokens = .ok d.postorder ∧
      d.postorder.map Token.label? = d.tree.postorder.map some :=
  ⟨d.ofTokens_tokens spelled, d.toPostfix_tokens spelled, d.label_postorder⟩

def rootOfSum : Derivation .sum :=
  let sum : Derivation .sum :=
    .binary .add rfl (.tighter (.tighter (.tighter (.name ⟨.name, "a", none⟩ rfl))))
      ⟨.operator, "+", none⟩ rfl (.tighter (.tighter (.name ⟨.name, "b", none⟩ rfl)))
  let root : Derivation .unit :=
    .root ⟨.root, "sqrt", none⟩ rfl (.group ⟨.opening, "(", none⟩ ⟨.closing, ")", none⟩ rfl rfl sum)
  .tighter (.tighter (.binary .pow rfl (.tighter root) ⟨.operator, "^", none⟩ rfl
    (.name ⟨.name, "c", none⟩ rfl)))

theorem parses_rootOfSum :
    Tree.ofTokens rootOfSum.tokens =
      .ok (.binary "^" (.call "sqrt" (.binary "+" (.name "a") (.name "b"))) (.name "c")) :=
  (rootOfSum.parses (by decide)).1

theorem exists_grouped {level : Level} (d : Derivation level) :
    ∃ u : Derivation .unit, u.tree = d.tree ∧ u.postorder = d.postorder := by
  have around (inner : Derivation .sum) :
      ∃ u : Derivation .unit, u.tree = inner.tree ∧ u.postorder = inner.postorder :=
    ⟨.group ⟨.opening, "(", none⟩ ⟨.closing, ")", none⟩ rfl rfl inner, rfl, rfl⟩
  cases level with
  | sum => exact around d
  | product => exact around (.tighter d)
  | power => exact around (.tighter (.tighter d))
  | unit => exact ⟨d, rfl, rfl⟩

theorem exists_operation {o : Operator} {token : Token} (spells : token.operator? = some o)
    (left right : Derivation .unit) :
    ∃ u : Derivation .unit, u.tree = .binary token.text left.tree right.tree ∧
      u.postorder = left.postorder ++ right.postorder ++ [token] := by
  obtain ⟨l, -, left_tree, left_postorder⟩ := left.exists_of_unit o.level
  obtain ⟨r, -, right_tree, right_postorder⟩ := right.exists_of_unit o.level.tighter
  obtain ⟨u, same_tree, same_postorder⟩ := (binary o rfl l token spells r).exists_grouped
  refine ⟨u, ?_, ?_⟩
  · rw [same_tree, tree, left_tree, right_tree]
  · rw [same_postorder, postorder, left_postorder, right_postorder]

theorem exists_of_builds {us : List (Derivation .unit)} {t : Token} {next : List Tree}
    (builds : Tree.Builds (us.map tree) t next) :
    ∃ us' : List (Derivation .unit), us'.map tree = next ∧
      us'.reverse.flatMap postorder = us.reverse.flatMap postorder ++ [t] := by
  generalize same : us.map tree = trees at builds
  cases builds with
  | number kind reads =>
    refine ⟨.number t kind _ reads :: us, ?_, by simp [postorder]⟩
    rw [List.map_cons, same, tree]
  | name kind =>
    refine ⟨.name t kind :: us, ?_, by simp [postorder]⟩
    rw [List.map_cons, same, tree]
  | root kind =>
    obtain ⟨u, us, rfl, rfl, rfl⟩ := List.map_eq_cons_iff.mp same
    refine ⟨.root t kind u :: us, ?_, by simp [postorder]⟩
    rw [List.map_cons, tree]
  | binary spells =>
    obtain ⟨right, us, rfl, rfl, rest⟩ := List.map_eq_cons_iff.mp same
    obtain ⟨left, us, rfl, rfl, rfl⟩ := List.map_eq_cons_iff.mp rest
    obtain ⟨u, same_tree, same_postorder⟩ := exists_operation spells left right
    refine ⟨u :: us, ?_, by simp [same_postorder]⟩
    rw [List.map_cons, same_tree]

/-- Trees on the stack have derivations whose postorders, from the bottom to the top, are the
tokens that were built. -/
theorem exists_of_buildStack {ts : List Token} (nodes : ∀ t ∈ ts, t.IsNode)
    (us : List (Derivation .unit))
    {trees : List Tree} (built : Tree.buildStack (us.map tree) ts = .ok trees) :
    ∃ us' : List (Derivation .unit), us'.map tree = trees ∧
      us'.reverse.flatMap postorder = us.reverse.flatMap postorder ++ ts := by
  induction ts generalizing us with
  | nil => exact ⟨us, Except.ok.inj built, (List.append_nil _).symm⟩
  | cons t ts ih =>
    obtain ⟨node, nodes⟩ := List.forall_mem_cons.mp nodes
    rw [Tree.buildStack_cons] at built
    obtain ⟨next, step, built⟩ := bind_eq_ok_iff.mp built
    obtain ⟨us', rfl, same⟩ := exists_of_builds (Tree.builds_of_buildStep node step)
    obtain ⟨last, trees_eq, tokens_eq⟩ := ih nodes us' built
    exact ⟨last, trees_eq, by rw [tokens_eq, same, List.append_assoc, List.singleton_append]⟩

/-- What builds a tree is the postorder of a derivation of the tree. -/
theorem exists_of_ofPostfix {ts : List Token} {t : Tree} (nodes : ∀ t ∈ ts, t.IsNode)
    (built : Tree.ofPostfix ts = .ok t) :
    ∃ u : Derivation .unit, u.tree = t ∧ u.postorder = ts := by
  obtain ⟨trees, stack, one⟩ := bind_eq_ok_iff.mp built
  obtain ⟨us, rfl, same⟩ := exists_of_buildStack nodes [] stack
  match us with
  | [] => cases one
  | [u] => exact ⟨u, Except.ok.inj one, by simpa using same⟩
  | _ :: _ :: _ => cases one

end Derivation

/-- Building a tree and listing its nodes in postorder undo each other: tokens have a tree exactly
if in the order of evaluation they are labelled as its postorder. So the tree has one node for each
token that is no parenthesis. -/
theorem ofTokens_eq_ok_iff_labels (ts : List Token) (t : Tree) :
    (Tree.ofTokens ts = .ok t ↔
      ∃ result, toPostfix ts = .ok result ∧
        result.map Token.label? = t.postorder.map some) ∧
    (Tree.ofTokens ts = .ok t → t.size = ts.countP fun token => !token.isParenthesis) := by
  have listed : Tree.ofTokens ts = .ok t → ∃ result, toPostfix ts = .ok result ∧
      result.map Token.label? = t.postorder.map some := by
    intro built
    obtain ⟨result, ordered, built⟩ := bind_eq_ok_iff.mp built
    obtain ⟨u, rfl, rfl⟩ := Derivation.exists_of_ofPostfix (isNode_of_toPostfix ordered) built
    exact ⟨u.postorder, ordered, u.label_postorder⟩
  refine ⟨⟨listed, ?_⟩, fun built => ?_⟩
  · rintro ⟨result, ordered, labels⟩
    rw [Tree.ofTokens, ordered]
    exact Tree.ofPostfix_of_labels (isNode_of_toPostfix ordered) labels
  · obtain ⟨result, ordered, labels⟩ := listed built
    have long := congrArg List.length labels
    rw [List.length_map, List.length_map, Tree.length_postorder] at long
    rw [← long, (perm_of_toPostfix ordered).length_eq, List.countP_eq_length_filter]

theorem ofTokens_eq_ok_iff_labels_rootOfSum :
    let d := Derivation.rootOfSum
    Tree.ofTokens d.tokens = .ok d.tree ∧ d.tokens.length = 8 ∧ d.tree.size = 6 := by
  obtain ⟨labelled, counted⟩ :=
    ofTokens_eq_ok_iff_labels Derivation.rootOfSum.tokens Derivation.rootOfSum.tree
  have ordered := Derivation.rootOfSum.toPostfix_tokens (by decide)
  have built := labelled.mpr ⟨_, ordered, Derivation.rootOfSum.label_postorder⟩
  exact ⟨built, rfl, counted built⟩

end Reckon.Formula
