import Reckon.Proofs.Building

/-!
Which tokens in the order of evaluation build a tree, told by counting. A stack of trees grows
with each operand and shrinks with each operator, so that no operation lacks an operand if
the operands outnumber the operators at any time.
-/

namespace Reckon.Formula

def operands (ts : List Token) : Nat :=
  ts.countP Token.isOperand

def operators (ts : List Token) : Nat :=
  ts.countP fun t => t.kind == .operator

/-- Something is left after each of the tokens, when there are `count` trees at the start. -/
def Supplied (count : Nat) (ts : List Token) : Prop :=
  ∀ front, front <+: ts → front ≠ [] → operators front < count + operands front

structure Balanced (ts : List Token) : Prop where
  supplied : Supplied 0 ts
  total : operands ts = operators ts + 1

theorem operands_cons (t : Token) (ts : List Token) :
    operands (t :: ts) = operands [t] + operands ts := by
  unfold operands
  rw [← List.singleton_append, List.countP_append]

theorem operators_cons (t : Token) (ts : List Token) :
    operators (t :: ts) = operators [t] + operators ts := by
  unfold operators
  rw [← List.singleton_append, List.countP_append]

theorem supplied_cons {count rest : Nat} {t : Token} {ts : List Token}
    (counted : rest + operators [t] = count + operands [t]) :
    Supplied count (t :: ts) ↔ 0 < rest ∧ Supplied rest ts := by
  constructor
  · intro supplied
    refine ⟨?_, fun front before _ => ?_⟩
    · have first := supplied [t] ⟨ts, rfl⟩ (List.cons_ne_nil t [])
      omega
    · have longer := supplied (t :: front) (List.cons_prefix_cons.mpr ⟨rfl, before⟩)
        (List.cons_ne_nil t front)
      rw [operands_cons, operators_cons] at longer
      omega
  · rintro ⟨positive, supplied⟩ front before filled
    rcases List.prefix_cons_iff.mp before with rfl | ⟨front, rfl, shorter⟩
    · exact absurd rfl filled
    · rw [operands_cons, operators_cons]
      by_cases none : front = []
      · subst none
        simp only [operands, operators, List.countP_nil] at counted ⊢
        omega
      · have later := supplied front shorter none
        omega

namespace Tree

theorem length_of_builds {trees next : List Tree} {t : Token} (builds : Builds trees t next) :
    next.length + operators [t] = trees.length + operands [t] := by
  cases builds with
  | number kind reads => simp [operands, operators, Token.isOperand, kind]
  | name kind => simp [operands, operators, Token.isOperand, kind]
  | root kind => simp [operands, operators, Token.isOperand, kind]
  | binary spells =>
    simp [operands, operators, Token.isOperand, Token.kind_of_operator? spells]

theorem ne_nil_of_builds {trees next : List Tree} {t : Token} (builds : Builds trees t next) :
    next ≠ [] := by
  cases builds <;> exact List.cons_ne_nil _ _

theorem isTerminal_of_builds {trees next : List Tree} {t : Token} (builds : Builds trees t next) :
    t.IsTerminal := by
  cases builds with
  | number kind reads => simp [Token.IsTerminal, kind, reads]
  | name kind => simp [Token.IsTerminal, kind]
  | root kind => simp [Token.IsTerminal, kind]
  | binary spells =>
    obtain ⟨kind, spelled⟩ := Token.operator?_eq_some.mp spells
    simp [Token.IsTerminal, kind, spelled]

theorem exists_builds {trees : List Tree} {t : Token} (node : t.IsNode) (terminal : t.IsTerminal)
    (supplied : operators [t] < trees.length + operands [t]) : ∃ next, Builds trees t next := by
  rcases node with operand | kind | ⟨o, spells⟩
  · rcases Token.isOperand_iff.mp operand with kind | kind
    · obtain ⟨x, reads⟩ : ∃ x, literal t.text = .ok x := by
        simpa [Token.IsTerminal, kind] using terminal
      exact ⟨_, .number kind reads⟩
    · exact ⟨_, .name kind⟩
  · cases trees with
    | nil => simp [operands, operators, Token.isOperand, kind] at supplied
    | cons operand trees => exact ⟨_, .root kind⟩
  · have kind := Token.kind_of_operator? spells
    cases trees with
    | nil => simp [operands, operators, Token.isOperand, kind] at supplied
    | cons right trees =>
      cases trees with
      | nil => simp [operands, operators, Token.isOperand, kind] at supplied
      | cons left trees => exact ⟨_, .binary spells⟩

theorem exists_buildStack_iff {ts : List Token} (nodes : ∀ t ∈ ts, t.IsNode) (trees : List Tree) :
    (∃ next, buildStack trees ts = .ok next) ↔
      (∀ t ∈ ts, t.IsTerminal) ∧ Supplied trees.length ts := by
  induction ts generalizing trees with
  | nil => simp [buildStack, Supplied]
  | cons t ts ih =>
    obtain ⟨node, nodes⟩ := List.forall_mem_cons.mp nodes
    rw [List.forall_mem_cons]
    constructor
    · rintro ⟨last, built⟩
      rw [buildStack_cons] at built
      obtain ⟨next, step, built⟩ := bind_eq_ok_iff.mp built
      have builds := builds_of_buildStep node step
      obtain ⟨terminals, supplied⟩ := (ih nodes next).mp ⟨last, built⟩
      refine ⟨⟨isTerminal_of_builds builds, terminals⟩, ?_⟩
      rw [supplied_cons (length_of_builds builds)]
      exact ⟨List.length_pos_iff.mpr (ne_nil_of_builds builds), supplied⟩
    · rintro ⟨⟨terminal, terminals⟩, supplied⟩
      obtain ⟨next, builds⟩ := exists_builds node terminal
        (supplied [t] ⟨ts, rfl⟩ (List.cons_ne_nil t []))
      rw [supplied_cons (length_of_builds builds)] at supplied
      obtain ⟨last, built⟩ := (ih nodes next).mpr ⟨terminals, supplied.2⟩
      exact ⟨last, by rw [buildStack_of_builds builds, built]⟩

theorem length_of_buildStack {ts : List Token} (nodes : ∀ t ∈ ts, t.IsNode) {trees next : List Tree}
    (built : buildStack trees ts = .ok next) :
    next.length + operators ts = trees.length + operands ts := by
  induction ts generalizing trees with
  | nil =>
    cases built
    rfl
  | cons t ts ih =>
    obtain ⟨node, nodes⟩ := List.forall_mem_cons.mp nodes
    rw [buildStack_cons] at built
    obtain ⟨middle, step, built⟩ := bind_eq_ok_iff.mp built
    have first := length_of_builds (builds_of_buildStep node step)
    have rest := ih nodes built
    rw [operands_cons, operators_cons]
    omega

/-- Nodes build one tree exactly if their numbers can be read and the operands outnumber the
operators, at any time and by one at the end. -/
theorem exists_ofPostfix_iff {ts : List Token} (nodes : ∀ t ∈ ts, t.IsNode) :
    (∃ t, ofPostfix ts = .ok t) ↔ (∀ t ∈ ts, t.IsTerminal) ∧ Balanced ts := by
  unfold ofPostfix
  constructor
  · rintro ⟨t, built⟩
    obtain ⟨trees, stack, one⟩ := bind_eq_ok_iff.mp built
    obtain ⟨terminals, supplied⟩ := (exists_buildStack_iff nodes []).mp ⟨trees, stack⟩
    have counted := length_of_buildStack nodes stack
    refine ⟨terminals, supplied, ?_⟩
    match trees with
    | [] => cases one
    | [_] =>
      rw [List.length_singleton, List.length_nil] at counted
      omega
    | _ :: _ :: _ => cases one
  · rintro ⟨terminals, balanced⟩
    obtain ⟨trees, stack⟩ := (exists_buildStack_iff nodes []).mpr ⟨terminals, balanced.supplied⟩
    have counted := length_of_buildStack nodes stack
    have total := balanced.total
    rw [List.length_nil] at counted
    obtain ⟨t, rfl⟩ := List.length_eq_one_iff.mp (show trees.length = 1 by omega)
    exact ⟨t, by rw [stack]; rfl⟩

end Tree

end Reckon.Formula
