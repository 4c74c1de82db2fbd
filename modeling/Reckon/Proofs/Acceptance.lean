import Reckon.Proofs.Agreement

/-!
Which lists of tokens have a tree. Tokens are put into the order of evaluation first, and only
then it is counted whether each operation has its operands. This accepts every expression, and
also what the order of evaluation turns into one.
-/

namespace Reckon.Formula

theorem ofTokens_eq_ok_iff {ts : List Token} {t : Tree} :
    Tree.ofTokens ts = .ok t ↔
      ∃ d : Derivation .sum, d.tree = t ∧ toPostfix ts = .ok d.postorder := by
  constructor
  · intro built
    obtain ⟨result, ordered, built⟩ := bind_eq_ok_iff.mp built
    obtain ⟨u, rfl, rfl⟩ := Derivation.exists_of_ofPostfix (isNode_of_toPostfix ordered) built
    obtain ⟨d, -, same_tree, same_postorder⟩ := u.exists_of_unit .sum
    exact ⟨d, same_tree, by rw [ordered, same_postorder]⟩
  · rintro ⟨d, rfl, ordered⟩
    rw [Tree.ofTokens, ordered]
    exact d.ofPostfix_postorder

theorem exists_ofTokens_iff {ts : List Token} :
    (∃ t, Tree.ofTokens ts = .ok t) ↔
      ∃ result, toPostfix ts = .ok result ∧ (∀ t ∈ result, t.IsTerminal) ∧ Balanced result := by
  constructor
  · rintro ⟨t, built⟩
    obtain ⟨result, ordered, built⟩ := bind_eq_ok_iff.mp built
    exact ⟨result, ordered,
      (Tree.exists_ofPostfix_iff (isNode_of_toPostfix ordered)).mp ⟨t, built⟩⟩
  · rintro ⟨result, ordered, counted⟩
    obtain ⟨t, built⟩ := (Tree.exists_ofPostfix_iff (isNode_of_toPostfix ordered)).mpr counted
    exact ⟨t, by rw [Tree.ofTokens, ordered]; exact built⟩

namespace Derivation

theorem operands_postorder {level : Level} (d : Derivation level) :
    d.postorder.filter Token.isOperand = d.tokens.filter Token.isOperand := by
  induction d with
  | binary o own left token spells right left_ih right_ih =>
    have other : token.isOperand = false := by
      simp [Token.isOperand, Token.kind_of_operator? spells]
    simp [postorder, tokens, left_ih, right_ih, other]
  | tighter inner ih => exact ih
  | root token kind operand ih =>
    have other : token.isOperand = false := by simp [Token.isOperand, kind]
    simp [postorder, tokens, ih, other]
  | number token kind value reads => rfl
  | name token kind => rfl
  | group first last opens ends inner ih =>
    have opening : first.isOperand = false := by simp [Token.isOperand, opens]
    have closing : last.isOperand = false := by simp [Token.isOperand, ends]
    simp [postorder, tokens, ih, opening, closing]

theorem perm_postorder {level : Level} (d : Derivation level) :
    d.postorder.Perm (d.tokens.filter fun t => !t.isParenthesis) := by
  induction d with
  | binary o own left token spells right left_ih right_ih =>
    have inside : token.isParenthesis = false := by
      simp [Token.isParenthesis, Token.kind_of_operator? spells]
    simp only [postorder, tokens, List.filter_append, List.filter_cons, inside, Bool.not_false,
      if_true, List.append_assoc]
    refine left_ih.append ?_
    exact (List.perm_append_singleton token _).trans (right_ih.cons token)
  | tighter inner ih => exact ih
  | root token kind operand ih =>
    have inside : token.isParenthesis = false := by simp [Token.isParenthesis, kind]
    simp only [postorder, tokens, List.filter_cons, inside, Bool.not_false, if_true]
    exact (List.perm_append_singleton token _).trans (ih.cons token)
  | number token kind value reads => simp [postorder, tokens, Token.isParenthesis, kind]
  | name token kind => simp [postorder, tokens, Token.isParenthesis, kind]
  | group first last opens ends inner ih =>
    have opening : first.isParenthesis = true := by simp [Token.isParenthesis, opens]
    have closing : last.isParenthesis = true := by simp [Token.isParenthesis, ends]
    simpa [postorder, tokens, opening, closing] using ih

end Derivation

theorem isTerminal_of_toPostfix {ts result : List Token} (ordered : toPostfix ts = .ok result)
    (terminals : ∀ t ∈ result, t.IsTerminal) : ∀ t ∈ ts, t.IsTerminal := by
  intro t member
  cases parenthesis : t.isParenthesis with
  | true =>
    rcases (by simpa [Token.isParenthesis] using parenthesis) with kind | kind <;>
      simp [Token.IsTerminal, kind]
  | false =>
    apply terminals t
    rw [(perm_of_toPostfix ordered).mem_iff]
    simp [member, parenthesis]

theorem countP_of_toPostfix {ts result : List Token} (ordered : toPostfix ts = .ok result)
    {counted : Token → Bool} (inside : ∀ t, counted t = true → t.isParenthesis = false) :
    result.countP counted = ts.countP counted := by
  rw [(perm_of_toPostfix ordered).countP_eq, List.countP_filter]
  apply List.countP_congr
  intro t _
  simpa using inside t

theorem operands_eq_of_ofTokens {ts : List Token} {t : Tree} (built : Tree.ofTokens ts = .ok t) :
    operands ts = operators ts + 1 := by
  obtain ⟨result, ordered, -, balanced⟩ := exists_ofTokens_iff.mp ⟨t, built⟩
  have operands_eq : operands result = operands ts := by
    apply countP_of_toPostfix ordered
    intro t operand
    exact Token.IsNode.isParenthesis (.inl operand)
  have operators_eq : operators result = operators ts := by
    apply countP_of_toPostfix ordered
    intro t kind
    rw [beq_iff_eq] at kind
    simp [Token.isParenthesis, kind]
  rw [← operands_eq, ← operators_eq]
  exact balanced.total

theorem exists_derivation_iff_alternates {ts : List Token} {t : Tree}
    (built : Tree.ofTokens ts = .ok t) :
    (∃ d : Derivation .sum, d.tokens = ts) ↔ alternates true ts = true := by
  obtain ⟨result, ordered, terminals, -⟩ := exists_ofTokens_iff.mp ⟨t, built⟩
  rw [exists_derivation_iff]
  constructor
  · exact Suffix.alternating
  · intro alternating
    exact ⟨isTerminal_of_toPostfix ordered terminals, alternating, closes_of_toPostfix ordered⟩

/-- Tokens have a tree exactly if in the order of evaluation each operation has its operands.
It is the tree of an expression whose order of evaluation is the same: the operands stand as
they stand in the tokens, and the operators are the same ones. The tokens are themselves such
an expression exactly if operands and operators alternate. All other tokens are rejected, and
they have no value either. -/
theorem accepts (ts : List Token) :
    ((∃ t, Tree.ofTokens ts = .ok t) ↔
      ∃ result, toPostfix ts = .ok result ∧ (∀ t ∈ result, t.IsTerminal) ∧ Balanced result) ∧
    (∀ t, Tree.ofTokens ts = .ok t →
      closes 0 ts = true ∧ operands ts = operators ts + 1 ∧
      (∃ d : Derivation .sum, d.tree = t ∧ toPostfix ts = .ok d.postorder ∧
        d.tokens.filter Token.isOperand = ts.filter Token.isOperand ∧
        (d.tokens.filter fun t => !t.isParenthesis).Perm (ts.filter fun t => !t.isParenthesis)) ∧
      ((∃ d : Derivation .sum, d.tokens = ts) ↔ alternates true ts = true)) ∧
    ∀ e, Tree.ofTokens ts = .error e → ∀ (ops : Operations) (assignment : Fields),
      ∃ e', (toPostfix ts).bind (evaluatePostfix ops assignment) = .error e' := by
  refine ⟨exists_ofTokens_iff, fun t built => ?_, fun e failed ops assignment => ?_⟩
  · obtain ⟨d, same, ordered⟩ := ofTokens_eq_ok_iff.mp built
    refine ⟨closes_of_toPostfix ordered, operands_eq_of_ofTokens built,
      ⟨d, same, ordered, ?_, ?_⟩, exists_derivation_iff_alternates built⟩
    · rw [← d.operands_postorder, operands_of_toPostfix ordered]
    · exact d.perm_postorder.symm.trans (perm_of_toPostfix ordered)
  · exact (mirrors_tokens ops assignment ts).exists_error failed

/-- Operands side by side and an operator behind them are accepted, though they are no
expression. -/
theorem accepts_operator_behind_operands :
    let ts : List Token := [⟨.name, "a", none⟩, ⟨.name, "b", none⟩, ⟨.operator, "+", none⟩]
    Tree.ofTokens ts = .ok (.binary "+" (.name "a") (.name "b")) ∧
      ¬∃ d : Derivation .sum, d.tokens = ts := by
  refine ⟨rfl, fun derived => ?_⟩
  have alternating := (exists_derivation_iff.mp derived).alternating
  exact absurd alternating (by decide)

end Reckon.Formula
