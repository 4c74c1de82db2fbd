import Mathlib.Data.List.Chain
import Reckon.Formula.Validation
import Reckon.Proofs.Acceptance
import Reckon.Proofs.Lexeme

/-!
What a formula without faults is. Each token is checked against its neighbours, but nothing is
said of what stands at the edges of a group, nor of an operand in front of a square root.
Without such neighbours a formula that has no faults is an expression. With them it may be
valid and have no tree.
-/

namespace Reckon.Formula

namespace Token

def leads (t : Token) : Bool :=
  match t.kind with
  | .root | .opening | .operator => true
  | _ => false

def suits (due : Bool) (t : Token) : Bool :=
  match t.kind with
  | .number | .name | .root | .opening => due
  | .operator | .closing => !due
  | .foreign _ => false

/-- Neighbours that no expression has and no check finds. -/
def clashes (t next : Token) : Bool :=
  match t.kind with
  | .number | .name => next.kind == .root
  | .opening => next.kind == .operator || next.kind == .closing
  | .operator => next.kind == .closing
  | .closing => next.isOperand || next.kind == .root || next.kind == .opening
  | _ => false

end Token

def Tidy (ts : List Token) : Prop :=
  ts.IsChain fun t next => t.clashes next = false

theorem alternates_cons (due : Bool) (t : Token) (ts : List Token) :
    alternates due (t :: ts) = (t.suits due && alternates t.leads ts) := by
  cases due <;> cases kind : t.kind <;> simp [alternates, Token.suits, Token.leads, kind]

theorem clashes_eq_false {t next : Token} (suits : next.suits t.leads = true) :
    t.clashes next = false := by
  unfold Token.clashes Token.isOperand
  cases kind : t.kind <;> cases behind : next.kind <;>
    simp [Token.suits, Token.leads, kind, behind] at suits ⊢

theorem tidy_of_alternates {due : Bool} {ts : List Token} (alternating : alternates due ts = true) :
    Tidy ts := by
  induction ts generalizing due with
  | nil => exact .nil
  | cons t ts ih =>
    rw [alternates_cons, Bool.and_eq_true] at alternating
    have rest := ih alternating.2
    cases ts with
    | nil => exact .singleton t
    | cons next ts =>
      rw [alternates_cons, Bool.and_eq_true] at alternating
      exact .cons_cons (clashes_eq_false alternating.2.1) rest

structure Passes (before : Option Token) (t : Token) (after : List Token) : Prop where
  operator : operatorFaults before t after = []
  opening : openingFaults before t = []
  root : rootFaults t after = []
  operand : operandFaults before t = []

theorem neighbourFaults_cons {before : Option Token} {t : Token} {after : List Token} :
    neighbourFaults before (t :: after) = [] ↔
      Passes before t after ∧ neighbourFaults (some t) after = [] := by
  simp only [neighbourFaults, List.append_eq_nil_iff]
  constructor
  · rintro ⟨⟨⟨⟨operator, opening⟩, root⟩, operand⟩, rest⟩
    exact ⟨⟨operator, opening, root, operand⟩, rest⟩
  · rintro ⟨passes, rest⟩
    exact ⟨⟨⟨⟨passes.operator, passes.opening⟩, passes.root⟩, passes.operand⟩, rest⟩

theorem Passes.suits {t next : Token} {before : Option Token} {after : List Token}
    (passes : Passes before t (next :: after)) (follows : Passes (some t) next after)
    (terminal : t.IsTerminal) (terminal' : next.IsTerminal) (apart : t.clashes next = false) :
    next.suits t.leads = true := by
  obtain ⟨-, -, root, -⟩ := passes
  obtain ⟨operator, opening, -, operand⟩ := follows
  unfold Token.clashes at apart
  unfold Token.suits Token.leads
  -- A pair of kinds that does not suit is a clash or has a fault, the first or the second one's.
  cases kind : t.kind <;> cases behind : next.kind <;>
    simp [operatorFaults, openingFaults, rootFaults, operandFaults, Token.isOperand,
      Token.IsTerminal, kind, behind] at root operator opening operand apart terminal terminal' ⊢

theorem exists_closes {depth : Nat} {t : Token} {ts : List Token}
    (closing : closes depth (t :: ts) = true) : ∃ depth', closes depth' ts = true := by
  cases kind : t.kind with
  | closing =>
    cases depth with
    | zero => simp [closes, kind] at closing
    | succ depth => exact ⟨depth, by simpa only [closes, kind] using closing⟩
  | opening => exact ⟨depth + 1, by simpa only [closes, kind] using closing⟩
  | _ => exact ⟨depth, by simpa only [closes, kind] using closing⟩

theorem Passes.leads_eq_false {t : Token} {before : Option Token} {depth : Nat}
    (passes : Passes before t []) (closing : closes depth [t] = true) : t.leads = false := by
  obtain ⟨operator, -, root, -⟩ := passes
  unfold Token.leads
  cases kind : t.kind with
  | operator => simp [operatorFaults, kind] at operator
  | root => simp [rootFaults, kind] at root
  | opening => simp [closes, kind] at closing
  | _ => rfl

theorem alternates_of_tidy {before : Option Token} {t : Token} {ts : List Token} {depth : Nat}
    (terminals : ∀ other ∈ t :: ts, other.IsTerminal)
    (faultless : neighbourFaults before (t :: ts) = []) (closing : closes depth (t :: ts) = true)
    (tidy : Tidy (t :: ts)) : alternates t.leads ts = true := by
  induction ts generalizing before t depth with
  | nil =>
    obtain ⟨passes, -⟩ := neighbourFaults_cons.mp faultless
    rw [passes.leads_eq_false closing]
    rfl
  | cons next ts ih =>
    obtain ⟨passes, rest⟩ := neighbourFaults_cons.mp faultless
    obtain ⟨follows, -⟩ := neighbourFaults_cons.mp rest
    obtain ⟨terminal, terminals⟩ := List.forall_mem_cons.mp terminals
    obtain ⟨apart, tidy⟩ := List.isChain_cons_cons.mp tidy
    obtain ⟨depth', closing⟩ := exists_closes closing
    rw [alternates_cons, ih terminals rest closing tidy, Bool.and_true]
    exact passes.suits follows terminal (terminals next List.mem_cons_self) apart

theorem Passes.suits_true {t : Token} {after : List Token} (passes : Passes none t after)
    (terminal : t.IsTerminal) (closing : closes 0 (t :: after) = true) : t.suits true = true := by
  have operator := passes.operator
  unfold Token.suits
  cases kind : t.kind with
  | operator => simp [operatorFaults, kind] at operator
  | closing => simp [closes, kind] at closing
  | foreign label => simp [Token.IsTerminal, kind] at terminal
  | _ => rfl

/-- Among the tokens of valid formulas the expressions are those without clashing
neighbours. -/
theorem alternates_iff_tidy {ts : List Token} (filled : ts ≠ [])
    (terminals : ∀ t ∈ ts, t.IsTerminal) (faultless : neighbourFaults none ts = [])
    (closing : closes 0 ts = true) : alternates true ts = true ↔ Tidy ts := by
  constructor
  · exact tidy_of_alternates
  · intro tidy
    cases ts with
    | nil => exact absurd rfl filled
    | cons t ts =>
      obtain ⟨passes, -⟩ := neighbourFaults_cons.mp faultless
      rw [alternates_cons, alternates_of_tidy terminals faultless closing tidy, Bool.and_true]
      exact passes.suits_true (terminals t List.mem_cons_self) closing

theorem exists_of_isValid {formula : String} (valid : isValid formula = true) :
    ∃ ts result, tokenize formula = .ok ts ∧ ts ≠ [] ∧ neighbourFaults none ts = [] ∧
      toPostfix ts = .ok result := by
  rw [isValid, List.isEmpty_iff] at valid
  unfold faults at valid
  split at valid
  case isTrue => cases valid
  case isFalse ink =>
    cases read : tokenize formula with
    | error e => simp [read] at valid
    | ok ts =>
      simp only [read, List.append_eq_nil_iff] at valid
      obtain ⟨faultless, ordered⟩ := valid
      refine ⟨ts, ?_⟩
      cases order : toPostfix ts with
      | error e => simp [order] at ordered
      | ok result =>
        refine ⟨result, rfl, ?_, faultless, rfl⟩
        rintro rfl
        exact ink (Lexer.blank_of_scan read)

def Binds (assignment : Fields) (t : Tree) : Prop :=
  ∀ name, .name name ∈ t.postorder → ∃ value, assignment.lookup name = some value

/-- Where all variables are bound, only operations and the values of variables fail. -/
theorem cause_of_compute {formula : String} {t : Tree} (built : Tree.ofFormula formula = .ok t)
    {ops : Operations} {assignment : Fields} (binds : Binds assignment t) {e : Error}
    (failed : compute ops formula assignment = .error e) :
    ops.Raises e ∨ ∃ name value, assignment.lookup name = some value ∧
      (e = .invalidValue name value ∨ e = .integerTooLarge) := by
  rw [compute_of_ofFormula ops assignment built, Tree.evaluate_eq_value] at failed
  obtain ⟨ts, -, built⟩ := bind_eq_ok_iff.mp built
  obtain ⟨d, rfl, -⟩ := ofTokens_eq_ok_iff.mp built
  rcases explains_of_value ops assignment d failed with raised | ⟨name, member, unread⟩
  · exact .inl raised
  · obtain ⟨value, bound⟩ := binds name member
    exact .inr ⟨name, value, bound, error_of_bound bound unread⟩

theorem not_structural_of_compute {formula : String} {t : Tree}
    (built : Tree.ofFormula formula = .ok t) {a : Arithmetic} {assignment : Fields} {e : Error}
    (failed : compute a.operations formula assignment = .error e) : e.isStructural = false := by
  cases structural : e.isStructural with
  | false => rfl
  | true =>
    have same := (mirrors_formula a.operations assignment formula).error_eq failed structural
      fun raised => by simp [Arithmetic.not_structural_of_raises raised] at structural
    rw [built] at same
    cases same

/-- A valid formula has a tree exactly if each operation has its operands in the order of
evaluation. It is an expression exactly if no neighbours clash, and then it has a tree. If it
has a tree, then no evaluation blames the formula, and where all variables are bound only
operations and the values of variables fail. -/
theorem parses_of_valid {formula : String} (valid : isValid formula = true) :
    ∃ ts result, tokenize formula = .ok ts ∧ toPostfix ts = .ok result ∧
      ((∃ t, Tree.ofFormula formula = .ok t) ↔ Balanced result) ∧
      ((∃ d : Derivation .sum, d.tokens = ts) ↔ Tidy ts) ∧
      (Tidy ts → ∃ t, Tree.ofFormula formula = .ok t) ∧
      ∀ t, Tree.ofFormula formula = .ok t → ∀ (a : Arithmetic) (assignment : Fields) (e : Error),
        compute a.operations formula assignment = .error e →
        e.isStructural = false ∧ (Binds assignment t → a.operations.Raises e ∨
          ∃ name value, assignment.lookup name = some value ∧
            (e = .invalidValue name value ∨ e = .integerTooLarge)) := by
  obtain ⟨ts, result, read, filled, faultless, ordered⟩ := exists_of_isValid valid
  have lexemes := tokenize_isLexeme read
  have terminals : ∀ t ∈ ts, t.IsTerminal := fun t member => (lexemes t member).terminal
  have closing := closes_of_toPostfix ordered
  have formula_eq := ofFormula_of_tokenize read
  have derivable : (∃ d : Derivation .sum, d.tokens = ts) ↔ Tidy ts := by
    rw [exists_derivation_iff, ← alternates_iff_tidy filled terminals faultless closing]
    exact ⟨Suffix.alternating, fun alternating => ⟨terminals, alternating, closing⟩⟩
  refine ⟨ts, result, read, ordered, ?_, derivable, ?_, fun t built a assignment e failed => ?_⟩
  · rw [formula_eq, exists_ofTokens_iff]
    constructor
    · rintro ⟨result', ordered', -, balanced⟩
      rw [ordered] at ordered'
      cases ordered'
      exact balanced
    · intro balanced
      refine ⟨result, ordered, fun t member => ?_, balanced⟩
      exact terminals t (List.mem_of_mem_filter ((perm_of_toPostfix ordered).mem_iff.mp member))
  · intro tidy
    obtain ⟨d, rfl⟩ := derivable.mpr tidy
    exact ⟨d.tree, formula_eq ▸ d.ofTokens_tokens fun t member => (lexemes t member).spelled⟩
  · exact ⟨not_structural_of_compute built failed, fun binds => cause_of_compute built binds failed⟩

theorem parses_of_valid_product : ∃ t, Tree.ofFormula "a*(b)" = .ok t := by
  have tokens : tokenize "a*(b)" = .ok [⟨.name, "a", some 0⟩, ⟨.operator, "*", some 1⟩,
      ⟨.opening, "(", some 2⟩, ⟨.name, "b", some 3⟩, ⟨.closing, ")", some 4⟩] :=
    tokenize_eq_ok (by decide +kernel)
  obtain ⟨ts, result, read, -, -, -, parsed, -⟩ :=
    parses_of_valid (show isValid "a*(b)" = true by decide +kernel)
  cases read.symm.trans tokens
  exact parsed (by unfold Tidy; decide)

/-- Groups side by side are valid, though they leave two values. -/
theorem valid_of_adjacent_groups :
    isValid "(a)(b)" = true ∧ Tree.ofFormula "(a)(b)" = .error (.shape 2) := by
  have tokens : tokenize "(a)(b)" = .ok [⟨.opening, "(", some 0⟩, ⟨.name, "a", some 1⟩,
      ⟨.closing, ")", some 2⟩, ⟨.opening, "(", some 3⟩, ⟨.name, "b", some 4⟩,
      ⟨.closing, ")", some 5⟩] :=
    tokenize_eq_ok (by decide +kernel)
  refine ⟨by decide +kernel, ?_⟩
  rw [ofFormula_of_tokenize tokens]
  rfl

end Reckon.Formula
