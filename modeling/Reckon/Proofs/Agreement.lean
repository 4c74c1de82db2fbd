import Reckon.Proofs.Counting

/-!
The two ways to a value. Tokens in the order of evaluation work on floats directly, or they
build a tree whose walk works on floats. The stack of floats is as high as the stack of trees,
so that both lack the same operands, unless an operation or a variable fails before.
-/

namespace Reckon.Formula

/-- The formula itself is at fault, not its values. -/
def Error.isStructural (e : Error) : Bool :=
  match e with
  | .insufficientOperands _ => true
  | .shape _ => true
  | _ => e.isSyntactic

def Operations.Raises (ops : Operations) (e : Error) : Prop :=
  (∃ o left right, ops.apply o left right = .error e) ∨ ∃ operand, ops.root operand = .error e

def Blameless {α : Type} (result : Except Error α) : Prop :=
  ∀ e, result = .error e → e.isStructural = false

namespace Blameless

variable {α : Type} {first second : Except Error α}

theorem ok (a : α) : Blameless (.ok a) := by
  intro e failed
  cases failed

theorem error {e : Error} (other : e.isStructural = false) :
    Blameless (.error e : Except Error α) := by
  intro e' failed
  cases failed
  exact other

theorem ite {condition : Prop} [Decidable condition] (yes : Blameless first)
    (no : Blameless second) : Blameless (if condition then first else second) := by
  split
  case isTrue => exact yes
  case isFalse => exact no

end Blameless

theorem blameless_lookup (assignment : Fields) (name : String) :
    Blameless (lookup assignment name) := by
  unfold lookup
  split
  case h_1 => exact .error rfl
  case h_2 =>
    split
    case h_1 => exact .ite (.ok _) (.error rfl)
    case h_2 => exact .error rfl
    case h_3 => exact .error rfl

theorem error_of_bound {assignment : Fields} {name : String} {value : Value} {e : Error}
    (bound : assignment.lookup name = some value) (failed : lookup assignment name = .error e) :
    e = .invalidValue name value ∨ e = .integerTooLarge := by
  simp only [lookup, bound] at failed
  split at failed
  case h_1 =>
    split at failed
    case isTrue => cases failed
    case isFalse =>
      cases failed
      exact .inl rfl
  case h_2 =>
    cases failed
    exact .inl rfl
  case h_3 =>
    cases failed
    exact .inr rfl

namespace Arithmetic

inductive Fails : Error → Prop where
  | divisionByZero : Fails .divisionByZero
  | nonFinite (o : Operator) (left right : Float) : Fails (.nonFinite o.text left right)
  | domain (base exponent : Float) (reason : String) : Fails (.domain base exponent reason)
  | negativeRoot (operand : Float) : Fails (.negativeRoot operand)

variable {a : Arithmetic} {e : Error}

theorem fails_of_finite {o : Operator} {left right result : Float}
    (failed : finite o left right result = .error e) : Fails e := by
  unfold finite at failed
  split at failed
  case isTrue =>
    cases failed
    exact .nonFinite o left right
  case isFalse => cases failed

theorem fails_of_power {base exponent : Float} (failed : a.power base exponent = .error e) :
    Fails e := by
  simp only [power] at failed
  split at failed
  case isFalse => cases failed
  case isTrue =>
    split at failed
    case isTrue =>
      cases failed
      exact .domain base exponent _
    case isFalse =>
      split at failed
      case isTrue =>
        cases failed
        exact .domain base exponent _
      case isFalse => cases failed

theorem fails_of_apply {o : Operator} {left right : Float}
    (failed : a.apply o left right = .error e) : Fails e := by
  cases o with
  | add | sub | mul => exact fails_of_finite failed
  | div =>
    rw [apply] at failed
    split at failed
    case isTrue =>
      cases failed
      exact .divisionByZero
    case isFalse => exact fails_of_finite failed
  | pow => exact fails_of_power failed

theorem fails_of_root {operand : Float} (failed : a.root operand = .error e) : Fails e := by
  unfold root at failed
  split at failed
  case isTrue =>
    cases failed
    exact .negativeRoot operand
  case isFalse => cases failed

theorem fails_of_raises (raised : a.operations.Raises e) : Fails e := by
  obtain ⟨o, left, right, failed⟩ | ⟨operand, failed⟩ := raised
  · exact fails_of_apply failed
  · exact fails_of_root failed

theorem not_structural_of_raises (raised : a.operations.Raises e) : e.isStructural = false := by
  cases fails_of_raises raised <;> rfl

end Arithmetic

/-- The second computation ends like the first, or it fails early for a reason of its own. -/
inductive Mirrors (ops : Operations) {α β : Type} (alike : α → β → Prop) :
    Except Error α → Except Error β → Prop where
  | ok {a : α} {b : β} (same : alike a b) : Mirrors ops alike (.ok a) (.ok b)
  | error (e : Error) : Mirrors ops alike (.error e) (.error e)
  | early {first : Except Error α} {e : Error} (cause : e.isStructural = true → ops.Raises e) :
      Mirrors ops alike first (.error e)

namespace Mirrors

variable {ops : Operations} {α β γ δ : Type} {alike : α → β → Prop} {alike' : γ → δ → Prop}
  {first : Except Error α} {second : Except Error β}

theorem bind (mirrors : Mirrors ops alike first second) {next : α → Except Error γ}
    {next' : β → Except Error δ}
    (follows : ∀ {a b}, alike a b → Mirrors ops alike' (next a) (next' b)) :
    Mirrors ops alike' (first.bind next) (second.bind next') := by
  cases mirrors with
  | ok same => exact follows same
  | error e => exact .error e
  | early cause => exact .early cause

theorem exists_error (mirrors : Mirrors ops alike first second) {e : Error}
    (failed : first = .error e) : ∃ e', second = .error e' := by
  cases mirrors with
  | ok same => cases failed
  | error e => exact ⟨e, rfl⟩
  | @early first e cause => exact ⟨e, rfl⟩

theorem error_eq (mirrors : Mirrors ops alike first second) {e : Error} (failed : second = .error e)
    (structural : e.isStructural = true) (calm : ¬ops.Raises e) : first = .error e := by
  cases mirrors with
  | ok same => cases failed
  | error e => rw [Except.error.inj failed]
  | early cause =>
    cases failed
    exact absurd (cause structural) calm

end Mirrors

theorem ofFormula_of_tokenize {formula : String} {ts : List Token}
    (read : tokenize formula = .ok ts) : Tree.ofFormula formula = Tree.ofTokens ts := by
  rw [Tree.ofFormula, read]
  rfl

inductive SameHeight : List Tree → List Float → Prop where
  | bottom : SameHeight [] []
  | above {trees : List Tree} {floats : List Float} (t : Tree) (x : Float)
      (below : SameHeight trees floats) : SameHeight (t :: trees) (x :: floats)

theorem SameHeight.length_eq {trees : List Tree} {floats : List Float}
    (height : SameHeight trees floats) : trees.length = floats.length := by
  induction height with
  | bottom => rfl
  | above t x below ih => rw [List.length_cons, List.length_cons, ih]

section

variable (ops : Operations) (assignment : Fields)

theorem push_bind {α : Type} (stack : List Float) (result : Except Error Float)
    (next : List Float → Except Error α) :
    (push stack result).bind next = result.bind fun x => next (x :: stack) := by
  cases result <;> rfl

theorem evaluationStack_cons (floats : List Float) (t : Token) (ts : List Token) :
    evaluationStack ops assignment floats (t :: ts) =
      (evaluationStep ops assignment floats t).bind fun next =>
        evaluationStack ops assignment next ts := by
  rw [evaluationStack]
  cases evaluationStep ops assignment floats t <;> rfl

theorem mirrors_push (t : Tree) {trees : List Tree} {floats : List Float}
    {result : Except Error Float} (below : SameHeight trees floats)
    (cause : ∀ e, result = .error e → e.isStructural = true → ops.Raises e) :
    Mirrors ops SameHeight (.ok (t :: trees)) (push floats result) := by
  cases result with
  | ok x => exact .ok (below.above t x)
  | error e => exact .early (cause e rfl)

theorem mirrors_push_of_blameless (t : Tree) {trees : List Tree} {floats : List Float}
    {result : Except Error Float} (below : SameHeight trees floats) (blameless : Blameless result) :
    Mirrors ops SameHeight (.ok (t :: trees)) (push floats result) := by
  apply mirrors_push ops t below
  intro e failed structural
  rw [blameless e failed] at structural
  cases structural

theorem mirrors_step {t : Token} (node : t.IsNode) {trees : List Tree} {floats : List Float}
    (height : SameHeight trees floats) :
    Mirrors ops SameHeight (Tree.buildStep trees t) (evaluationStep ops assignment floats t) := by
  rcases node with operand | kind | ⟨o, spells⟩
  · rcases Token.isOperand_iff.mp operand with kind | kind
    · simp only [Tree.buildStep, evaluationStep, kind]
      cases literal t.text with
      | ok x => exact .ok (height.above _ x)
      | error e => exact .error e
    · simp only [Tree.buildStep, evaluationStep, kind]
      exact mirrors_push_of_blameless ops _ height (blameless_lookup _ _)
  · simp only [Tree.buildStep, evaluationStep, kind]
    cases height with
    | bottom => exact .error _
    | above operand x below =>
      apply mirrors_push ops _ below
      intro e failed _
      exact .inr ⟨x, failed⟩
  · obtain ⟨kind, spelled⟩ := Token.operator?_eq_some.mp spells
    simp only [Tree.buildStep, evaluationStep, kind, spelled]
    cases height with
    | bottom => exact .error _
    | above right y below =>
      cases below with
      | bottom => exact .error _
      | above left x below =>
        apply mirrors_push ops _ below
        intro e failed _
        exact .inl ⟨o, x, y, failed⟩

theorem mirrors_stack {ts : List Token} (nodes : ∀ t ∈ ts, t.IsNode) {trees : List Tree}
    {floats : List Float} (height : SameHeight trees floats) :
    Mirrors ops SameHeight (Tree.buildStack trees ts) (evaluationStack ops assignment floats ts) := by
  induction ts generalizing trees floats with
  | nil => exact .ok height
  | cons t ts ih =>
    obtain ⟨node, nodes⟩ := List.forall_mem_cons.mp nodes
    rw [Tree.buildStack_cons, evaluationStack_cons]
    apply (mirrors_step ops assignment node height).bind
    intro trees floats height
    exact ih nodes height

theorem mirrors_only {trees : List Tree} {floats : List Float} (height : SameHeight trees floats) :
    Mirrors ops (fun _ _ => True) (only trees) (only floats) := by
  cases height with
  | bottom => exact .error _
  | above t x below =>
    cases below with
    | bottom => exact .ok trivial
    | above t' x' below =>
      simp only [only, List.length_cons, below.length_eq]
      exact .error _

/-- Tokens have a value only if they build a tree. -/
theorem mirrors_tokens (ts : List Token) :
    Mirrors ops (fun _ _ => True) (Tree.ofTokens ts)
      ((toPostfix ts).bind (evaluatePostfix ops assignment)) := by
  unfold Tree.ofTokens
  cases ordered : toPostfix ts with
  | error e => exact .error e
  | ok result =>
    have nodes := isNode_of_toPostfix ordered
    exact (mirrors_stack ops assignment nodes .bottom).bind (mirrors_only ops)

theorem evaluationStack_postorder {level : Level} (d : Derivation level) (floats : List Float)
    (rest : List Token) :
    evaluationStack ops assignment floats (d.postorder ++ rest) =
      (d.tree.value ops assignment).bind fun x =>
        evaluationStack ops assignment (x :: floats) rest := by
  induction d generalizing floats rest with
  | binary o own left token spells right left_ih right_ih =>
    obtain ⟨kind, spelled⟩ := Token.operator?_eq_some.mp spells
    rw [Derivation.postorder, List.append_assoc, List.append_assoc, left_ih, Derivation.tree,
      Tree.value]
    cases left.tree.value ops assignment with
    | error e => rfl
    | ok x =>
      change evaluationStack ops assignment _ _ = _
      rw [right_ih]
      cases right.tree.value ops assignment with
      | error e => rfl
      | ok y =>
        change evaluationStack ops assignment _ (_ :: rest) = _
        rw [evaluationStack_cons]
        simp only [evaluationStep, kind, spelled, Except.bind]
        exact push_bind _ _ _
  | tighter inner ih => exact ih floats rest
  | root token kind operand ih =>
    rw [Derivation.postorder, List.append_assoc, ih, Derivation.tree, Tree.value]
    cases operand.tree.value ops assignment with
    | error e => rfl
    | ok x =>
      change evaluationStack ops assignment _ (_ :: rest) = _
      rw [evaluationStack_cons]
      simp only [evaluationStep, kind]
      exact push_bind _ _ _
  | number token kind value reads =>
    rw [Derivation.postorder, List.singleton_append, evaluationStack_cons]
    simp only [evaluationStep, kind, reads]
    rfl
  | name token kind =>
    rw [Derivation.postorder, List.singleton_append, evaluationStack_cons]
    simp only [evaluationStep, kind]
    exact push_bind _ _ _
  | group first last opens ends inner ih => exact ih floats rest

def Explains (labels : List Label) (e : Error) : Prop :=
  ops.Raises e ∨ ∃ name, .name name ∈ labels ∧ lookup assignment name = .error e

variable {ops assignment} in
theorem Explains.mono {labels labels' : List Label} {e : Error}
    (explains : Explains ops assignment labels e) (within : labels ⊆ labels') :
    Explains ops assignment labels' e := by
  rcases explains with raised | ⟨name, member, failed⟩
  · exact .inl raised
  · exact .inr ⟨name, within member, failed⟩

/-- An expression lacks a value because of an operation or of a variable in it. -/
theorem explains_of_value {level : Level} (d : Derivation level) {e : Error}
    (failed : d.tree.value ops assignment = .error e) :
    Explains ops assignment d.tree.postorder e := by
  induction d with
  | binary o own left token spells right left_ih right_ih =>
    rw [Derivation.tree, Tree.value, (Token.operator?_eq_some.mp spells).2] at failed
    rw [Derivation.tree, Tree.postorder_binary, List.append_assoc]
    cases before : left.tree.value ops assignment with
    | error e' =>
      rw [before] at failed
      cases failed
      exact (left_ih before).mono (List.subset_append_left _ _)
    | ok x =>
      cases behind : right.tree.value ops assignment with
      | error e' =>
        rw [before, behind] at failed
        cases failed
        apply (right_ih behind).mono
        exact List.subset_append_of_subset_right _ (List.subset_append_left _ _)
      | ok y =>
        rw [before, behind] at failed
        exact .inl (.inl ⟨o, x, y, failed⟩)
  | tighter inner ih => exact ih failed
  | root token kind operand ih =>
    rw [Derivation.tree, Tree.value] at failed
    rw [Derivation.tree, Tree.postorder_call]
    cases inside : operand.tree.value ops assignment with
    | error e' =>
      rw [inside] at failed
      cases failed
      exact (ih inside).mono (List.subset_append_left _ _)
    | ok x =>
      rw [inside] at failed
      exact .inl (.inr ⟨x, failed⟩)
  | number token kind value reads => cases failed
  | name token kind => exact .inr ⟨token.text, by simp [Derivation.tree], failed⟩
  | group first last opens ends inner ih => exact ih failed

/-- The value of tokens is the value of their tree. -/
theorem evaluatePostfix_of_ofTokens {ts : List Token} {t : Tree} (built : Tree.ofTokens ts = .ok t) :
    (toPostfix ts).bind (evaluatePostfix ops assignment) = t.evaluate ops assignment := by
  obtain ⟨result, ordered, built⟩ := bind_eq_ok_iff.mp built
  obtain ⟨u, rfl, rfl⟩ := Derivation.exists_of_ofPostfix (isNode_of_toPostfix ordered) built
  have whole := evaluationStack_postorder ops assignment u [] []
  rw [List.append_nil] at whole
  rw [ordered, Tree.evaluate_eq_value]
  change evaluatePostfix ops assignment u.postorder = _
  rw [evaluatePostfix, whole]
  cases u.tree.value ops assignment <;> rfl

theorem compute_eq (formula : String) :
    compute ops formula assignment = ((tokenize formula).mapError .lexical).bind fun ts =>
      (toPostfix ts).bind (evaluatePostfix ops assignment) := by
  unfold compute compile
  cases tokenize formula <;> rfl

theorem compute_of_ofFormula {formula : String} {t : Tree} (built : Tree.ofFormula formula = .ok t) :
    compute ops formula assignment = t.evaluate ops assignment := by
  obtain ⟨ts, read, built⟩ := bind_eq_ok_iff.mp built
  rw [compute_eq, read]
  exact evaluatePostfix_of_ofTokens ops assignment built

theorem mirrors_formula (formula : String) :
    Mirrors ops (fun _ _ => True) (Tree.ofFormula formula) (compute ops formula assignment) := by
  rw [compute_eq, Tree.ofFormula]
  cases tokenize formula with
  | error e => exact .error _
  | ok ts => exact mirrors_tokens ops assignment ts

/-- A formula that has a tree has its value, or fails as it does. One that has none has no
value under any assignment, and if the formula is blamed for this, then the reason is why it
has no tree. -/
theorem compute_agrees (formula : String) :
    (∀ t, Tree.ofFormula formula = .ok t →
      compute ops formula assignment = t.evaluate ops assignment) ∧
    (∀ e, Tree.ofFormula formula = .error e → ∃ e', compute ops formula assignment = .error e') ∧
    (∀ e, compute ops formula assignment = .error e → e.isStructural = true → ¬ops.Raises e →
      Tree.ofFormula formula = .error e) ∧
    ∀ (a : Arithmetic) (e : Error), compute a.operations formula assignment = .error e →
      e.isStructural = true → Tree.ofFormula formula = .error e := by
  refine ⟨fun t built => ?_, fun e failed => ?_, fun e failed structural calm => ?_,
    fun a e failed structural => ?_⟩
  · exact compute_of_ofFormula ops assignment built
  · exact (mirrors_formula ops assignment formula).exists_error failed
  · exact (mirrors_formula ops assignment formula).error_eq failed structural calm
  · refine (mirrors_formula a.operations assignment formula).error_eq failed structural ?_
    intro raised
    rw [Arithmetic.not_structural_of_raises raised] at structural
    cases structural

end

end Reckon.Formula
