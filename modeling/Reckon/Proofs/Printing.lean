import Reckon.Proofs.Exponent
import Reckon.Proofs.Forms
import Reckon.Proofs.Scanning
import Reckon.Proofs.Validity

/-!
Printing a tree and reading it back. The tree of a formula is printed with all its parentheses, and
the printed formula is valid and has the same tree, unless some number in it is tiny. Such a number
is printed with an exponent, which the lexer does not know.
-/

namespace Reckon.Formula

def appliesRoots : List Token → Bool
  | [] => true
  | t :: ts => (t.kind != .root || ts.head?.any (·.kind == .opening)) && appliesRoots ts

theorem appliesRoots_cons {t : Token} (other : t.kind ≠ .root) (ts : List Token) :
    appliesRoots (t :: ts) = appliesRoots ts := by
  simp [appliesRoots, other]

theorem rootFaults_eq_nil {t : Token} {ts : List Token} (alternating : alternates t.leads ts = true)
    (applied : appliesRoots (t :: ts) = true) : rootFaults t ts = [] := by
  unfold rootFaults
  split
  case isFalse => rfl
  case isTrue kind =>
    cases ts with
    | nil => simp [appliesRoots, kind] at applied
    | cons next rest =>
      have opens : next.kind = .opening := by
        simp only [appliesRoots, kind, List.head?_cons] at applied
        simp at applied
        exact applied.1
      rw [alternates_cons, Bool.and_eq_true] at alternating
      cases rest with
      | nil => simp [opens]
      | cons last rest =>
        have inside : last.kind ≠ .closing := by
          intro ends
          rw [alternates_cons, Bool.and_eq_true] at alternating
          simp [Token.suits, Token.leads, opens, ends] at alternating
        simp [opens, inside]

theorem Token.isOperand_eq_false {t : Token} (leads : t.leads = true) : t.isOperand = false := by
  cases kind : t.kind <;> simp [Token.leads, isOperand, kind] at leads ⊢

theorem Token.suits_of_isOperand {t : Token} (operand : t.isOperand = true) (due : Bool) :
    t.suits due = due := by
  rcases Token.isOperand_iff.mp operand with kind | kind <;> simp [suits, kind]

theorem operatorFaults_eq_nil {before : Option Token} {t : Token} {ts : List Token}
    (suits : t.suits (before.all Token.leads) = true) (alternating : alternates t.leads ts = true) :
    operatorFaults before t ts = [] := by
  unfold operatorFaults
  split
  case isFalse => rfl
  case isTrue kind =>
    have filled : ts ≠ [] := by
      rintro rfl
      simp [alternates, Token.leads, kind] at alternating
    cases before with
    | none => simp [Token.suits, kind] at suits
    | some b =>
      have other : b.kind ≠ .operator := by
        intro same
        simp [Token.suits, Token.leads, kind, same] at suits
      simp [filled, other]

theorem passes_of_suits {before : Option Token} {t : Token} {ts : List Token}
    (suits : t.suits (before.all Token.leads) = true) (alternating : alternates t.leads ts = true)
    (applied : appliesRoots (t :: ts) = true) : Passes before t ts := by
  refine ⟨operatorFaults_eq_nil suits alternating, ?_, rootFaults_eq_nil alternating applied, ?_⟩
  · cases before with
    | none => rfl
    | some b =>
      refine if_neg ?_
      rintro ⟨opens, operand⟩
      simp only [Token.suits, opens, Option.all_some] at suits
      simp [Token.isOperand_eq_false suits] at operand
  · cases before with
    | none => rfl
    | some b =>
      refine if_neg ?_
      rintro ⟨operand, other⟩
      rw [Token.suits_of_isOperand operand, Option.all_some] at suits
      simp [Token.isOperand_eq_false suits] at other

/-- Operands and operators that alternate have no faults, if all square roots are followed by a
parenthesis. -/
theorem neighbourFaults_eq_nil {before : Option Token} {ts : List Token}
    (alternating : alternates (before.all Token.leads) ts = true)
    (applied : appliesRoots ts = true) : neighbourFaults before ts = [] := by
  induction ts generalizing before with
  | nil => rfl
  | cons t ts ih =>
    rw [alternates_cons, Bool.and_eq_true] at alternating
    obtain ⟨suits, alternating⟩ := alternating
    have passes := passes_of_suits suits alternating applied
    rw [appliesRoots, Bool.and_eq_true] at applied
    exact neighbourFaults_cons.mpr ⟨passes, ih alternating applied.2⟩

namespace Tree

def IsPlain (t : Tree) : Prop :=
  ∀ x, .number x ∈ t.postorder → ¬Decimal.IsTiny x

theorem toList_formatted_call (function : String) (operand : Tree) :
    (call function operand).formatted.toList =
      function.toList ++ '(' :: (operand.formatted.toList ++ [')']) := by
  simp [formatted, toString]

theorem toList_formatted_binary (o : Operator) (left right : Tree) :
    (binary o.text left right).formatted.toList =
      '(' :: (left.formatted.toList ++ ' ' :: o.symbol :: ' ' ::
        (right.formatted.toList ++ [')'])) := by
  simp [formatted, toString, Operator.text]

end Tree

theorem Derivation.unknown?_tree {level : Level} (d : Derivation level) :
    d.tree.unknown? = none := by
  induction d with
  | binary o own left token spells right left_ih right_ih =>
    rw [tree, Tree.unknown?_eq]
    simp [Tree.parts, Tree.label, Label.unknown?, left_ih, right_ih]
  | tighter inner ih => exact ih
  | root token kind operand ih =>
    rw [tree, Tree.unknown?_eq]
    simp [Tree.parts, Tree.label, Label.unknown?, ih]
  | number token kind value reads => rfl
  | name token kind => rfl
  | group first last opens ends inner ih => exact ih

theorem Derivation.format_tree {level : Level} (d : Derivation level) :
    d.tree.format = .ok d.tree.formatted := by
  rw [Tree.format_eq, d.unknown?_tree]
  rfl

theorem Derivation.exists_loosened {level : Level} (d : Derivation level) :
    ∃ e : Derivation .sum, e.tokens = d.tokens ∧ e.tree = d.tree := by
  cases level with
  | sum => exact ⟨d, rfl, rfl⟩
  | product => exact ⟨.tighter d, rfl, rfl⟩
  | power => exact ⟨.tighter (.tighter d), rfl, rfl⟩
  | unit => exact ⟨.tighter (.tighter (.tighter d)), rfl, rfl⟩

/-- An expression of the tree whose tokens the lexer reads from the text of the tree. -/
structure Rereads (t : Tree) (start : Nat) (u : Derivation .unit) (finish : Nat) : Prop where
  tree : u.tree = t
  applied : ∀ rest, appliesRoots (u.tokens ++ rest) = appliesRoots rest
  scans : ∀ rest, Lexer.Ends rest →
    Lexer.Scans start (t.formatted.toList ++ rest) u.tokens finish rest

def IsReread (t : Tree) : Prop :=
  ∀ start, ∃ u finish, Rereads t start u finish

namespace IsReread

open Lexer

theorem number {x : Float} (spells : SpellsFloat (numberText x).toList x) :
    IsReread (.number x) := by
  intro start
  have reads := spells.reads
  rw [String.ofList_toList] at reads
  refine ⟨.number ⟨.number, numberText x, some start⟩ rfl x reads,
    start + (numberText x).toList.length, rfl, appliesRoots_cons (by simp), ?_⟩
  intro rest ends
  have read : Scans start _ _ _ rest := .of_spells spells.spells ends
  rwa [String.ofList_toList] at read

theorem name {text : String} (spells : Spells .name text.toList) : IsReread (.name text) := by
  intro start
  refine ⟨.name ⟨.name, text, some start⟩ rfl, start + text.toList.length, rfl,
    appliesRoots_cons (by simp), ?_⟩
  intro rest ends
  have read : Scans start _ _ _ rest := .of_spells spells ends
  rwa [String.ofList_toList] at read

theorem call {operand : Tree} (inside : IsReread operand) : IsReread (.call rootName operand) := by
  intro start
  let root : Token := ⟨.root, rootName, some start⟩
  let first : Token := ⟨.opening, "(", some (start + rootName.toList.length)⟩
  obtain ⟨u, finish, tree, applied, scans⟩ := inside (start + rootName.toList.length + 1)
  obtain ⟨e, same_tokens, same_tree⟩ := u.exists_loosened
  let last : Token := ⟨.closing, ")", some finish⟩
  refine ⟨.root root rfl (.group first last rfl rfl e), finish + 1, ?_, ?_, ?_⟩
  · rw [Derivation.tree, Derivation.tree, same_tree, tree]
  · intro rest
    rw [Derivation.tokens, Derivation.tokens, same_tokens, List.cons_append, List.cons_append,
      List.append_assoc, appliesRoots, appliesRoots_cons (by simp [first]), applied,
      List.singleton_append, appliesRoots_cons (by simp [last])]
    rfl
  · intro rest ends
    have name : Scans start (rootName.toList ++ '(' :: (operand.formatted.toList ++ ')' :: rest))
        [root] (start + rootName.toList.length) _ :=
      .of_spells .root ends_opening
    have whole := name.trans (.group (scans _ ends_closing) ends)
    simpa [Tree.toList_formatted_call, Derivation.tokens, same_tokens] using whole

theorem binary {left right : Tree} (o : Operator) (before : IsReread left)
    (behind : IsReread right) : IsReread (.binary o.text left right) := by
  intro start
  obtain ⟨u, middle, tree, applied, scans⟩ := before (start + 1)
  obtain ⟨v, finish, tree', applied', scans'⟩ := behind (middle + 1 + 1 + 1)
  obtain ⟨d, same_tokens, same_tree, -⟩ := u.exists_of_unit o.level
  obtain ⟨d', same_tokens', same_tree', -⟩ := v.exists_of_unit o.level.tighter
  let first : Token := ⟨.opening, "(", some start⟩
  let sign : Token := ⟨.operator, o.text, some (middle + 1)⟩
  let last : Token := ⟨.closing, ")", some finish⟩
  have spells : sign.operator? = some o :=
    Token.operator?_eq_some.mpr ⟨rfl, Operator.ofText?_text o⟩
  obtain ⟨e, all_tokens, whole_tree⟩ := (Derivation.binary o rfl d sign spells d').exists_loosened
  rw [Derivation.tokens, same_tokens, same_tokens'] at all_tokens
  refine ⟨.group first last rfl rfl e, finish + 1, ?_, ?_, ?_⟩
  · rw [Derivation.tree, whole_tree, Derivation.tree, same_tree, same_tree', tree, tree']
  · intro rest
    rw [Derivation.tokens, all_tokens, List.cons_append, appliesRoots_cons (by simp [first]),
      List.append_assoc, List.append_assoc, applied, List.cons_append,
      appliesRoots_cons (by simp [sign]), applied', List.singleton_append,
      appliesRoots_cons (by simp [last])]
  · intro rest ends
    have right := scans' (')' :: rest) ends_closing
    have inside := (Scans.operate o (scans _ ends_space)).trans right
    rw [← List.cons_append, ← List.cons_append, ← List.cons_append, ← List.append_assoc] at inside
    have whole := Scans.group inside ends
    simpa [Tree.toList_formatted_binary, Derivation.tokens, all_tokens] using whole

end IsReread

def Breaks (t : Tree) : Prop :=
  ∀ start rest, Lexer.Ends rest →
    ∃ e, Lexer.scan start (t.formatted.toList ++ rest) = .error e ∧ e.flaw = .adjacency

namespace Breaks

open Lexer

variable {left right operand : Tree}

theorem call (inside : Breaks operand) : Breaks (.call rootName operand) := by
  intro start rest ends
  have name : Scans start (rootName.toList ++ '(' :: (operand.formatted.toList ++ ')' :: rest))
      _ _ _ :=
    .of_spells .root ends_opening
  obtain ⟨e, failed, flaw⟩ := inside (start + rootName.toList.length + 1) (')' :: rest) ends_closing
  refine ⟨e, ?_, flaw⟩
  simpa [Tree.toList_formatted_call] using (name.trans .opening).error failed

theorem before (o : Operator) (stops : Breaks left) (right : Tree) :
    Breaks (.binary o.text left right) := by
  intro start rest ends
  obtain ⟨e, failed, flaw⟩ := stops (start + 1)
    (' ' :: o.symbol :: ' ' :: (right.formatted.toList ++ ')' :: rest)) ends_space
  refine ⟨e, ?_, flaw⟩
  simpa [Tree.toList_formatted_binary] using Scans.opening.error failed

theorem behind (o : Operator) (reread : IsReread left) (stops : Breaks right) :
    Breaks (.binary o.text left right) := by
  intro start rest ends
  obtain ⟨u, middle, -, -, scans⟩ := reread (start + 1)
  obtain ⟨e, failed, flaw⟩ := stops (middle + 1 + 1 + 1) (')' :: rest) ends_closing
  refine ⟨e, ?_, flaw⟩
  have stopped := (Scans.operate o (scans _ ends_space)).error failed
  simpa [Tree.toList_formatted_binary] using Scans.opening.error stopped

end Breaks

theorem SpelledLabel.isMagnitude {x : Float} (spelled : SpelledLabel (.number x)) :
    Machine.IsMagnitude x ∧ x.isFinite = true := by
  cases spelled with
  | number spells reads => exact isMagnitude_of_literal spells reads

theorem SpelledLabel.exists_operator {text : String} (spelled : SpelledLabel (.binary text)) :
    ∃ o : Operator, text = o.text := by
  cases spelled with
  | binary o => exact ⟨o, rfl⟩

namespace Tree

theorem isPlain_call {function : String} {operand : Tree} :
    (call function operand).IsPlain ↔ operand.IsPlain := by
  simp [IsPlain]

theorem isPlain_binary {operator : String} {left right : Tree} :
    (binary operator left right).IsPlain ↔ left.IsPlain ∧ right.IsPlain := by
  simp [IsPlain, or_imp, forall_and]

end Tree

namespace Derivation

variable {level : Level}

theorem isReread (d : Derivation level) (spelled : ∀ label ∈ d.tree.postorder, SpelledLabel label)
    (plain : d.tree.IsPlain) : IsReread d.tree := by
  induction d with
  | binary o own left token spells right left_ih right_ih =>
    simp only [tree, Tree.postorder_binary, List.forall_mem_append] at spelled
    obtain ⟨⟨before, behind⟩, here⟩ := spelled
    obtain ⟨o, same⟩ := (here _ List.mem_cons_self).exists_operator
    obtain ⟨plain, plain'⟩ := Tree.isPlain_binary.mp plain
    rw [tree, same]
    exact .binary o (left_ih before plain) (right_ih behind plain')
  | tighter inner ih => exact ih spelled plain
  | root token kind operand ih =>
    simp only [tree, Tree.postorder_call, List.forall_mem_append] at spelled
    exact .call (ih spelled.1 (Tree.isPlain_call.mp plain))
  | number token kind value reads =>
    have here : SpelledLabel (.number value) := spelled _ (by simp [tree])
    obtain ⟨magnitude, finite⟩ := here.isMagnitude
    exact .number (spellsFloat_numberText magnitude finite (plain value (by simp [tree])))
  | name token kind =>
    have here : SpelledLabel (.name token.text) := spelled _ (by simp [tree])
    cases here with
    | name spells => exact .name spells
  | group first last opens ends inner ih => exact ih spelled plain

theorem breaks (d : Derivation level) (spelled : ∀ label ∈ d.tree.postorder, SpelledLabel label)
    (other : ¬d.tree.IsPlain) : Breaks d.tree := by
  induction d with
  | binary o own left token spells right left_ih right_ih =>
    simp only [tree, Tree.postorder_binary, List.forall_mem_append] at spelled
    obtain ⟨⟨before, behind⟩, here⟩ := spelled
    obtain ⟨o, same⟩ := (here _ List.mem_cons_self).exists_operator
    rw [tree, same]
    by_cases plain : left.tree.IsPlain
    · have other' : ¬right.tree.IsPlain := fun plain' =>
        other (Tree.isPlain_binary.mpr ⟨plain, plain'⟩)
      exact .behind o (left.isReread before plain) (right_ih behind other')
    · exact .before o (left_ih before plain) right.tree
  | tighter inner ih => exact ih spelled other
  | root token kind operand ih =>
    simp only [tree, Tree.postorder_call, List.forall_mem_append] at spelled
    exact .call (ih spelled.1 fun plain => other (Tree.isPlain_call.mpr plain))
  | number token kind value reads =>
    have here : SpelledLabel (.number value) := spelled _ (by simp [tree])
    obtain ⟨magnitude, finite⟩ := here.isMagnitude
    have tiny : Decimal.IsTiny value := by simpa [Tree.IsPlain, tree] using other
    exact fun start rest _ => Lexer.scan_of_runsOn (runsOn_numberText magnitude finite tiny) start
  | name token kind => exact absurd (fun x member => by simp [tree] at member) other
  | group first last opens ends inner ih => exact ih spelled other

end Derivation

/-- A tree that is read back is that of a valid formula. -/
theorem IsReread.reads {t : Tree} (reread : IsReread t) :
    (∃ ts, tokenize t.formatted = .ok ts) ∧ isValid t.formatted = true ∧
      Tree.ofFormula t.formatted = .ok t := by
  obtain ⟨u, finish, tree, applied, scans⟩ := reread 0
  have read : tokenize t.formatted = .ok u.tokens := by
    have scans := scans [] Lexer.ends_nil
    rw [List.append_nil] at scans
    exact scans.ok
  have spelled : ∀ token ∈ u.tokens, token.Spelled := fun token member =>
    (tokenize_isLexeme read token member).spelled
  have alternating : alternates true u.tokens = true := by
    have whole := u.alternates_tokens []
    rwa [List.append_nil] at whole
  have roots : appliesRoots u.tokens = true := by
    have whole := applied []
    rwa [List.append_nil] at whole
  have ink : ¬t.formatted.toList.all Text.isBlank = true := by
    intro blank
    have empty := read.symm.trans (Lexer.scan_of_blank blank 0)
    rw [Except.ok.inj empty] at alternating
    cases alternating
  refine ⟨⟨u.tokens, read⟩, ?_, ?_⟩
  · have faultless : neighbourFaults none u.tokens = [] := neighbourFaults_eq_nil alternating roots
    rw [isValid, faults, if_neg ink, read]
    simp only [faultless, u.toPostfix_tokens spelled]
    rfl
  · rw [ofFormula_of_tokenize read, u.ofTokens_tokens spelled, tree]

/-- The tree of a formula is printed as a valid formula with the same tree, if none of its numbers
is tiny. Otherwise the lexer stops at such a number. -/
theorem format_reads_back {formula : String} {t : Tree} (built : Tree.ofFormula formula = .ok t) :
    ∃ text, t.format = .ok text ∧
      (t.IsPlain → (∃ ts, tokenize text = .ok ts) ∧ isValid text = true ∧
        Tree.ofFormula text = .ok t) ∧
      (¬t.IsPlain → ∃ e, tokenize text = .error e ∧ e.flaw = .adjacency) := by
  have spelled := spelledLabel_of_ofFormula built
  obtain ⟨tokens, -, built⟩ := bind_eq_ok_iff.mp built
  obtain ⟨d, rfl, -⟩ := ofTokens_eq_ok_iff.mp built
  refine ⟨d.tree.formatted, d.format_tree, fun plain => (d.isReread spelled plain).reads, ?_⟩
  intro other
  have broken := d.breaks spelled other 0 [] Lexer.ends_nil
  rwa [List.append_nil] at broken

theorem format_reads_back_product : ∃ t, Tree.ofFormula "0.5*a" = .ok t ∧
    t.format = .ok "(0.5 * a)" ∧ isValid "(0.5 * a)" = true ∧
      Tree.ofFormula "(0.5 * a)" = .ok t := by
  have tokens : tokenize "0.5*a" = .ok [⟨.number, "0.5", some 0⟩, ⟨.operator, "*", some 3⟩,
      ⟨.name, "a", some 4⟩] :=
    tokenize_eq_ok (by decide +kernel)
  have reads : literal "0.5" = .ok 0.5 := eq_ok_of_toOption (by decide +kernel)
  let product : Derivation .product :=
    .binary .mul rfl (.tighter (.tighter (.number ⟨.number, "0.5", some 0⟩ rfl 0.5 reads)))
      ⟨.operator, "*", some 3⟩ rfl (.tighter (.name ⟨.name, "a", some 4⟩ rfl))
  have built : Tree.ofFormula "0.5*a" = .ok product.tree := by
    rw [ofFormula_of_tokenize tokens]
    exact product.ofTokens_tokens fun t member => (tokenize_isLexeme tokens t member).spelled
  have text : (Tree.binary "*" (.number 0.5) (.name "a")).formatted = "(0.5 * a)" := by
    decide +kernel
  have printed : product.tree.format = .ok "(0.5 * a)" :=
    product.format_tree.trans (congrArg Except.ok text)
  obtain ⟨text, printed', reads, -⟩ := format_reads_back built
  cases printed.symm.trans printed'
  have large : product.tree.IsPlain := by
    intro x member
    have same : x = 0.5 := by simpa [product, Derivation.tree] using member
    rw [same]
    decide +kernel
  obtain ⟨-, valid, same⟩ := reads large
  exact ⟨product.tree, built, printed, valid, same⟩

/-- The number `0.00001` is printed as `1e-05`, which is no formula. -/
theorem not_valid_of_tiny : ∃ t, Tree.ofFormula "0.00001" = .ok t ∧ t.format = .ok "1e-05" ∧
    (tokenize "1e-05").toOption = none ∧ isValid "1e-05" = false := by
  have tokens : tokenize "0.00001" = .ok [⟨.number, "0.00001", some 0⟩] :=
    tokenize_eq_ok (by decide +kernel)
  have reads : literal "0.00001" = .ok 0.00001 := eq_ok_of_toOption (by decide +kernel)
  let number : Derivation .unit := .number ⟨.number, "0.00001", some 0⟩ rfl 0.00001 reads
  have built : Tree.ofFormula "0.00001" = .ok number.tree := by
    rw [ofFormula_of_tokenize tokens]
    exact number.ofTokens_tokens fun t member => (tokenize_isLexeme tokens t member).spelled
  have text : (Tree.number 0.00001).formatted = "1e-05" := by decide +kernel
  have printed : number.tree.format = .ok "1e-05" :=
    number.format_tree.trans (congrArg Except.ok text)
  exact ⟨number.tree, built, printed, by decide +kernel, by decide +kernel⟩

end Reckon.Formula
