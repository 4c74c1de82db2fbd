import Mathlib
import Reckon.Proofs.Scanning

/-!
The names in a formula, as three readers see them. The scan for names skips whatever starts no
name, the lexer reads every token, and the tree holds its variables in the order of evaluation. In
a formula that the lexer accepts they all find the same names.
-/

namespace Reckon.Formula

/-! ### Sorting -/

theorem mem_insertName {name other : String} {names : List String} :
    other ∈ insertName name names ↔ other = name ∨ other ∈ names := by
  induction names with
  | nil => simp [insertName]
  | cons first rest ih =>
    rw [insertName]
    split
    case isTrue same => simp [same]
    case isFalse =>
      split
      case isTrue => simp
      case isFalse => simp only [List.mem_cons, ih, or_left_comm]

theorem mem_sortNames {name : String} {names : List String} :
    name ∈ sortNames names ↔ name ∈ names := by
  induction names with
  | nil => rfl
  | cons first rest ih =>
    rw [List.mem_cons, ← ih]
    exact mem_insertName

theorem pairwise_insertName {names : List String} (ascending : names.Pairwise (· < ·))
    (name : String) : (insertName name names).Pairwise (· < ·) := by
  induction names with
  | nil => exact List.pairwise_singleton _ _
  | cons first rest ih =>
    obtain ⟨above, later⟩ := List.pairwise_cons.mp ascending
    rw [insertName]
    split
    case isTrue => exact ascending
    case isFalse different =>
      split
      case isTrue before =>
        refine List.pairwise_cons.mpr ⟨fun other member => ?_, ascending⟩
        rcases List.mem_cons.mp member with rfl | behind
        · exact before
        · exact before.trans (above other behind)
      case isFalse after =>
        refine List.pairwise_cons.mpr ⟨fun other member => ?_, ih later⟩
        rcases mem_insertName.mp member with rfl | behind
        · exact lt_of_le_of_ne (not_lt.mp after) (Ne.symm different)
        · exact above other behind

theorem pairwise_sortNames (names : List String) : (sortNames names).Pairwise (· < ·) := by
  induction names with
  | nil => exact .nil
  | cons first rest ih => exact pairwise_insertName ih first

theorem sortNames_eq_sort (names : List String) : sortNames names = names.toFinset.sort (· ≤ ·) := by
  refine (pairwise_sortNames names).eq_of_mem_iff (Finset.sortedLT_sort names.toFinset).pairwise ?_
  intro name
  rw [mem_sortNames, Finset.mem_sort, List.mem_toFinset]

/-! ### Scanning -/

def nameTexts (ts : List Token) : List String :=
  (ts.filter (·.kind = .name)).map Token.text

theorem nameTexts_cons (t : Token) (ts : List Token) :
    nameTexts (t :: ts) = nameTexts [t] ++ nameTexts ts := by
  simp only [nameTexts, ← List.map_append, ← List.filter_append, List.singleton_append]

theorem nameTexts_of_ne {t : Token} (other : t.kind ≠ .name) : nameTexts [t] = [] := by
  simp [nameTexts, other]

def variableTexts (chars : List Char) : List String :=
  (names chars).filter (· ≠ rootName)

theorem variableTexts_cons_of_not {c : Char} (other : c.isAlpha = false) (rest : List Char) :
    variableTexts (c :: rest) = variableTexts rest := by
  rw [variableTexts, names, other, if_neg Bool.false_ne_true, variableTexts]

theorem variableTexts_append_of_not {run : List Char} (other : ∀ c ∈ run, c.isAlpha = false)
    (rest : List Char) : variableTexts (run ++ rest) = variableTexts rest := by
  induction run with
  | nil => rfl
  | cons c run ih =>
    obtain ⟨first, others⟩ := List.forall_mem_cons.mp other
    rw [List.cons_append, variableTexts_cons_of_not first, ih others]

namespace Lexer

theorem isAlpha_of_isBlank {c : Char} (blank : Text.isBlank c = true) : c.isAlpha = false := by
  rw [Bool.eq_false_iff]
  intro letter
  rw [isBlank_of_isAlpha letter] at blank
  cases blank

theorem isAlpha_of_isNumberChar {c : Char} (number : isNumberChar c = true) :
    c.isAlpha = false := by
  rw [Bool.eq_false_iff]
  intro letter
  simp only [isNumberChar, isDigit_eq_false_of_isAlpha letter, Bool.false_or, beq_iff_eq] at number
  subst number
  exact absurd letter (by decide)

structure Splits (c : Char) (after : List Char) (t : Token) (run rest : List Char) : Prop where
  text : t.text = String.ofList (c :: run)
  split : after = run ++ rest

theorem Splits.drop {c : Char} {after run rest : List Char} {t : Token}
    (splits : Splits c after t run rest) : after.drop (t.text.length - 1) = rest := by
  rw [splits.text, String.length_ofList, List.length_cons, Nat.add_sub_cancel, splits.split,
    List.drop_left]

theorem number_eq_ok {run rest : List Char} {start : Nat} {t : Token}
    (read : number run rest start = .ok t) : t.kind = .number ∧ t.text = String.ofList run := by
  have spelled : number.spelled run start (String.ofList run) = .ok t →
      t.kind = .number ∧ t.text = String.ofList run := by
    intro read
    unfold number.spelled at read
    split at read
    case isTrue => cases read
    case isFalse =>
      split at read
      case isTrue => cases read
      case isFalse =>
        cases read
        exact ⟨rfl, rfl⟩
  unfold number at read
  split at read
  case h_1 =>
    split at read
    case isTrue => cases read
    case isFalse => exact spelled read
  case h_2 => exact spelled read

theorem variableTexts_of_number {c : Char} {after : List Char} {start : Nat} {t : Token}
    (digit : c.isDigit = true)
    (read : number (c :: after.takeWhile isNumberChar) (after.dropWhile isNumberChar) start =
      .ok t) :
    variableTexts (c :: after) = nameTexts [t] ++ variableTexts (after.drop (t.text.length - 1)) := by
  obtain ⟨kind, text⟩ := number_eq_ok read
  have splits : Splits c after t _ _ := ⟨text, List.takeWhile_append_dropWhile.symm⟩
  have numbers : ∀ x ∈ after.takeWhile isNumberChar, x.isAlpha = false := fun x member =>
    isAlpha_of_isNumberChar (List.all_eq_true.mp List.all_takeWhile x member)
  have first : c.isAlpha = false := isAlpha_of_isNumberChar (by simp [isNumberChar, digit])
  rw [splits.drop, nameTexts_of_ne (by simp [kind]), List.nil_append, variableTexts_cons_of_not first]
  conv_lhs => rw [splits.split, variableTexts_append_of_not numbers]

theorem span_word {chars : List Char}
    (digitless : ∀ c ∈ chars.takeWhile isWordChar, c.isDigit = false) :
    chars.takeWhile isNameChar = chars.takeWhile isWordChar ∧
      chars.dropWhile isNameChar = chars.dropWhile isWordChar := by
  have inside : ∀ c ∈ chars.takeWhile isWordChar, isNameChar c = true := fun c member =>
    isNameChar_of_isWordChar (List.all_eq_true.mp List.all_takeWhile c member) (digitless c member)
  have outside : ∀ c ∈ (chars.dropWhile isWordChar).head?, isNameChar c = false := by
    intro c head
    have stops := List.head?_dropWhile_not isWordChar chars
    rw [Option.mem_def.mp head] at stops
    have other : isWordChar c = false := by simpa using stops
    exact Bool.eq_false_iff.mpr fun inside => by simp [isWordChar_of_isNameChar inside] at other
  have both := longest_append inside outside
  rwa [List.takeWhile_append_dropWhile] at both

theorem nameTexts_word (text : String) (start : Nat) :
    nameTexts [⟨if text = rootName then .root else .name, text, some start⟩] =
      [text].filter (· ≠ rootName) := by
  by_cases root : text = rootName <;> simp [nameTexts, root]

theorem variableTexts_of_word {c : Char} {after : List Char} {start : Nat} {t : Token}
    (letter : c.isAlpha = true) (read : word (c :: after.takeWhile isWordChar) start = .ok t) :
    variableTexts (c :: after) =
      nameTexts [t] ++ variableTexts (after.drop (t.text.length - 1)) := by
  unfold word at read
  split at read
  case isTrue => cases read
  case isFalse digitless =>
    cases read
    have digitless : ∀ x ∈ after.takeWhile isWordChar, x.isDigit = false := by
      simp only [List.any_cons, Bool.or_eq_true, List.any_eq_true, not_or, not_exists] at digitless
      exact fun x member => Bool.eq_false_iff.mpr fun digit => digitless.2 x ⟨member, digit⟩
    obtain ⟨taken, dropped⟩ := span_word digitless
    rw [Splits.drop ⟨rfl, List.takeWhile_append_dropWhile.symm⟩, nameTexts_word, variableTexts,
      names, if_pos letter, taken, dropped, variableTexts, ← List.filter_append,
      List.singleton_append]

theorem variableTexts_of_single {kind : Kind} {c : Char} (other : c.isAlpha = false)
    (unnamed : kind ≠ .name) (after : List Char) (start : Option Nat) :
    variableTexts (c :: after) = nameTexts [⟨kind, String.singleton c, start⟩] ++
      variableTexts (after.drop ((String.singleton c).length - 1)) := by
  have one : (String.singleton c).length - 1 = 0 := by simp
  rw [variableTexts_cons_of_not other, nameTexts_of_ne unnamed, List.nil_append, one,
    List.drop_zero]

theorem variableTexts_of_token {c : Char} {after : List Char} {start : Nat} {t : Token}
    (read : token c after start = .ok t) :
    variableTexts (c :: after) =
      nameTexts [t] ++ variableTexts (after.drop (t.text.length - 1)) := by
  unfold token at read
  split at read
  case isTrue digit => exact variableTexts_of_number digit read
  case isFalse =>
    split at read
    case isTrue letter => exact variableTexts_of_word letter read
    case isFalse other =>
      have other := Bool.eq_false_iff.mpr other
      split at read
      case isTrue =>
        cases read
        exact variableTexts_of_single other (by simp) after start
      case isFalse =>
        split at read
        case isTrue =>
          cases read
          exact variableTexts_of_single other (by simp) after start
        case isFalse =>
          split at read
          case isTrue =>
            cases read
            exact variableTexts_of_single other (by simp) after start
          case isFalse => cases read

/-- The variables in a text are its name tokens, in the order of the text. -/
theorem variableTexts_of_scan {start : Nat} {chars : List Char} {ts : List Token}
    (read : scan start chars = .ok ts) : variableTexts chars = nameTexts ts := by
  fun_induction scan start chars generalizing ts with
  | case1 =>
    cases read
    simp [variableTexts, names, nameTexts]
  | case2 start c rest blank ih =>
    rw [variableTexts_cons_of_not (isAlpha_of_isBlank blank), ih read]
  | case3 start c rest ink e failed => cases read
  | case4 start c rest ink t first e failed ih => cases read
  | case5 start c rest ink t first others more ih =>
    cases read
    rw [variableTexts_of_token first, ih more, ← nameTexts_cons]

end Lexer

theorem variableNames_of_tokenize {formula : String} {ts : List Token}
    (read : tokenize formula = .ok ts) : variableNames formula = sortNames (nameTexts ts) :=
  congrArg sortNames (Lexer.variableTexts_of_scan read)

/-! ### Trees -/

def Label.name? : Label → Option String
  | .name text => some text
  | _ => none

theorem Tree.variableNames_eq (t : Tree) :
    t.variableNames = sortNames (t.postorder.filterMap Label.name?) := rfl

theorem Token.name?_of_label? (t : Token) :
    t.label?.bind Label.name? = if t.kind = .name then some t.text else none := by
  unfold label?
  split
  case h_1 kind => cases Decimal.float? t.text <;> simp [kind, Label.name?]
  all_goals simp_all [Label.name?]

theorem nameTexts_eq_filterMap (ts : List Token) :
    nameTexts ts = ts.filterMap fun t => t.label?.bind Label.name? := by
  induction ts with
  | nil => rfl
  | cons t ts ih =>
    rw [nameTexts_cons, ih, List.filterMap_cons, Token.name?_of_label?]
    by_cases kind : t.kind = .name <;> simp [nameTexts, kind]

theorem nameTexts_of_toPostfix {ts result : List Token} (ordered : toPostfix ts = .ok result) :
    nameTexts result = nameTexts ts := by
  have among (others : List Token) :
      nameTexts (others.filter Token.isOperand) = nameTexts others := by
    rw [nameTexts, List.filter_filter, nameTexts]
    refine congrArg _ (List.filter_congr fun t _ => ?_)
    by_cases kind : t.kind = .name <;> simp [kind, Token.isOperand]
  rw [← among result, operands_of_toPostfix ordered, among]

theorem Derivation.filterMap_name? {level : Level} (d : Derivation level) :
    d.tree.postorder.filterMap Label.name? = nameTexts d.postorder := by
  have labels := congrArg (List.filterMap fun label => label.bind Label.name?) d.label_postorder
  rw [List.filterMap_map, List.filterMap_map] at labels
  rw [nameTexts_eq_filterMap]
  exact labels.symm

theorem variableNames_of_ofTokens {ts : List Token} {t : Tree} (built : Tree.ofTokens ts = .ok t) :
    t.variableNames = sortNames (nameTexts ts) := by
  obtain ⟨d, rfl, ordered⟩ := ofTokens_eq_ok_iff.mp built
  rw [Tree.variableNames_eq, d.filterMap_name?, nameTexts_of_toPostfix ordered]

/-- The variables of a formula are the texts of its name tokens, each once and in ascending order,
and they are the variables of its tree. -/
theorem variableNames_eq_sort {formula : String} {ts : List Token}
    (read : tokenize formula = .ok ts) :
    variableNames formula = (nameTexts ts).toFinset.sort (· ≤ ·) ∧
      ∀ t, Tree.ofFormula formula = .ok t → t.variableNames = variableNames formula := by
  have scanned := variableNames_of_tokenize read
  refine ⟨by rw [scanned, sortNames_eq_sort], fun t built => ?_⟩
  rw [ofFormula_of_tokenize read] at built
  rw [scanned, variableNames_of_ofTokens built]

/-- A variable that stands twice, and the square root, which is none. -/
theorem variableNames_eq_sort_repeated :
    variableNames "b*sqrt(a)+b" = ["a", "b"] ∧
      ∃ t, Tree.ofFormula "b*sqrt(a)+b" = .ok t ∧ t.variableNames = ["a", "b"] := by
  have read : tokenize "b*sqrt(a)+b" = .ok [⟨.name, "b", some 0⟩, ⟨.operator, "*", some 1⟩,
      ⟨.root, "sqrt", some 2⟩, ⟨.opening, "(", some 6⟩, ⟨.name, "a", some 7⟩,
      ⟨.closing, ")", some 8⟩, ⟨.operator, "+", some 9⟩, ⟨.name, "b", some 10⟩] := by
    decide +kernel
  obtain ⟨listed, agree⟩ := variableNames_eq_sort read
  have listed : variableNames "b*sqrt(a)+b" = ["a", "b"] := by
    rw [listed, ← sortNames_eq_sort]
    decide +kernel
  have built : Tree.ofFormula "b*sqrt(a)+b" = .ok
      (.binary "+" (.binary "*" (.name "b") (.call rootName (.name "a"))) (.name "b")) := by
    rw [ofFormula_of_tokenize read]
    rfl
  exact ⟨listed, _, built, (agree _ built).trans listed⟩

end Reckon.Formula
