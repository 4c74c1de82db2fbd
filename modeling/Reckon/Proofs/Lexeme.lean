import Reckon.Proofs.Grammar
import Reckon.Proofs.Numeral

/-!
What the lexer makes of a formula. All of its tokens are lexemes: numbers spell floats, the
square root has its name, and operators are among the five.
-/

namespace Reckon.Formula

structure Token.IsLexeme (t : Token) : Prop where
  terminal : t.IsTerminal
  spelled : t.Spelled

theorem Operator.symbol_of_ofChar? {c : Char} {o : Operator} (known : ofChar? c = some o) :
    o.symbol = c := by
  unfold ofChar? at known
  split at known <;> cases known <;> rfl

theorem Operator.ofChar?_symbol (o : Operator) : ofChar? o.symbol = some o := by
  cases o <;> rfl

theorem Operator.ofText?_text (o : Operator) : ofText? o.text = some o := by
  simp [ofText?, text, ofChar?_symbol]

namespace Lexer

inductive Sign : Char → Kind → Prop where
  | operator (o : Operator) : Sign o.symbol .operator
  | opening : Sign '(' .opening
  | closing : Sign ')' .closing

/-- What a character that is not blank starts. What is no number and no word does not depend on
the text behind it. -/
inductive Start (c : Char) : Prop where
  | number (digit : c.isDigit = true)
  | word (letter : c.isAlpha = true)
  | sign {kind : Kind} (sign : Sign c kind)
      (single : ∀ rest start, token c rest start = .ok ⟨kind, String.singleton c, some start⟩)
  | offence (refused : ∀ rest start,
      token c rest start = .error ⟨.character, String.singleton c, some start⟩)

theorem isDigit_eq_false_of_isAlpha {c : Char} (letter : c.isAlpha = true) : c.isDigit = false := by
  delta Char.isAlpha Char.isUpper Char.isLower at letter
  simp only [Char.isDigit, Bool.or_eq_true, Bool.and_eq_true, Bool.and_eq_false_iff,
    decide_eq_true_eq, decide_eq_false_iff_not, UInt32.le_iff_toNat_le] at letter ⊢
  simp at letter ⊢
  omega

theorem number_eq_ok_iff {run rest : List Char} {start : Nat} {t : Token} :
    number run rest start = .ok t ↔ (∀ c ∈ rest.head?, c.isAlpha = false) ∧ run.count '.' ≤ 1 ∧
      (Decimal.float? (String.ofList run)).any Float.isInf = false ∧
        t = ⟨.number, String.ofList run, some start⟩ := by
  have spelled : number.spelled run start (String.ofList run) = .ok t ↔ run.count '.' ≤ 1 ∧
      (Decimal.float? (String.ofList run)).any Float.isInf = false ∧
        t = ⟨.number, String.ofList run, some start⟩ := by
    unfold number.spelled
    split
    case isTrue many => simp [Nat.not_le.mpr many]
    case isFalse few =>
      split
      case isTrue large => simp [large]
      case isFalse small => simp [Nat.not_lt.mp few, Bool.not_eq_true _ ▸ small, eq_comm]
  cases rest with
  | nil => simpa [number] using spelled
  | cons c rest =>
    by_cases letter : c.isAlpha = true
    · simp [number, letter]
    · simpa [number, letter] using spelled

theorem word_eq_ok_iff {run : List Char} {start : Nat} {t : Token} :
    word run start = .ok t ↔ run.any Char.isDigit = false ∧
      t = ⟨if String.ofList run = rootName then .root else .name, String.ofList run, some start⟩ := by
  unfold word
  cases run.any Char.isDigit <;> simp [eq_comm]

theorem token_of_isDigit {c : Char} (digit : c.isDigit = true) (rest : List Char) (start : Nat) :
    token c rest start =
      number (c :: rest.takeWhile isNumberChar) (rest.dropWhile isNumberChar) start :=
  if_pos digit

theorem token_of_isAlpha {c : Char} (letter : c.isAlpha = true) (rest : List Char) (start : Nat) :
    token c rest start = word (c :: rest.takeWhile isWordChar) start := by
  rw [token, isDigit_eq_false_of_isAlpha letter, if_neg Bool.false_ne_true, if_pos letter]

theorem start_cases (c : Char) : Start c := by
  by_cases digit : c.isDigit = true
  · exact .number digit
  · by_cases letter : c.isAlpha = true
    · exact .word letter
    · cases known : Operator.ofChar? c with
      | some o =>
        obtain rfl := Operator.symbol_of_ofChar? known
        exact .sign (.operator o) fun _ _ => by simp [token, digit, letter, known, single]
      | none =>
        by_cases opens : c = '('
        · subst opens
          exact .sign .opening fun _ _ => rfl
        · by_cases closes : c = ')'
          · subst closes
            exact .sign .closing fun _ _ => rfl
          · exact .offence fun _ _ => by simp [token, digit, letter, known, opens, closes]

theorem number_isLexeme {c : Char} {run rest : List Char} {start : Nat} {t : Token}
    (digit : c.isDigit = true) (numbers : ∀ x ∈ run, isNumberChar x = true)
    (read : number (c :: run) rest start = .ok t) : t.IsLexeme := by
  obtain ⟨-, few, -, rfl⟩ := number_eq_ok_iff.mp read
  obtain ⟨x, value⟩ := Decimal.exists_magnitude? digit numbers few
  refine ⟨⟨x, ?_⟩, by simp [Token.Spelled]⟩
  simp only [literal, Decimal.float?_eq_magnitude? digit numbers, value]

theorem word_isLexeme {run : List Char} {start : Nat} {t : Token}
    (read : word run start = .ok t) : t.IsLexeme := by
  obtain ⟨-, rfl⟩ := word_eq_ok_iff.mp read
  by_cases root : String.ofList run = rootName
  · exact ⟨by simp [Token.IsTerminal, root], fun _ => root⟩
  · exact ⟨by simp [Token.IsTerminal, root], by simp [Token.Spelled, root]⟩

theorem sign_isLexeme {c : Char} {kind : Kind} (sign : Sign c kind) (start : Nat) :
    Token.IsLexeme ⟨kind, String.singleton c, some start⟩ := by
  cases sign with
  | operator o => exact ⟨⟨o, o.ofText?_text⟩, nofun⟩
  | opening => exact ⟨trivial, nofun⟩
  | closing => exact ⟨trivial, nofun⟩

theorem token_isLexeme {c : Char} {rest : List Char} {start : Nat} {t : Token}
    (read : token c rest start = .ok t) : t.IsLexeme := by
  cases start_cases c with
  | number digit =>
    rw [token_of_isDigit digit] at read
    exact number_isLexeme digit (List.all_eq_true.mp List.all_takeWhile) read
  | word letter =>
    rw [token_of_isAlpha letter] at read
    exact word_isLexeme read
  | sign sign single =>
    rw [single] at read
    cases read
    exact sign_isLexeme sign start
  | offence refused =>
    rw [refused] at read
    cases read

theorem scan_isLexeme {start : Nat} {chars : List Char} {ts : List Token}
    (read : scan start chars = .ok ts) : ∀ t ∈ ts, t.IsLexeme := by
  fun_induction scan start chars generalizing ts with
  | case1 =>
    cases read
    simp
  | case2 start c rest blank ih => exact ih read
  | case3 start c rest ink e failed => cases read
  | case4 start c rest ink t first e failed ih => cases read
  | case5 start c rest ink t first others more ih =>
    cases read
    intro other member
    rcases List.mem_cons.mp member with rfl | later
    · exact token_isLexeme first
    · exact ih more other later

theorem blank_of_scan {start : Nat} {chars : List Char} (read : scan start chars = .ok []) :
    chars.all Text.isBlank = true := by
  fun_induction scan start chars with
  | case1 => rfl
  | case2 start c rest blank ih => simpa [blank] using ih read
  | case3 start c rest ink e failed => cases read
  | case4 start c rest ink t first e failed ih => cases read
  | case5 start c rest ink t first others more ih => cases read

theorem scan_of_blank {chars : List Char} (blank : chars.all Text.isBlank = true) (start : Nat) :
    scan start chars = .ok [] := by
  induction chars generalizing start with
  | nil => rw [scan]
  | cons c rest ih =>
    obtain ⟨first, others⟩ := Bool.and_eq_true_iff.mp blank
    rw [scan, if_pos first, ih others]

end Lexer

theorem eq_ok_of_toOption {ε α : Type} {result : Except ε α} {a : α}
    (some : result.toOption = some a) : result = .ok a := by
  cases result <;> simp_all [Except.toOption]

theorem tokenize_eq_ok {formula : String} {ts : List Token}
    (read : (tokenize formula).toOption = some ts) : tokenize formula = .ok ts :=
  eq_ok_of_toOption read

theorem tokenize_isLexeme {formula : String} {ts : List Token} (read : tokenize formula = .ok ts) :
    ∀ t ∈ ts, t.IsLexeme :=
  Lexer.scan_isLexeme read

end Reckon.Formula
