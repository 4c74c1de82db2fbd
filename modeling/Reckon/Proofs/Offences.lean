import Reckon.Proofs.Cuts
import Reckon.Proofs.Overflow

/-!
Where the lexer fails. It points at the first piece of text that is no token: the error repeats
that piece, the formula before it has tokens, and however the formula goes on behind it, the lexer
fails at the same place. What it objects to may change there, since a number with too many points
may go on with a letter.
-/

namespace Reckon.Formula

namespace Lexer

variable {c : Char} {run rest : List Char} {start : Nat} {e : LexError}

theorem number_error_cases (failed : number run rest start = .error e) :
    e.start = some start ∧
      ((∃ d tail, rest = d :: tail ∧ d.isAlpha = true ∧
          e.text = String.ofList (run ++ rest.takeWhile isWordChar)) ∨
        (e.text = String.ofList run ∧ 1 < run.count '.') ∨
        (e.text = String.ofList run ∧
          (Decimal.float? (String.ofList run)).any Float.isInf = true)) := by
  have spelled (failed : number.spelled run start (String.ofList run) = .error e) :
      e.start = some start ∧ ((e.text = String.ofList run ∧ 1 < run.count '.') ∨
        (e.text = String.ofList run ∧
          (Decimal.float? (String.ofList run)).any Float.isInf = true)) := by
    unfold number.spelled at failed
    split at failed
    case isTrue many =>
      cases failed
      exact ⟨rfl, .inl ⟨rfl, many⟩⟩
    case isFalse =>
      split at failed
      case isTrue large =>
        cases failed
        exact ⟨rfl, .inr ⟨rfl, large⟩⟩
      case isFalse => cases failed
  cases rest with
  | nil => exact (spelled failed).imp_right .inr
  | cons d tail =>
    simp only [number] at failed
    split at failed
    case isTrue letter =>
      cases failed
      exact ⟨rfl, .inl ⟨d, tail, rfl, letter, rfl⟩⟩
    case isFalse => exact (spelled failed).imp_right .inr

theorem word_error_cases (failed : word run start = .error e) :
    e.start = some start ∧ e.text = String.ofList run ∧ run.any Char.isDigit = true := by
  unfold word at failed
  split at failed
  case isTrue digits =>
    cases failed
    exact ⟨rfl, rfl, digits⟩
  case isFalse => cases failed

/-- No text that starts so has a token in front. -/
def Offends (start : Nat) (c : Char) (run : List Char) : Prop :=
  ∀ more t, token c (run ++ more) start ≠ .ok t

theorem offends_of_letter {d : Char} {tail : List Char} (digit : c.isDigit = true)
    (numbers : ∀ x ∈ run, isNumberChar x = true) (letter : d.isAlpha = true)
    (other : isNumberChar d = false) : Offends start c (run ++ d :: tail) := by
  intro more t read
  have outside : ∀ x ∈ (d :: (tail ++ more)).head?, isNumberChar x = false := by
    rintro x ⟨⟩
    exact other
  obtain ⟨taken, dropped⟩ := longest_append numbers outside
  rw [List.append_assoc, List.cons_append, token_of_isDigit digit, taken, dropped] at read
  have stops := (number_eq_ok_iff.mp read).1 d rfl
  rw [letter] at stops
  cases stops

theorem token_of_number_append {more : List Char} (digit : c.isDigit = true)
    (numbers : ∀ x ∈ run, isNumberChar x = true) :
    token c (run ++ more) start =
      number (c :: (run ++ more.takeWhile isNumberChar)) (more.dropWhile isNumberChar) start := by
  rw [token_of_isDigit digit, List.takeWhile_append_of_pos numbers,
    List.dropWhile_append_of_pos numbers]

theorem offends_of_points (digit : c.isDigit = true) (numbers : ∀ x ∈ run, isNumberChar x = true)
    (many : 1 < (c :: run).count '.') : Offends start c run := by
  intro more t read
  rw [token_of_number_append digit numbers] at read
  have few := (number_eq_ok_iff.mp read).2.1
  rw [← List.cons_append, List.count_append] at few
  omega

/-- More digits do not make a number small again. -/
theorem offends_of_large (digit : c.isDigit = true) (numbers : ∀ x ∈ run, isNumberChar x = true)
    (large : (Decimal.float? (String.ofList (c :: run))).any Float.isInf = true) :
    Offends start c run := by
  intro more t read
  rw [token_of_number_append digit numbers] at read
  obtain ⟨-, few, small, -⟩ := number_eq_ok_iff.mp read
  have all : ∀ x ∈ run ++ more.takeWhile isNumberChar, isNumberChar x = true :=
    List.forall_mem_append.mpr ⟨numbers, List.all_eq_true.mp List.all_takeWhile⟩
  rw [Decimal.isInf_append digit all few large] at small
  cases small

theorem offends_of_digit (letter : c.isAlpha = true) (words : ∀ x ∈ run, isWordChar x = true)
    (digits : (c :: run).any Char.isDigit = true) : Offends start c run := by
  intro more t read
  rw [token_of_isAlpha letter, List.takeWhile_append_of_pos words] at read
  have none := (word_eq_ok_iff.mp read).1
  rw [← List.cons_append, List.any_append, digits] at none
  cases none

/-- The text that is objected to stands in front, and offends on its own. -/
theorem exists_of_token_error (failed : token c rest start = .error e) :
    e.start = some start ∧ ∃ run behind, rest = run ++ behind ∧ e.text = String.ofList (c :: run) ∧
      Offends start c run := by
  cases start_cases c with
  | number digit =>
    have split := List.takeWhile_append_dropWhile (p := isNumberChar) (l := rest)
    have numbers : ∀ x ∈ rest.takeWhile isNumberChar, isNumberChar x = true :=
      List.all_eq_true.mp List.all_takeWhile
    rw [token_of_isDigit digit] at failed
    obtain ⟨place, ⟨d, tail, behind, letter, text⟩ | ⟨text, many⟩ | ⟨text, large⟩⟩ :=
      number_error_cases failed
    · have other := List.head?_dropWhile_not isNumberChar rest
      have word : isWordChar d = true := by simp [isWordChar, letter]
      rw [behind] at other split text
      rw [List.takeWhile_cons_of_pos word] at text
      refine ⟨place, rest.takeWhile isNumberChar ++ d :: tail.takeWhile isWordChar,
        tail.dropWhile isWordChar, ?_, text, offends_of_letter digit numbers letter other⟩
      rw [List.append_assoc, List.cons_append, List.takeWhile_append_dropWhile, split]
    · exact ⟨place, _, _, split.symm, text, offends_of_points digit numbers many⟩
    · exact ⟨place, _, _, split.symm, text, offends_of_large digit numbers large⟩
  | word letter =>
    rw [token_of_isAlpha letter] at failed
    obtain ⟨place, text, digits⟩ := word_error_cases failed
    exact ⟨place, _, _, List.takeWhile_append_dropWhile.symm, text,
      offends_of_digit letter (List.all_eq_true.mp List.all_takeWhile) digits⟩
  | sign sign single =>
    rw [single] at failed
    cases failed
  | offence refused =>
    have again : Offends start c [] := fun more t read => by
      rw [refused] at read
      cases read
    rw [refused] at failed
    cases failed
    exact ⟨rfl, [], rest, rfl, String.singleton_eq_ofList, again⟩

end Lexer

/-- An error of the lexer points at the first text that is no token: the text stands at its place,
the formula before it has tokens, and no formula that starts with both is read any further. -/
theorem tokenize_error_points {formula : String} {e : LexError}
    (failed : tokenize formula = .error e) :
    ∃ place, e.start = some place ∧
      formula.toList.extract place (place + e.text.length) = e.text.toList ∧
      (∃ ts, tokenize (String.ofList (formula.toList.take place)) = .ok ts) ∧
      ∀ more : String, ∃ e',
        tokenize (String.ofList (formula.toList.take (place + e.text.length)) ++ more) = .error e' ∧
          e'.start = some place := by
  obtain ⟨front, c, rest, ts, chars, cuts, ink, refused⟩ := Lexer.exists_of_scan_error failed
  obtain ⟨place, run, behind, rfl, text, offends⟩ := Lexer.exists_of_token_error refused
  have length : e.text.length = (c :: run).length := by rw [text, String.length_ofList]
  rw [Nat.zero_add] at place
  refine ⟨front.length, place, ?_, ⟨ts, ?_⟩, fun more => ?_⟩
  · rw [chars, length, text, String.toList_ofList, ← List.cons_append, List.extract]
    simp
  · rw [chars, List.take_left, tokenize, String.toList_ofList]
    exact Lexer.scan_eq_ok_iff.mpr cuts.alone
  · have taken : formula.toList.take (front.length + e.text.length) = front ++ c :: run := by
      rw [chars, length, ← List.cons_append, ← List.append_assoc, ← List.length_append,
        List.take_left]
    cases again : Lexer.token c (run ++ more.toList) (0 + front.length) with
    | ok t => exact absurd again (offends more.toList t)
    | error e' =>
      refine ⟨e', ?_, ?_⟩
      · rw [taken, tokenize, String.toList_append, String.toList_ofList, List.append_assoc,
          List.cons_append]
        exact (cuts.before_same (run ++ more.toList)).scans.error (Lexer.scan_of_error ink again)
      · rw [(Lexer.exists_of_token_error again).1, Nat.zero_add]

/-- A number with two points stays refused where it stands, also if letters follow. -/
theorem tokenize_error_points_at_number :
    tokenize "a + 1.2.3" = .error ⟨.number LexError.onePoint, "1.2.3", some 4⟩ ∧
      tokenize "a + 1.2.3b" = .error ⟨.adjacency, "1.2.3b", some 4⟩ ∧
      ∀ more : String, ∃ e, tokenize ("a + 1.2.3" ++ more) = .error e ∧ e.start = some 4 := by
  have refused : tokenize "a + 1.2.3" = .error ⟨.number LexError.onePoint, "1.2.3", some 4⟩ := by
    decide +kernel
  obtain ⟨_, ⟨⟩, -, -, again⟩ := tokenize_error_points refused
  exact ⟨refused, by decide +kernel, again⟩

end Reckon.Formula
