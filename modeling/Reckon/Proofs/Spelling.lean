import Reckon.Proofs.Acceptance
import Reckon.Proofs.Lexeme

/-!
How tokens are spelled. The text of a token tells its kind, and the lexer reads a token back
from its text wherever the text behind it does not go on with the same number or name.
-/

namespace Reckon.Formula

inductive Spells : Kind → List Char → Prop where
  | number {c : Char} {run : List Char} (digit : c.isDigit = true)
      (numbers : ∀ x ∈ run, isNumberChar x = true) (points : (c :: run).count '.' ≤ 1)
      (bounded : (Decimal.float? (String.ofList (c :: run))).any Float.isInf = false) :
      Spells .number (c :: run)
  | name {c : Char} {run : List Char} (letter : c.isAlpha = true)
      (letters : ∀ x ∈ run, isNameChar x = true) (other : String.ofList (c :: run) ≠ rootName) :
      Spells .name (c :: run)
  | root : Spells .root rootName.toList
  | operator (o : Operator) : Spells .operator [o.symbol]
  | opening : Spells .opening ['(']
  | closing : Spells .closing [')']

namespace Lexer

theorem spells_number {c : Char} {run rest : List Char} {start : Nat} {t : Token}
    (digit : c.isDigit = true) (numbers : ∀ x ∈ run, isNumberChar x = true)
    (read : number (c :: run) rest start = .ok t) : Spells t.kind t.text.toList := by
  obtain ⟨-, few, small, rfl⟩ := number_eq_ok_iff.mp read
  rw [String.toList_ofList]
  exact .number digit numbers few small

theorem isNameChar_of_isWordChar {c : Char} (word : isWordChar c = true)
    (other : c.isDigit = false) : isNameChar c = true := by
  simpa [isWordChar, isNameChar, other] using word

theorem isWordChar_of_isNameChar {c : Char} (inside : isNameChar c = true) :
    isWordChar c = true := by
  simp only [isNameChar, Bool.or_eq_true] at inside
  rcases inside with letter | score <;> simp [isWordChar, *]

theorem spells_word {c : Char} {run : List Char} {start : Nat} {t : Token}
    (letter : c.isAlpha = true) (words : ∀ x ∈ run, isWordChar x = true)
    (read : word (c :: run) start = .ok t) : Spells t.kind t.text.toList := by
  obtain ⟨digitless, rfl⟩ := word_eq_ok_iff.mp read
  by_cases root : String.ofList (c :: run) = rootName
  · simp only [root, if_true]
    exact .root
  · simp only [root, if_false, String.toList_ofList]
    refine .name letter (fun x member => ?_) root
    apply isNameChar_of_isWordChar (words x member)
    exact Bool.eq_false_iff.mpr (List.any_eq_false.mp digitless x (List.mem_cons_of_mem c member))

theorem spells_sign {c : Char} {kind : Kind} (sign : Sign c kind) : Spells kind [c] := by
  cases sign with
  | operator o => exact .operator o
  | opening => exact .opening
  | closing => exact .closing

theorem spells_token {c : Char} {rest : List Char} {start : Nat} {t : Token}
    (read : token c rest start = .ok t) : Spells t.kind t.text.toList := by
  cases start_cases c with
  | number digit =>
    rw [token_of_isDigit digit] at read
    exact spells_number digit (List.all_eq_true.mp List.all_takeWhile) read
  | word letter =>
    rw [token_of_isAlpha letter] at read
    exact spells_word letter (List.all_eq_true.mp List.all_takeWhile) read
  | sign sign single =>
    rw [single] at read
    cases read
    rw [String.toList_singleton]
    exact spells_sign sign
  | offence refused =>
    rw [refused] at read
    cases read

theorem spells_scan {start : Nat} {chars : List Char} {ts : List Token}
    (read : scan start chars = .ok ts) : ∀ t ∈ ts, Spells t.kind t.text.toList := by
  fun_induction scan start chars generalizing ts with
  | case1 =>
    cases read
    simp
  | case2 start c rest blank ih => exact ih read
  | case3 start c rest ink e failed => cases read
  | case4 start c rest ink t first e failed ih => cases read
  | case5 start c rest ink t first others more ih =>
    cases read
    intro other member
    rcases List.mem_cons.mp member with rfl | later
    · exact spells_token first
    · exact ih more other later

end Lexer

theorem spells_tokenize {formula : String} {ts : List Token} (read : tokenize formula = .ok ts) :
    ∀ t ∈ ts, Spells t.kind t.text.toList :=
  Lexer.spells_scan read

theorem spells_of_toPostfix {ts result : List Token}
    (spells : ∀ t ∈ ts, Spells t.kind t.text.toList) (ordered : toPostfix ts = .ok result) :
    ∀ t ∈ result, Spells t.kind t.text.toList := by
  intro t member
  have kept := (perm_of_toPostfix ordered).mem_iff.mp member
  exact spells t (List.mem_filter.mp kept).1

theorem spells_of_compile {formula : String} {ts : List Token}
    (compiled : compile formula = .ok ts) : ∀ t ∈ ts, Spells t.kind t.text.toList := by
  obtain ⟨tokens, read, ordered⟩ := bind_eq_ok_iff.mp compiled
  exact spells_of_toPostfix (spells_tokenize (mapError_eq_ok_iff.mp read)) ordered

inductive SpelledLabel : Label → Prop where
  | number {chars : List Char} {x : Float} (spells : Spells .number chars)
      (reads : literal (String.ofList chars) = .ok x) : SpelledLabel (.number x)
  | name {text : String} (spells : Spells .name text.toList) : SpelledLabel (.name text)
  | call : SpelledLabel (.call rootName)
  | binary (o : Operator) : SpelledLabel (.binary o.text)

theorem Token.spelledLabel {t : Token} {label : Label} (spells : Spells t.kind t.text.toList)
    (labelled : t.label? = some label) : SpelledLabel label := by
  unfold label? at labelled
  split at labelled
  case h_1 kind =>
    obtain ⟨x, reads, rfl⟩ := Option.map_eq_some_iff.mp labelled
    rw [kind] at spells
    exact .number spells (String.ofList_toList.symm ▸ literal_eq_ok_iff.mpr reads)
  case h_2 kind =>
    cases labelled
    rw [kind] at spells
    exact .name spells
  case h_3 =>
    cases labelled
    exact .call
  case h_4 kind =>
    cases labelled
    rw [kind] at spells
    cases same : t.text.toList with
    | nil =>
      rw [same] at spells
      cases spells
    | cons c rest =>
      rw [same] at spells
      cases spells with
      | operator o =>
        have text : t.text = o.text := by
          rw [← String.toList_inj, same, Operator.text, String.toList_singleton]
        exact text ▸ .binary o
  case h_5 => cases labelled

theorem spelledLabel_of_ofFormula {formula : String} {t : Tree}
    (built : Tree.ofFormula formula = .ok t) : ∀ label ∈ t.postorder, SpelledLabel label := by
  obtain ⟨tokens, read, built⟩ := bind_eq_ok_iff.mp built
  obtain ⟨d, rfl, ordered⟩ := ofTokens_eq_ok_iff.mp built
  have spells := spells_of_toPostfix (spells_tokenize (mapError_eq_ok_iff.mp read)) ordered
  intro label member
  have listed : some label ∈ d.postorder.map Token.label? := by
    rw [d.label_postorder]
    exact List.mem_map_of_mem member
  obtain ⟨token, inside, labelled⟩ := List.mem_map.mp listed
  exact Token.spelledLabel (spells token inside) labelled

end Reckon.Formula
