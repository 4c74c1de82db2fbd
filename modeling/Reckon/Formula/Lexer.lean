import Reckon.Formula.Error
import Reckon.Decimal.Numeral
import Reckon.Text.Classes

/-!
Splitting a formula into tokens. A token is the longest piece of text of its kind, and
white space separates tokens. The first piece of text that is no token is an error that
tells the piece and its place.
-/

namespace Reckon.Formula

/-- What a name or a number may run into: letters, digits and underscores. -/
def isWordChar (c : Char) : Bool :=
  c.isAlpha || c.isDigit || c == '_'

def isNumberChar (c : Char) : Bool :=
  c.isDigit || c == '.'

namespace Lexer

def single (kind : Kind) (c : Char) (start : Nat) : Except LexError Token :=
  .ok ⟨kind, String.singleton c, some start⟩

def number (run rest : List Char) (start : Nat) : Except LexError Token :=
  let text := String.ofList run
  match rest with
  | c :: _ =>
    if c.isAlpha then
      .error ⟨.adjacency, String.ofList (run ++ rest.takeWhile isWordChar), some start⟩
    else spelled text
  | [] => spelled text
where
  spelled (text : String) : Except LexError Token :=
    if 1 < run.count '.' then .error ⟨.number LexError.onePoint, text, some start⟩
    else if (Decimal.float? text).any Float.isInf then
      .error ⟨.number LexError.tooLarge, text, some start⟩
    else .ok ⟨.number, text, some start⟩

def word (run : List Char) (start : Nat) : Except LexError Token :=
  let text := String.ofList run
  if run.any Char.isDigit then .error ⟨.name, text, some start⟩
  else .ok ⟨if text = rootName then .root else .name, text, some start⟩

/-- The token that starts with `c`, which is not blank; `rest` is the text behind `c`. -/
def token (c : Char) (rest : List Char) (start : Nat) : Except LexError Token :=
  if c.isDigit then
    number (c :: rest.takeWhile isNumberChar) (rest.dropWhile isNumberChar) start
  else if c.isAlpha then word (c :: rest.takeWhile isWordChar) start
  else if (Operator.ofChar? c).isSome then single .operator c start
  else if c = '(' then single .opening c start
  else if c = ')' then single .closing c start
  else .error ⟨.character, String.singleton c, some start⟩

def scan (start : Nat) : List Char → Except LexError (List Token)
  | [] => .ok []
  | c :: rest =>
    if Text.isBlank c then scan (start + 1) rest
    else match token c rest start with
      | .error e => .error e
      | .ok t =>
        match scan (start + t.text.length) (rest.drop (t.text.length - 1)) with
        | .error e => .error e
        | .ok ts => .ok (t :: ts)
termination_by chars => chars.length
decreasing_by all_goals (simp only [List.length_cons, List.length_drop]; omega)

end Lexer

def tokenize (formula : String) : Except LexError (List Token) :=
  Lexer.scan 0 formula.toList

end Reckon.Formula
