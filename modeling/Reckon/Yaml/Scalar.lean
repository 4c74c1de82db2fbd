import Reckon.Decimal.Numeral
import Reckon.Text.Classes
import Reckon.Value.Basic

/-!
What a plain word of a settings file stands for. Words of a few spellings are nothing or
truth values, numerals are numbers, and every other word is a text. Numerals may be binary,
octal or hexadecimal, and may have places of sixty between colons.
-/

namespace Reckon.Yaml

def nullWords : List String := ["", "~", "null", "Null", "NULL"]

def trueWords : List String :=
  ["yes", "Yes", "YES", "true", "True", "TRUE", "on", "On", "ON"]

def falseWords : List String :=
  ["no", "No", "NO", "false", "False", "FALSE", "off", "Off", "OFF"]

def infinityWords : List String := [".inf", ".Inf", ".INF"]

def nanWords : List String := [".nan", ".NaN", ".NAN"]

def isDigitChar (c : Char) : Bool :=
  c.isDigit || c == '_'

def isDigits : List Char → Bool
  | [] => false
  | c :: rest => c.isDigit && rest.all isDigitChar

/-- A decimal integer has no zero in front, unless it is zero. -/
def isInteger (chars : List Char) : Bool :=
  chars == ['0'] || (isDigits chars && chars.head? != some '0')

/-- An exponent is left out, or has a sign and digits. -/
def isExponent : List Char → Bool
  | [] => true
  | e :: s :: digits =>
    (e == 'e' || e == 'E') && (s == '+' || s == '-') && !digits.isEmpty &&
      digits.all Char.isDigit
  | _ => false

def isDecimal (chars : List Char) : Bool :=
  let whole := chars.takeWhile isDigitChar
  match chars.dropWhile isDigitChar with
  | '.' :: rest =>
    let fraction := rest.takeWhile isDigitChar
    let leads := if whole.isEmpty then isDigits fraction else isDigits whole
    leads && isExponent (rest.dropWhile isDigitChar)
  | _ => false

def valueIn? (base : Nat) (chars : List Char) : Option Nat :=
  let digits := chars.filter (· ≠ '_')
  if digits.isEmpty then none
  else digits.foldlM (fun value c =>
    ((Text.hexValue? c).filter (· < base)).map (base * value + ·)) 0

/-! ### Places of sixty -/

def parts : List Char → List (List Char)
  | [] => [[]]
  | c :: rest =>
    match parts rest with
    | part :: others => if c = ':' then [] :: part :: others else (c :: part) :: others
    | [] => [[c]]

def isSixtieth (chars : List Char) : Bool :=
  !chars.isEmpty && chars.length ≤ 2 && chars.all Char.isDigit && Decimal.digitsValue chars < 60

/-- A number whose places count sixty of the next ones. -/
def sexagesimal? (chars : List Char) : Option Nat :=
  match parts chars with
  | first :: second :: others =>
    if isDigits first ∧ first.head? ≠ some '0' ∧ (second :: others).all isSixtieth then
      some ((second :: others).foldl (fun value part => 60 * value + Decimal.digitsValue part)
        (Decimal.digitsValue (first.filter (· ≠ '_'))))
    else none
  | _ => none

def sexagesimalSum (places : List Float) : Float :=
  (places.foldl (fun (sum, weight) place => (sum + place * weight, weight * 60)) (0.0, 1.0)).1

def sexagesimalFloat? (chars : List Char) : Option Float :=
  match parts chars with
  | first :: second :: others =>
    let places := (second :: others).map fun part => part.takeWhile (· ≠ '.')
    let fraction := chars.dropWhile (· ≠ '.')
    if isDigits first ∧ places.all isSixtieth ∧ (fraction.drop 1).all isDigitChar ∧
        !fraction.isEmpty then
      ((first :: second :: others).reverse.mapM fun part =>
        Decimal.float? (String.ofList (part.filter (· ≠ '_')))).map sexagesimalSum
    else none
  | _ => none

/-! ### Words -/

def integer? (chars : List Char) : Option Nat :=
  match chars with
  | '0' :: 'b' :: digits => valueIn? 2 digits
  | '0' :: 'x' :: digits => valueIn? 16 digits
  | '0' :: _ => valueIn? 8 chars
  | _ => if isInteger chars then valueIn? 10 chars else sexagesimal? chars

/-- The number that a word spells. A point can come first only without a sign. -/
def number? (word : String) : Option Value :=
  let chars := word.toList
  let (negative, rest) := Decimal.splitSign chars
  let digits := rest.filter (· ≠ '_')
  let signed (x : Float) : Value := .float (if negative then -x else x)
  if let some n := integer? rest then
    some (.int (if negative then -(n : Int) else n))
  else if isDecimal rest ∧ (rest.head? ≠ some '.' ∨ rest = chars) then
    (Decimal.float? (String.ofList digits)).map signed
  else if let some x := sexagesimalFloat? rest then some (signed x)
  else if String.ofList rest ∈ infinityWords then
    some (signed (1 / 0))
  else if word ∈ nanWords then some (.float (0 / 0))
  else none

def resolve (word : String) : Value :=
  if word ∈ nullWords then .null
  else if word ∈ trueWords then .bool true
  else if word ∈ falseWords then .bool false
  else (number? word).getD (.text word)

end Reckon.Yaml
