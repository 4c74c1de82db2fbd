import Reckon.Decimal.Binary
import Reckon.Text.Classes

/-!
Reading numerals. Blanks around a numeral are ignored, digits may be of any script, and
single underscores may stand between digits. The value is the float nearest to the
numeral; beyond the largest float it is infinite.
-/

namespace Reckon.Decimal

open Reckon.Text

def plainChar (c : Char) : Char :=
  if c.toNat < 127 then c
  else if isBlank c then ' '
  else match digitValue? c with
    | some value => Nat.digitChar value
    | none => c

/-- The text without underscores, each of which must stand between two digits. -/
def joinDigits : List Char → Option (List Char)
  | [] => some []
  | '_' :: _ => none
  | c :: '_' :: d :: rest =>
    if c.isDigit && d.isDigit then (joinDigits (d :: rest)).map (c :: ·) else none
  | c :: rest => (joinDigits rest).map (c :: ·)

def plainChars? (text : String) : Option (List Char) :=
  joinDigits (trim isAsciiBlank (text.toList.map plainChar))

def digitsValue (digits : List Char) : Nat :=
  digits.foldl (fun value c => 10 * value + (c.toNat - '0'.toNat)) 0

def natural? (digits : List Char) : Option Nat :=
  if digits ≠ [] ∧ digits.all Char.isDigit then some (digitsValue digits) else none

def splitSign : List Char → Bool × List Char
  | '-' :: rest => (true, rest)
  | '+' :: rest => (false, rest)
  | rest => (false, rest)

def integer? (digits : List Char) : Option Int :=
  let (negative, rest) := splitSign digits
  (natural? rest).map fun n => if negative then -(n : Int) else n

/-- The float nearest to `digits * 10 ^ exponent`. Numbers far out of range are told by
their number of digits, without raising ten to the exponent. -/
def nearest (digits : Nat) (exponent : Int) : Float :=
  let power := exponent + (Nat.toDigits 10 digits).length
  if digits = 0 ∨ power < -400 then 0
  else if 400 < power then 1 / 0
  else Float.ofScientific digits (exponent < 0) exponent.natAbs

def exponent? : List Char → Option Int
  | [] => some 0
  | c :: rest => if c = 'e' ∨ c = 'E' then integer? rest else none

def splitFraction : List Char → List Char × List Char
  | '.' :: rest => (rest.takeWhile Char.isDigit, rest.dropWhile Char.isDigit)
  | rest => ([], rest)

def magnitude? (chars : List Char) : Option Float :=
  let whole := chars.takeWhile Char.isDigit
  let (fraction, rest) := splitFraction (chars.dropWhile Char.isDigit)
  if whole.isEmpty && fraction.isEmpty then none
  else (exponent? rest).map fun exponent =>
    nearest (digitsValue (whole ++ fraction)) (exponent - fraction.length)

/-- A numeral, `inf`, `infinity` or `nan` in any case, each with or without a sign. -/
def float? (text : String) : Option Float := do
  let (negative, rest) := splitSign (← plainChars? text)
  let word := String.ofList (rest.map Char.toLower)
  let magnitude ←
    if word = "inf" ∨ word = "infinity" then some (1 / 0)
    else if word = "nan" then some (0 / 0)
    else magnitude? rest
  return if negative then -magnitude else magnitude

def maxDigits : Nat := 4300

inductive IntegerError where
  | malformed
  | tooLong (digits : Nat)
  deriving DecidableEq

def tooLongMessage (digits : Nat) : String :=
  s!"Exceeds the limit ({maxDigits} digits) for integer string conversion: value has {digits} digits; " ++
    "use sys.set_int_max_str_digits() to increase the limit"

def int (text : String) : Except IntegerError Int :=
  match plainChars? text with
  | none => .error .malformed
  | some chars =>
    let digits := (splitSign chars).2
    match integer? chars with
    | none => .error .malformed
    | some n => if maxDigits < digits.length then .error (.tooLong digits.length) else .ok n

def int? (text : String) : Option Int :=
  (int text).toOption

/-- From here on integers round beyond the largest float. -/
def tooLarge : Nat := Nat.pow 2 1024 - Nat.pow 2 970

def ofInt? (n : Int) : Option Float :=
  if n.natAbs < tooLarge then
    let magnitude := Float.ofScientific n.natAbs false 0
    some (if n < 0 then -magnitude else magnitude)
  else none

def truncated? (x : Float) : Option Int :=
  if x.isFinite then
    let (numerator, denominator) := (Binary.ofFloat x).quotient
    let magnitude : Int := (numerator / denominator : Nat)
    some (if isNegative x then -magnitude else magnitude)
  else none

/-! Whole numbers whose numerals may have a point, as in `1.0`. Other than numerals at large they
have ASCII digits only, and the bound on their length includes a minus sign. -/

/-- The text from its first digit that is not zero, or else from its last zero. It must
start with a digit; underscores may stand anywhere behind a zero. -/
def withoutLeadingZeros? (chars : List Char) : Option (List Char) :=
  let isZero (c : Char) : Bool := c == '0' || c == '_'
  let zeros := chars.takeWhile isZero
  let rest := chars.dropWhile isZero
  if chars.head? = some '_' then none
  else if rest.head?.any Char.isDigit then some rest
  else if zeros.getLast? = some '0' then some ('0' :: rest)
  else none

def withoutZeroFraction (chars : List Char) : List Char :=
  if ((chars.dropWhile (· ≠ '.')).drop 1).all (· = '0') then chars.takeWhile (· ≠ '.') else chars

/-- A whole number: a sign, digits with single underscores between them, and possibly a
point and zeros. White space around it is ignored. -/
def wholeNumeral? (text : String) : Option Int := do
  let (negative, chars) := splitSign (trim isWhiteSpace text.toList)
  let digits ← joinDigits (withoutZeroFraction (← withoutLeadingZeros? chars))
  let n ← natural? digits
  if maxDigits < digits.length + negative.toNat then none
  else some (if negative then -(n : Int) else n)

end Reckon.Decimal
