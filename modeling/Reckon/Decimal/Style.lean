import Reckon.Decimal.Shortest

/-!
How the digits of a float are laid out. The decisions are the fields of one record; the
record `plain` is the one in which this library shows every float, and `terse` the one of
tables in files. With a fixed number of decimal places the rounding is exact on the binary value,
and a half goes to the even neighbour.
-/

namespace Reckon.Decimal

/-! ### Fixed places -/

/-- The natural nearest to `numerator / denominator`; a half goes to the even neighbour. -/
def roundQuotient (numerator denominator : Nat) : Nat :=
  let floor := numerator / denominator
  match compare (2 * (numerator % denominator)) denominator with
  | .lt => floor
  | .gt => floor + 1
  | .eq => if floor % 2 = 0 then floor else floor + 1

def paddedDigits (width n : Nat) : List Char :=
  let digits := Nat.toDigits 10 n
  List.replicate (width - digits.length) '0' ++ digits

def fixedDigits (places n : Nat) : List Char :=
  let digits := paddedDigits (places + 1) n
  let whole := digits.take (digits.length - places)
  if places = 0 then whole else whole ++ '.' :: digits.drop (digits.length - places)

/-- A float with `places` decimal places. The sign of a result that rounds to zero stays. -/
def fixed (places : Nat) (x : Float) : String :=
  let sign := if isNegative x then "-" else ""
  if x.isNaN then "nan"
  else if x.isInf then sign ++ "inf"
  else
    let (numerator, denominator) := (Binary.ofFloat x).quotient
    let scaled := roundQuotient (numerator * Nat.pow 10 places) denominator
    sign ++ String.ofList (fixedDigits places scaled)

/-! ### Styles -/

structure Style where
  /-- Values from `10 ^ leastPositional` are written without an exponent ... -/
  leastPositional : Int
  /-- ... as long as they are below `10 ^ firstScientific`. -/
  firstScientific : Int
  /-- What follows the digits of a whole number. -/
  wholeSuffix : String
  /-- The sign of an exponent that is not negative. -/
  plusSign : String
  /-- The least number of digits of an exponent. -/
  exponentWidth : Nat
  nanText : String
  infinityText : String

/-- The fewest digits that identify the float; positional from `0.0001` up to `1e+16`,
whole numbers with `.0`, exponents with a sign and at least two digits. -/
def plain : Style := ⟨-4, 16, ".0", "+", 2, "nan", "inf"⟩

/-- The fewest digits, positional from `0.00001` up to `1e16`, whole numbers with `.0`,
exponents without needless characters. -/
def terse : Style := ⟨-5, 16, ".0", "", 1, "NaN", "inf"⟩

namespace Style

def positional (style : Style) (digits : List Char) (place : Int) : List Char :=
  if place ≤ 0 then
    '0' :: '.' :: List.replicate (-place).toNat '0' ++ digits
  else if digits.length ≤ place.toNat then
    digits ++ List.replicate (place.toNat - digits.length) '0' ++ style.wholeSuffix.toList
  else
    digits.take place.toNat ++ '.' :: digits.drop place.toNat

def scientific (style : Style) (digits : List Char) (power : Int) : List Char :=
  let mantissa := match digits with
    | first :: second :: rest => first :: '.' :: second :: rest
    | short => short
  let sign := if power < 0 then ['-'] else style.plusSign.toList
  mantissa ++ 'e' :: (sign ++ paddedDigits style.exponentWidth power.natAbs)

/-- The text of a magnitude. Its leading digit stands at `10 ^ power`. -/
def magnitude (style : Style) (d : Scaled) : List Char :=
  let digits := Nat.toDigits 10 d.digits
  if d.digits = 0 then style.positional digits 1
  else
    let power := d.exponent + digits.length - 1
    if style.leastPositional ≤ power ∧ power < style.firstScientific then
      style.positional digits (power + 1)
    else style.scientific digits power

def text (style : Style) (x : Float) : String :=
  let sign := if isNegative x then "-" else ""
  if x.isNaN then style.nanText
  else if x.isInf then sign ++ style.infinityText
  else sign ++ String.ofList (style.magnitude (Binary.ofFloat x).shortest)

end Style

def text (x : Float) : String :=
  plain.text x

end Reckon.Decimal
