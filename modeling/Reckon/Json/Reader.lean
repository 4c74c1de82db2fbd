import Reckon.Decimal.Numeral
import Reckon.Limits
import Reckon.Value.Basic

/-!
Reading JSON text. Beyond the standard, `NaN` and the infinities are numbers. Of several
fields of one name the last counts, in the place of the first.
-/

namespace Reckon.Json

def isSpace (c : Char) : Bool :=
  c == ' ' || c == '\t' || c == '\n' || c == '\r'

def skipSpace (chars : List Char) : List Char :=
  chars.dropWhile isSpace

def unit? : List Char → Option (Nat × List Char)
  | a :: b :: c :: d :: rest => do
    return (((← Text.hexValue? a) * 16 + (← Text.hexValue? b)) * 256 +
      (← Text.hexValue? c) * 16 + (← Text.hexValue? d), rest)
  | _ => none

def isHighUnit (unit : Nat) : Bool :=
  0xd800 ≤ unit && unit < 0xdc00

def isLowUnit (unit : Nat) : Bool :=
  0xdc00 ≤ unit && unit < 0xe000

/-- The character of a unit. Half of a pair stands for no character and is replaced. -/
def unitChar (unit : Nat) : Char :=
  if isHighUnit unit || isLowUnit unit then '\ufffd' else Char.ofNat unit

def unitsChar (unit : Nat) (rest : List Char) : Char × List Char :=
  match rest with
  | '\\' :: 'u' :: more =>
    match unit? more with
    | some (second, after) =>
      if isHighUnit unit && isLowUnit second then
        (Char.ofNat (0x10000 + (unit - 0xd800) * 0x400 + (second - 0xdc00)), after)
      else (unitChar unit, rest)
    | none => (unitChar unit, rest)
  | _ => (unitChar unit, rest)

def escaped? : Char → Option Char
  | '"' => some '"'
  | '\\' => some '\\'
  | '/' => some '/'
  | 'b' => some (Char.ofNat 8)
  | 'f' => some (Char.ofNat 12)
  | 'n' => some '\n'
  | 'r' => some '\r'
  | 't' => some '\t'
  | _ => none

/-- The characters up to the closing quote. Control characters must be escaped. -/
def readString : Nat → List Char → Option (List Char × List Char)
  | 0, _ => none
  | _, [] => none
  | _ + 1, '"' :: rest => some ([], rest)
  | fuel + 1, '\\' :: 'u' :: rest => do
    let (unit, rest) ← unit? rest
    let (c, rest) := unitsChar unit rest
    let (chars, rest) ← readString fuel rest
    return (c :: chars, rest)
  | fuel + 1, '\\' :: c :: rest => do
    let c ← escaped? c
    let (chars, rest) ← readString fuel rest
    return (c :: chars, rest)
  | fuel + 1, c :: rest =>
    if c.val < 0x20 ∨ c = '\\' then none
    else (readString fuel rest).map fun (chars, rest) => (c :: chars, rest)

/-- The digits of a whole part: a lone zero, or digits that do not start with one. -/
def wholeDigits : List Char → Option (List Char × List Char)
  | '0' :: rest => some (['0'], rest)
  | chars =>
    let digits := chars.takeWhile Char.isDigit
    if digits.isEmpty then none else some (digits, chars.dropWhile Char.isDigit)

def fractionDigits (chars : List Char) : List Char × List Char :=
  match chars with
  | '.' :: rest =>
    let digits := rest.takeWhile Char.isDigit
    if digits.isEmpty then ([], chars) else (digits, rest.dropWhile Char.isDigit)
  | _ => ([], chars)

def exponentPart (chars : List Char) : Option Int × List Char :=
  match chars with
  | c :: rest =>
    let (negative, digits) := Decimal.splitSign rest
    let run := digits.takeWhile Char.isDigit
    if (c = 'e' ∨ c = 'E') ∧ run ≠ [] then
      let power : Int := Decimal.digitsValue run
      (some (if negative then -power else power), digits.dropWhile Char.isDigit)
    else (none, chars)
  | [] => (none, chars)

inductive Error where
  | malformed
  /-- An integer has too many digits. -/
  | tooLong (digits : Nat)
  /-- Too many brackets are open. -/
  | tooDeep
  deriving DecidableEq

def found {α : Type} : Option α → Except Error α
  | some result => .ok result
  | none => .error .malformed

def readMagnitude (negative : Bool) (chars : List Char) : Except Error (Value × List Char) := do
  let (whole, rest) ← found (wholeDigits chars)
  let (fraction, rest) := fractionDigits rest
  let (exponent, rest) := exponentPart rest
  if fraction.isEmpty && exponent.isNone then
    let n : Int := Decimal.digitsValue whole
    if Decimal.maxDigits < whole.length then throw (.tooLong whole.length)
    else return (.int (if negative then -n else n), rest)
  else
    let x := Decimal.nearest (Decimal.digitsValue (whole ++ fraction))
      (exponent.getD 0 - fraction.length)
    return (.float (if negative then -x else x), rest)

def afterWord (word : String) (chars : List Char) : Option (List Char) :=
  if word.toList.isPrefixOf chars then some (chars.drop word.length) else none

def readScalar (chars : List Char) : Except Error (Value × List Char) :=
  let words : List (String × Value) :=
    [("null", .null), ("true", .bool true), ("false", .bool false), ("NaN", .float (0 / 0)),
      ("Infinity", .float (1 / 0)), ("-Infinity", .float (-1 / 0))]
  match words.findSome? fun (word, value) => (afterWord word chars).map (value, ·) with
  | some word => .ok word
  | none =>
    match chars with
    | '"' :: rest =>
      (found (readString (rest.length + 1) rest)).map fun (s, rest) =>
        (.text (String.ofList s), rest)
    | '-' :: rest => readMagnitude true rest
    | _ => readMagnitude false chars

mutual

/-- The value at the start of a text, with room for so many open brackets. -/
def readValue (room : Nat) : Nat → List Char → Except Error (Value × List Char)
  | 0, _ => .error .malformed
  | fuel + 1, chars =>
    match chars, room with
    | '[' :: _, 0 => .error .tooDeep
    | '\x7b' :: _, 0 => .error .tooDeep
    | '[' :: rest, room + 1 =>
      match skipSpace rest with
      | ']' :: rest => .ok (.list [], rest)
      | rest => (readItems room fuel rest).map fun (items, rest) => (.list items, rest)
    | '\x7b' :: rest, room + 1 =>
      match skipSpace rest with
      | '\x7d' :: rest => .ok (.record [], rest)
      | rest =>
        (readFields room fuel rest).map fun (fields, rest) => (.record (Entries.ofList fields), rest)
    | _, _ => readScalar chars

def readItems (room : Nat) : Nat → List Char → Except Error (List Value × List Char)
  | 0, _ => .error .malformed
  | fuel + 1, chars => do
    let (item, rest) ← readValue room fuel chars
    match skipSpace rest with
    | ']' :: rest => return ([item], rest)
    | ',' :: rest =>
      let (items, rest) ← readItems room fuel (skipSpace rest)
      return (item :: items, rest)
    | _ => throw .malformed

def readFields (room : Nat) : Nat → List Char → Except Error (Fields × List Char)
  | 0, _ => .error .malformed
  | fuel + 1, '"' :: chars => do
    let (name, rest) ← found (readString (chars.length + 1) chars)
    match skipSpace rest with
    | ':' :: rest =>
      let (value, rest) ← readValue room fuel (skipSpace rest)
      match skipSpace rest with
      | '\x7d' :: rest => return ([(String.ofList name, value)], rest)
      | ',' :: rest =>
        let (fields, rest) ← readFields room fuel (skipSpace rest)
        return ((String.ofList name, value) :: fields, rest)
      | _ => throw .malformed
    | _ => throw .malformed
  | _ + 1, _ => .error .malformed

end

def read [Limits] (chars : List Char) : Except Error Value := do
  let (value, rest) ← readValue Limits.opened (2 * chars.length + 2) (skipSpace chars)
  if (skipSpace rest).isEmpty then return value else throw .malformed

end Reckon.Json
