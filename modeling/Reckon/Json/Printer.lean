import Reckon.Value.Basic
import Reckon.Decimal.Style
import Reckon.Text.Quoted

/-!
Values as JSON text in ASCII. Other characters are escaped by their 16-bit units. On one
line, items are separated by `", "`; laid out, each stands on its own line, two spaces
deeper than the bracket.
-/

namespace Reckon.Json

open Reckon.Text

def units (c : Char) : List Nat :=
  if c.toNat < 0x10000 then [c.toNat]
  else [0xd800 + (c.toNat - 0x10000) / 0x400, 0xdc00 + (c.toNat - 0x10000) % 0x400]

def escapeChar (c : Char) : List Char :=
  if c = '"' then ['\\', '"']
  else if c = '\\' then ['\\', '\\']
  else if c = '\n' then ['\\', 'n']
  else if c = '\r' then ['\\', 'r']
  else if c = '\t' then ['\\', 't']
  else if c.val = 8 then ['\\', 'b']
  else if c.val = 12 then ['\\', 'f']
  else if 0x20 ≤ c.val ∧ c.val < 0x7f then [c]
  else (units c).flatMap fun unit => '\\' :: 'u' :: hex 4 unit

def stringText (s : String) : String :=
  String.ofList ('"' :: s.toList.flatMap escapeChar ++ ['"'])

def floatText (x : Float) : String :=
  if x.isNaN then "NaN"
  else if x.isInf then (if Decimal.isNegative x then "-Infinity" else "Infinity")
  else Decimal.text x

def scalarText : Value → String
  | .bool b => if b then "true" else "false"
  | .int n => toString n
  | .float x => floatText x
  | .text s => stringText s
  | .other o => stringText o.text
  | _ => "null"

mutual

def compact : Value → String
  | .list items => "[" ++ ", ".intercalate (compactItems items) ++ "]"
  | .record fields => "\x7b" ++ ", ".intercalate (compactFields fields) ++ "\x7d"
  | value => scalarText value

def compactItems : List Value → List String
  | [] => []
  | item :: rest => compact item :: compactItems rest

def compactFields : List (String × Value) → List String
  | [] => []
  | (name, value) :: rest => (stringText name ++ ": " ++ compact value) :: compactFields rest

end

def block (opening closing : String) (depth : Nat) (lines : List String) : String :=
  let newline (steps : Nat) := String.ofList ('\n' :: List.replicate (2 * steps) ' ')
  if lines.isEmpty then opening ++ closing
  else opening ++ newline (depth + 1) ++ ("," ++ newline (depth + 1)).intercalate lines ++
    newline depth ++ closing

mutual

def laidOut (depth : Nat) : Value → String
  | .list items => block "[" "]" depth (laidOutItems (depth + 1) items)
  | .record fields => block "\x7b" "\x7d" depth (laidOutFields (depth + 1) fields)
  | value => scalarText value

def laidOutItems (depth : Nat) : List Value → List String
  | [] => []
  | item :: rest => laidOut depth item :: laidOutItems depth rest

def laidOutFields (depth : Nat) : List (String × Value) → List String
  | [] => []
  | (name, value) :: rest =>
    (stringText name ++ ": " ++ laidOut depth value) :: laidOutFields depth rest

end

def insertField (field : String × Value) : Fields → Fields
  | [] => [field]
  | other :: rest =>
    if field.1 ≤ other.1 then field :: other :: rest else other :: insertField field rest

mutual

def sorted : Value → Value
  | .list items => .list (sortedItems items)
  | .record fields => .record (sortedFields fields)
  | value => value

def sortedItems : List Value → List Value
  | [] => []
  | item :: rest => sorted item :: sortedItems rest

def sortedFields : List (String × Value) → List (String × Value)
  | [] => []
  | (name, value) :: rest => insertField (name, sorted value) (sortedFields rest)

end

end Reckon.Json
