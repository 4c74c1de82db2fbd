import Reckon.Text.Shown

/-!
Quoted text, as it stands in messages. Single quotes are used, or double quotes for a
text that holds a single quote and no double quote; what would not be seen is escaped.
-/

namespace Reckon.Text

def hex : Nat → Nat → List Char
  | 0, _ => []
  | width + 1, n => hex width (n / 16) ++ [Nat.digitChar (n % 16)]

def escapeChar (quote c : Char) : List Char :=
  if c = quote ∨ c = '\\' then ['\\', c]
  else if c = '\n' then ['\\', 'n']
  else if c = '\r' then ['\\', 'r']
  else if c = '\t' then ['\\', 't']
  else if isShown c then [c]
  else if c.val < 0x100 then '\\' :: 'x' :: hex 2 c.toNat
  else if c.val < 0x10000 then '\\' :: 'u' :: hex 4 c.toNat
  else '\\' :: 'U' :: hex 8 c.toNat

def quoteMark (s : List Char) : Char :=
  if s.contains '\'' && !s.contains '"' then '"' else '\''

def quotedChars (s : List Char) : List Char :=
  let quote := quoteMark s
  quote :: s.flatMap (escapeChar quote) ++ [quote]

def quoted (s : String) : String :=
  String.ofList (quotedChars s.toList)

def quotedList (texts : List String) : String :=
  "[" ++ ", ".intercalate (texts.map quoted) ++ "]"

end Reckon.Text
