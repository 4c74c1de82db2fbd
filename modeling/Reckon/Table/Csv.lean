import Reckon.Decimal.Numeral
import Reckon.Decimal.Style
import Reckon.Table.Frame
import Reckon.Text.Classes
import Reckon.Value.Shown

/-!
Tables as lines of cells separated by commas. The first line names the columns. A cell
that holds a comma, a quote or a line break stands in double quotes, and so does an empty
text; a cell with nothing in it is missing. Quotes do not tell texts from numbers: the
type of a column depends on what stands between them.
-/

namespace Reckon.Table.Csv

/-! ### Cells -/

/-- A cell as it stands in the text, with the quotes around it. -/
structure Cell where
  chars : List Char
  deriving DecidableEq

/-- Of two quotes in a row one stays, and a quote alone is dropped. -/
def unescaped : List Char → List Char
  | '"' :: '"' :: rest => '"' :: unescaped rest
  | '"' :: rest => unescaped rest
  | c :: rest => c :: unescaped rest
  | [] => []

namespace Cell

def isMissing (c : Cell) : Bool :=
  c.chars.isEmpty

def isQuoted (c : Cell) : Bool :=
  c.chars.head? == some '"'

def content (c : Cell) : List Char :=
  if c.isQuoted then (c.chars.drop 1).dropLast else c.chars

def text (c : Cell) : String :=
  String.ofList (if c.isQuoted then unescaped c.content else c.chars)

/-- The cell at the end of a line, without a carriage return behind it. -/
def atEnd (c : Cell) : Cell :=
  if c.chars.getLast? = some '\r' then ⟨c.chars.dropLast⟩ else c

end Cell

/-! ### Lines -/

/-- What has been read: lines, the cells of the current line and the characters of the
current cell, each the last one first. -/
structure Reader where
  lines : List (List Cell) := []
  cells : List Cell := []
  chars : List Char := []
  /-- The current cell starts with a quote. -/
  isQuoted : Bool := false
  /-- The quotes of a cell that starts with one do not pair up yet. -/
  isOpen : Bool := false

namespace Reader

def endCell (r : Reader) : Reader :=
  { r with
    cells := ⟨r.chars.reverse⟩ :: r.cells
    chars := []
    isQuoted := false
    isOpen := false }

def endLine (r : Reader) : Reader :=
  let cells := match r.endCell.cells with
    | last :: others => last.atEnd :: others
    | [] => []
  { lines := cells.reverse :: r.lines }

def push (r : Reader) (c : Char) : Reader :=
  let isQuoted := r.isQuoted || (c == '"' && r.chars.isEmpty)
  { r with
    chars := c :: r.chars
    isQuoted
    isOpen := isQuoted && xor r.isOpen (c == '"') }

def step (r : Reader) (c : Char) : Reader :=
  if r.isOpen then r.push c
  else if c = ',' then r.endCell
  else if c = '\n' then r.endLine
  else r.push c

def finish (r : Reader) : List (List Cell) :=
  let r := if r.cells.isEmpty && r.chars.isEmpty then r else r.endLine
  r.lines.reverse

end Reader

def lines (text : List Char) : List (List Cell) :=
  (text.foldl Reader.step {}).finish

/-- The number of lines, if a line ends wherever the quotes in front of it pair up. -/
def countLines (text : List Char) : Nat :=
  go false false text
where
  /-- Within a pair of quotes or not, behind the start of a line or not. -/
  go (inQuotes started : Bool) : List Char → Nat
    | [] => started.toNat
    | c :: rest =>
      if c = '\n' ∧ !inQuotes then go false false rest + 1
      else go (xor inQuotes (c == '"')) true rest

def isEmptyLine (line : List Cell) : Bool :=
  match line with
  | [only] => only.isMissing
  | _ => false

/-! ### Types -/

/-- A digit of any script. Numbers with other digits than ASCII are malformed, not texts. -/
def isDigit (c : Char) : Bool :=
  (Text.digitValue? c).isSome

def areDigits (chars : List Char) : Bool :=
  !chars.isEmpty && chars.all isDigit

def isInteger (chars : List Char) : Bool :=
  match chars.dropWhile Text.isWhiteSpace with
  | '-' :: rest => areDigits rest
  | rest => areDigits rest

def isExponent : List Char → Bool
  | [] => false
  | c :: rest => (c == 'e' || c == 'E') && areDigits (Decimal.splitSign rest).2

/-- A number with a point or an exponent, with or without a sign, or one that is not
finite. There is no exponent directly behind a point. -/
def isDecimal (chars : List Char) : Bool :=
  let unsigned := (Decimal.splitSign chars).2
  let whole := unsigned.takeWhile isDigit
  match unsigned.dropWhile isDigit with
  | '.' :: rest =>
    let fraction := rest.takeWhile isDigit
    let exponent := rest.dropWhile isDigit
    if fraction.isEmpty then !whole.isEmpty && exponent.isEmpty
    else exponent.isEmpty || isExponent exponent
  | rest =>
    !whole.isEmpty && isExponent rest || unsigned == "inf".toList || unsigned == "NaN".toList

def isNumber (chars : List Char) : Bool :=
  isInteger chars || isDecimal chars

def truth? (chars : List Char) : Option Bool :=
  let word := String.ofList (chars.map Char.toLower)
  if word = "true" then some true
  else if word = "false" then some false
  else none

def ascii? (chars : List Char) : Option (List Char) :=
  let unpadded := chars.dropWhile fun c => c == ' ' || c == '\t'
  if unpadded.all fun c => '!' ≤ c ∧ c ≤ '~' then some unpadded else none

def integer? (bits : Nat) (chars : List Char) : Option Int := do
  let n ← Decimal.integer? (← ascii? chars)
  if -(Nat.pow 2 (bits - 1) : Int) ≤ n ∧ n < Nat.pow 2 (bits - 1) then some n else none

def float? (chars : List Char) : Option Float := do
  let digits ← ascii? chars
  if isNumber digits then Decimal.float? (String.ofList digits) else none

/-! ### Columns -/

def convert {α : Type} (read? : List Char → Option α) : List Cell → Except ContentError (List (Option α))
  | [] => .ok []
  | cell :: rest => do
    let values ← convert read? rest
    if cell.isMissing then return none :: values
    else match read? cell.content with
      | some value => return some value :: values
      | none => throw .malformed

def texts (column : List Cell) : List (Option String) :=
  column.map fun cell => if cell.isMissing then none else some cell.text

def sampleSize : Nat := 100

/-- The cells of a column in the narrowest type that holds those of its first lines. If
these are missing they are texts. -/
def typed (column : List Cell) : Except ContentError Cells :=
  let present := (column.take sampleSize).filter fun cell => !cell.isMissing
  let sample := present.map Cell.content
  if sample.isEmpty then .ok (.texts (texts column))
  else if sample.all isInteger then
    let bits := if sample.all fun chars => (integer? 64 chars).isSome then 64 else 128
    (convert (integer? bits) column).map .ints
  else if sample.all isNumber then (convert float? column).map .floats
  else if sample.all fun chars => (truth? chars).isSome then (convert truth? column).map .bools
  else .ok (.texts (texts column))

def distinctNames (seen : List String) : List String → List String
  | [] => []
  | name :: rest =>
    let count := seen.count name
    let distinct := if count = 0 then name else s!"{name}_duplicated_{count - 1}"
    distinct :: distinctNames (name :: seen) rest

/-- The columns with the given names, from the cells of each line. A line with too few
cells ends in missing ones. -/
def columns : List String → List (List Cell) → Except ContentError Frame
  | [], _ => .ok []
  | name :: names, lines => do
    let cells ← typed (lines.map fun line => line.headD ⟨[]⟩)
    return ⟨name, cells⟩ :: (← columns names (lines.map List.tail))

def withoutMark : List Char → List Char
  | c :: rest => if c = '\ufeff' then rest else c :: rest
  | [] => []

/-- The table that a text holds. Empty lines in front of the names do not count; empty
lines behind them are rows of missing cells. -/
def read (text : String) : Except ContentError Frame :=
  let chars := withoutMark text.toList
  let found := lines chars
  match found.dropWhile isEmptyLine with
  | [] => .error .empty
  | header :: rows =>
    let names := distinctNames [] (header.map fun cell => String.ofList cell.content)
    if found.length ≠ countLines chars then .error .malformed
    else if rows.any fun row => names.length < row.length then .error .malformed
    else columns names rows

/-! ### Writing -/

def escaped (s : String) : String :=
  let chars := s.toList
  if chars.isEmpty || chars.any fun c => c = ',' ∨ c = '"' ∨ c = '\n' ∨ c = '\r' then
    String.ofList ('"' :: chars.flatMap (fun c => if c = '"' then ['"', '"'] else [c]) ++ ['"'])
  else s

def cellText : Option Value → String
  | none => ""
  | some (.text s) => escaped s
  | some (.int n) => toString n
  | some (.float x) => Decimal.terse.text x
  | some (.bool b) => if b then "true" else "false"
  | some value => escaped value.plain

def transpose (height : Nat) (columns : List (List String)) : List (List String) :=
  columns.foldr (fun column lines => List.zipWith List.cons column lines) (List.replicate height [])

def write (frame : Frame) : String :=
  let header := frame.names.map escaped
  let body := transpose frame.height (frame.map fun c => c.cells.values.map cellText)
  String.join ((header :: body).map fun line => ",".intercalate line ++ "\n")

end Reckon.Table.Csv
