import Reckon.Json.Reader
import Reckon.Yaml.Scalar

/-!
Reading settings files. A file is a block: lines of a key and a value, lines of a dash and
an item, or one value alone. A key without a value on its line takes the block below it
that is indented further. A value on a line is a word, a quoted text, or a list or record
in brackets. Of several fields of one name the last counts, in the place of the first.
-/

namespace Reckon.Yaml

def skipSpaces (chars : List Char) : List Char :=
  chars.dropWhile (· = ' ')

def isVoid (chars : List Char) : Bool :=
  match skipSpaces chars with
  | [] => true
  | c :: _ => c = '#'

/-! ### Words and quoted texts -/

def flowMarks : List Char := [',', '[', ']', '\x7b', '\x7d']

def reservedMarks : List Char :=
  flowMarks ++ ['#', '&', '*', '!', '|', '>', '\'', '"', '%', '@', '\x60']

/-- A colon that ends a key: a space or nothing follows, or within brackets a mark. -/
def endsKey (inBrackets : Bool) : List Char → Bool
  | [] => true
  | c :: _ => c == ' ' || inBrackets && flowMarks.contains c

/-- The characters of a word and what follows them. A word ends in front of a colon that
ends a key, of a comment behind a space, and within brackets of a mark. -/
def splitWord (inBrackets : Bool) : List Char → List Char × List Char
  | [] => ([], [])
  | c :: rest =>
    if (c = ':' ∧ endsKey inBrackets rest) ∨ (c = ' ' ∧ rest.head? = some '#') ∨
        (inBrackets ∧ c ∈ flowMarks) then ([], c :: rest)
    else
      let (word, after) := splitWord inBrackets rest
      (c :: word, after)

/-- Whether a word can begin like this. A dash, colon or question mark needs a character
behind it. -/
def startsWord : List Char → Bool
  | [] => false
  | c :: rest =>
    if c = '-' ∨ c = ':' ∨ c = '?' then !endsKey false rest
    else c ≠ ' ' && !reservedMarks.contains c

def readWord (inBrackets : Bool) (chars : List Char) : Option (String × List Char) :=
  let (word, rest) := splitWord inBrackets chars
  if startsWord chars ∧ '\t' ∉ word then
    some (String.ofList (word.reverse.dropWhile (· = ' ')).reverse, rest)
  else none

def readSingle : List Char → Option (List Char × List Char)
  | '\'' :: '\'' :: rest => (readSingle rest).map fun (chars, rest) => ('\'' :: chars, rest)
  | '\'' :: rest => some ([], rest)
  | c :: rest => (readSingle rest).map fun (chars, rest) => (c :: chars, rest)
  | [] => none

def escapes : List (Char × Nat) := [
  ('0', 0), ('a', 7), ('b', 8), ('t', 9), ('n', 10), ('v', 11), ('f', 12), ('r', 13),
  ('e', 27), (' ', 32), ('"', 34), ('/', 47), ('\\', 92), ('N', 0x85), ('_', 0xa0),
  ('L', 0x2028), ('P', 0x2029)]

def hexWidths : List (Char × Nat) := [('x', 2), ('u', 4), ('U', 8)]

def hexNumber? (digits : List Char) : Option Nat :=
  digits.foldlM (fun value c => (Text.hexValue? c).map (16 * value + ·)) 0

def escaped? (letter : Char) (rest : List Char) : Option (Char × Nat) :=
  match escapes.lookup letter, hexWidths.lookup letter with
  | some code, _ => some (Char.ofNat code, 0)
  | none, some width =>
    if width ≤ rest.length then
      (hexNumber? (rest.take width)).map fun code => (Char.ofNat code, width)
    else none
  | none, none => none

def readDouble : List Char → Option (List Char × List Char)
  | [] => none
  | '"' :: rest => some ([], rest)
  | '\\' :: letter :: rest =>
    match escaped? letter rest with
    | some (c, width) =>
      (readDouble (rest.drop width)).map fun (chars, rest) => (c :: chars, rest)
    | none => none
  | c :: rest => (readDouble rest).map fun (chars, rest) => (c :: chars, rest)
termination_by chars => chars.length
decreasing_by all_goals (simp only [List.length_cons, List.length_drop]; omega)

def readScalar (inBrackets : Bool) (chars : List Char) : Option (Value × List Char) :=
  let text : List Char × List Char → Value × List Char := fun (s, rest) =>
    (.text (String.ofList s), rest)
  match chars with
  | '\'' :: rest => (readSingle rest).map text
  | '"' :: rest => (readDouble rest).map text
  | _ => (readWord inBrackets chars).map fun (word, rest) => (resolve word, rest)

/-- A key, which is not resolved, and what follows its colon. -/
def readKey (inBrackets : Bool) (chars : List Char) : Option (String × List Char) := do
  let (key, rest) ← match chars with
    | '\'' :: rest => (readSingle rest).map fun (s, rest) => (String.ofList s, rest)
    | '"' :: rest => (readDouble rest).map fun (s, rest) => (String.ofList s, rest)
    | _ => readWord inBrackets chars
  match skipSpaces rest with
  | ':' :: rest => if endsKey inBrackets rest then some (key, rest) else none
  | _ => none

/-! ### Values on one line -/

mutual

def readNode : Nat → List Char → Option (Value × List Char)
  | 0, _ => none
  | fuel + 1, chars =>
    match chars with
    | '[' :: rest =>
      (readItems fuel (skipSpaces rest)).map fun (items, rest) => (.list items, rest)
    | '\x7b' :: rest =>
      (readFields fuel (skipSpaces rest)).map fun (fields, rest) =>
        (.record (Entries.ofList fields), rest)
    | _ => readScalar true chars

def readItems : Nat → List Char → Option (List Value × List Char)
  | 0, _ => none
  | _, ']' :: rest => some ([], rest)
  | fuel + 1, chars => do
    let (item, rest) ← readNode fuel chars
    match skipSpaces rest with
    | ']' :: rest => some ([item], rest)
    | ',' :: rest =>
      let (items, rest) ← readItems fuel (skipSpaces rest)
      return (item :: items, rest)
    | _ => none

def readFields : Nat → List Char → Option (Fields × List Char)
  | 0, _ => none
  | _, '\x7d' :: rest => some ([], rest)
  | fuel + 1, chars => do
    let (name, rest) ← match readKey true chars with
      | some found => some found
      | none => readWord true chars
    let (value, rest) ← match skipSpaces rest with
      | ',' :: after => some (.null, ',' :: after)
      | '\x7d' :: after => some (.null, '\x7d' :: after)
      | rest => readNode fuel rest
    match skipSpaces rest with
    | '\x7d' :: rest => some ([(name, value)], rest)
    | ',' :: rest =>
      let (fields, rest) ← readFields fuel (skipSpaces rest)
      return ((name, value) :: fields, rest)
    | _ => none

end

def inline? (chars : List Char) : Option Value :=
  let chars := skipSpaces chars
  if isVoid chars then some .null
  else
    let read := match chars with
      | '[' :: _ | '\x7b' :: _ => readNode (2 * chars.length + 2) chars
      | _ => readScalar false chars
    read.bind fun (value, rest) => if isVoid rest then some value else none

/-! ### Blocks -/

structure Line where
  indent : Nat
  text : List Char

def Line.ofChars (chars : List Char) : Line :=
  ⟨(chars.takeWhile (· = ' ')).length, skipSpaces chars⟩

def Line.item? (line : Line) : Option (List Char) :=
  match line.text with
  | '-' :: rest => if endsKey false rest then some rest else none
  | _ => none

def Line.key? (line : Line) : Option (String × List Char) :=
  readKey false line.text

def pushChar (c : Char) (lines : List (List Char)) : List (List Char) :=
  match lines with
  | [] => if c = '\n' then [[], []] else [[c]]
  | line :: rest => if c = '\n' then [] :: lines else (c :: line) :: rest

def plainBreaks : List Char → List Char
  | '\r' :: '\n' :: rest => '\n' :: plainBreaks rest
  | c :: rest => (if c = '\r' then '\n' else c) :: plainBreaks rest
  | [] => []

def lines (text : List Char) : List Line :=
  ((plainBreaks text).foldr pushChar []).map Line.ofChars |>.filter fun line => !isVoid line.text

def isBelow (indent : Nat) (line : Line) : Bool :=
  indent < line.indent || indent == line.indent && line.item?.isSome

def sections : List Line → List (Line × List Line)
  | [] => []
  | line :: rest =>
    (line, rest.takeWhile (isBelow line.indent)) :: sections (rest.dropWhile (isBelow line.indent))
termination_by lines => lines.length
decreasing_by
  have shorter := (List.dropWhile_suffix (l := rest) (isBelow line.indent)).length_le
  simp only [List.length_cons]
  omega

def items? (indent : Nat) (lines : List Line) : Option (List Value) :=
  lines.mapM fun line => if line.indent = indent then line.item?.bind inline? else none

/-- The value of a block; `depth` bounds how deep blocks may stand within blocks. -/
def block? : Nat → List Line → Option Value
  | 0, _ => none
  | _, [] => some .null
  | depth + 1, first :: rest =>
    let field? (line : Line) (below : List Line) : Option (String × Value) :=
      if line.indent ≠ first.indent then none
      else do
        let (key, text) ← line.key?
        let value ←
          if below.isEmpty then inline? text
          else if isVoid text then block? depth below
          else none
        return (key, value)
    if first.item?.isSome then (items? first.indent (first :: rest)).map .list
    else if first.key?.isSome then do
      let fields ← (sections (first :: rest)).mapM fun (line, below) => field? line below
      return .record (Entries.ofList fields)
    else if rest.isEmpty then inline? first.text
    else none

def read? (text : String) : Option Value :=
  let lines := lines text.toList
  block? (lines.length + 1) lines

end Reckon.Yaml
