import Reckon.Limits

/-!
Paths, from the working directory or from the root. A path keeps its steps upwards when it
is printed; the place that it leads to does without them where it can. A path leads there only
through folders, those that it steps up from included.
-/

namespace Reckon.Store

structure Path where
  isAbsolute : Bool
  parts : List String
  deriving DecidableEq

/-- The names on the way to a file or folder, from the working directory or from the
root, which is named by a slash. -/
abbrev Place := List String

namespace Path

def splitSlash : List Char → List (List Char)
  | [] => [[]]
  | c :: rest =>
    if c = '/' then [] :: splitSlash rest
    else match splitSlash rest with
      | [] => [[c]]
      | part :: parts => (c :: part) :: parts

/-- Empty parts and single points do not count. -/
def ofText (text : String) : Path :=
  ⟨text.startsWith "/",
    (splitSlash text.toList).map String.ofList |>.filter fun part => part ≠ "" ∧ part ≠ "."⟩

def current : Path := ⟨false, []⟩

def text (p : Path) : String :=
  if p.isAbsolute then "/" ++ "/".intercalate p.parts
  else if p.parts.isEmpty then "."
  else "/".intercalate p.parts

def child (p : Path) (name : String) : Path :=
  { p with parts := p.parts ++ [name] }

/-- The place above. There is none above the root. -/
def up (place : Place) : Place :=
  if place = ["/"] then place
  else match place.getLast? with
    | some name => if name = ".." then place ++ [".."] else place.dropLast
    | none => [".."]

def step (place : Place) (part : String) : Place :=
  if part = ".." then up place else place ++ [part]

def start (p : Path) : Place :=
  if p.isAbsolute then ["/"] else []

def place (p : Path) : Place :=
  p.parts.foldl step p.start

def throughFrom (here : Place) : List String → List Place
  | [] => []
  | part :: rest => here :: throughFrom (step here part) rest

/-- The places that a path leads through. -/
def through (p : Path) : List Place :=
  throughFrom p.start p.parts

def visited (p : Path) : List Place :=
  p.through ++ [p.place]

def upTo (p : Path) (count : Nat) : Path :=
  { p with parts := p.parts.take count }

/-- The bytes of some names, each with a slash. -/
def span : List String → Nat
  | [] => 0
  | part :: rest => part.utf8ByteSize + 1 + span rest

/-- The bytes of the text of a path that has parts. -/
def size (p : Path) : Nat :=
  span p.parts + p.isAbsolute.toNat - 1

def ofPlace : Place → Path
  | "/" :: parts => ⟨true, parts⟩
  | parts => ⟨false, parts⟩

def parent (p : Path) : Path :=
  { p with parts := p.parts.dropLast }

end Path

end Reckon.Store
