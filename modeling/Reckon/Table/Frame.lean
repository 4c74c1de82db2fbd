import Reckon.Value.Basic

/-!
Tables by columns. All cells of a column are of one type, and each may be missing; columns of types
that no formula makes are carried along. Columns keep their order; a new column takes the place of
one of the same name, or comes last.
-/

namespace Reckon.Table

inductive Cells where
  | floats (cells : List (Option Float))
  | ints (cells : List (Option Int))
  | texts (cells : List (Option String))
  | bools (cells : List (Option Bool))
  /-- Cells of another type, such as dates, under its name. -/
  | others (kind : String) (cells : List (Option Foreign))

namespace Cells

def length : Cells → Nat
  | floats cells => cells.length
  | ints cells => cells.length
  | texts cells => cells.length
  | bools cells => cells.length
  | others _ cells => cells.length

def values : Cells → List (Option Value)
  | floats cells => cells.map (·.map .float)
  | ints cells => cells.map (·.map .int)
  | texts cells => cells.map (·.map .text)
  | bools cells => cells.map (·.map .bool)
  | others _ cells => cells.map (·.map .other)

def fitsWord (n : Int) : Bool :=
  -9223372036854775808 ≤ n && n ≤ 9223372036854775807

/-- The name of the type of the cells. Integers are twice as wide if one does not fit a word. -/
def typeName : Cells → String
  | floats _ => "Float64"
  | ints cells => if cells.all fun n => n.all fitsWord then "Int64" else "Int128"
  | texts _ => "String"
  | bools _ => "Boolean"
  | others kind _ => kind

end Cells

inductive ContentError where
  /-- There is not even a line of names. -/
  | empty
  /-- The text is no table, or a cell does not fit the type of its column. -/
  | malformed
  deriving DecidableEq

structure Column where
  name : String
  cells : Cells

abbrev Frame := List Column

namespace Frame

def height (f : Frame) : Nat :=
  match f with
  | [] => 0
  | first :: _ => first.cells.length

def names (f : Frame) : List String :=
  f.map (·.name)

/-- Every column has a cell for each row, and no integer has more bits than the widest type. -/
structure IsShaped (f : Frame) : Prop where
  height : ∀ column ∈ f, column.cells.length = f.height
  wide : ∀ column ∈ f, ∀ n, some (.int n) ∈ column.cells.values → n.natAbs < Nat.pow 2 128

def cells? (f : Frame) (name : String) : Option Cells :=
  (f.find? (·.name = name)).map (·.cells)

def withColumn (column : Column) : Frame → Frame
  | [] => [column]
  | other :: rest =>
    if other.name = column.name then column :: rest else other :: withColumn column rest

def extendRow (name : String) (cell : Option Value) (row : Fields) : Fields :=
  match cell with
  | some value => (name, value) :: row
  | none => row

def rows (f : Frame) (names : List String) : List Fields :=
  names.foldr (fun name rows =>
    match f.cells? name with
    | some cells => List.zipWith (extendRow name) cells.values rows
    | none => rows) (List.replicate f.height [])

end Frame

end Reckon.Table
