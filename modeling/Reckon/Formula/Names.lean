import Reckon.Formula.Token

/-!
The variables of a formula. A name starts at a letter and runs over letters and
underscores; every other character only separates names. Names are listed once each, in
the order of their code points, which is the order in which values are bound to them.
-/

namespace Reckon.Formula

def insertName (name : String) : List String → List String
  | [] => [name]
  | other :: rest =>
    if name = other then other :: rest
    else if name < other then name :: other :: rest
    else other :: insertName name rest

def sortNames (names : List String) : List String :=
  names.foldr insertName []

def isNameChar (c : Char) : Bool :=
  c.isAlpha || c == '_'

def names : List Char → List String
  | [] => []
  | c :: rest =>
    if c.isAlpha then
      String.ofList (c :: rest.takeWhile isNameChar) :: names (rest.dropWhile isNameChar)
    else names rest
termination_by chars => chars.length
decreasing_by
  · have := (List.dropWhile_sublist isNameChar (l := rest)).length_le
    simp
    omega
  · simp

/-- The variables of a formula. The square root is no variable. -/
def variableNames (formula : String) : List String :=
  sortNames ((names formula.toList).filter (· ≠ rootName))

end Reckon.Formula
