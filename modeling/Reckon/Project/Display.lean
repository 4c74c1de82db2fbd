import Reckon.Decimal.Style

/-!
Results as they are shown to the reader: with a fixed number of decimal places if the
project asks for it, and otherwise in full.
-/

namespace Reckon.Project

inductive PlacesError where
  /-- Something else than a number of places. -/
  | missing
  | tooLarge
  | tooManyDigits
  deriving DecidableEq

def PlacesError.message : PlacesError → String
  | .missing => "Format specifier missing precision"
  | .tooLarge => "precision too big"
  | .tooManyDigits => "Too many decimal digits in format string"

/-- The number of decimal places in which results are shown, as it stands in a
configuration: a truth value is accepted there, but no result can be shown with it. -/
inductive Places where
  | full
  | flag (value : Bool)
  | count (n : Int)
  deriving DecidableEq

/-- Whole numbers below `1e+16` are shown without a point. -/
def fullText (x : Float) : String :=
  match Decimal.wholeNumber? x with
  | some n => if n.natAbs < Nat.pow 10 16 then toString n else Decimal.text x
  | none => Decimal.text x

def display (places : Places) (x : Float) : Except PlacesError String :=
  match places with
  | .full => .ok (fullText x)
  | .flag _ => .error .missing
  | .count n =>
    if n < 0 then .error .missing
    else if Nat.pow 2 63 ≤ n then .error .tooManyDigits
    else if Nat.pow 2 31 ≤ n then .error .tooLarge
    else .ok (Decimal.fixed n.toNat x)

end Reckon.Project
