import Reckon.Decimal.Binary

/-!
The shortest decimal that identifies a float. The reals that round to a float form
an interval, its ends included when the significand is even. On the decimal grids of
one digit, two digits and so on, the two neighbours of the float are tested against
that interval in exact arithmetic; the first grid with a hit gives the digits.
-/

namespace Reckon.Decimal

/-- The number `digits * 10 ^ exponent`. -/
structure Scaled where
  digits : Nat
  exponent : Int
  deriving DecidableEq

namespace Scaled

def compareBinary (d : Scaled) (n : Nat) (e : Int) : Ordering :=
  compare (d.digits * Nat.pow 10 d.exponent.toNat * Nat.pow 2 (-e).toNat)
    (n * Nat.pow 2 e.toNat * Nat.pow 10 (-d.exponent).toNat)

/-- Moves trailing zeros from the digits to the exponent; at most `fuel` of them. -/
def strip : Nat → Scaled → Scaled
  | 0, d => d
  | fuel + 1, d =>
    if d.digits ≠ 0 ∧ d.digits % 10 = 0 then strip fuel ⟨d.digits / 10, d.exponent + 1⟩ else d

end Scaled

namespace Binary

def readsBack (b : Binary) (d : Scaled) : Bool :=
  let low := if b.narrowBelow then 4 * b.significand - 1 else 4 * b.significand - 2
  let high := 4 * b.significand + 2
  let closed := b.significand % 2 == 0
  let below := d.compareBinary low (b.exponent - 2)
  let above := d.compareBinary high (b.exponent - 2)
  (below == .gt || closed && below == .eq) && (above == .lt || closed && above == .eq)

def below (b : Binary) (k : Int) : Bool :=
  Scaled.compareBinary ⟨1, k⟩ b.significand b.exponent == .gt

/-- The least `k` with `b < 10 ^ k`, for `b` above zero: an estimate from the binary
logarithm, which is never too large by more than one, and two corrections. -/
def scale (b : Binary) : Int :=
  let estimate := ((b.significand.log2 : Int) + b.exponent) * 30103 / 100000
  if b.below estimate then
    if b.below (estimate - 1) then estimate - 1 else estimate
  else if b.below (estimate + 1) then estimate + 1
  else estimate + 2

/-- The decimal on the grid `10 ^ exponent` that reads back: of two the nearer one, and
of two equally near the one with an even last digit. -/
def onGrid? (b : Binary) (exponent : Int) : Option Scaled :=
  let (numerator, denominator) := b.quotient
  let top := numerator * Nat.pow 10 (-exponent).toNat
  let unit := denominator * Nat.pow 10 exponent.toNat
  let floor := top / unit
  let down : Scaled := ⟨floor, exponent⟩
  let up : Scaled := ⟨floor + 1, exponent⟩
  match b.readsBack down, b.readsBack up with
  | true, true =>
    match compare (2 * (top % unit)) unit with
    | .lt => some down
    | .gt => some up
    | .eq => some (if floor % 2 = 0 then down else up)
  | true, false => some down
  | false, true => some up
  | false, false => none

def search (b : Binary) (scale : Int) : Nat → Nat → Option Scaled
  | 0, _ => none
  | fuel + 1, count =>
    match b.onGrid? (scale - count) with
    | some d => some d
    | none => search b scale fuel (count + 1)

def exact (b : Binary) : Scaled :=
  ⟨b.significand * Nat.pow 2 b.exponent.toNat * Nat.pow 5 (-b.exponent).toNat, min b.exponent 0⟩

/-- The fewest digits that identify `b`. Seventeen are always enough. -/
def shortest (b : Binary) : Scaled :=
  if b.significand = 0 then ⟨0, 0⟩
  else ((b.search b.scale 17 1).getD b.exact).strip 20

end Binary

end Reckon.Decimal
