/-!
A finite float is a signed whole number of units, the unit being a power of two.
Everything that prints or rounds a float works on this exact reading of its bits.
-/

namespace Reckon.Decimal

structure Binary where
  significand : Nat
  exponent : Int
  /-- The next float below is half as far away as the next one above. -/
  narrowBelow : Bool
  deriving DecidableEq

namespace Binary

def hiddenBit : Nat := Nat.pow 2 52

def ofBits (bits : Nat) : Binary :=
  let biased := bits / hiddenBit % 2048
  let fraction := bits % hiddenBit
  if biased = 0 then ⟨fraction, -1074, false⟩
  else ⟨hiddenBit + fraction, (biased : Int) - 1075, fraction == 0 && 1 < biased⟩

def ofFloat (x : Float) : Binary :=
  ofBits x.toBits.toNat

def quotient (b : Binary) : Nat × Nat :=
  (b.significand * Nat.pow 2 b.exponent.toNat, Nat.pow 2 (-b.exponent).toNat)

end Binary

/-- The sign bit: set for `-0.0` and below zero. -/
def isNegative (x : Float) : Bool :=
  Nat.pow 2 63 ≤ x.toBits.toNat

def wholeNumber? (x : Float) : Option Int :=
  if x.isFinite then
    let (numerator, denominator) := (Binary.ofFloat x).quotient
    if numerator % denominator = 0 then
      let magnitude : Int := (numerator / denominator : Nat)
      some (if isNegative x then -magnitude else magnitude)
    else none
  else none

end Reckon.Decimal
