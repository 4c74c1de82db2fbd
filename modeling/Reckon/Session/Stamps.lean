import Reckon.Text.Quoted

/-!
What a host stamps on its records: times and names. A time is the date and time of day in universal
time, to the microsecond; a year is counted from the first of March, so that a leap day is its last
day. The name of a batch run is made from sixteen random bytes.
-/

namespace Reckon.Session.Clock

structure Date where
  year : Int
  month : Nat
  day : Nat
  deriving DecidableEq

/-- The date `days` after the first of January 1970. Four hundred years are 146097 days. -/
def dateOf (days : Int) : Date :=
  let shifted := days + 719468
  let day := (shifted % 146097).toNat
  let year := (day - day / 1460 + day / 36524 - day / 146096) / 365
  let dayOfYear := day - (365 * year + year / 4 - year / 100)
  let month := (5 * dayOfYear + 2) / 153
  let dayOfMonth := dayOfYear - (153 * month + 2) / 5 + 1
  let start : Int := 400 * (shifted / 146097) + year
  if month < 10 then ⟨start, month + 3, dayOfMonth⟩ else ⟨start + 1, month - 9, dayOfMonth⟩

def padded (width n : Nat) : String :=
  let digits := toString n
  String.ofList (List.replicate (width - digits.length) '0') ++ digits

def text (micros : Nat) : String :=
  let seconds := micros / 1000000
  let date := dateOf (seconds / 86400 : Nat)
  let time := seconds % 86400
  padded 4 date.year.toNat ++ "-" ++ padded 2 date.month ++ "-" ++ padded 2 date.day ++ "T" ++
    padded 2 (time / 3600) ++ ":" ++ padded 2 (time / 60 % 60) ++ ":" ++ padded 2 (time % 60) ++
    "." ++ padded 6 (micros % 1000000) ++ "Z"

end Reckon.Session.Clock

namespace Reckon.Session

def markRandom (bytes : List UInt8) : List UInt8 :=
  bytes.zipIdx.map fun (b, place) =>
    if place = 6 then b % 16 + 0x40 else if place = 8 then b % 64 + 0x80 else b

def nameOf (bytes : List UInt8) : String :=
  let digits := (markRandom bytes).flatMap fun b => Text.hex 2 b.toNat
  let groups := [(0, 8), (8, 4), (12, 4), (16, 4), (20, 12)]
  "-".intercalate (groups.map fun (start, count) =>
    String.ofList ((digits.drop start).take count))

end Reckon.Session
