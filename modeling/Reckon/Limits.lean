/-!
What the machine allows. How deep values may stand in one another is bounded, since those who work
on them call themselves for what is inside; and so are the lengths of names and paths and the places
in a file. The bounds differ from machine to machine, and from call to call.
-/

namespace Reckon

class Limits where
  /-- The depth of a value that can be shown in a message. -/
  shown : Nat
  /-- The calls in one another that there may be where the texts of a context are shortened, and how
  many of them go through the items of a list. -/
  shortened : Nat
  perList : Nat
  /-- The brackets that may be open where JSON is read. -/
  opened : Nat
  /-- The depth of a value that can be laid out as JSON. -/
  laidOut : Nat
  /-- The bytes of a name of a file or folder. -/
  name : Nat
  /-- The bytes of a path. -/
  path : Nat
  /-- Places in a file stay below this bound. -/
  place : Nat
  /-- A value that holds no other can be shown. -/
  shown_ge : 1 ≤ shown
  /-- The events of commands and batch runs can be shortened. -/
  shortened_ge : 4 ≤ shortened
  perList_le : perList ≤ 1
  /-- An event that has been written can be read, and then be laid out in a list. -/
  opened_ge : 257 ≤ opened
  laidOut_ge : 258 ≤ laidOut
  /-- The files that every project has can have their names. -/
  name_ge : 15 ≤ name
  /-- Places are numbers of 64 bits with a sign. -/
  place_le : place ≤ Nat.pow 2 63

namespace Limits

/-- A thousand calls of which some are spent, and a file system of sixteen terabytes for a file. -/
@[reducible]
def standard : Limits where
  shown := 970
  shortened := 960
  perList := 1
  opened := 980
  laidOut := 960
  name := 255
  path := 4095
  place := Nat.pow 2 44
  shown_ge := by decide
  shortened_ge := by decide
  perList_le := by decide
  opened_ge := by decide
  laidOut_ge := by decide
  name_ge := by decide
  place_le := by decide

end Limits

end Reckon
