import Reckon.Limits
import Reckon.Log.Event

/-!
Shortening the texts of an event. Formulas and messages come from outside and may be of
any length; what is recorded of them is bounded. A value takes a call, a list those that go through
its items, and a record one more; there is only so much room for calls in one another.
-/

namespace Reckon.Log

def keptLength : Nat := 256

def truncationMark : String := "...[truncated]"

def truncateText (s : String) : String :=
  if keptLength < s.length then String.ofList (s.toList.take keptLength) ++ truncationMark else s

section

variable [Limits]

mutual

/-- The same value with long texts shortened; names of fields stay. Nothing if there is too little
room for the calls. -/
def truncate? : Nat → Value → Option Value
  | 0, _ => none
  | _ + 1, .text s => some (.text (truncateText s))
  | room + 1, .list items =>
    if Limits.perList ≤ room then (truncateItems? (room - Limits.perList) items).map .list else none
  | room + 1, .record fields =>
    if 1 ≤ room then (truncateFields? (room - 1) fields).map .record else none
  | _ + 1, value => some value

def truncateItems? : Nat → List Value → Option (List Value)
  | _, [] => some []
  | room, item :: rest => do
    return (← truncate? room item) :: (← truncateItems? room rest)

def truncateFields? : Nat → List (String × Value) → Option (List (String × Value))
  | _, [] => some []
  | room, (name, value) :: rest => do
    return (name, ← truncate? room value) :: (← truncateFields? room rest)

end

def truncateContext? (context : Fields) : Option Fields :=
  truncateFields? Limits.shortened context

end

end Reckon.Log
