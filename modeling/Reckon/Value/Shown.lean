import Reckon.Decimal.Numeral
import Reckon.Decimal.Style
import Reckon.Limits
import Reckon.Text.Quoted
import Reckon.Value.Basic

/-!
A value as it is shown in messages: texts quoted, floats with the fewest digits, lists
and records in brackets. Integers with too many digits are not shown, nor are values that stand too
deep in others, nor is a value that holds one of these.
-/

namespace Reckon.Value

mutual

def shown : Value → String
  | null => "None"
  | bool b => if b then "True" else "False"
  | int n => toString n
  | float x => Decimal.text x
  | text s => Text.quoted s
  | list items => "[" ++ ", ".intercalate (shownItems items) ++ "]"
  | record fields => "\x7b" ++ ", ".intercalate (shownFields fields) ++ "\x7d"
  | other o => o.shown

def shownItems : List Value → List String
  | [] => []
  | item :: rest => shown item :: shownItems rest

def shownFields : List (String × Value) → List String
  | [] => []
  | (name, value) :: rest => (Text.quoted name ++ ": " ++ shown value) :: shownFields rest

end

def tooLong : Nat := Nat.pow 10 Decimal.maxDigits

def tooLongMessage : String :=
  s!"Exceeds the limit ({Decimal.maxDigits} digits) for integer string conversion; " ++
    "use sys.set_int_max_str_digits() to increase the limit"

mutual

def isShort : Value → Bool
  | int n => n.natAbs < tooLong
  | list items => areShort items
  | record fields => haveShort fields
  | _ => true

def areShort : List Value → Bool
  | [] => true
  | item :: rest => isShort item && areShort rest

def haveShort : List (String × Value) → Bool
  | [] => true
  | (_, value) :: rest => isShort value && haveShort rest

end

inductive Obstacle where
  | depth
  | length
  deriving DecidableEq

def Obstacle.message : Obstacle → String
  | depth => "maximum recursion depth exceeded while getting the repr of an object"
  | length => tooLongMessage

mutual

/-- The first obstacle to showing a value, with so much room for values in one another. -/
def obstacle? : Nat → Value → Option Obstacle
  | 0, _ => some .depth
  | _ + 1, int n => if n.natAbs < tooLong then none else some .length
  | room + 1, list items => obstacleOfItems? room items
  | room + 1, record fields => obstacleOfFields? room fields
  | _ + 1, _ => none

def obstacleOfItems? (room : Nat) : List Value → Option Obstacle
  | [] => none
  | item :: rest => (obstacle? room item).or (obstacleOfItems? room rest)

def obstacleOfFields? (room : Nat) : List (String × Value) → Option Obstacle
  | [] => none
  | (_, value) :: rest => (obstacle? room value).or (obstacleOfFields? room rest)

end

def isShowable [Limits] (value : Value) : Bool :=
  (value.obstacle? Limits.shown).isNone

def plain : Value → String
  | text s => s
  | other o => o.text
  | value => value.shown

end Reckon.Value
