import Reckon.Decimal.Numeral
import Reckon.Limits
import Reckon.Text.Encoding
import Reckon.Value.Shown

/-!
How much of a log is read: so many bytes at its end, from the first whole line on.
-/

namespace Reckon.Log

open Text (Bytes)

/-- How much of a file is read. -/
inductive Window where
  /-- So many bytes at the end. -/
  | bytes (count : Int)
  /-- All of a file that is not larger than the bound; a larger file cannot be read. -/
  | bound (size : Float)
  /-- No file can be read. -/
  | unusable
  deriving DecidableEq

namespace Window

def standard : Window := bytes 2097152

/-- The window that a configured value asks for; what counts as no asks for the usual one. -/
def ofValue (value : Value) : Window :=
  if value.isFalsy then standard
  else match value with
    | .int n => bytes n
    | .bool _ => bytes 1
    | .float x => bound x
    | _ => unusable

inductive Error where
  | numeral (shown : String)
  /-- The setting is a numeral with too many digits. -/
  | length (digits : Nat)
  | kind (value : Value)
  | nan
  | infinite

namespace Error

def isReported : Error → Bool
  | numeral _ => true
  | length _ => true
  | nan => true
  | _ => false

def message : Error → String
  | numeral shown => s!"invalid literal for int() with base 10: {shown}"
  | length digits => Decimal.tooLongMessage digits
  | kind value => s!"invalid number of bytes: {value.shown}"
  | nan => "cannot convert float NaN to integer"
  | infinite => "cannot convert float infinity to integer"

end Error

def ofCount (count : Int) : Window :=
  if count = 0 then standard else bytes count

def ofNumeral (shown numeral : String) : Except Error Window :=
  match Decimal.int numeral with
  | .ok n => .ok (ofCount n)
  | .error .malformed => .error (.numeral shown)
  | .error (.tooLong digits) => .error (.length digits)

/-- The window for a setting, of which numbers lose their fraction and numerals count as
numbers. Without a setting it is the usual one. -/
def ofSetting : Value → Except Error Window
  | .null => .ok standard
  | .bool b => .ok (ofCount (if b then 1 else 0))
  | .int n => .ok (ofCount n)
  | .float x =>
    match Decimal.truncated? x with
    | some n => .ok (ofCount n)
    | none => .error (if x.isNaN then .nan else .infinite)
  | .text s => ofNumeral (Text.quoted s) s
  | .other o =>
    match o.numeral with
    | some s => ofNumeral o.shown s
    | none => .error (.kind (.other o))
  | value => .error (.kind value)

/-- What stands behind the first line break; everything if there is none. -/
def afterLineBreak (bytes : Bytes) : Bytes :=
  match bytes.dropWhile (· ≠ 10) with
  | [] => bytes
  | _ :: rest => rest

/-- The part of a file that is read, unless the window does not fit the file. A line that
is cut by the window does not count. -/
def tail? [Limits] (window : Window) (content : Bytes) : Option Bytes :=
  match window with
  | .unusable => none
  | .bound size => if Float.ofNat content.length ≤ size then some content else none
  | .bytes count =>
    if (content.length : Int) ≤ count then some content
    -- fewer than no bytes start behind the end of the file, which can be too far
    else if count < 0 ∧ (Limits.place : Int) ≤ content.length - count then none
    else some (afterLineBreak (content.drop (content.length - count).toNat))

end Window

end Reckon.Log
