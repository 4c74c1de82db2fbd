import Reckon.Decimal.Numeral
import Reckon.Value.Shown

/-!
Events: what happened, how serious it is, and the values that tell it. An event can be
made from named fields, and written as named fields again.
-/

namespace Reckon.Log

inductive Level where
  | info
  | warning
  | error
  deriving DecidableEq

namespace Level

def label : Level → String
  | info => "info"
  | warning => "warning"
  | error => "error"

def ofLabel? (label : String) : Option Level :=
  [info, warning, error].find? (·.label == label)

end Level

inductive Topic where
  | evalCompleted
  | evalFailed
  | validateCompleted
  | formulaInvalid
  | batchStarted
  | batchCompleted
  | batchRowError
  deriving DecidableEq

namespace Topic

def label : Topic → String
  | evalCompleted => "eval_completed"
  | evalFailed => "eval_failed"
  | validateCompleted => "validate_completed"
  | formulaInvalid => "formula_invalid"
  | batchStarted => "batch_started"
  | batchCompleted => "batch_completed"
  | batchRowError => "batch_row_error"

def ofLabel? (label : String) : Option Topic :=
  [evalCompleted, evalFailed, validateCompleted, formulaInvalid, batchStarted, batchCompleted,
    batchRowError].find? (·.label == label)

end Topic

inductive LabelError where
  | topic (label : String)
  | level (label : String)
  deriving DecidableEq

def LabelError.message : LabelError → String
  | .topic label => s!"{Text.quoted label} is not a valid EventType"
  | .level label => s!"{Text.quoted label} is not a valid EventLevel"

inductive Code where
  | formulaSyntax
  | formulaEval
  | batchOptions
  | batchColumns
  | batchRow
  deriving DecidableEq

def Code.label : Code → String
  | .formulaSyntax => "formula_syntax_error"
  | .formulaEval => "formula_eval_error"
  | .batchOptions => "batch_invalid_options"
  | .batchColumns => "batch_missing_columns"
  | .batchRow => "batch_row_failed"

structure Event where
  schemaVersion : Int := 1
  /-- When the event happened. -/
  time : String
  level : Level
  topic : Topic
  context : Fields := []
  message : String := ""
  code : Option String := none

namespace Event

mutual

/-- The value as a file can hold it: numbers that are not finite are left out, and values of other
kinds become texts. -/
def storable : Value → Value
  | .float x => if x.isFinite then .float x else .null
  | .list items => .list (storableItems items)
  | .record fields => .record (storableFields fields)
  | .other o => .text o.text
  | value => value

def storableItems : List Value → List Value
  | [] => []
  | item :: rest => storable item :: storableItems rest

def storableFields : List (String × Value) → List (String × Value)
  | [] => []
  | (name, value) :: rest => (name, storable value) :: storableFields rest

end

def fields (e : Event) : Fields := [
  ("schema_version", .int e.schemaVersion),
  ("ts", .text e.time),
  ("level", .text e.level.label),
  ("event_type", .text e.topic.label),
  ("context", .record (storableFields e.context)),
  ("message", .text e.message),
  ("error_code", match e.code with
    | some code => .text code
    | none => .null)]

/-- From here on floats do not count as whole numbers. -/
def floatBound : Nat := Nat.pow 2 63

/-- A whole number: an integer, a truth value, or a float or numeral without a fraction. -/
def wholeNumber? : Value → Option Int
  | .int n => some n
  | .bool b => some (if b then 1 else 0)
  | .float x => (Decimal.wholeNumber? x).filter fun n => n.natAbs < floatBound
  | .text s => Decimal.wholeNumeral? s
  | _ => none

def text? : Value → Option String
  | .text s => some s
  | _ => none

def record? : Value → Option Fields
  | .record fields => some fields
  | _ => none

def code? : Value → Option (Option String)
  | .text s => some (some s)
  | .null => some none
  | _ => none

/-- The event with the given fields; `now` is its time if the fields do not tell it. If
fields are missing or ill-formed, their names in order. Other fields do not matter. -/
def ofFields (now : String) (given : Fields) : Except (List String) Event :=
  let read {α : Type} (name : String) (default : Option α) (parse : Value → Option α) : Option α :=
    match given.lookup name with
    | some value => parse value
    | none => default
  let code := read "error_code" (some none) code?
  let context := read "context" (some []) record?
  let level := read "level" none fun v => (text? v).bind Level.ofLabel?
  let message := read "message" (some "") text?
  let time := read "ts" (some now) text?
  let topic := read "event_type" none fun v => (text? v).bind Topic.ofLabel?
  let version := read "schema_version" (some 1) wholeNumber?
  match code, context, level, message, time, topic, version with
  | some code, some context, some level, some message, some time, some topic, some version =>
    .ok ⟨version, time, level, topic, context, message, code⟩
  | _, _, _, _, _, _, _ =>
    .error ([("context", context.isNone), ("error_code", code.isNone),
      ("event_type", topic.isNone), ("level", level.isNone), ("message", message.isNone),
      ("schema_version", version.isNone), ("ts", time.isNone)].filterMap
        fun (name, bad) => if bad then some name else none)

def ofBatch (now batch : String) (topic : Topic) (level : Level) (message : String)
    (formula : Option String) (code : Option String) (extra : Fields) : Event :=
  let attribution : Fields := ("batch_id", .text batch) ::
    match formula with
    | some formula => [("formula", .text formula)]
    | none => []
  { time := now, level, topic, message, code, context := Entries.setAll attribution extra }

end Event

end Reckon.Log
