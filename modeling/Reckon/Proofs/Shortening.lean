import Mathlib
import Reckon.Log.Truncation

/-!
What is recorded of long texts. The values of an event keep their shape, and only texts that are too
long are cut. A text that was cut is longer than what is kept of a text, but its beginning is what
is kept of it, so cutting it again gives the same text. All this holds as long as there is room for
the calls that the depth of the values takes; beyond that nothing is recorded.
-/

namespace Reckon

namespace Value

/-- What holds of a value whenever it holds of its items or fields holds of every value. -/
theorem induct {P : Value → Prop} (null : P .null) (bool : ∀ b, P (.bool b)) (int : ∀ n, P (.int n))
    (float : ∀ x, P (.float x)) (text : ∀ s, P (.text s))
    (list : ∀ items, (∀ item ∈ items, P item) → P (.list items))
    (record : ∀ fields : Fields, (∀ field ∈ fields, P field.2) → P (.record fields))
    (other : ∀ o, P (.other o)) : ∀ value, P value
  | .null => null
  | .bool b => bool b
  | .int n => int n
  | .float x => float x
  | .text s => text s
  | .list items => list items fun item _ => induct null bool int float text list record other item
  | .record fields =>
    record fields fun field _ => induct null bool int float text list record other field.2
  | .other o => other o
termination_by value => sizeOf value
decreasing_by
  · have smaller := List.sizeOf_lt_of_mem ‹item ∈ items›
    rw [Value.list.sizeOf_spec]
    omega
  · obtain ⟨name, value⟩ := field
    have smaller := List.sizeOf_lt_of_mem ‹(name, value) ∈ fields›
    rw [Prod.mk.sizeOf_spec] at smaller
    rw [Value.record.sizeOf_spec]
    dsimp only
    omega

/-- The values are the same but for their texts, and texts that stand at one place are related. -/
inductive Textwise (R : String → String → Prop) : Value → Value → Prop where
  | null : Textwise R .null .null
  | bool (b : Bool) : Textwise R (.bool b) (.bool b)
  | int (n : Int) : Textwise R (.int n) (.int n)
  | float (x : Float) : Textwise R (.float x) (.float x)
  | text {s t : String} (related : R s t) : Textwise R (.text s) (.text t)
  | list {items others : List Value} (length : items.length = others.length)
      (each : ∀ (i : Nat) item other, items[i]? = some item → others[i]? = some other →
        Textwise R item other) :
      Textwise R (.list items) (.list others)
  | record {fields others : Fields} (names : fields.map Prod.fst = others.map Prod.fst)
      (each : ∀ (i : Nat) field other, fields[i]? = some field → others[i]? = some other →
        Textwise R field.2 other.2) :
      Textwise R (.record fields) (.record others)
  | other (o : Foreign) : Textwise R (.other o) (.other o)

inductive HasText (s : String) : Value → Prop where
  | here : HasText s (.text s)
  | item {items : List Value} {item : Value} (member : item ∈ items) (inside : HasText s item) :
      HasText s (.list items)
  | field {fields : Fields} {field : String × Value} (member : field ∈ fields)
      (inside : HasText s field.2) : HasText s (.record fields)

namespace Textwise

variable {R : String → String → Prop} {value other : Value}

theorem length_of_names {fields others : Fields}
    (names : fields.map Prod.fst = others.map Prod.fst) : fields.length = others.length := by
  simpa using congrArg List.length names

/-- Lists of one length have entries at the same places. -/
theorem exists_beside {α : Type} {entries others : List α} (length : entries.length = others.length)
    {i : Nat} {other : α} (there : others[i]? = some other) : ∃ entry, entries[i]? = some entry := by
  have inside : i < others.length := (List.getElem?_eq_some_iff.mp there).1
  exact ⟨_, List.getElem?_eq_getElem (length ▸ inside)⟩

/-- If what a text is related to is related to itself, the same holds of values. -/
theorem right_refl (closed : ∀ s t, R s t → R t t) (textwise : Textwise R value other) :
    Textwise R other other := by
  induction textwise with
  | null => exact .null
  | bool b => exact .bool b
  | int n => exact .int n
  | float x => exact .float x
  | text related => exact .text (closed _ _ related)
  | @list items others length each ih =>
    refine .list rfl fun i one two first second => ?_
    obtain rfl := Option.some.inj (first.symm.trans second)
    obtain ⟨item, beside⟩ := exists_beside length first
    exact ih i _ _ beside first
  | @record fields others names each ih =>
    refine .record rfl fun i one two first second => ?_
    obtain rfl := Option.some.inj (first.symm.trans second)
    obtain ⟨field, beside⟩ := exists_beside (length_of_names names) first
    exact ih i _ _ beside first
  | other o => exact .other o

/-- A text of the one value stands where a text of the other does, to which it is related. -/
theorem exists_text {t : String} (textwise : Textwise R value other) (has : HasText t other) :
    ∃ s, HasText s value ∧ R s t := by
  induction textwise with
  | null | bool | int | float | other => cases has
  | text related =>
    cases has
    exact ⟨_, .here, related⟩
  | @list items others length each ih =>
    cases has with
    | item member inside =>
      obtain ⟨i, there⟩ := List.mem_iff_getElem?.mp member
      obtain ⟨item, beside⟩ := exists_beside length there
      obtain ⟨s, has, related⟩ := ih i _ _ beside there inside
      exact ⟨s, .item (List.mem_of_getElem? beside) has, related⟩
  | @record fields others names each ih =>
    cases has with
    | field member inside =>
      obtain ⟨i, there⟩ := List.mem_iff_getElem?.mp member
      obtain ⟨field, beside⟩ := exists_beside (length_of_names names) there
      obtain ⟨s, has, related⟩ := ih i _ _ beside there inside
      exact ⟨s, .field (List.mem_of_getElem? beside) has, related⟩

end Textwise

end Value

namespace Log

open Value (Textwise HasText)

/-- A text of up to 256 characters stays. Of a longer one the first 256 stay, and a mark stands in
place of the others. -/
inductive Shortened : String → String → Prop where
  | short {s : String} (fits : s.length ≤ 256) : Shortened s s
  | long {s : String} (exceeds : 256 < s.length) :
      Shortened s (String.ofList (s.toList.take 256) ++ "...[truncated]")

namespace Shortened

variable {s t : String}

theorem iff_truncateText : Shortened s t ↔ truncateText s = t := by
  unfold truncateText
  constructor
  · intro shortened
    cases shortened with
    | short fits => exact if_neg (Nat.not_lt.mpr fits)
    | long exceeds => exact if_pos exceeds
  · rintro rfl
    split
    case isTrue exceeds => exact .long exceeds
    case isFalse fits => exact .short (Nat.not_lt.mp fits)

theorem length_long (exceeds : 256 < s.length) :
    (String.ofList (s.toList.take 256) ++ "...[truncated]").length = 270 := by
  have mark : "...[truncated]".length = 14 := by decide
  rw [String.length_append, String.length_ofList, List.length_take, String.length_toList, mark]
  omega

theorem length_le (shortened : Shortened s t) : t.length ≤ 270 := by
  cases shortened with
  | short fits => omega
  | long exceeds => exact (length_long exceeds).le

/-- What is kept of a text that was cut is what it was cut to. -/
theorem right_refl (shortened : Shortened s t) : Shortened t t := by
  cases shortened with
  | short fits => exact .short fits
  | long exceeds =>
    have again := Shortened.long ((length_long exceeds).symm ▸ (by decide : 256 < 270))
    have kept : (String.ofList (s.toList.take 256) ++ "...[truncated]").toList.take 256 =
        s.toList.take 256 := by
      rw [String.toList_append, String.toList_ofList, List.take_left']
      rw [List.length_take, String.length_toList]
      omega
    rwa [kept] at again

end Shortened

/-! ### With room for any depth -/

mutual

def truncate : Value → Value
  | .text s => .text (truncateText s)
  | .list items => .list (truncateItems items)
  | .record fields => .record (truncateFields fields)
  | value => value

def truncateItems : List Value → List Value
  | [] => []
  | item :: rest => truncate item :: truncateItems rest

def truncateFields : List (String × Value) → List (String × Value)
  | [] => []
  | (name, value) :: rest => (name, truncate value) :: truncateFields rest

end

theorem truncateItems_eq_map (items : List Value) : truncateItems items = items.map truncate := by
  induction items with
  | nil => rfl
  | cons item rest ih => rw [truncateItems, ih, List.map_cons]

theorem truncateFields_eq_map (fields : Fields) :
    truncateFields fields = fields.map fun field => (field.1, truncate field.2) := by
  induction fields with
  | nil => rfl
  | cons field rest ih => rw [truncateFields, ih, List.map_cons]

theorem lookup_truncateFields (name : String) (fields : Fields) :
    (truncateFields fields).lookup name = (fields.lookup name).map truncate := by
  induction fields with
  | nil => rfl
  | cons field rest ih =>
    rw [truncateFields, List.lookup_cons, List.lookup_cons, ih]
    cases name == field.1 <;> rfl

theorem textwise_truncate (value : Value) : Textwise Shortened value (truncate value) := by
  induction value using Value.induct with
  | null => exact .null
  | bool b => exact .bool b
  | int n => exact .int n
  | float x => exact .float x
  | text s => exact .text (Shortened.iff_truncateText.mpr rfl)
  | list items each =>
    rw [truncate, truncateItems_eq_map]
    refine .list (List.length_map _).symm fun i item other first second => ?_
    rw [List.getElem?_map, first] at second
    cases second
    exact each item (List.mem_of_getElem? first)
  | record fields each =>
    rw [truncate, truncateFields_eq_map]
    refine .record (by rw [List.map_map]; rfl) fun i field other first second => ?_
    rw [List.getElem?_map, first] at second
    cases second
    exact each field (List.mem_of_getElem? first)
  | other o => exact .other o

/-- The shape and the texts leave no choice. -/
theorem truncate_eq_of_textwise {value short : Value} (textwise : Textwise Shortened value short) :
    truncate value = short := by
  induction textwise with
  | null | bool | int | float | other => rfl
  | text shortened => rw [truncate, Shortened.iff_truncateText.mp shortened]
  | @list items others length each ih =>
    rw [truncate, truncateItems_eq_map]
    refine congrArg _ (List.ext_getElem (by simpa using length) fun i inside inside' => ?_)
    rw [List.getElem_map]
    rw [List.length_map] at inside
    exact ih i _ _ (List.getElem?_eq_getElem inside) (List.getElem?_eq_getElem inside')
  | @record fields others names each ih =>
    rw [truncate, truncateFields_eq_map]
    have length := Textwise.length_of_names names
    refine congrArg _ (List.ext_getElem (by simpa using length) fun i inside inside' => ?_)
    rw [List.getElem_map]
    rw [List.length_map] at inside
    have name : fields[i].1 = others[i].1 := by
      have same := congrArg (·[i]?) names
      simpa [inside, inside'] using same
    exact Prod.ext name
      (ih i _ _ (List.getElem?_eq_getElem inside) (List.getElem?_eq_getElem inside'))

theorem truncate_truncate (value : Value) : truncate (truncate value) = truncate value :=
  truncate_eq_of_textwise ((textwise_truncate value).right_refl fun _ _ => Shortened.right_refl)

/-! ### The room that is needed -/

section

variable [Limits]

mutual

/-- The calls in one another that it takes to shorten the texts of a value. -/
def calls : Value → Nat
  | .list items => callsOfItems items + Limits.perList + 1
  | .record fields => callsOfFields fields + 2
  | _ => 1

def callsOfItems : List Value → Nat
  | [] => 0
  | item :: rest => max (calls item) (callsOfItems rest)

def callsOfFields : List (String × Value) → Nat
  | [] => 0
  | (_, value) :: rest => max (calls value) (callsOfFields rest)

end

mutual

/-- Just if there is room for its calls, a value is shortened. -/
theorem truncate?_eq (room : Nat) (value : Value) :
    truncate? room value = if calls value ≤ room then some (truncate value) else none := by
  cases room with
  | zero => cases value <;> simp [truncate?, calls]
  | succ room =>
    cases value with
    | list items =>
      rw [truncate?, truncateItems?_eq (room - Limits.perList) items, truncate, calls]
      by_cases enters : Limits.perList ≤ room
      · by_cases fits : callsOfItems items ≤ room - Limits.perList
        · rw [if_pos enters, if_pos fits, if_pos (by omega), Option.map_some]
        · rw [if_pos enters, if_neg fits, if_neg (by omega), Option.map_none]
      · rw [if_neg enters, if_neg (by omega)]
    | record fields =>
      rw [truncate?, truncateFields?_eq (room - 1) fields, truncate, calls]
      by_cases enters : 1 ≤ room
      · by_cases fits : callsOfFields fields ≤ room - 1
        · rw [if_pos enters, if_pos fits, if_pos (by omega), Option.map_some]
        · rw [if_pos enters, if_neg fits, if_neg (by omega), Option.map_none]
      · rw [if_neg enters, if_neg (by omega)]
    | _ => simp [truncate?, truncate, calls]

theorem truncateItems?_eq (room : Nat) : ∀ items : List Value, truncateItems? room items =
    if callsOfItems items ≤ room then some (truncateItems items) else none
  | [] => by simp [truncateItems?, truncateItems, callsOfItems]
  | item :: rest => by
    rw [truncateItems?, truncate?_eq room item, truncateItems?_eq room rest, truncateItems,
      callsOfItems]
    by_cases first : calls item ≤ room <;> by_cases others : callsOfItems rest ≤ room <;>
      simp [first, others]

theorem truncateFields?_eq (room : Nat) : ∀ fields : List (String × Value),
    truncateFields? room fields =
      if callsOfFields fields ≤ room then some (truncateFields fields) else none
  | [] => by simp [truncateFields?, truncateFields, callsOfFields]
  | (name, value) :: rest => by
    rw [truncateFields?, truncate?_eq room value, truncateFields?_eq room rest, truncateFields,
      callsOfFields]
    by_cases first : calls value ≤ room <;> by_cases others : callsOfFields rest ≤ room <;>
      simp [first, others]

end

mutual

theorem calls_truncate : ∀ value : Value, calls (truncate value) = calls value
  | .list items => by rw [truncate, calls, calls, callsOfItems_truncateItems items]
  | .record fields => by rw [truncate, calls, calls, callsOfFields_truncateFields fields]
  | .null | .bool _ | .int _ | .float _ | .text _ | .other _ => rfl

theorem callsOfItems_truncateItems :
    ∀ items : List Value, callsOfItems (truncateItems items) = callsOfItems items
  | [] => rfl
  | item :: rest => by
    rw [truncateItems, callsOfItems, callsOfItems, calls_truncate item,
      callsOfItems_truncateItems rest]

theorem callsOfFields_truncateFields :
    ∀ fields : List (String × Value), callsOfFields (truncateFields fields) = callsOfFields fields
  | [] => rfl
  | (name, value) :: rest => by
    rw [truncateFields, callsOfFields, callsOfFields, calls_truncate value,
      callsOfFields_truncateFields rest]

end

mutual

/-- No level of a value takes more than two calls. -/
theorem calls_le : ∀ value : Value, calls value ≤ 2 * value.height
  | .list items => by
    have inside := callsOfItems_le items
    have few := Limits.perList_le
    rw [calls, Value.height]
    omega
  | .record fields => by
    have inside := callsOfFields_le fields
    rw [calls, Value.height]
    omega
  | .null | .bool _ | .int _ | .float _ | .text _ | .other _ => Nat.le_succ 1

theorem callsOfItems_le : ∀ items : List Value, callsOfItems items ≤ 2 * Value.heightOfItems items
  | [] => Nat.zero_le _
  | item :: rest => by
    have first := calls_le item
    have others := callsOfItems_le rest
    rw [callsOfItems, Value.heightOfItems]
    omega

theorem callsOfFields_le :
    ∀ fields : List (String × Value), callsOfFields fields ≤ 2 * Value.heightOfFields fields
  | [] => Nat.zero_le _
  | (name, value) :: rest => by
    have first := calls_le value
    have others := callsOfFields_le rest
    rw [callsOfFields, Value.heightOfFields]
    omega

end

theorem truncateContext?_eq (context : Fields) : truncateContext? context =
    if callsOfFields context ≤ Limits.shortened then some (truncateFields context) else none :=
  truncateFields?_eq _ context

end

/-- A context with its texts shortened is the only one that has its names in their order, its lists
in their length and all its other values, and texts that are those of the context, shortened. Its
texts are bounded, and shortening them again changes nothing. It is there just if there is room for
the calls that the context takes. -/
theorem truncateContext?_shortens [Limits] (context : Fields) :
    (callsOfFields context ≤ Limits.shortened →
      ∃ short, truncateContext? context = some short ∧
        (∀ other, Textwise Shortened (.record context) (.record other) ↔ other = short) ∧
        (∀ t, HasText t (.record short) → t.length ≤ 270) ∧
        truncateContext? short = some short) ∧
    (Limits.shortened < callsOfFields context → truncateContext? context = none) := by
  have textwise : Textwise Shortened (.record context) (.record (truncateFields context)) :=
    textwise_truncate (.record context)
  refine ⟨fun fits => ⟨truncateFields context, ?_, fun other => ⟨fun other' => ?_, ?_⟩,
    fun t has => ?_, ?_⟩, fun exceeds => ?_⟩
  · rw [truncateContext?_eq, if_pos fits]
  · exact (Value.record.inj (truncate_eq_of_textwise other')).symm
  · exact fun same => same ▸ textwise
  · obtain ⟨s, -, shortened⟩ := textwise.exists_text has
    exact shortened.length_le
  · rw [truncateContext?_eq, callsOfFields_truncateFields, if_pos fits]
    exact congrArg some (Value.record.inj (truncate_truncate (.record context)))
  · rw [truncateContext?_eq, if_neg (Nat.not_le.mpr exceeds)]

/-! ### Records in one another -/

def nested : Nat → Value
  | 0 => .text ""
  | levels + 1 => .record [("a", nested levels)]

theorem truncate_nested (levels : Nat) : truncate (nested levels) = nested levels := by
  induction levels with
  | zero => rfl
  | succ levels ih => rw [nested, truncate, truncateFields, ih, truncateFields]

theorem calls_nested [Limits] (levels : Nat) : calls (nested levels) = 2 * levels + 1 := by
  induction levels with
  | zero => rfl
  | succ levels ih =>
    rw [nested, calls, callsOfFields, ih, callsOfFields]
    omega

section

attribute [local instance] Limits.standard

/-- No text of the context is too long, so it should stay as it is. But it is too deep. -/
theorem nested_context_fails :
    Textwise Shortened (.record [("a", nested 520)]) (.record [("a", nested 520)]) ∧
      truncateContext? [("a", nested 520)] = none := by
  constructor
  · have same := textwise_truncate (nested 521)
    rwa [truncate_nested] at same
  · have many : Limits.shortened < callsOfFields [("a", nested 520)] := by
      rw [callsOfFields, calls_nested, callsOfFields]
      decide
    rw [truncateContext?_eq, if_neg (Nat.not_le.mpr many)]

end

end Log

end Reckon
