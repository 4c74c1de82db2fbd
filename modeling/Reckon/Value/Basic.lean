/-!
Values of any shape, as they are bound to variables, carried by events and read from
configuration and log files. The fields of a record keep the order in which they came.
-/

namespace Reckon

/-- A value of another kind, such as a date: how messages show it, its text in a file, and the
numeral that it spells, if it spells one. -/
structure Foreign where
  shown : String
  text : String
  numeral : Option String := none
  isEmpty : Bool := false
  deriving DecidableEq

inductive Value where
  | null
  | bool (value : Bool)
  | int (value : Int)
  | float (value : Float)
  | text (value : String)
  | list (items : List Value)
  | record (fields : List (String × Value))
  | other (value : Foreign)
  deriving Inhabited

/-- Named values. A name occurs once, and names keep the order in which they came. -/
abbrev Fields := List (String × Value)

/-! Entries under keys, in order. -/

namespace Entries

variable {κ α : Type} [DecidableEq κ]

/-- Gives `key` the entry, in place if the key is there already and otherwise at the end. -/
def set (key : κ) (entry : α) : List (κ × α) → List (κ × α)
  | [] => [(key, entry)]
  | (other, old) :: rest =>
    if other = key then (other, entry) :: rest else (other, old) :: set key entry rest

def setAll (entries updates : List (κ × α)) : List (κ × α) :=
  updates.foldl (fun entries (key, entry) => set key entry entries) entries

/-- The entries as if they had been set one after the other: the last of a key counts. -/
def ofList (entries : List (κ × α)) : List (κ × α) :=
  setAll [] entries

variable [BEq κ] [LawfulBEq κ]

theorem lookup_set_self (key : κ) (entry : α) (entries : List (κ × α)) :
    (set key entry entries).lookup key = some entry := by
  induction entries with
  | nil => exact List.lookup_cons_self
  | cons first rest ih =>
    obtain ⟨name, old⟩ := first
    by_cases same : name = key
    · rw [set, if_pos same, same]
      exact List.lookup_cons_self
    · have apart : (key == name) = false := beq_eq_false_iff_ne.2 (Ne.symm same)
      rw [set, if_neg same, List.lookup_cons, apart]
      exact ih

theorem lookup_set_of_ne {key other : κ} (different : other ≠ key) (entry : α)
    (entries : List (κ × α)) :
    (set key entry entries).lookup other = entries.lookup other := by
  have apart : (other == key) = false := beq_eq_false_iff_ne.2 different
  induction entries with
  | nil => rw [set, List.lookup_cons, apart]
  | cons first rest ih =>
    obtain ⟨name, old⟩ := first
    by_cases same : name = key
    · rw [set, if_pos same, List.lookup_cons, List.lookup_cons, same, apart]
    · rw [set, if_neg same, List.lookup_cons, List.lookup_cons, ih]

theorem lookup_setAll_of_ne {key : κ} {entries updates : List (κ × α)}
    (apart : ∀ update ∈ updates, update.1 ≠ key) :
    (setAll entries updates).lookup key = entries.lookup key := by
  induction updates generalizing entries with
  | nil => rfl
  | cons update updates ih =>
    obtain ⟨first, others⟩ := List.forall_mem_cons.mp apart
    exact (ih others).trans (lookup_set_of_ne first.symm _ _)

end Entries

namespace Value

mutual

/-- The most values that stand one in the other, the value itself included. -/
def height : Value → Nat
  | list items => heightOfItems items + 1
  | record fields => heightOfFields fields + 1
  | _ => 1

def heightOfItems : List Value → Nat
  | [] => 0
  | item :: rest => max item.height (heightOfItems rest)

def heightOfFields : List (String × Value) → Nat
  | [] => 0
  | (_, value) :: rest => max value.height (heightOfFields rest)

end

/-- What counts as no: nothing, zero, and whatever is empty. -/
def isFalsy : Value → Bool
  | null => true
  | bool b => !b
  | int n => n == 0
  | float x => x == 0
  | text s => s.isEmpty
  | list items => items.isEmpty
  | record fields => fields.isEmpty
  | other o => o.isEmpty

/-- The names in every record of the value are distinct, as those of `Fields` are. -/
inductive IsProper : Value → Prop where
  | null : IsProper .null
  | bool (b : Bool) : IsProper (.bool b)
  | int (n : Int) : IsProper (.int n)
  | float (x : Float) : IsProper (.float x)
  | text (s : String) : IsProper (.text s)
  | list {items : List Value} (all : ∀ item ∈ items, IsProper item) : IsProper (.list items)
  | record {fields : Fields} (all : ∀ field ∈ fields, IsProper field.2)
      (distinct : (fields.map (·.1)).Nodup) : IsProper (.record fields)
  | other (o : Foreign) : IsProper (.other o)

end Value

end Reckon
