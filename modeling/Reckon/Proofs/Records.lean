import Mathlib
import Reckon.Log.Reading
import Reckon.Proofs.Documents

/-!
The records of events. An event that can be printed is a record without loss, whatever values its
context holds, and a line has the same fields in the order of their names.
-/

namespace Reckon

namespace Value

/-- Values that differ in nothing but the order of fields. -/
inductive Same : Value → Value → Prop where
  | refl (value : Value) : Same value value
  | list {items others : List Value} (each : List.Forall₂ Same items others) :
      Same (.list items) (.list others)
  | record {fields others : Fields}
      (each : ∀ name, Option.Rel Same (fields.lookup name) (others.lookup name)) :
      Same (.record fields) (.record others)

theorem areShort_iff {items : List Value} :
    areShort items = true ↔ ∀ item ∈ items, item.isShort = true := by
  induction items with
  | nil => simp [areShort]
  | cons item items ih => simp [areShort, ih]

theorem haveShort_iff {fields : Fields} :
    haveShort fields = true ↔ ∀ field ∈ fields, field.2.isShort = true := by
  induction fields with
  | nil => simp [haveShort]
  | cons field fields ih => simp [haveShort, ih]

theorem heightOfItems_le_iff {items : List Value} {bound : Nat} :
    heightOfItems items ≤ bound ↔ ∀ item ∈ items, item.height ≤ bound := by
  induction items with
  | nil => simp [heightOfItems]
  | cons item items ih => simp [heightOfItems, ih]

theorem heightOfFields_le_iff {fields : Fields} {bound : Nat} :
    heightOfFields fields ≤ bound ↔ ∀ field ∈ fields, field.2.height ≤ bound := by
  induction fields with
  | nil => simp [heightOfFields]
  | cons field fields ih => simp [heightOfFields, ih]

end Value

/-! ### The order of fields -/

namespace Json

theorem perm_insertField (field : String × Value) (fields : Fields) :
    (insertField field fields).Perm (field :: fields) := by
  induction fields with
  | nil => exact .refl _
  | cons other rest ih =>
    rw [insertField]
    split
    · exact .refl _
    · exact (ih.cons other).trans (.swap field other rest)

theorem perm_sortedFields (fields : Fields) :
    (sortedFields fields).Perm (fields.map fun field => (field.1, sorted field.2)) := by
  induction fields with
  | nil => exact .refl _
  | cons field rest ih => exact (perm_insertField _ _).trans (ih.cons _)

theorem sortedItems_eq_map (items : List Value) : sortedItems items = items.map sorted := by
  induction items with
  | nil => rfl
  | cons item rest ih => rw [sortedItems, ih, List.map_cons]

theorem lookup_insertField (name : String) (field : String × Value) (fields : Fields) :
    (insertField field fields).lookup name =
      if name = field.1 then some field.2 else fields.lookup name := by
  obtain ⟨key, value⟩ := field
  have first (rest : Fields) : ((key, value) :: rest).lookup name =
      if name = key then some value else rest.lookup name := by
    by_cases here : name = key
    · simp [here]
    · simp [List.lookup_cons, here, beq_eq_false_iff_ne.mpr here]
  induction fields with
  | nil => exact first []
  | cons other rest ih =>
    obtain ⟨taken, old⟩ := other
    rw [insertField]
    split
    case isTrue => exact first _
    case isFalse before =>
      rw [List.lookup_cons, List.lookup_cons, ih]
      by_cases here : name = taken
      · have apart : name ≠ key := fun same => before (le_of_eq (same.symm.trans here))
        simp [here, here ▸ apart]
      · rw [beq_eq_false_iff_ne.mpr here]

theorem lookup_sortedFields (name : String) (fields : Fields) :
    (sortedFields fields).lookup name = (fields.lookup name).map sorted := by
  induction fields with
  | nil => rfl
  | cons field rest ih =>
    rw [sortedFields, lookup_insertField, ih, List.lookup_cons]
    by_cases here : name = field.1
    · simp [here]
    · simp [here, beq_eq_false_iff_ne.mpr here]

variable {value : Value}

theorem isLossless_sorted (lossless : IsLossless value) : IsLossless (sorted value) := by
  induction lossless with
  | null => exact .null
  | bool b => exact .bool b
  | int short => exact .int short
  | float finite => exact .float finite
  | text s => exact .text s
  | list all each =>
    rw [sorted, sortedItems_eq_map]
    refine .list ?_
    simpa only [List.forall_mem_map] using each
  | record all distinct each =>
    rename_i fields
    have moved := perm_sortedFields fields
    rw [sorted]
    refine .record ?_ ?_
    · intro field member
      obtain ⟨original, inside, rfl⟩ := List.mem_map.mp (moved.mem_iff.mp member)
      exact each original inside
    · rw [(moved.map (·.1)).nodup_iff, List.map_map]
      exact distinct

theorem height_sorted_le (lossless : IsLossless value) : (sorted value).height ≤ value.height := by
  induction lossless with
  | null => exact le_rfl
  | bool b => exact le_rfl
  | int short => exact le_rfl
  | float finite => exact le_rfl
  | text s => exact le_rfl
  | list all each =>
    rename_i items
    rw [sorted, sortedItems_eq_map, Value.height, Value.height]
    refine Nat.succ_le_succ (Value.heightOfItems_le_iff.mpr ?_)
    rw [List.forall_mem_map]
    exact fun item member =>
      (each item member).trans (Value.heightOfItems_le_iff.mp le_rfl item member)
  | record all distinct each =>
    rename_i fields
    rw [sorted, Value.height, Value.height]
    refine Nat.succ_le_succ (Value.heightOfFields_le_iff.mpr fun field member => ?_)
    obtain ⟨original, inside, rfl⟩ :=
      List.mem_map.mp ((perm_sortedFields fields).mem_iff.mp member)
    exact (each original inside).trans (Value.heightOfFields_le_iff.mp le_rfl original inside)

theorem same_sorted (lossless : IsLossless value) : Value.Same (sorted value) value := by
  induction lossless with
  | null => exact .refl _
  | bool b => exact .refl _
  | int short => exact .refl _
  | float finite => exact .refl _
  | text s => exact .refl _
  | list all each =>
    rw [sorted, sortedItems_eq_map]
    exact .list (List.forall₂_map_left_iff.mpr (List.forall₂_same.mpr each))
  | record all distinct each =>
    rename_i fields
    rw [sorted]
    refine .record fun name => ?_
    rw [lookup_sortedFields]
    cases found : fields.lookup name with
    | none => exact .none
    | some inner =>
      obtain ⟨before, after, same, -⟩ := List.lookup_eq_some_iff.mp found
      exact .some (each (name, inner) (by simp [same]))

end Json

/-! ### Events as records -/

namespace Log

open Json (IsLossless)

namespace Event

theorem storableItems_eq_map (items : List Value) :
    storableItems items = items.map storable := by
  induction items with
  | nil => rfl
  | cons item rest ih => rw [storableItems, ih, List.map_cons]

theorem storableFields_eq_map (fields : Fields) :
    storableFields fields = fields.map fun field => (field.1, storable field.2) := by
  induction fields with
  | nil => rfl
  | cons field rest ih => rw [storableFields, ih, List.map_cons]

/-- What can be stored and shown is written without loss. -/
theorem isLossless_storable {value : Value} (proper : value.IsProper)
    (short : (storable value).isShort = true) : IsLossless (storable value) := by
  induction proper with
  | null => exact .null
  | bool b => exact .bool b
  | int n =>
    refine .int ?_
    simpa [storable, Value.isShort] using short
  | float x =>
    rw [storable]
    split
    case isTrue finite => exact .float finite
    case isFalse => exact .null
  | text s => exact .text s
  | other o => exact .text _
  | list all each =>
    rw [storable, storableItems_eq_map] at short ⊢
    rw [Value.isShort, Value.areShort_iff, List.forall_mem_map] at short
    refine .list ?_
    rw [List.forall_mem_map]
    exact fun item member => each item member (short item member)
  | record all distinct each =>
    rw [storable, storableFields_eq_map] at short ⊢
    rw [Value.isShort, Value.haveShort_iff, List.forall_mem_map] at short
    refine .record ?_ ?_
    · rw [List.forall_mem_map]
      exact fun field member => each field member (short field member)
    · rw [List.map_map]
      exact distinct

theorem height_storable_le {value : Value} (proper : value.IsProper) :
    (storable value).height ≤ value.height := by
  induction proper with
  | float x =>
    rw [storable]
    split <;> exact le_rfl
  | list all each =>
    rename_i items
    rw [storable, storableItems_eq_map, Value.height, Value.height]
    refine Nat.succ_le_succ (Value.heightOfItems_le_iff.mpr ?_)
    rw [List.forall_mem_map]
    exact fun item member =>
      (each item member).trans (Value.heightOfItems_le_iff.mp le_rfl item member)
  | record all distinct each =>
    rename_i fields
    rw [storable, storableFields_eq_map, Value.height, Value.height]
    refine Nat.succ_le_succ (Value.heightOfFields_le_iff.mpr ?_)
    rw [List.forall_mem_map]
    exact fun field member =>
      (each field member).trans (Value.heightOfFields_le_iff.mp le_rfl field member)
  | _ => exact le_rfl

def shown (e : Event) : Value :=
  Json.sorted (.record e.fields)

/-- The event can be written: its values do not stand too deep in one another, and its integers
are not too long. -/
def isPrintable (e : Event) : Bool :=
  Value.heightOfFields e.context ≤ maxHeight && Value.haveShort e.fields

variable {e : Event}

theorem printed_of_isPrintable (printable : e.isPrintable = true) : e.printed = .ok e.fields := by
  rw [isPrintable, Bool.and_eq_true, decide_eq_true_iff] at printable
  simp [printed, written, printable.1, printable.2, Except.bind]

theorem printed_of_not_isPrintable (refused : e.isPrintable = false) :
    ∃ failure, e.printed = .error failure := by
  rw [isPrintable, Bool.and_eq_false_iff, decide_eq_false_iff_not] at refused
  by_cases shallow : Value.heightOfFields e.context ≤ maxHeight
  · have long := refused.resolve_left (not_not_intro shallow)
    exact ⟨.length, by simp [printed, written, shallow, long, Except.bind]⟩
  · exact ⟨.depth, by simp [printed, written, shallow, Except.bind]⟩

theorem isLossless_fields (proper : (Value.record e.context).IsProper)
    (printable : e.isPrintable = true) : IsLossless (.record e.fields) := by
  have short := Value.haveShort_iff.mp (Bool.and_eq_true_iff.mp printable).2
  have context : IsLossless (.record (storableFields e.context)) :=
    isLossless_storable proper (short ("context", _) (by simp [fields]))
  have version : IsLossless (.int e.schemaVersion) := by
    have short := short ("schema_version", .int e.schemaVersion) (by simp [fields])
    exact .int (by simpa [Value.isShort] using short)
  refine .record ?_ (by simp [fields])
  simp only [fields, List.forall_mem_cons]
  refine ⟨version, .text _, .text _, .text _, context, .text _, ?_, by simp⟩
  cases e.code with
  | none => exact .null
  | some code => exact .text code

theorem height_fields_le (proper : (Value.record e.context).IsProper)
    (printable : e.isPrintable = true) : (Value.record e.fields).height ≤ maxHeight + 2 := by
  have low : Value.heightOfFields e.context ≤ maxHeight :=
    of_decide_eq_true (Bool.and_eq_true_iff.mp printable).1
  have context : (Value.record (storableFields e.context)).height ≤ maxHeight + 1 :=
    (height_storable_le proper).trans (Nat.succ_le_succ low)
  rw [Value.height]
  refine Nat.succ_le_succ (Value.heightOfFields_le_iff.mpr ?_)
  have flat : 1 ≤ maxHeight + 1 := by decide
  simp only [fields, List.forall_mem_cons]
  refine ⟨flat, flat, flat, flat, context, flat, ?_, by simp⟩
  cases e.code <;> exact flat

theorem isLossless_shown (proper : (Value.record e.context).IsProper)
    (printable : e.isPrintable = true) : IsLossless e.shown :=
  Json.isLossless_sorted (isLossless_fields proper printable)

theorem height_shown_le (proper : (Value.record e.context).IsProper)
    (printable : e.isPrintable = true) : e.shown.height ≤ maxHeight + 2 :=
  (Json.height_sorted_le (isLossless_fields proper printable)).trans
    (height_fields_le proper printable)

theorem isLegible_shown [Limits] (proper : (Value.record e.context).IsProper)
    (printable : e.isPrintable = true) : Json.IsLegible e.shown where
  lossless := isLossless_shown proper printable
  low := (height_shown_le proper printable).trans Limits.opened_ge

theorem same_shown (proper : (Value.record e.context).IsProper)
    (printable : e.isPrintable = true) : Value.Same e.shown (.record e.fields) :=
  Json.same_sorted (isLossless_fields proper printable)

end Event

namespace Filter

def admits (f : Filter) (e : Event) : Bool :=
  f.level.all (· == e.level.label) && f.topic.all (· == e.topic.label)

theorem wants_text {wanted : Option String} {name found : String} {fields : Fields}
    (there : fields.lookup name = some (.text found)) :
    wants wanted name fields = wanted.all (· == found) := by
  cases wanted with
  | none => rfl
  | some wanted =>
    simp only [wants, there, Option.all_some]
    exact Bool.beq_comm

theorem accepts_shown (f : Filter) (e : Event) : f.accepts e.shown = .ok (f.admits e) := by
  have level : (Json.sortedFields e.fields).lookup "level" = some (.text e.level.label) := by
    rw [Json.lookup_sortedFields]
    rfl
  have topic : (Json.sortedFields e.fields).lookup "event_type" = some (.text e.topic.label) := by
    rw [Json.lookup_sortedFields]
    rfl
  have record : e.shown = .record (Json.sortedFields e.fields) := by rw [Event.shown, Json.sorted]
  rw [record, accepts]
  simp only [wants_text level, wants_text topic]
  split
  case isTrue unfiltered =>
    simp only [Bool.and_eq_true, Option.isNone_iff_eq_none] at unfiltered
    simp [admits, unfiltered.1, unfiltered.2]
  case isFalse => rfl

end Filter

end Log

end Reckon
