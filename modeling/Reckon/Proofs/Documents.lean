import Mathlib
import Reckon.Proofs.Decimals

/-!
Values on one line of JSON. Lists and records are read back with all that they hold, as deep as
they go, and the line has no characters but printed ones.
-/

namespace Reckon.Entries

variable {κ α : Type} [DecidableEq κ]

theorem set_of_not_mem {key : κ} {entries : List (κ × α)} (new : key ∉ entries.map (·.1))
    (entry : α) : set key entry entries = entries ++ [(key, entry)] := by
  induction entries with
  | nil => rfl
  | cons first rest ih =>
    obtain ⟨other, old⟩ := first
    simp only [List.map_cons, List.mem_cons, not_or] at new
    rw [set, if_neg (Ne.symm new.1), ih new.2, List.cons_append]

theorem setAll_of_nodup {entries updates : List (κ × α)}
    (distinct : ((entries ++ updates).map (·.1)).Nodup) :
    setAll entries updates = entries ++ updates := by
  induction updates generalizing entries with
  | nil => exact (List.append_nil entries).symm
  | cons update updates ih =>
    obtain ⟨key, entry⟩ := update
    have new : key ∉ entries.map (·.1) := by
      rw [List.map_append, List.nodup_append] at distinct
      exact fun member => distinct.2.2 key member key (by simp) rfl
    have split : entries ++ (key, entry) :: updates = entries ++ [(key, entry)] ++ updates := by simp
    rw [split] at distinct ⊢
    change setAll (set key entry entries) updates = _
    rw [set_of_not_mem new, ih distinct]

theorem ofList_of_nodup {entries : List (κ × α)} (distinct : (entries.map (·.1)).Nodup) :
    ofList entries = entries :=
  setAll_of_nodup distinct

end Reckon.Entries

namespace Reckon.Json

open Formula.Lexer (Ends)

/-- The values that a text holds without loss: numbers are finite and not too long, and the names
in a record are distinct. -/
inductive IsLossless : Value → Prop where
  | null : IsLossless .null
  | bool (b : Bool) : IsLossless (.bool b)
  | int {n : Int} (short : n.natAbs < Value.tooLong) : IsLossless (.int n)
  | float {x : Float} (finite : x.isFinite = true) : IsLossless (.float x)
  | text (s : String) : IsLossless (.text s)
  | list {items : List Value} (all : ∀ item ∈ items, IsLossless item) : IsLossless (.list items)
  | record {fields : Fields} (all : ∀ field ∈ fields, IsLossless field.2)
      (distinct : (fields.map (·.1)).Nodup) : IsLossless (.record fields)

/-- The text of a value, with which the reader does as with `Reads` that of a scalar. Each
character is worth two steps, and the values in one another need room. -/
structure Rereads (value : Value) (chars : List Char) : Prop where
  starts : ∃ c run, chars = c :: run ∧ isSpace c = false ∧ c ≠ ']'
  printed : ∀ c ∈ chars, IsPrinted c
  reads : ∀ (room fuel : Nat) (rest : List Char), value.height ≤ room → 2 * chars.length ≤ fuel →
    Ends rest → readValue room fuel (chars ++ rest) = .ok (value, rest)

/-! ### Scalars -/

theorem isStart_apart {c : Char} (start : isStart c = true) :
    isSpace c = false ∧ c ≠ ']' ∧ c ≠ '[' ∧ c ≠ '\x7b' := by
  refine ⟨?_, ?_, ?_, ?_⟩
  · rw [Bool.eq_false_iff]
    intro space
    simp only [isSpace, Bool.or_eq_true, beq_iff_eq] at space
    rcases space with ((rfl | rfl) | rfl) | rfl <;> exact absurd start (by decide)
  all_goals
    rintro rfl
    exact absurd start (by decide)

theorem readValue_scalar {c : Char} (start : isStart c = true) (room fuel : Nat)
    (rest : List Char) : readValue room (fuel + 1) (c :: rest) = readScalar (c :: rest) := by
  obtain ⟨-, -, bracket, brace⟩ := isStart_apart start
  rw [readValue]
  all_goals simp_all

theorem Reads.rereads {value : Value} {chars : List Char} (reads : Reads value chars) :
    Rereads value chars := by
  obtain ⟨c, run, rfl, start⟩ := reads.starts
  obtain ⟨space, bracket, -⟩ := isStart_apart start
  refine ⟨⟨c, run, rfl, space, bracket⟩, reads.printed,
    fun room fuel rest _ enough ends => ?_⟩
  rw [List.length_cons] at enough
  obtain ⟨fuel, rfl⟩ : ∃ more, fuel = more + 1 := ⟨fuel - 1, by omega⟩
  rw [List.cons_append, readValue_scalar start]
  exact reads.reads rest ends

/-! ### Items -/

def joined (texts : List (List Char)) : List Char :=
  [',', ' '].intercalate texts

theorem joined_cons (text : List Char) {texts : List (List Char)} (more : texts ≠ []) :
    joined (text :: texts) = text ++ ',' :: ' ' :: joined texts := by
  rw [joined, List.intercalate_cons_of_ne_nil more, List.append_assoc]
  rfl

theorem isPrinted_joined {texts : List (List Char)}
    (printed : ∀ text ∈ texts, ∀ c ∈ text, IsPrinted c) : ∀ c ∈ joined texts, IsPrinted c := by
  induction texts with
  | nil => simp [joined, List.intercalate_nil]
  | cons text texts ih =>
    obtain ⟨first, others⟩ := List.forall_mem_cons.mp printed
    by_cases last : texts = []
    · rw [last, joined, List.intercalate_singleton]
      exact first
    · rw [joined_cons text last]
      simp only [List.forall_mem_append, List.forall_mem_cons]
      exact ⟨first, by decide, by decide, ih others⟩

theorem skipSpace_cons {c : Char} (space : isSpace c = false) (rest : List Char) :
    skipSpace (c :: rest) = c :: rest := by
  simp [skipSpace, space]

theorem skipSpace_of_starts {chars : List Char}
    (starts : ∃ c run, chars = c :: run ∧ isSpace c = false ∧ c ≠ ']') (rest : List Char) :
    skipSpace (chars ++ rest) = chars ++ rest ∧
      skipSpace (' ' :: (chars ++ rest)) = chars ++ rest := by
  obtain ⟨c, run, rfl, space, -⟩ := starts
  have same := skipSpace_cons space (run ++ rest)
  exact ⟨same, same⟩

section

variable {text : Value → List Char} {items : List Value}
  (each : ∀ item ∈ items, Rereads item (text item)) (some : items ≠ [])
include each some

theorem starts_joined :
    ∃ c run, joined (items.map text) = c :: run ∧ isSpace c = false ∧ c ≠ ']' := by
  obtain ⟨item, others, rfl⟩ := List.exists_cons_of_ne_nil some
  obtain ⟨c, run, same, apart⟩ := (each item List.mem_cons_self).starts
  rw [List.map_cons]
  cases others with
  | nil => exact ⟨c, run, by simp [joined, same], apart⟩
  | cons other others =>
    rw [joined_cons _ (by simp), same]
    exact ⟨c, _, rfl, apart⟩

theorem readItems_joined {room fuel : Nat} (low : Value.heightOfItems items ≤ room)
    (enough : 2 * (joined (items.map text)).length < fuel) (rest : List Char) :
    readItems room fuel (joined (items.map text) ++ ']' :: rest) = .ok (items, rest) := by
  induction items generalizing fuel with
  | nil => exact absurd rfl some
  | cons item others ih =>
    obtain ⟨first, each⟩ := List.forall_mem_cons.mp each
    obtain ⟨here, behind⟩ := max_le_iff.mp low
    obtain ⟨fuel, rfl⟩ : ∃ more, fuel = more + 1 := ⟨fuel - 1, by omega⟩
    rw [List.map_cons] at enough ⊢
    by_cases last : others = []
    · subst last
      rw [List.map_nil, joined, List.intercalate_singleton] at enough ⊢
      rw [readItems, first.reads room fuel _ here (by omega) (Formula.Lexer.ends_cons (by decide) (by decide))]
      rfl
    · rw [joined_cons _ (by simpa using last)] at enough ⊢
      simp only [List.length_append, List.length_cons] at enough
      have read : readItems room fuel (joined (others.map text) ++ ']' :: rest) =
          .ok (others, rest) := ih each last behind (by omega)
      obtain ⟨-, skipped⟩ := skipSpace_of_starts (starts_joined each last) (']' :: rest)
      rw [List.append_assoc, List.cons_append, List.cons_append, readItems,
        first.reads room fuel _ here (by omega)
          (Formula.Lexer.ends_cons (by decide) (by decide))]
      simp only [bind, Except.bind]
      rw [skipSpace_cons (by decide)]
      simp only [skipped, read]
      rfl

end

/-! ### Fields -/

def fieldText (text : Value → List Char) (field : String × Value) : List Char :=
  (stringText field.1).toList ++ ':' :: ' ' :: text field.2

theorem starts_fieldText (text : Value → List Char) (field : String × Value) :
    ∃ run, fieldText text field = '"' :: run := by
  rw [fieldText, toList_stringText]
  exact ⟨_, rfl⟩

theorem starts_joinedFields (text : Value → List Char) {fields : Fields} (some : fields ≠ []) :
    ∃ run, joined (fields.map (fieldText text)) = '"' :: run := by
  obtain ⟨field, others, rfl⟩ := List.exists_cons_of_ne_nil some
  obtain ⟨run, same⟩ := starts_fieldText text field
  rw [List.map_cons]
  cases others with
  | nil => exact ⟨run, by simp [joined, same]⟩
  | cons other others =>
    rw [joined_cons _ (by simp), same]
    exact ⟨_, rfl⟩

def readOn (room fuel : Nat) (field : String × Value) (after : List Char) :
    Except Error (Fields × List Char) := do
  match skipSpace after with
  | '\x7d' :: rest => return ([field], rest)
  | ',' :: rest =>
    let (fields, rest) ← readFields room fuel (skipSpace rest)
    return (field :: fields, rest)
  | _ => throw .malformed

theorem readFields_fieldText {text : Value → List Char} {field : String × Value}
    (rereads : Rereads field.2 (text field.2)) {room fuel : Nat} {after : List Char}
    (low : field.2.height ≤ room) (short : 2 * (text field.2).length ≤ fuel) (ends : Ends after) :
    readFields room (fuel + 1) (fieldText text field ++ after) = readOn room fuel field after := by
  obtain ⟨name, value⟩ := field
  have long : name.toList.length <
      (name.toList.flatMap escapeChar ++ '"' :: ':' :: ' ' :: (text value ++ after)).length + 1 := by
    have bound := length_le_flatMap name.toList
    simp only [List.length_append]
    omega
  obtain ⟨-, skipped⟩ := skipSpace_of_starts rereads.starts after
  rw [fieldText, toList_stringText]
  simp only [List.cons_append, List.append_assoc, List.nil_append]
  rw [readFields, readString_flatMap name.toList long]
  simp only [found, bind, Except.bind]
  rw [skipSpace_cons (by decide)]
  simp only [skipped, rereads.reads room fuel after low short ends, String.ofList_toList]
  rfl

section

variable {text : Value → List Char} {fields : Fields}
  (each : ∀ field ∈ fields, Rereads field.2 (text field.2)) (some : fields ≠ [])
include each some

theorem readFields_joined {room fuel : Nat} (low : Value.heightOfFields fields ≤ room)
    (enough : 2 * (joined (fields.map (fieldText text))).length < fuel) (rest : List Char) :
    readFields room fuel (joined (fields.map (fieldText text)) ++ '\x7d' :: rest) =
      .ok (fields, rest) := by
  induction fields generalizing fuel with
  | nil => exact absurd rfl some
  | cons field others ih =>
    obtain ⟨first, each⟩ := List.forall_mem_cons.mp each
    obtain ⟨here, behind⟩ := max_le_iff.mp low
    obtain ⟨fuel, rfl⟩ : ∃ more, fuel = more + 1 := ⟨fuel - 1, by omega⟩
    have length : (text field.2).length ≤ (fieldText text field).length := by
      simp [fieldText]
      omega
    rw [List.map_cons] at enough ⊢
    by_cases last : others = []
    · subst last
      rw [List.map_nil, joined, List.intercalate_singleton] at enough ⊢
      rw [readFields_fieldText first here (by omega) (Formula.Lexer.ends_cons (by decide) (by decide)),
        readOn, skipSpace_cons (by decide)]
      rfl
    · rw [joined_cons _ (by simpa using last)] at enough ⊢
      simp only [List.length_append, List.length_cons] at enough
      have read : readFields room fuel (joined (others.map (fieldText text)) ++ '\x7d' :: rest) =
          .ok (others, rest) := ih each last behind (by omega)
      obtain ⟨run, same⟩ := starts_joinedFields text last
      rw [List.append_assoc, List.cons_append, List.cons_append,
        readFields_fieldText first here (by omega) (Formula.Lexer.ends_cons (by decide) (by decide)),
        readOn, skipSpace_cons (by decide)]
      have skipped : skipSpace (' ' :: (joined (others.map (fieldText text)) ++ '\x7d' :: rest)) =
          joined (others.map (fieldText text)) ++ '\x7d' :: rest := by
        rw [same]
        exact skipSpace_cons (c := '"') (by decide) _
      change (readFields room fuel (skipSpace (' ' :: _))).bind _ = _
      rw [skipped, read]
      rfl

end

/-! ### Values -/

theorem compactItems_eq_map (items : List Value) : compactItems items = items.map compact := by
  induction items with
  | nil => rfl
  | cons item items ih => rw [compactItems, ih, List.map_cons]

theorem compactFields_eq_map (fields : Fields) :
    compactFields fields = fields.map fun field => stringText field.1 ++ ": " ++ compact field.2 := by
  induction fields with
  | nil => rfl
  | cons field fields ih => rw [compactFields, ih, List.map_cons]

theorem toList_compact_list (items : List Value) :
    (compact (.list items)).toList =
      '[' :: (joined (items.map fun item => (compact item).toList) ++ [']']) := by
  rw [compact, compactItems_eq_map, String.toList_append, String.toList_append,
    String.toList_intercalate, List.map_map]
  rfl

theorem toList_compact_record (fields : Fields) :
    (compact (.record fields)).toList = '\x7b' ::
      (joined (fields.map (fieldText fun value => (compact value).toList)) ++ ['\x7d']) := by
  have text (field : String × Value) : (stringText field.1 ++ ": " ++ compact field.2).toList =
      fieldText (fun value => (compact value).toList) field := by
    rw [String.toList_append, String.toList_append, fieldText, List.append_assoc]
    rfl
  rw [compact, compactFields_eq_map, String.toList_append, String.toList_append,
    String.toList_intercalate, List.map_map, ← funext text]
  rfl

theorem rereads_list {items : List Value}
    (each : ∀ item ∈ items, Rereads item (compact item).toList) :
    Rereads (.list items) (compact (.list items)).toList := by
  rw [toList_compact_list]
  refine ⟨⟨'[', _, rfl, rfl, by decide⟩, ?_, fun room fuel rest low enough ends => ?_⟩
  · have printed : ∀ text ∈ items.map fun item => (compact item).toList, ∀ c ∈ text, IsPrinted c := by
      simpa using fun item member => (each item member).printed
    simp only [List.forall_mem_cons, List.forall_mem_append]
    exact ⟨by decide, isPrinted_joined printed, by decide, by simp⟩
  · simp only [List.length_cons, List.length_append, List.length_nil] at enough
    obtain ⟨fuel, rfl⟩ : ∃ more, fuel = more + 1 := ⟨fuel - 1, by omega⟩
    obtain ⟨room, rfl⟩ : ∃ more, room = more + 1 := ⟨room - 1, by rw [Value.height] at low; omega⟩
    have low := Nat.le_of_succ_le_succ low
    rw [List.cons_append, List.append_assoc, List.singleton_append, readValue]
    by_cases none : items = []
    · subst none
      rfl
    · have starts := starts_joined each none
      have read : readItems room fuel (joined (items.map fun item => (compact item).toList) ++
          ']' :: rest) = .ok (items, rest) := readItems_joined each none low (by omega) rest
      rw [(skipSpace_of_starts starts _).1]
      obtain ⟨c, run, same, -, bracket⟩ := starts
      rw [same] at read ⊢
      rw [List.cons_append] at read ⊢
      split
      case h_1 => simp_all
      case h_2 => rw [read]; rfl

theorem rereads_record {fields : Fields}
    (each : ∀ field ∈ fields, Rereads field.2 (compact field.2).toList)
    (distinct : (fields.map (·.1)).Nodup) :
    Rereads (.record fields) (compact (.record fields)).toList := by
  rw [toList_compact_record]
  refine ⟨⟨'\x7b', _, rfl, rfl, by decide⟩, ?_, fun room fuel rest low enough ends => ?_⟩
  · have printed : ∀ text ∈ fields.map (fieldText fun value => (compact value).toList),
        ∀ c ∈ text, IsPrinted c := by
      simp only [List.forall_mem_map, fieldText, List.forall_mem_append, List.forall_mem_cons]
      exact fun field member => ⟨isPrinted_stringText field.1, by decide, by decide,
        (each field member).printed⟩
    simp only [List.forall_mem_cons, List.forall_mem_append]
    exact ⟨by decide, isPrinted_joined printed, by decide, by simp⟩
  · simp only [List.length_cons, List.length_append, List.length_nil] at enough
    obtain ⟨fuel, rfl⟩ : ∃ more, fuel = more + 1 := ⟨fuel - 1, by omega⟩
    obtain ⟨room, rfl⟩ : ∃ more, room = more + 1 := ⟨room - 1, by rw [Value.height] at low; omega⟩
    have low := Nat.le_of_succ_le_succ low
    rw [List.cons_append, List.append_assoc, List.singleton_append, readValue]
    by_cases none : fields = []
    · subst none
      rfl
    · obtain ⟨run, same⟩ := starts_joinedFields (fun value => (compact value).toList) none
      have read : readFields room fuel
          (joined (fields.map (fieldText fun value => (compact value).toList)) ++ '\x7d' :: rest) =
          .ok (fields, rest) := readFields_joined each none low (by omega) rest
      rw [same, List.cons_append] at read ⊢
      rw [skipSpace_cons (by decide)]
      change (readFields room fuel _).map _ = _
      rw [read]
      change Except.ok (Value.record (Entries.ofList fields), rest) = _
      rw [Entries.ofList_of_nodup distinct]

theorem rereads_compact {value : Value} (lossless : IsLossless value) :
    Rereads value (compact value).toList := by
  induction lossless with
  | null => exact reads_null.rereads
  | bool b => exact (reads_bool b).rereads
  | int short => exact (reads_int short).rereads
  | float finite =>
    obtain ⟨number, bounded⟩ := Machine.isFinite_iff.mp finite
    have text := (reads_float finite).rereads
    rwa [compact, scalarText, floatText, number, bounded]
    all_goals simp
  | text s => exact (reads_text s).rereads
  | list all each => exact rereads_list each
  | record all distinct each => exact rereads_record each distinct

/-- The value can be read where it has been written. -/
structure IsLegible [Limits] (value : Value) : Prop where
  lossless : IsLossless value
  low : value.height ≤ Limits.opened

/-- The reader inverts the printer. -/
theorem read_compact [Limits] {value : Value} (legible : IsLegible value) :
    read (compact value).toList = .ok value := by
  have rereads := rereads_compact legible.lossless
  have skipped := (skipSpace_of_starts rereads.starts []).1
  rw [List.append_nil] at skipped
  have read := rereads.reads _ (2 * (compact value).toList.length + 2) [] legible.low (by omega)
    Formula.Lexer.ends_nil
  rw [List.append_nil] at read
  rw [Json.read, skipped]
  simp only [read, bind, Except.bind]
  rfl

theorem isPrinted_compact {value : Value} (lossless : IsLossless value) :
    ∀ c ∈ (compact value).toList, IsPrinted c :=
  (rereads_compact lossless).printed

end Reckon.Json
