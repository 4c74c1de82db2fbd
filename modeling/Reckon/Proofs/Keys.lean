import Mathlib
import Reckon.Proofs.Recording
import Reckon.Yaml.Reader

/-!
Distinct keys. Entries that are set one after the other have distinct keys, and then their order
does not matter to what stands under a key. The records that a settings file holds have distinct
names, however often a name is written there.
-/

namespace Reckon

namespace Entries

variable {κ α : Type}

/-! ### Entries under distinct keys -/

section

variable [BEq κ] [LawfulBEq κ] {entries others : List (κ × α)}

theorem mem_keys_iff {key : κ} :
    key ∈ entries.map (·.1) ↔ (entries.lookup key).isSome = true := by
  rw [List.lookup_isSome_iff, List.mem_map]
  simp only [beq_iff_eq, eq_comm (a := key)]

theorem lookup_eq_some_iff (distinct : (entries.map (·.1)).Nodup) {key : κ} {entry : α} :
    entries.lookup key = some entry ↔ (key, entry) ∈ entries := by
  constructor
  · intro found
    obtain ⟨before, after, rfl, -⟩ := List.lookup_eq_some_iff.mp found
    exact List.mem_append_right before List.mem_cons_self
  · intro member
    obtain ⟨before, after, rfl⟩ := List.append_of_mem member
    refine List.lookup_eq_some_iff.mpr ⟨before, after, rfl, fun other inside => ?_⟩
    rw [List.map_append, List.nodup_append] at distinct
    exact bne_iff_ne.mpr fun same =>
      distinct.2.2 other.1 (List.mem_map_of_mem inside) key (by simp) same.symm

theorem lookup_eq_of_perm (distinct : (entries.map (·.1)).Nodup) (perm : entries.Perm others)
    (key : κ) : entries.lookup key = others.lookup key := by
  have distinct' : (others.map (·.1)).Nodup := (perm.map _).nodup_iff.mp distinct
  refine Option.ext fun entry => ?_
  rw [lookup_eq_some_iff distinct, lookup_eq_some_iff distinct', perm.mem_iff]

theorem lookup_filter (keeps : κ → Bool) (entries : List (κ × α)) (key : κ) :
    (entries.filter fun entry => keeps entry.1).lookup key =
      if keeps key then entries.lookup key else none := by
  induction entries with
  | nil => simp
  | cons first rest ih =>
    obtain ⟨other, entry⟩ := first
    rw [List.filter_cons, List.lookup_cons]
    by_cases here : key = other
    · subst here
      cases kept : keeps key <;> simp [kept, ih]
    · have apart : (key == other) = false := beq_eq_false_iff_ne.mpr here
      rw [apart]
      split
      · rw [List.lookup_cons, apart, ih]
      · exact ih

theorem lookup_map_of_injective {rename : κ → κ} (injective : rename.Injective)
    (entries : List (κ × α)) (key : κ) :
    (entries.map fun entry => (rename entry.1, entry.2)).lookup (rename key) =
      entries.lookup key := by
  induction entries with
  | nil => rfl
  | cons first rest ih =>
    rw [List.map_cons, List.lookup_cons, List.lookup_cons, ih]
    have same : (rename key == rename first.1) = (key == first.1) := by
      rw [Bool.eq_iff_iff, beq_iff_eq, beq_iff_eq, injective.eq_iff]
    rw [same]

end

/-! ### Entries that are set -/

section

variable [DecidableEq κ] {entries updates : List (κ × α)}

theorem map_fst_set_of_mem {key : κ} (there : key ∈ entries.map (·.1)) (entry : α) :
    (set key entry entries).map (·.1) = entries.map (·.1) := by
  induction entries with
  | nil => cases there
  | cons first rest ih =>
    obtain ⟨other, old⟩ := first
    rw [set]
    split
    case isTrue same => rfl
    case isFalse different =>
      have behind := (List.mem_cons.mp there).resolve_left (Ne.symm different)
      rw [List.map_cons, ih behind, List.map_cons]

theorem nodup_set (distinct : (entries.map (·.1)).Nodup) (key : κ) (entry : α) :
    ((set key entry entries).map (·.1)).Nodup := by
  by_cases there : key ∈ entries.map (·.1)
  · rwa [map_fst_set_of_mem there]
  · rw [set_of_not_mem there, List.map_append]
    exact distinct.append (List.nodup_singleton key) (List.disjoint_singleton.mpr there)

theorem nodup_setAll (distinct : (entries.map (·.1)).Nodup) (updates : List (κ × α)) :
    ((setAll entries updates).map (·.1)).Nodup := by
  induction updates generalizing entries with
  | nil => exact distinct
  | cons update updates ih => exact ih (nodup_set distinct update.1 update.2)

theorem nodup_ofList (entries : List (κ × α)) : ((ofList entries).map (·.1)).Nodup :=
  nodup_setAll (by simp) entries

variable [BEq κ] [LawfulBEq κ]

/-- What was set last under a key counts, and otherwise what was there before. -/
theorem lookup_setAll (distinct : (updates.map (·.1)).Nodup) (entries : List (κ × α)) (key : κ) :
    (setAll entries updates).lookup key = (updates.lookup key).or (entries.lookup key) := by
  induction updates generalizing entries with
  | nil => rfl
  | cons update updates ih =>
    obtain ⟨other, entry⟩ := update
    obtain ⟨new, distinct⟩ := List.nodup_cons.mp distinct
    change (setAll (set other entry entries) updates).lookup key = _
    rw [ih distinct, List.lookup_cons]
    by_cases same : key = other
    · subst same
      have unset : updates.lookup key = none :=
        Option.not_isSome_iff_eq_none.mp (mem_keys_iff.not.mp new)
      rw [lookup_set_self, unset, beq_self_eq_true]
      rfl
    · rw [lookup_set_of_ne same, beq_eq_false_iff_ne.mpr same]

end

end Entries

/-! ### Settings files -/

namespace Yaml

open Value (IsProper)

theorem isProper_ofList {fields : Fields} (proper : ∀ field ∈ fields, field.2.IsProper) :
    (Value.record (Entries.ofList fields)).IsProper :=
  .record (Log.forall_mem_setAll (by simp) proper) (Entries.nodup_ofList fields)

theorem isProper_of_number? {word : String} {value : Value} (read : number? word = some value) :
    value.IsProper := by
  unfold number? at read
  dsimp only at read
  split at read
  · cases read
    exact .int _
  · split at read
    · obtain ⟨x, -, rfl⟩ := Option.map_eq_some_iff.mp read
      exact .float _
    · split at read
      · cases read
        exact .float _
      · split at read
        · cases read
          exact .float _
        · split at read <;> cases read
          exact .float _

theorem isProper_resolve (word : String) : (resolve word).IsProper := by
  unfold resolve
  split
  · exact .null
  · split
    · exact .bool true
    · split
      · exact .bool false
      · cases read : number? word with
        | none => exact .text word
        | some value => exact isProper_of_number? read

theorem isProper_of_readScalar {inBrackets : Bool} {chars : List Char} {found : Value × List Char}
    (read : readScalar inBrackets chars = some found) : found.1.IsProper := by
  unfold readScalar at read
  dsimp only at read
  split at read
  all_goals
    obtain ⟨text, -, rfl⟩ := Option.map_eq_some_iff.mp read
  · exact .text _
  · exact .text _
  · exact isProper_resolve _

theorem readItems_cases {fuel : Nat} {chars : List Char} {found : List Value × List Char}
    (read : readItems (fuel + 1) chars = some found) :
    found.1 = [] ∨ ∃ item, (∃ line after, readNode fuel line = some (item, after)) ∧
      (found.1 = [item] ∨
        ∃ line more, readItems fuel line = some more ∧ found.1 = item :: more.1) := by
  unfold readItems at read
  split at read
  case h_1 impossible => cases impossible
  case h_2 =>
    cases read
    exact .inl rfl
  case h_3 same _ =>
    cases same
    obtain ⟨⟨item, after⟩, first, read⟩ := Option.bind_eq_some_iff.mp read
    refine .inr ⟨item, ⟨_, after, first⟩, ?_⟩
    dsimp only at read
    split at read
    · cases read
      exact .inl rfl
    · obtain ⟨more, behind, read⟩ := Option.bind_eq_some_iff.mp read
      cases read
      exact .inr ⟨_, more, behind, rfl⟩
    · cases read

theorem readFields_cases {fuel : Nat} {chars : List Char} {found : Fields × List Char}
    (read : readFields (fuel + 1) chars = some found) :
    found.1 = [] ∨ ∃ name value,
      (value = .null ∨ ∃ line after, readNode fuel line = some (value, after)) ∧
      (found.1 = [(name, value)] ∨
        ∃ line more, readFields fuel line = some more ∧ found.1 = (name, value) :: more.1) := by
  unfold readFields at read
  split at read
  case h_1 impossible => cases impossible
  case h_2 =>
    cases read
    exact .inl rfl
  case h_3 same _ =>
    cases same
    extract_lets next at read
    obtain ⟨⟨name, rest⟩, read⟩ : ∃ named, next named = some found := by
      split at read
      · exact ⟨_, read⟩
      · obtain ⟨named, -, read⟩ := Option.bind_eq_some_iff.mp read
        exact ⟨named, read⟩
    dsimp -zeta only [next] at read
    extract_lets ending at read
    obtain ⟨⟨value, after⟩, valued, read⟩ : ∃ valued : Value × List Char,
        (valued.1 = .null ∨ ∃ line after, readNode fuel line = some (valued.1, after)) ∧
          ending valued = some found := by
      split at read
      · exact ⟨(.null, ',' :: _), .inl rfl, read⟩
      · exact ⟨(.null, '\x7d' :: _), .inl rfl, read⟩
      · obtain ⟨valued, node, read⟩ := Option.bind_eq_some_iff.mp read
        exact ⟨valued, .inr ⟨_, _, node⟩, read⟩
    refine .inr ⟨name, value, valued, ?_⟩
    dsimp only [ending] at read
    split at read
    · cases read
      exact .inl rfl
    · obtain ⟨more, behind, read⟩ := Option.bind_eq_some_iff.mp read
      cases read
      exact .inr ⟨_, more, behind, rfl⟩
    · cases read

/-- By induction on the fuel, of which each reader leaves less to those that it calls. -/
theorem isProper_of_readLine (fuel : Nat) :
    (∀ chars found, readNode fuel chars = some found → found.1.IsProper) ∧
      (∀ chars found, readItems fuel chars = some found → ∀ item ∈ found.1, item.IsProper) ∧
      ∀ chars found, readFields fuel chars = some found → ∀ field ∈ found.1, field.2.IsProper := by
  induction fuel with
  | zero =>
    refine ⟨fun chars found read => ?_, fun chars found read => ?_, fun chars found read => ?_⟩
    · cases read
    · cases read
    · cases read
  | succ fuel ih =>
    obtain ⟨node, items, fields⟩ := ih
    refine ⟨fun chars found read => ?_, fun chars found read => ?_, fun chars found read => ?_⟩
    · unfold readNode at read
      split at read
      · obtain ⟨inner, inside, rfl⟩ := Option.map_eq_some_iff.mp read
        exact .list (items _ _ inside)
      · obtain ⟨inner, inside, rfl⟩ := Option.map_eq_some_iff.mp read
        exact isProper_ofList (fields _ _ inside)
      · exact isProper_of_readScalar read
    · rcases readItems_cases read with none | ⟨item, ⟨line, after, first⟩, rest⟩
      · simp [none]
      rcases rest with last | ⟨line, more, behind, shape⟩
      · rw [last]
        exact List.forall_mem_singleton.mpr (node _ _ first)
      · rw [shape]
        exact List.forall_mem_cons.mpr ⟨node _ _ first, items _ _ behind⟩
    · rcases readFields_cases read with none | ⟨name, value, valued, rest⟩
      · simp [none]
      have proper : value.IsProper := by
        rcases valued with rfl | ⟨line, after, valued⟩
        · exact .null
        · exact node _ _ valued
      rcases rest with last | ⟨line, more, behind, shape⟩
      · rw [last]
        exact List.forall_mem_singleton.mpr proper
      · rw [shape]
        exact List.forall_mem_cons.mpr ⟨proper, fields _ _ behind⟩

theorem isProper_of_inline? {chars : List Char} {value : Value} (read : inline? chars = some value) :
    value.IsProper := by
  unfold inline? at read
  dsimp only at read
  split at read
  · cases read
    exact .null
  · obtain ⟨found, inside, rest⟩ := Option.bind_eq_some_iff.mp read
    split at rest
    · cases rest
      split at inside
      · exact (isProper_of_readLine _).1 _ _ inside
      · exact (isProper_of_readLine _).1 _ _ inside
      · exact isProper_of_readScalar inside
    · cases rest

theorem exists_of_mem_mapM {α β : Type} {f : α → Option β} {items : List α} {results : List β}
    (mapped : items.mapM f = some results) {result : β} (member : result ∈ results) :
    ∃ item ∈ items, f item = some result := by
  induction items generalizing results with
  | nil =>
    cases mapped
    cases member
  | cons item items ih =>
    rw [List.mapM_cons] at mapped
    obtain ⟨first, here, mapped⟩ := Option.bind_eq_some_iff.mp mapped
    obtain ⟨others, behind, mapped⟩ := Option.bind_eq_some_iff.mp mapped
    cases mapped
    rcases List.mem_cons.mp member with rfl | member
    · exact ⟨item, List.mem_cons_self, here⟩
    · obtain ⟨other, inside, gives⟩ := ih behind member
      exact ⟨other, List.mem_cons_of_mem item inside, gives⟩

theorem isProper_of_items? {indent : Nat} {lines : List Line} {items : List Value}
    (read : items? indent lines = some items) : ∀ item ∈ items, item.IsProper := by
  intro item member
  obtain ⟨line, -, here⟩ := exists_of_mem_mapM read member
  split at here
  · obtain ⟨text, -, inside⟩ := Option.bind_eq_some_iff.mp here
    exact isProper_of_inline? inside
  · cases here

theorem isProper_of_block? {depth : Nat} {lines : List Line} {value : Value}
    (read : block? depth lines = some value) : value.IsProper := by
  induction depth generalizing lines value with
  | zero => cases lines <;> cases read
  | succ depth ih =>
    unfold block? at read
    split at read
    case h_1 impossible => cases impossible
    case h_2 =>
      cases read
      exact .null
    case h_3 same =>
      cases same
      dsimp only at read
      split at read
      · obtain ⟨items, inside, rfl⟩ := Option.map_eq_some_iff.mp read
        exact .list (isProper_of_items? inside)
      · split at read
        · obtain ⟨fields, inside, read⟩ := Option.bind_eq_some_iff.mp read
          cases read
          refine isProper_ofList fun field member => ?_
          obtain ⟨⟨line, below⟩, -, here⟩ := exists_of_mem_mapM inside member
          dsimp only at here
          split at here
          · cases here
          -- the value of a key stands on its line or in the block below
          obtain ⟨⟨key, text⟩, -, here⟩ := Option.bind_eq_some_iff.mp here
          split at here
          · obtain ⟨value, valued, named⟩ := Option.bind_eq_some_iff.mp here
            cases named
            exact isProper_of_inline? valued
          · split at here
            · obtain ⟨value, valued, named⟩ := Option.bind_eq_some_iff.mp here
              cases named
              exact ih valued
            · cases here
        · split at read
          · exact isProper_of_inline? read
          · cases read

theorem isProper_of_read? {text : String} {value : Value} (read : read? text = some value) :
    value.IsProper :=
  isProper_of_block? read

end Yaml

end Reckon
