import Mathlib
import Reckon.Proofs.Keys
import Reckon.Proofs.Silence
import Reckon.Proofs.Usability

/-!
The settings of a project, name by name. What stands in the block under `logging` comes before
what a file says on a line of its own, and that before the usual settings. The order of the lines
does not matter, nor which projects were opened before.
-/

namespace Reckon.Session

variable [Limits] [Formats]

def setProjects (s : Session) (folders : List Store.Path) : Session :=
  folders.foldl (fun s folder => (s.setProject folder).1) s

theorem store_setProject (s : Session) (folder : Store.Path) :
    (s.setProject folder).1.store = s.store := by
  rcases s.setProject_cases folder with ⟨e, refused⟩ | ⟨sink, settings, opened, -⟩
  · rw [refused]
  · rw [opened]

theorem store_setProjects (s : Session) (folders : List Store.Path) :
    (s.setProjects folders).store = s.store := by
  induction folders generalizing s with
  | nil => rfl
  | cons folder folders ih => exact (ih _).trans (store_setProject s folder)

end Reckon.Session

namespace Reckon.Project.Settings

open Store (Path)
open Value (IsProper)

/-! ### What a file says -/

/-- The block under `logging`. What else stands there says nothing. -/
def nested (m : Fields) : Fields :=
  match m.lookup "logging" with
  | some (.record fields) => fields
  | _ => []

def chosen (m : Fields) (name : String) : Option Value :=
  (m.lookup name).or (defaults.lookup name)

def mode (m : Fields) : Value :=
  (m.lookup "on_error").getD (.text "raise")

def precision (m : Fields) : Value :=
  (m.lookup "precision").getD .null

inductive IsMode : Value → Prop where
  | raise : IsMode (.text "raise")
  | missing : IsMode (.text "null")
  | unnamed : IsMode .null

inductive IsPlaces : Value → Prop where
  | full : IsPlaces .null
  | flag (b : Bool) : IsPlaces (.bool b)
  | count {n : Int} (positive : 0 ≤ n) : IsPlaces (.int n)

structure Merged (m : Fields) (s : Settings) : Prop where
  distinct : (s.map (·.1)).Nodup
  names : ∀ name, name ∈ s.map (·.1) ↔
    name ∈ defaults.map (·.1) ∨ (name ∈ m.map (·.1) ∧ name ≠ "logging") ∨
      ∃ key ∈ (nested m).map (·.1), name = "logging_" ++ key
  logging : ∀ key, s.lookup ("logging_" ++ key) =
    ((nested m).lookup key).or (chosen m ("logging_" ++ key))
  unnamed : mode m = .null → s.lookup "on_error" = some (.text "null")
  named : mode m ≠ .null → s.lookup "on_error" = some (mode m)
  other : ∀ name, name ≠ "logging" → name ≠ "on_error" → (∀ key, name ≠ "logging_" ++ key) →
    s.lookup name = chosen m name

structure Merges (m : Fields) (result : Except Error Settings) : Prop where
  refused : (∃ e, result = .error e) ↔ ¬ IsMode (mode m) ∨ ¬ IsPlaces (precision m)
  cause : ∀ e, result = .error e →
    (¬ IsMode (mode m) ∧ e = .onError (mode m)) ∨
      (IsMode (mode m) ∧ e = .precision (precision m))
  merged : ∀ s, result = .ok s → Merged m s

variable {m written : Fields}

/-! ### The block -/

theorem prefix_injective : Function.Injective fun key : String => "logging_" ++ key := by
  intro key other same
  rw [← String.toList_inj] at same ⊢
  simpa using same

theorem prefix_ne_logging (key : String) : "logging_" ++ key ≠ "logging" := by
  intro same
  have lengths := congrArg String.length same
  simp only [String.length_append] at lengths
  have long : "logging_".length = "logging".length + 1 := rfl
  omega

theorem outside_of_head {name : String} (head : name.toList.head? ≠ some 'l') (key : String) :
    name ≠ "logging_" ++ key := by
  rintro rfl
  simp at head

def prefixed (m : Fields) : Fields :=
  (nested m).map fun field => ("logging_" ++ field.1, field.2)

theorem nodup_nested (proper : (Value.record m).IsProper) : ((nested m).map (·.1)).Nodup := by
  cases proper with
  | record all distinct =>
    unfold nested
    split
    case h_1 fields found =>
      have member := (Entries.lookup_eq_some_iff distinct).mp found
      cases all _ member with
      | record _ inside => exact inside
    case h_2 => exact List.nodup_nil

theorem nodup_prefixed (proper : (Value.record m).IsProper) : ((prefixed m).map (·.1)).Nodup := by
  have renamed : (prefixed m).map (·.1) = ((nested m).map (·.1)).map ("logging_" ++ ·) := by
    simp [prefixed]
  rw [renamed]
  exact (nodup_nested proper).map prefix_injective

theorem lookup_prefixed (m : Fields) (key : String) :
    (prefixed m).lookup ("logging_" ++ key) = (nested m).lookup key :=
  Entries.lookup_map_of_injective prefix_injective (nested m) key

theorem isSome_lookup_prefixed_iff {name : String} :
    ((prefixed m).lookup name).isSome = true ↔
      ∃ key ∈ (nested m).map (·.1), name = "logging_" ++ key := by
  rw [← Entries.mem_keys_iff]
  simp [prefixed, eq_comm]

theorem lookup_prefixed_of_ne {name : String} (apart : ∀ key, name ≠ "logging_" ++ key) :
    (prefixed m).lookup name = none := by
  rw [← Option.not_isSome_iff_eq_none, isSome_lookup_prefixed_iff]
  rintro ⟨key, -, same⟩
  exact apart key same

/-! ### Checks -/

theorem isOnError_iff {value : Value} (named : value ≠ .null) :
    isOnError value = true ↔ IsMode value := by
  constructor
  · intro accepted
    cases value with
    | text s =>
      simp only [isOnError, Bool.or_eq_true, beq_iff_eq] at accepted
      rcases accepted with rfl | rfl
      · exact .raise
      · exact .missing
    | _ => cases accepted
  · rintro (_ | _ | _)
    · rfl
    · rfl
    · exact absurd rfl named

theorem isPrecision_iff {value : Value} : isPrecision value = true ↔ IsPlaces value := by
  constructor
  · intro accepted
    cases value with
    | null => exact .full
    | bool b => exact .flag b
    | int n => exact .count (of_decide_eq_true accepted)
    | _ => cases accepted
  · rintro (_ | _ | positive)
    · rfl
    · rfl
    · exact decide_eq_true positive

theorem check_cases (s : Settings) :
    (isOnError (s.get "on_error") = false ∧ check s = .error (.onError (s.get "on_error"))) ∨
      (isOnError (s.get "on_error") = true ∧ isPrecision (s.get "precision") = false ∧
        check s = .error (.precision (s.get "precision"))) ∨
      (isOnError (s.get "on_error") = true ∧ isPrecision (s.get "precision") = true ∧
        check s = .ok s) := by
  cases known : isOnError (s.get "on_error") <;> cases usable : isPrecision (s.get "precision") <;>
    simp [check, known, usable]

theorem ofValue_record (m : Fields) : ofValue (.record m) = check (merge m) := by
  cases m <;> rfl

/-! ### Names and what is under them -/

theorem spread_eq (m : Fields) :
    spread m = Entries.setAll (m.filter fun field => field.1 ≠ "logging") (prefixed m) := by
  unfold spread
  split
  case h_1 fields found =>
    rw [prefixed, nested, found]
  case h_2 dropped =>
    have empty : nested m = [] := by
      unfold nested
      split
      case h_1 fields found => exact absurd found (dropped fields)
      case h_2 => rfl
    rw [prefixed, empty]
    rfl

theorem nodup_spread (proper : (Value.record m).IsProper) : ((spread m).map (·.1)).Nodup := by
  cases proper with
  | record _ distinct =>
    rw [spread_eq]
    exact Entries.nodup_setAll (distinct.sublist (List.filter_sublist.map _)) _

/-- The block comes before lines of their own, and those before the usual settings. -/
theorem lookup_setAll_spread (proper : (Value.record m).IsProper) (name : String) :
    (Entries.setAll defaults (spread m)).lookup name =
      ((prefixed m).lookup name).or
        (if name = "logging" then defaults.lookup name else chosen m name) := by
  have flat := Entries.lookup_filter (fun name => decide (name ≠ "logging")) m name
  rw [Entries.lookup_setAll (nodup_spread proper), spread_eq,
    Entries.lookup_setAll (nodup_prefixed proper), flat, Option.or_assoc, chosen]
  by_cases here : name = "logging" <;> simp [here]

/-! ### The missing name of a mode -/

section

variable (s : Settings)

theorem map_fst_nameNull : (nameNull s).map (·.1) = s.map (·.1) := by
  unfold nameNull
  split
  case h_1 found =>
    exact Entries.map_fst_set_of_mem (Entries.mem_keys_iff.mpr (Option.isSome_of_eq_some found)) _
  case h_2 => rfl

theorem lookup_nameNull_of_ne {name : String} (apart : name ≠ "on_error") :
    (nameNull s).lookup name = s.lookup name := by
  unfold nameNull
  split
  case h_1 => exact Entries.lookup_set_of_ne apart _ _
  case h_2 => rfl

theorem lookup_nameNull_of_null (missing : s.lookup "on_error" = some .null) :
    (nameNull s).lookup "on_error" = some (.text "null") := by
  rw [nameNull, missing]
  exact Entries.lookup_set_self _ _ _

theorem nameNull_of_ne_null (named : s.lookup "on_error" ≠ some .null) : nameNull s = s := by
  unfold nameNull
  split
  case h_1 missing => exact absurd missing named
  case h_2 => rfl

end

/-! ### Merging -/

section

variable (proper : (Value.record m).IsProper)
include proper

theorem lookup_setAll_onError :
    (Entries.setAll defaults (spread m)).lookup "on_error" = some (mode m) := by
  have outside : ∀ key, "on_error" ≠ "logging_" ++ key := outside_of_head (by decide)
  rw [lookup_setAll_spread proper, lookup_prefixed_of_ne outside, if_neg (by decide), chosen, mode]
  cases m.lookup "on_error" <;> rfl

theorem lookup_merge_of_ne {name : String} (apart : name ≠ "on_error") :
    (merge m).lookup name = ((prefixed m).lookup name).or
      (if name = "logging" then defaults.lookup name else chosen m name) := by
  rw [merge, lookup_nameNull_of_ne _ apart, lookup_setAll_spread proper]

/-- Every setting comes from its one place. -/
theorem merged_merge : Merged m (merge m) where
  distinct := by
    rw [merge, map_fst_nameNull]
    exact Entries.nodup_setAll (by decide) _
  names name := by
    rw [merge, map_fst_nameNull, Entries.mem_keys_iff, lookup_setAll_spread proper,
      Option.isSome_or, Bool.or_eq_true, isSome_lookup_prefixed_iff, Entries.mem_keys_iff,
      Entries.mem_keys_iff]
    by_cases here : name = "logging"
    · simp [here, or_comm]
    · simp [here, chosen, Option.isSome_or, or_comm, or_assoc, or_left_comm]
  logging key := by
    rw [lookup_merge_of_ne proper (outside_of_head (by decide) key).symm, lookup_prefixed,
      if_neg (prefix_ne_logging key)]
  unnamed missing :=
    lookup_nameNull_of_null _ ((lookup_setAll_onError proper).trans (congrArg some missing))
  named given := by
    have found := lookup_setAll_onError proper
    rw [merge, nameNull_of_ne_null _ fun missing => given (Option.some.inj (found.symm.trans missing)),
      found]
  other name apart unlike outside := by
    rw [lookup_merge_of_ne proper unlike, lookup_prefixed_of_ne outside, if_neg apart, Option.none_or]

theorem get_precision_merge : (merge m).get "precision" = precision m := by
  have found := (merged_merge proper).other "precision" (by decide) (by decide)
    (outside_of_head (by decide))
  rw [get, found, chosen, precision]
  cases m.lookup "precision" <;> rfl

theorem get_onError_merge (named : mode m ≠ .null) : (merge m).get "on_error" = mode m := by
  rw [get, (merged_merge proper).named named, Option.getD_some]

theorem isOnError_merge_iff : isOnError ((merge m).get "on_error") = true ↔ IsMode (mode m) := by
  by_cases missing : mode m = .null
  · rw [get, (merged_merge proper).unnamed missing, missing]
    exact iff_of_true rfl .unnamed
  · rw [get_onError_merge proper missing, isOnError_iff missing]

end

/-- A file is refused for the mode of failing rows first, and for the places of results then. -/
theorem merges_ofValue (proper : (Value.record m).IsProper) :
    Merges m (ofValue (.record m)) := by
  have modes := isOnError_merge_iff proper
  have places : isPrecision (precision m) = true ↔ IsPlaces (precision m) := isPrecision_iff
  rw [ofValue_record]
  rcases check_cases (merge m) with
    ⟨bad, checked⟩ | ⟨good, bad, checked⟩ | ⟨good, usable, checked⟩
  · have refused : ¬ IsMode (mode m) := modes.not.mp (Bool.eq_false_iff.mp bad)
    have named : mode m ≠ .null := fun missing => refused (missing ▸ .unnamed)
    rw [checked, get_onError_merge proper named]
    exact ⟨iff_of_true ⟨_, rfl⟩ (.inl refused), fun e same => .inl ⟨refused, by cases same; rfl⟩,
      fun s same => by cases same⟩
  · rw [get_precision_merge proper] at bad checked
    have mode := modes.mp good
    have refused := places.not.mp (Bool.eq_false_iff.mp bad)
    rw [checked]
    exact ⟨iff_of_true ⟨_, rfl⟩ (.inr refused), fun e same => .inr ⟨mode, by cases same; rfl⟩,
      fun s same => by cases same⟩
  · rw [get_precision_merge proper] at usable
    have accepted : ¬ (¬ IsMode (mode m) ∨ ¬ IsPlaces (precision m)) :=
      not_or_intro (not_not_intro (modes.mp good)) (not_not_intro (places.mp usable))
    rw [checked]
    refine ⟨iff_of_false (fun refused => ?_) accepted, fun e refused => ?_, fun s same => ?_⟩
    · obtain ⟨e, refused⟩ := refused
      cases refused
    · cases refused
    · cases same
      exact merged_merge proper

/-! ### The order of lines -/

/-- What is asked for in one order of the fields is asked for in every order. -/
theorem Merged.of_perm {s : Settings} (distinct : (m.map (·.1)).Nodup) (perm : m.Perm written)
    (merged : Merged written s) : Merged m s := by
  have same (name : String) : written.lookup name = m.lookup name :=
    (Entries.lookup_eq_of_perm distinct perm name).symm
  have block : nested written = nested m := by rw [nested, nested, same]
  have lines : chosen written = chosen m := by
    funext name
    rw [chosen, chosen, same]
  have modes : mode written = mode m := by rw [mode, mode, same]
  have keys (name : String) : name ∈ written.map (·.1) ↔ name ∈ m.map (·.1) :=
    (perm.map _).mem_iff.symm
  obtain ⟨distinct', names, logging, unnamed, named, other⟩ := merged
  simp only [block, lines, modes, keys] at names logging unnamed named other
  exact ⟨distinct', names, logging, unnamed, named, other⟩

theorem Merges.of_perm {result : Except Error Settings} (distinct : (m.map (·.1)).Nodup)
    (perm : m.Perm written) (merges : Merges written result) : Merges m result := by
  have same (name : String) : written.lookup name = m.lookup name :=
    (Entries.lookup_eq_of_perm distinct perm name).symm
  have modes : mode written = mode m := by rw [mode, mode, same]
  have places : precision written = precision m := by rw [precision, precision, same]
  obtain ⟨refused, cause, merged⟩ := merges
  rw [modes, places] at refused cause
  exact ⟨refused, cause, fun s accepted => (merged s accepted).of_perm distinct perm⟩

/-! ### Files -/

section

variable [Limits] [Formats] {s : Store} {folder : Path}

def Holds (s : Store) (folder : Path) (m : Fields) : Prop :=
  ∃ bytes text, s.read (folder.child fileName) = .ok bytes ∧ Text.decode bytes = .ok text ∧
    Formats.readSettings text = .ok (.record m)

omit [Formats] in
theorem exists?_of_read {path : Path} {bytes : Text.Bytes} (read : s.read path = .ok bytes) :
    s.exists? path = .ok true := by
  unfold Store.read at read
  split at read
  case h_1 => cases read
  case h_2 stored accepted found =>
    refine Store.exists?_eq_true_iff.mpr ⟨(Store.refusal?_eq_none_iff.mp accepted).1, ?_⟩
    rw [Store.has, Store.isFile, found]
    rfl
  case h_3 => cases read

omit [Limits] in
theorem ofBytes_eq {bytes : Text.Bytes} {text : String} {value : Value}
    (decoded : Text.decode bytes = .ok text) (parsed : Formats.readSettings text = .ok value) :
    ofBytes bytes = ofValue value := by
  simp only [ofBytes, decoded, Except.mapError, bind, Except.bind, parsed]

theorem load_of_holds (held : Holds s folder m) : load s folder = ofValue (.record m) := by
  obtain ⟨bytes, text, read, decoded, parsed⟩ := held
  rw [← ofBytes_eq decoded parsed]
  simp only [load, exists?_of_read read, read]
  rfl

theorem isProper_of_holds (sound : Formats.Sound) (held : Holds s folder m) :
    (Value.record m).IsProper := by
  obtain ⟨bytes, text, -, -, parsed⟩ := held
  exact sound.settings text _ parsed

theorem load_of_absent (absent : s.exists? (folder.child fileName) = .ok false) :
    load s folder = .ok defaults := by
  simp only [load, absent]
  rfl

end

/-- The settings are merged name by name, in whatever order they are written. A project gets the
usual settings or those that its own file gives, whichever projects were opened before. -/
theorem merges_exactly [Limits] [Formats] (sound : Formats.Sound) :
    (∀ m written : Fields, (Value.record m).IsProper → m.Perm written →
      Merges m (ofValue (.record written))) ∧
    ∀ (s : Session) (earlier : List Path) (folder : Path),
      let after := s.setProjects earlier
      (s.store.exists? (folder.child fileName) = .ok false →
        load after.store folder = .ok defaults) ∧
      ∀ m, Holds s.store folder m →
        load after.store folder = ofValue (.record m) ∧ Merges m (load after.store folder) := by
  refine ⟨fun m written proper perm => ?_, fun s earlier folder => ?_⟩
  · cases proper with
    | record all distinct =>
      have proper : (Value.record written).IsProper :=
        .record (fun field member => all field (perm.mem_iff.mpr member))
          ((perm.map _).nodup_iff.mp distinct)
      exact (merges_ofValue proper).of_perm distinct perm
  · intro after
    have same : after.store = s.store := s.store_setProjects earlier
    rw [same]
    refine ⟨load_of_absent, fun m held => ?_⟩
    have loaded := load_of_holds held
    exact ⟨loaded, loaded ▸ merges_ofValue (isProper_of_holds sound held)⟩

section

attribute [local instance] Limits.standard Formats.standard

/-- A name on a line of its own and in the block, a mode without a value, and a name that is not
known. -/
def twiceGiven : Fields := [
  ("logging_fsync", .bool true),
  ("on_error", .null),
  ("logging", .record [("fsync", .bool false), ("note", .int 7)])]

def twiceGivenFile : String :=
  "logging_fsync: yes\non_error:\nlogging:\n  fsync: no\n  note: 7\n"

/-- The block counts in either order, also after projects without a settings file were opened. -/
theorem merges_exactly_twice_given :
    let s := Command.settingsSession twiceGivenFile
    (∃ settings, ofValue (.record twiceGiven.reverse) = .ok settings ∧
      settings.lookup "logging_fsync" = some (.bool false) ∧
      settings.lookup "on_error" = some (.text "null")) ∧
      load (s.setProjects [.ofText "a", .ofText "."]).store (.ofText ".") =
        ofValue (.record twiceGiven) ∧
      load (s.setProjects [.ofText "."]).store (.ofText "a") = .ok defaults := by
  intro s
  have held : Holds s.store (.ofText ".") twiceGiven :=
    ⟨Text.encode twiceGivenFile, twiceGivenFile, Formula.eq_ok_of_toOption (by decide +kernel),
      by cbv, by cbv⟩
  have merges := (merges_exactly Formats.sound_standard).1 twiceGiven _
    (isProper_of_holds Formats.sound_standard held)
    twiceGiven.reverse_perm.symm
  have settled := ((merges_exactly Formats.sound_standard).2 s [.ofText "a", .ofText "."]
    (.ofText ".")).2 _ held
  have usual := ((merges_exactly Formats.sound_standard).2 s [.ofText "."] (.ofText "a")).1
    (Formula.eq_ok_of_toOption (by decide +kernel))
  refine ⟨?_, settled.1, usual⟩
  cases result : ofValue (.record twiceGiven.reverse) with
  | error e =>
    rcases merges.refused.mp ⟨e, result⟩ with mode | places
    · exact absurd .unnamed mode
    · exact absurd .full places
  | ok settings =>
    have merged := merges.merged settings result
    exact ⟨settings, rfl, merged.logging "fsync", merged.unnamed rfl⟩

end

end Reckon.Project.Settings
