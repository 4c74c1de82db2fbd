import Mathlib
import Reckon.Proofs.Causes
import Reckon.Proofs.Naming
import Reckon.Proofs.Substitution

/-!
What a formula takes from an assignment. An evaluation looks up the names among the tokens and no
others, so assignments that agree on these names give the same outcome, but for the names that are
listed where one is missing. Values by position are bound to the same names, in ascending order.
-/

namespace Reckon.Formula

variable {assignment other : Fields} {formula : String} {ts : List Token}

/-! ### Names that are looked up -/

theorem mem_nameTexts {name : String} :
    name ∈ nameTexts ts ↔ ∃ t ∈ ts, t.kind = .name ∧ t.text = name := by
  simp [nameTexts, and_assoc]

def usedNames (formula : String) : List String :=
  match tokenize formula with
  | .ok ts => nameTexts ts
  | .error _ => []

theorem usedNames_of_tokenize (read : tokenize formula = .ok ts) :
    usedNames formula = nameTexts ts := by
  rw [usedNames, read]

theorem usedNames_of_compile (compiled : compile formula = .ok ts) :
    usedNames formula = nameTexts ts := by
  obtain ⟨tokens, read, ordered⟩ := bind_eq_ok_iff.mp compiled
  rw [usedNames_of_tokenize (mapError_eq_ok_iff.mp read), nameTexts_of_toPostfix ordered]

/-! ### Assignments that agree -/

/-- Each of the names has the same value in both assignments, or a value in neither. -/
def Agree (names : List String) (assignment other : Fields) : Prop :=
  ∀ name ∈ names, assignment.lookup name = other.lookup name

namespace Agree

theorem alike_stack (ops : Operations) (agree : Agree (nameTexts ts) assignment other)
    (stack : List Float) :
    Alike (evaluationStack ops assignment stack ts) (evaluationStack ops other stack ts) := by
  induction ts generalizing stack with
  | nil => exact .ok stack
  | cons t ts ih =>
    rw [Agree, nameTexts_cons, List.forall_mem_append] at agree
    obtain ⟨here, later⟩ := agree
    have first (kind : t.kind = .name) : assignment.lookup t.text = other.lookup t.text :=
      here t.text (mem_nameTexts.mpr ⟨t, List.mem_singleton_self t, kind, rfl⟩)
    rw [evaluationStack_cons, evaluationStack_cons]
    exact (alike_step ops first stack).bind (ih later)

theorem alike_compute (ops : Operations) (agree : Agree (usedNames formula) assignment other) :
    Alike (compute ops formula assignment) (compute ops formula other) := by
  unfold compute
  cases compiled : compile formula with
  | error e => exact .refl _
  | ok ts =>
    rw [usedNames_of_compile compiled] at agree
    exact (agree.alike_stack ops []).bind fun _ => .refl _

theorem setAll {names : List String} {extra : Fields} (unused : ∀ field ∈ extra, field.1 ∉ names) :
    Agree names (Entries.setAll assignment extra) assignment := by
  intro name member
  refine Entries.lookup_setAll_of_ne fun field added same => ?_
  exact unused field added (same ▸ member)

end Agree

def Error.unlisted : Error → Error
  | .notProvided name _ => .notProvided name []
  | .evaluation cause => .evaluation cause.unlisted
  | e => e

theorem Error.Akin.unlisted_wrap [Limits] {e e' : Error} (akin : e.Akin e') :
    e.wrap.unlisted = e'.wrap.unlisted := by
  cases akin <;> rfl

theorem Alike.unlisted_wrap [Limits] {α : Type} {first second : Except Error α}
    (alike : Alike first second) :
    (first.mapError Error.wrap).mapError Error.unlisted =
      (second.mapError Error.wrap).mapError Error.unlisted := by
  cases alike with
  | ok a => rfl
  | error akin => exact congrArg Except.error akin.unlisted_wrap

/-- Only the names among the tokens of a formula matter to its value. Under two assignments that
agree on them it is the same float, or the same error but for the list of provided names; so names
that do not occur in the formula may be added to an assignment. -/
theorem evaluateNamed_of_agree [Limits] (ops : Operations) (formula : String) (assignment : Fields) :
    (∀ other : Fields, Agree (usedNames formula) assignment other →
      (evaluateNamed ops formula assignment).mapError Error.unlisted =
        (evaluateNamed ops formula other).mapError Error.unlisted) ∧
    ∀ extra : Fields, (∀ field ∈ extra, field.1 ∉ usedNames formula) →
      (evaluateNamed ops formula (Entries.setAll assignment extra)).mapError Error.unlisted =
        (evaluateNamed ops formula assignment).mapError Error.unlisted := by
  have same {one two : Fields} (agree : Agree (usedNames formula) one two) :
      (evaluateNamed ops formula one).mapError Error.unlisted =
        (evaluateNamed ops formula two).mapError Error.unlisted :=
    (agree.alike_compute ops).unlisted_wrap
  exact ⟨fun other agree => same agree, fun extra unused => same (Agree.setAll unused)⟩

section

attribute [local instance] Limits.standard

/-- A variable is missing under assignments of which one provides another name. -/
theorem evaluateNamed_of_agree_missing :
    (evaluateNamed .machine "a+c" [("b", .null), ("a", .float 1)]).mapError Error.unlisted =
        .error (.evaluation (.notProvided "c" [])) ∧
      (evaluateNamed .machine "a+c" (Entries.setAll [("a", .float 1)] [("b", .null)])).mapError
        Error.unlisted = .error (.evaluation (.notProvided "c" [])) := by
  have used : usedNames "a+c" = ["a", "c"] := by decide +kernel
  have compiled : compile "a+c" =
      .ok [⟨.name, "a", some 0⟩, ⟨.name, "c", some 2⟩, ⟨.operator, "+", some 1⟩] :=
    eq_ok_of_toOption (by decide +kernel)
  have one : lookup [("a", .float 1)] "a" = .ok 1 := eq_ok_of_toOption (by decide +kernel)
  have missing : evaluateNamed .machine "a+c" [("a", .float 1)] =
      .error (.evaluation (.notProvided "c" ["a"])) := by
    simp only [evaluateNamed, compute, compiled, Except.bind, evaluatePostfix, evaluationStack,
      evaluationStep, one]
    rfl
  obtain ⟨agreeing, added⟩ := evaluateNamed_of_agree .machine "a+c" [("a", .float 1)]
  rw [missing, used] at agreeing
  rw [missing, used] at added
  refine ⟨(agreeing _ ?_).symm, added _ (by simp)⟩
  simp [Agree, List.lookup]

end

/-! ### Values by position -/

def Error.isBinding : Error → Bool
  | .notProvided _ _ => true
  | .countMismatch _ _ => true
  | _ => false

theorem Error.not_binding_of_syntactic {e : Error} (syntactic : e.isSyntactic = true) :
    e.isBinding = false := by
  cases e with
  | notProvided | countMismatch => cases syntactic
  | _ => rfl

theorem Error.eq_of_wrap_eq [Limits] {e cause : Error} (same : e.wrap = .evaluation cause) : e = cause := by
  unfold wrap at same
  split at same
  case isTrue => exact Error.evaluation.inj same
  case isFalse unreported =>
    rw [same] at unreported
    exact absurd rfl unreported

/-- Where all variables are bound, none is reported missing. -/
theorem not_binding_of_compute {a : Arithmetic} {e : Error}
    (bound : ∀ name ∈ usedNames formula, ∃ value, assignment.lookup name = some value)
    (failed : compute a.operations formula assignment = .error e) : e.isBinding = false := by
  rcases bind_eq_error_iff.mp failed with uncompiled | ⟨ts, compiled, stopped⟩
  · exact Error.not_binding_of_syntactic (isSyntactic_of_compile uncompiled)
  · rw [usedNames_of_compile compiled] at bound
    rcases error_of_evaluatePostfix stopped with ⟨t, member, stops⟩ | ⟨remaining, rfl⟩
    · cases stops with
      | number kind unread =>
        rw [notNumeral_of_literal unread]
        rfl
      | name kind missing =>
        obtain ⟨value, known⟩ := bound t.text (mem_nameTexts.mpr ⟨t, member, kind, rfl⟩)
        rcases error_of_bound known missing with rfl | rfl <;> rfl
      | operands operator => rfl
      | operation raised => cases Arithmetic.fails_of_raises raised <;> rfl
      | unknown strange => rfl
    · rfl

theorem Alike.eq {α : Type} {first second : Except Error α} (alike : Alike first second)
    (bound : ∀ e, first = .error e → e.isBinding = false) : first = second := by
  cases alike with
  | ok a => rfl
  | error akin =>
    cases akin with
    | same e => rfl
    | notProvided name _ _ => cases bound _ rfl

theorem lookup_zip {κ α : Type} [BEq κ] [LawfulBEq κ] {keys : List κ} {entries : List α}
    (distinct : keys.Nodup) {i : Nat} {key : κ} {entry : α} (named : keys[i]? = some key)
    (valued : entries[i]? = some entry) : (keys.zip entries).lookup key = some entry := by
  induction keys generalizing entries i with
  | nil => simp at named
  | cons first keys ih =>
    obtain ⟨new, distinct⟩ := List.nodup_cons.mp distinct
    cases entries with
    | nil => simp at valued
    | cons value entries =>
      cases i with
      | zero =>
        obtain rfl : first = key := by simpa using named
        obtain rfl : value = entry := by simpa using valued
        exact List.lookup_cons_self
      | succ i =>
        have apart : (key == first) = false := by
          rw [beq_eq_false_iff_ne]
          rintro rfl
          exact new (List.mem_of_getElem? named)
        rw [List.zip_cons_cons, List.lookup_cons, apart]
        exact ih distinct named valued

section

variable [Limits] (ops : Operations) {values : List Value}

theorem evaluate_of_length (count : (variableNames formula).length = values.length) :
    evaluate ops formula values =
      (evaluateNamed ops formula ((variableNames formula).zip values)).map
        fun x => ⟨x, variableNames formula⟩ := by
  simp only [evaluate, count, ne_eq, not_true_eq_false, if_false]
  rfl

theorem evaluate_of_length_ne (count : (variableNames formula).length ≠ values.length) :
    evaluate ops formula values =
      .error (.evaluation (.countMismatch (variableNames formula) values.length)) := by
  simp only [evaluate, ne_eq, count, not_false_eq_true, if_true]
  rfl

end

def BindsInOrder (assignment : Fields) (names : List String) (values : List Value) : Prop :=
  ∀ (i : Nat) (name : String) (value : Value), names[i]? = some name → values[i]? = some value →
    assignment.lookup name = some value

theorem BindsInOrder.exists_value {names : List String} {values : List Value}
    (binds : BindsInOrder assignment names values) (count : values.length = names.length)
    {name : String} (member : name ∈ names) : ∃ value, assignment.lookup name = some value := by
  obtain ⟨i, inside, rfl⟩ := List.getElem_of_mem member
  have near : i < values.length := count ▸ inside
  exact ⟨values[i], binds i _ _ (List.getElem?_eq_getElem inside) (List.getElem?_eq_getElem near)⟩

theorem bindsInOrder_zip {names : List String} (distinct : names.Nodup) (values : List Value) :
    BindsInOrder (names.zip values) names values :=
  fun _ _ _ named valued => lookup_zip distinct named valued

theorem BindsInOrder.agree {names : List String} {values : List Value}
    (binds : BindsInOrder assignment names values) (others : BindsInOrder other names values)
    (count : values.length = names.length) : Agree names assignment other := by
  intro name member
  obtain ⟨i, inside, rfl⟩ := List.getElem_of_mem member
  have near : i < values.length := count ▸ inside
  have named := List.getElem?_eq_getElem inside
  have valued := List.getElem?_eq_getElem near
  rw [binds i _ _ named valued, others i _ _ named valued]

/-- Values are bound by position to the distinct names of a formula in ascending order. Just if there
are more or fewer values than names the evaluation fails for that. Otherwise no variable is missing,
and the outcome is that under any assignment which binds these names to the values. -/
theorem evaluate_binds_in_order [Limits] (a : Arithmetic) (read : tokenize formula = .ok ts)
    (values : List Value) :
    let names := (nameTexts ts).toFinset.sort (· ≤ ·)
    (values.length ≠ names.length →
      evaluate a.operations formula values =
        .error (.evaluation (.countMismatch names values.length))) ∧
    (values.length = names.length →
      (∀ cause, evaluate a.operations formula values = .error (.evaluation cause) →
        cause.isBinding = false) ∧
      ∀ assignment : Fields, BindsInOrder assignment names values →
        evaluate a.operations formula values =
          (evaluateNamed a.operations formula assignment).map fun x => ⟨x, names⟩) := by
  intro names
  have listed : variableNames formula = names := by
    rw [variableNames_of_tokenize read, sortNames_eq_sort]
  have used : ∀ name ∈ usedNames formula, name ∈ names := by
    intro name member
    rw [usedNames_of_tokenize read] at member
    exact (Finset.mem_sort _).mpr (List.mem_toFinset.mpr member)
  have zipped := bindsInOrder_zip (Finset.sort_nodup (nameTexts ts).toFinset (· ≤ ·)) values
  refine ⟨fun count => ?_, fun count => ⟨fun cause failed => ?_, fun assignment binds => ?_⟩⟩
  · rw [← listed] at count ⊢
    exact evaluate_of_length_ne a.operations count.symm
  · rw [evaluate_of_length a.operations (by rw [listed, count]), map_eq_error_iff, listed] at failed
    obtain ⟨e, stopped, wrapped⟩ : ∃ e, compute a.operations formula (names.zip values) = .error e ∧
        e.wrap = .evaluation cause := mapError_eq_error_iff.mp failed
    rw [← Error.eq_of_wrap_eq wrapped]
    exact not_binding_of_compute (fun name member => zipped.exists_value count (used name member))
      stopped
  · have bound {assignment : Fields} (binds : BindsInOrder assignment names values) :
        ∀ e, compute a.operations formula assignment = .error e → e.isBinding = false :=
      fun e => not_binding_of_compute fun name member => binds.exists_value count (used name member)
    have agree : Agree (usedNames formula) (names.zip values) assignment := fun name member =>
      zipped.agree binds count name (used name member)
    have same := (agree.alike_compute a.operations).eq (bound zipped)
    rw [evaluate_of_length a.operations (by rw [listed, count]), listed, evaluateNamed, same]
    rfl

section

attribute [local instance] Limits.standard

/-- The first value goes to the name that comes first in the order of code points. -/
theorem evaluate_binds_in_order_difference :
    evaluate .machine "b-B" [.int 1, .int 10] = .ok ⟨9, ["B", "b"]⟩ := by
  have read : tokenize "b-B" =
      .ok [⟨.name, "b", some 0⟩, ⟨.operator, "-", some 1⟩, ⟨.name, "B", some 2⟩] :=
    tokenize_eq_ok (by decide +kernel)
  have listed : (nameTexts [⟨.name, "b", some 0⟩, ⟨.operator, "-", some 1⟩,
      ⟨.name, "B", some 2⟩]).toFinset.sort (· ≤ ·) = ["B", "b"] := by
    rw [← sortNames_eq_sort]
    decide +kernel
  obtain ⟨-, binding⟩ := evaluate_binds_in_order .machine read [.int 1, .int 10]
  rw [listed] at binding
  have value : evaluateNamed .machine "b-B" [("a", .null), ("b", .int 10), ("B", .int 1)] = .ok 9 :=
    eq_ok_of_toOption (by decide +kernel)
  have binds : BindsInOrder [("a", .null), ("b", .int 10), ("B", .int 1)] ["B", "b"]
      [.int 1, .int 10] := by
    rintro (_ | _ | i) name value named valued
    · cases named
      cases valued
      rfl
    · cases named
      cases valued
      rfl
    · simp at named
  refine ((binding rfl).2 _ binds).trans ?_
  change (evaluateNamed .machine "b-B" _).map _ = _
  rw [value]
  rfl

end

end Reckon.Formula
