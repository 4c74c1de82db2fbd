import Mathlib
import Reckon.Proofs.Reporting

/-!
The causes of failed evaluations. A formula whose tokens cannot be read or ordered fails for that
reason; once they are ordered, evaluating them fails for other reasons alone. So the kind of a cause
tells whether the formula has an order of evaluation. Floats never make an evaluation fail without a
report.
-/

namespace Reckon.Formula

variable {a : Arithmetic} {assignment : Fields} {formula : String} {e cause : Error}

/-! ### Reading and evaluating -/

theorem isSyntactic_of_compile (failed : compile formula = .error e) : e.isSyntactic = true := by
  rcases error_of_compile failed with ⟨e', rfl⟩ | rfl <;> rfl

theorem Error.not_syntactic (other : e.isStructural = false) : e.isSyntactic = false := by
  cases e <;> first | rfl | exact other

theorem not_syntactic_of_evaluatePostfix {ts : List Token} (nodes : ∀ t ∈ ts, t.IsNode)
    (failed : evaluatePostfix a.operations assignment ts = .error e) : e.isSyntactic = false := by
  rcases error_of_evaluatePostfix failed with ⟨t, member, stops⟩ | ⟨remaining, rfl⟩
  · cases stops with
    | number kind unread =>
      rw [notNumeral_of_literal unread]
      rfl
    | name kind missing => exact Error.not_syntactic (blameless_lookup _ _ e missing)
    | operands operator => rfl
    | operation raised => exact Error.not_syntactic (a.not_structural_of_raises raised)
    | unknown other => exact absurd (nodes t member) other
  · rfl

/-- A formula is blamed for how it is written just if its tokens cannot be read or ordered. -/
theorem isSyntactic_iff_of_compute
    (failed : compute a.operations formula assignment = .error cause) :
    cause.isSyntactic = true ↔ compile formula = .error cause := by
  refine ⟨fun syntactic => ?_, isSyntactic_of_compile⟩
  rcases bind_eq_error_iff.mp failed with uncompiled | ⟨ts, compiled, stopped⟩
  · exact uncompiled
  · obtain ⟨tokens, -, ordered⟩ := bind_eq_ok_iff.mp compiled
    have other := not_syntactic_of_evaluatePostfix (isNode_of_toPostfix ordered) stopped
    rw [other] at syntactic
    cases syntactic

/-! ### Floats -/

def AreFloats (assignment : Fields) : Prop :=
  ∀ field ∈ assignment, ∃ x, field.2 = .float x

section

variable [Limits]

theorem not_meetsUnruly_of_floats {ops : Operations} (floats : AreFloats assignment) :
    ¬MeetsUnruly ops formula assignment := by
  rintro ⟨ts, -, front, t, back, next, -, -, -, value, bound, unruly⟩
  obtain ⟨before, behind, rfl, -⟩ := List.lookup_eq_some_iff.mp bound
  obtain ⟨x, rfl⟩ := floats (t.text, value) (by simp)
  have shown : (Value.float x).isShowable = true := isShowable_of_height rfl rfl
  have hidden : (!(Value.float x).isShowable) = true := unruly
  rw [shown] at hidden
  cases hidden

structure IsCause (formula : String) (cause : Error) : Prop where
  reported : cause.isReported = true
  syntactic : cause.isSyntactic = true ↔ compile formula = .error cause

theorem exists_cause_of_wrap {α : Type} {result : Except Error α} (reports : Reports result)
    (syntactic : ∀ cause, result = .error cause →
      (cause.isSyntactic = true ↔ compile formula = .error cause))
    (failed : result.mapError .wrap = .error e) :
    ∃ cause, e = .evaluation cause ∧ IsCause formula cause := by
  cases result with
  | ok x => cases failed
  | error cause =>
    have reported := reports cause rfl
    have wrapped : cause.wrap = e := Except.error.inj failed
    rw [Error.wrap, if_pos reported] at wrapped
    exact ⟨cause, wrapped.symm, reported, syntactic cause rfl⟩

theorem exists_cause_of_evaluateNamed (floats : AreFloats assignment)
    (failed : evaluateNamed a.operations formula assignment = .error e) :
    ∃ cause, e = .evaluation cause ∧ IsCause formula cause :=
  exists_cause_of_wrap (reports_compute (not_meetsUnruly_of_floats floats))
    (fun _ => isSyntactic_iff_of_compute) failed

end

theorem areFloats_zip (names : List String) (values : List Float) :
    AreFloats (names.zip (values.map .float)) := by
  intro field member
  obtain ⟨x, -, same⟩ := List.mem_map.mp (List.of_mem_zip member).2
  exact ⟨x, same.symm⟩

theorem exists_cause_of_evaluate [Limits] {values : List Float}
    (failed : evaluate a.operations formula (values.map .float) = .error e) :
    ∃ cause, e = .evaluation cause ∧ IsCause formula cause := by
  have wrapped := map_eq_error_iff.mp failed
  split at wrapped
  case isTrue =>
    refine exists_cause_of_wrap (.error rfl) ?_ wrapped
    rintro cause ⟨⟩
    exact ⟨Bool.noConfusion, isSyntactic_of_compile⟩
  case isFalse =>
    have floats := areFloats_zip (variableNames formula) values
    exact exists_cause_of_wrap (reports_compute (not_meetsUnruly_of_floats floats))
      (fun _ => isSyntactic_iff_of_compute) wrapped

end Reckon.Formula
