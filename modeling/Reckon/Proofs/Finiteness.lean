import Reckon.Proofs.Group
import Reckon.Proofs.Nearest

/-!
No formula gives an infinity or no number. Each way onto the stack of an evaluation is guarded:
numbers by the lexer, variables by their lookup, sums, differences, products and quotients by
a check of the result, and powers by a check of their own. What the guards leave to the
arithmetic is that its operations on finite numbers give numbers at all.
-/

namespace Reckon.Formula

/-! ### Arithmetic -/

/-- What formulas take for granted of their arithmetic: an operation on finite numbers gives a
number, finite or infinite, and the square root a finite one. -/
structure Arithmetic.Sound (a : Arithmetic) : Prop where
  add : ∀ {x y : Float}, x.isFinite = true → y.isFinite = true → (a.add x y).isNaN = false
  sub : ∀ {x y : Float}, x.isFinite = true → y.isFinite = true → (a.sub x y).isNaN = false
  mul : ∀ {x y : Float}, x.isFinite = true → y.isFinite = true → (a.mul x y).isNaN = false
  div : ∀ {x y : Float}, x.isFinite = true → y.isFinite = true → (y == 0) = false →
    (a.div x y).isNaN = false
  sqrt : ∀ {x : Float}, x.isFinite = true → ¬x < 0 → (a.sqrt x).isFinite = true

end Reckon.Formula

namespace Reckon.Machine

open Float.Model

theorem lt_zero_of_unpack {x : Float} {m : Nat} {e : Int} {pos : 0 < m}
    (negative : x.toModel.unpack = .finite .negative m e pos) : x < 0 := by
  apply decide_eq_true
  change UnpackedFloat.lt x.toModel.unpack (0 : Float).toModel.unpack = true
  rw [negative, unpack_zero]
  rfl

theorem beq_zero_of_unpack {x : Float} {s : UnpackedFloat.Sign}
    (zero : x.toModel.unpack = .zero s) : (x == 0) = true := by
  change UnpackedFloat.beq x.toModel.unpack (0 : Float).toModel.unpack = true
  rw [zero, unpack_zero]
  rfl

theorem isFinite_float_sqrt {x : Float} (finite : x.isFinite = true) (nonnegative : ¬x < 0) :
    x.sqrt.isFinite = true := by
  change (ofUnpacked (UnpackedFloat.sqrt Format.binary64 x.toModel.unpack)).isFinite = true
  change x.toModel.unpack.isFinite = true at finite
  cases unpacked : x.toModel.unpack with
  | notANumber => simp [unpacked, UnpackedFloat.isFinite] at finite
  | infinity s => simp [unpacked, UnpackedFloat.isFinite] at finite
  | zero s => cases s <;> rfl
  | finite s m e pos =>
    cases s with
    | positive => exact isFinite_sqrt (canonical_of_unpack unpacked)
    | negative => exact absurd (lt_zero_of_unpack unpacked) nonnegative

/-- The arithmetic of the machine is as formulas take it for granted. -/
theorem sound : Formula.Arithmetic.machine.Sound where
  add left right := (isNaN_ofUnpacked _).trans (isNaN_add left right)
  sub left right := (isNaN_ofUnpacked _).trans (isNaN_sub left right)
  mul left right := (isNaN_ofUnpacked _).trans (isNaN_mul left right)
  div left right filled := by
    refine (isNaN_ofUnpacked _).trans (isNaN_div (isFinite_iff.mp left).1 right ?_)
    intro s zero
    rw [beq_zero_of_unpack zero] at filled
    cases filled
  sqrt := isFinite_float_sqrt

end Reckon.Machine

namespace Reckon.Formula

namespace Arithmetic

variable {a : Arithmetic}

theorem isFinite_of_finite {o : Operator} {left right x result : Float} (number : x.isNaN = false)
    (kept : finite o left right x = .ok result) : result.isFinite = true := by
  unfold finite at kept
  split at kept
  case isTrue => cases kept
  case isFalse bounded =>
    cases kept
    exact Machine.isFinite_iff.mpr ⟨number, Bool.eq_false_iff.mpr bounded⟩

/-- A power of finite numbers is checked whatever the arithmetic gives. -/
theorem isFinite_of_power {base exponent result : Float} (left : base.isFinite = true)
    (right : exponent.isFinite = true) (raised : a.power base exponent = .ok result) :
    result.isFinite = true := by
  simp only [power, left, right, Bool.and_self, if_true] at raised
  split at raised
  case isTrue => cases raised
  case isFalse real =>
    split at raised
    case isTrue => cases raised
    case isFalse bounded =>
      cases raised
      simp only [Bool.or_eq_true, not_or, Bool.not_eq_true] at real bounded
      exact Machine.isFinite_iff.mpr ⟨real.1, bounded⟩

theorem isFinite_of_apply (sound : a.Sound) {o : Operator} {left right result : Float}
    (finite_left : left.isFinite = true) (finite_right : right.isFinite = true)
    (applied : a.apply o left right = .ok result) : result.isFinite = true := by
  cases o with
  | add => exact isFinite_of_finite (sound.add finite_left finite_right) applied
  | sub => exact isFinite_of_finite (sound.sub finite_left finite_right) applied
  | mul => exact isFinite_of_finite (sound.mul finite_left finite_right) applied
  | div =>
    simp only [apply] at applied
    split at applied
    case isTrue => cases applied
    case isFalse filled =>
      have divisor := Bool.eq_false_iff.mpr filled
      exact isFinite_of_finite (sound.div finite_left finite_right divisor) applied
  | pow => exact isFinite_of_power finite_left finite_right applied

theorem isFinite_of_root (sound : a.Sound) {operand result : Float}
    (finite : operand.isFinite = true) (rooted : a.root operand = .ok result) :
    result.isFinite = true := by
  unfold root at rooted
  split at rooted
  case isTrue => cases rooted
  case isFalse nonnegative =>
    cases rooted
    exact sound.sqrt finite nonnegative

end Arithmetic

theorem isFinite_of_lookup {assignment : Fields} {name : String} {x : Float}
    (found : lookup assignment name = .ok x) : x.isFinite = true := by
  unfold lookup at found
  split at found
  case h_1 => cases found
  case h_2 =>
    split at found
    case h_1 =>
      split at found
      case isTrue finite =>
        cases found
        exact finite
      case isFalse => cases found
    case h_2 => cases found
    case h_3 => cases found

/-! ### Stacks -/

def Finite (stack : List Float) : Prop :=
  ∀ x ∈ stack, x.isFinite = true

theorem finite_cons {x : Float} {stack : List Float} :
    Finite (x :: stack) ↔ x.isFinite = true ∧ Finite stack :=
  List.forall_mem_cons

theorem finite_of_push {stack next : List Float} {result : Except Error Float}
    (finite : Finite stack) (each : ∀ x, result = .ok x → x.isFinite = true)
    (pushed : push stack result = .ok next) : Finite next := by
  obtain ⟨x, computed, rfl⟩ := push_eq_ok_iff.mp pushed
  exact finite_cons.mpr ⟨each x computed, finite⟩

section

variable {a : Arithmetic} {assignment : Fields}

theorem finite_of_evaluationStep (sound : a.Sound) {stack next : List Float} {t : Token}
    (spells : Spells t.kind t.text.toList) (finite : Finite stack)
    (stepped : evaluationStep a.operations assignment stack t = .ok next) : Finite next := by
  unfold evaluationStep at stepped
  split at stepped
  case h_1 kind =>
    rw [kind] at spells
    refine finite_of_push finite (fun x reads => ?_) stepped
    exact (isMagnitude_of_literal spells (String.ofList_toList.symm ▸ reads)).2
  case h_2 => exact finite_of_push finite (fun x => isFinite_of_lookup) stepped
  case h_3 =>
    split at stepped
    case h_1 =>
      obtain ⟨operand, below⟩ := finite_cons.mp finite
      exact finite_of_push below (fun x => a.isFinite_of_root sound operand) stepped
    case h_2 => cases stepped
  case h_4 =>
    split at stepped
    case h_1 => cases stepped
    case h_2 =>
      split at stepped
      case h_1 =>
        obtain ⟨right, under⟩ := finite_cons.mp finite
        obtain ⟨left, below⟩ := finite_cons.mp under
        exact finite_of_push below (fun x => a.isFinite_of_apply sound left right) stepped
      case h_2 => cases stepped
  case h_5 => cases stepped

theorem finite_of_evaluationStack (sound : a.Sound) {ts : List Token}
    (spells : ∀ t ∈ ts, Spells t.kind t.text.toList) {stack last : List Float}
    (finite : Finite stack)
    (ran : evaluationStack a.operations assignment stack ts = .ok last) : Finite last := by
  induction ts generalizing stack with
  | nil => exact Except.ok.inj ran ▸ finite
  | cons t ts ih =>
    obtain ⟨first, others⟩ := List.forall_mem_cons.mp spells
    rw [evaluationStack_cons] at ran
    obtain ⟨next, stepped, ran⟩ := bind_eq_ok_iff.mp ran
    exact ih others (finite_of_evaluationStep sound first finite stepped) ran

def FiniteLabels (labels : List Label) : Prop :=
  ∀ x, .number x ∈ labels → x.isFinite = true

theorem finite_of_evaluateStep (sound : a.Sound) {stack next : List Float} {label : Label}
    (literal : FiniteLabels [label]) (finite : Finite stack)
    (stepped : Tree.evaluateStep a.operations assignment stack label = .ok next) : Finite next := by
  unfold Tree.evaluateStep at stepped
  split at stepped
  case h_1 x =>
    cases stepped
    exact finite_cons.mpr ⟨literal x List.mem_cons_self, finite⟩
  case h_2 => exact finite_of_push finite (fun x => isFinite_of_lookup) stepped
  case h_3 =>
    obtain ⟨operand, below⟩ := finite_cons.mp finite
    exact finite_of_push below (fun x => a.isFinite_of_root sound operand) stepped
  case h_4 =>
    split at stepped
    case h_1 =>
      obtain ⟨right, under⟩ := finite_cons.mp finite
      obtain ⟨left, below⟩ := finite_cons.mp under
      exact finite_of_push below (fun x => a.isFinite_of_apply sound left right) stepped
    case h_2 => cases stepped
  case h_5 => cases stepped
  case h_6 => cases stepped

theorem finite_of_combine (sound : a.Sound) {labels : List Label} (literals : FiniteLabels labels)
    {stack last : List Float} (finite : Finite stack)
    (ran : Tree.combine (Tree.evaluateStep a.operations assignment) stack labels = .ok last) :
    Finite last := by
  induction labels generalizing stack with
  | nil => exact Except.ok.inj ran ▸ finite
  | cons label labels ih =>
    rw [Tree.combine_cons] at ran
    obtain ⟨next, stepped, ran⟩ := bind_eq_ok_iff.mp ran
    refine ih (fun x later => literals x (List.mem_cons_of_mem label later)) ?_ ran
    refine finite_of_evaluateStep sound (fun x first => literals x ?_) finite stepped
    rw [List.mem_singleton.mp first]
    exact List.mem_cons_self

end

/-! ### Formulas -/

theorem finiteLabels_of_ofFormula {formula : String} {t : Tree}
    (built : Tree.ofFormula formula = .ok t) : FiniteLabels t.postorder := by
  intro x member
  cases spelledLabel_of_ofFormula built _ member with
  | number spells reads => exact (isMagnitude_of_literal spells reads).2

section

variable {a : Arithmetic} {assignment : Fields}

theorem isFinite_of_compute (sound : a.Sound) {formula : String} {x : Float}
    (computed : compute a.operations formula assignment = .ok x) : x.isFinite = true := by
  obtain ⟨ts, compiled, value⟩ := bind_eq_ok_iff.mp computed
  obtain ⟨results, ran, one⟩ := bind_eq_ok_iff.mp value
  rw [only_eq_ok_iff.mp one] at ran
  have finite := finite_of_evaluationStack sound (spells_of_compile compiled) (by simp [Finite]) ran
  exact finite x List.mem_cons_self

theorem isFinite_of_evaluateNamed [Limits] (sound : a.Sound) {formula : String} {x : Float}
    (computed : evaluateNamed a.operations formula assignment = .ok x) : x.isFinite = true :=
  isFinite_of_compute sound (mapError_eq_ok_iff.mp computed)

theorem isFinite_of_evaluate [Limits] (sound : a.Sound) {formula : String} {values : List Value}
    {outcome : Outcome} (computed : evaluate a.operations formula values = .ok outcome) :
    outcome.result.isFinite = true := by
  obtain ⟨x, wrapped, rfl⟩ := map_eq_ok_iff.mp computed
  have result := mapError_eq_ok_iff.mp wrapped
  split at result
  case isTrue => cases result
  case isFalse => exact isFinite_of_compute sound result

theorem isFinite_of_evaluate_tree (sound : a.Sound) {t : Tree} (literals : FiniteLabels t.postorder)
    {x : Float} (computed : t.evaluate a.operations assignment = .ok x) : x.isFinite = true := by
  obtain ⟨stack, ran, rfl⟩ := map_eq_ok_iff.mp computed
  have finite := finite_of_combine sound literals (by simp [Finite]) ran
  cases stack with
  | nil => decide +kernel
  | cons x below => exact finite x List.mem_cons_self

end

/-- No evaluation gives an infinity or no number, and none has one on its stack on the way. -/
theorem evaluation_isFinite [Limits] (a : Arithmetic) (sound : a.Sound) :
    (∀ formula assignment x, evaluateNamed a.operations formula assignment = .ok x →
      x.isFinite = true) ∧
    (∀ formula values outcome, evaluate a.operations formula values = .ok outcome →
      outcome.result.isFinite = true) ∧
    (∀ formula t assignment x, Tree.ofFormula formula = .ok t →
      t.evaluate a.operations assignment = .ok x → x.isFinite = true) ∧
    (∀ formula ts assignment front stack, compile formula = .ok ts → front <+: ts →
      evaluationStack a.operations assignment [] front = .ok stack → Finite stack) ∧
    (∀ formula t assignment front stack, Tree.ofFormula formula = .ok t → front <+: t.postorder →
      Tree.combine (Tree.evaluateStep a.operations assignment) [] front = .ok stack →
      Finite stack) := by
  have empty : Finite [] := by simp [Finite]
  refine ⟨fun formula assignment x => isFinite_of_evaluateNamed sound,
    fun formula values outcome => isFinite_of_evaluate sound,
    fun formula t assignment x built => ?_,
    fun formula ts assignment front stack compiled begins => ?_,
    fun formula t assignment front stack built begins => ?_⟩
  · exact isFinite_of_evaluate_tree sound (finiteLabels_of_ofFormula built)
  · have spells := spells_of_compile compiled
    exact finite_of_evaluationStack sound (fun t member => spells t (begins.subset member)) empty
  · have literals := finiteLabels_of_ofFormula built
    exact finite_of_combine sound (fun x member => literals x (begins.subset member)) empty

section

attribute [local instance] Limits.standard

/-- The square root of `9/4`, as the machine computes it. -/
theorem evaluation_isFinite_root :
    evaluateNamed .machine "sqrt(a/4)+b" [("a", .int 9), ("b", .text "1e3")] = .ok 1001.5 ∧
      (1001.5 : Float).isFinite = true := by
  have computed :
      evaluateNamed .machine "sqrt(a/4)+b" [("a", .int 9), ("b", .text "1e3")] = .ok 1001.5 :=
    eq_ok_of_toOption (by decide +kernel)
  exact ⟨computed, (evaluation_isFinite .machine Machine.sound).1 _ _ _ computed⟩

end

end Reckon.Formula
