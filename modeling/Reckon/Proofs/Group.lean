import Reckon.Proofs.Agreement

/-!
A group in parentheses is one operand. No token inside it looks below its opening parenthesis,
so that the yard runs the group as it runs the tokens of the group alone and puts them, in
their order of evaluation, behind the output. Nor does an evaluation look below the values it
started with, so that such a block of tokens pushes its one value on any stack.
-/

namespace Reckon.Formula

namespace Yard

/-- A yard above another one: below its stack waits `base`, and before its output stands
`below`. Both lists start with their last token. -/
def above (yard : Yard) (below base : List Token) : Yard :=
  ⟨yard.output ++ below, yard.stack ++ base⟩

theorem Holds.append {rank : Nat} {stack base : List Token} (holds : Holds rank stack)
    (bottom : Holds rank base) : Holds rank (stack ++ base) := by
  cases stack with
  | nil => exact bottom
  | cons top stack => exact holds

/-- A step does not see what waits below an opening parenthesis. -/
theorem Moves.above {yard next : Yard} {t : Token} (moves : Moves yard t next)
    {base : List Token} (bottom : ∀ rank, Holds rank base) (below : List Token) :
    Moves (yard.above below base) t (next.above below base) := by
  cases moves with
  | place operand => exact .place operand
  | wait kind => exact .wait kind
  | close kind others opens =>
    rw [Yard.above, List.append_assoc, Yard.above, List.append_assoc]
    exact .close kind others opens
  | operate spells way holds =>
    rw [Yard.above, List.append_assoc, Yard.above, List.append_assoc]
    exact .operate spells way (holds.append (bottom _))

theorem run_above {ts : List Token} {yard last : Yard} (ran : yard.run ts = .ok last)
    (base : List Token) (bottom : ∀ rank, Holds rank base) (below : List Token) :
    (yard.above below base).run ts = .ok (last.above below base) := by
  induction ts generalizing yard with
  | nil =>
    cases ran
    rfl
  | cons t ts ih =>
    rw [run_cons] at ran
    obtain ⟨next, stepped, ran⟩ := bind_eq_ok_iff.mp ran
    rw [run_cons_of_moves ((step_eq_ok_iff.mp stepped).above bottom below)]
    exact ih ran

/-- A group goes to the output as its tokens would on their own, and the stack stays. -/
theorem run_group {us block : List Token} (ordered : toPostfix us = .ok block)
    {first last : Token} (opens : first.kind = .opening) (ends : last.kind = .closing)
    (output stack : List Token) :
    run ⟨output, stack⟩ (first :: (us ++ [last])) = .ok ⟨block.reverse ++ output, stack⟩ := by
  obtain ⟨yard, ran, others, rfl⟩ := toPostfix_eq_ok_iff.mp ordered
  have inside : run ⟨output, first :: stack⟩ us = .ok (yard.above output (first :: stack)) :=
    run_above ran (first :: stack) (fun _ => .inl opens) output
  have close : Moves (yard.above output (first :: stack)) last
      ⟨yard.stack.reverse ++ (yard.output ++ output), stack⟩ :=
    .close ends others opens
  rw [run_cons_of_moves (.wait (.inr opens)), run_append, inside]
  refine (run_cons_of_moves close []).trans ?_
  simp [run]

end Yard

section

variable (ops : Operations) (assignment : Fields)

theorem evaluationStack_append (stack : List Float) (front back : List Token) :
    evaluationStack ops assignment stack (front ++ back) =
      (evaluationStack ops assignment stack front).bind fun next =>
        evaluationStack ops assignment next back := by
  induction front generalizing stack with
  | nil => rfl
  | cons t front ih =>
    rw [List.cons_append, evaluationStack_cons, evaluationStack_cons]
    cases evaluationStep ops assignment stack t with
    | error e => rfl
    | ok next => exact ih next

theorem push_eq_ok_iff {stack next : List Float} {result : Except Error Float} :
    push stack result = .ok next ↔ ∃ x, result = .ok x ∧ next = x :: stack := by
  cases result <;> simp [push, Except.map, eq_comm]

variable {ops assignment}

/-- A token that finds its operands takes nothing from what lies below them. -/
theorem evaluationStep_above {t : Token} {stack next : List Float}
    (stepped : evaluationStep ops assignment stack t = .ok next) (base : List Float) :
    evaluationStep ops assignment (stack ++ base) t = .ok (next ++ base) := by
  unfold evaluationStep at stepped ⊢
  split at stepped
  case h_1 | h_2 =>
    obtain ⟨x, read, rfl⟩ := push_eq_ok_iff.mp stepped
    exact push_eq_ok_iff.mpr ⟨x, read, rfl⟩
  case h_3 =>
    split at stepped
    case h_1 =>
      obtain ⟨x, read, rfl⟩ := push_eq_ok_iff.mp stepped
      exact push_eq_ok_iff.mpr ⟨x, read, rfl⟩
    case h_2 => cases stepped
  case h_4 =>
    split at stepped
    case h_1 => cases stepped
    case h_2 =>
      split at stepped
      case h_1 =>
        obtain ⟨x, read, rfl⟩ := push_eq_ok_iff.mp stepped
        exact push_eq_ok_iff.mpr ⟨x, read, rfl⟩
      case h_2 => cases stepped
  case h_5 => cases stepped

theorem evaluationStack_above {ts : List Token} {stack last : List Float}
    (ran : evaluationStack ops assignment stack ts = .ok last) (base : List Float) :
    evaluationStack ops assignment (stack ++ base) ts = .ok (last ++ base) := by
  induction ts generalizing stack with
  | nil =>
    cases ran
    rfl
  | cons t ts ih =>
    rw [evaluationStack_cons] at ran ⊢
    obtain ⟨next, stepped, ran⟩ := bind_eq_ok_iff.mp ran
    rw [evaluationStep_above stepped base]
    exact ih ran

theorem only_eq_ok_iff {α : Type} {results : List α} {a : α} :
    only results = .ok a ↔ results = [a] := by
  match results with
  | [] => simp [only]
  | [b] => simp [only]
  | _ :: _ :: _ => simp [only]

/-- Tokens that have a value push it on any stack. -/
theorem evaluationStack_of_evaluatePostfix {block : List Token} {x : Float}
    (value : evaluatePostfix ops assignment block = .ok x) (stack : List Float) :
    evaluationStack ops assignment stack block = .ok (x :: stack) := by
  obtain ⟨results, ran, one⟩ := bind_eq_ok_iff.mp value
  rw [only_eq_ok_iff.mp one] at ran
  exact evaluationStack_above ran stack

end

end Reckon.Formula
