import Reckon.Proofs.Group
import Reckon.Proofs.Lexeme

/-!
A formula in place of a variable. Wherever the variable stands, a group with the tokens of the
formula puts the formula's own order of evaluation there, and this pushes the value of the
formula just as the variable would, had it been bound to that value. So the two evaluations
go on in step, whether the formula around is well formed or not.
-/

namespace Reckon.Formula

def Token.names (name : String) (t : Token) : Bool :=
  t.kind == .name && t.text == name

def replace (name : String) (block ts : List Token) : List Token :=
  ts.flatMap fun t => if t.names name then block else [t]

def substitute (name : String) (first last : Token) (us ts : List Token) : List Token :=
  replace name (first :: (us ++ [last])) ts

section

variable (name : String) (block : List Token)

@[simp]
theorem replace_nil : replace name block [] = [] :=
  rfl

variable {name}

theorem Token.names_iff {t : Token} : t.names name = true ↔ t.kind = .name ∧ t.text = name := by
  simp [Token.names]

theorem Token.names_eq_false {t : Token} (other : t.kind ≠ .name) : t.names name = false := by
  simp [Token.names, other]

theorem replace_cons_of_names {t : Token} (named : t.names name = true) (ts : List Token) :
    replace name block (t :: ts) = block ++ replace name block ts := by
  simp [replace, named]

theorem replace_cons_of_not {t : Token} (other : t.names name = false) (ts : List Token) :
    replace name block (t :: ts) = t :: replace name block ts := by
  simp [replace, other]

theorem replace_of_unnamed {ts : List Token} (unnamed : ∀ t ∈ ts, t.names name = false) :
    replace name block ts = ts := by
  induction ts with
  | nil => rfl
  | cons t ts ih =>
    obtain ⟨first, others⟩ := List.forall_mem_cons.mp unnamed
    rw [replace_cons_of_not block first, ih others]

theorem replace_of_only {pre post : List Token} {x : Token} (named : x.names name = true)
    (before : ∀ t ∈ pre, t.names name = false) (behind : ∀ t ∈ post, t.names name = false) :
    replace name block (pre ++ x :: post) = pre ++ (block ++ post) := by
  have split : replace name block (pre ++ x :: post) =
      replace name block pre ++ replace name block (x :: post) := List.flatMap_append
  rw [split, replace_of_unnamed block before, replace_cons_of_names block named,
    replace_of_unnamed block behind]

theorem replace_reverse (ts : List Token) :
    (replace name block ts).reverse = replace name block.reverse ts.reverse := by
  rw [replace, replace, List.reverse_flatMap]
  congr 1
  funext t
  cases named : t.names name <;> simp [named]

end

namespace Yard

variable {name : String} {block : List Token}

def replaced (name : String) (block : List Token) (yard : Yard) : Yard :=
  ⟨replace name block.reverse yard.output, yard.stack⟩

def Unnamed (name : String) (stack : List Token) : Prop :=
  ∀ t ∈ stack, t.names name = false

theorem release_replaced {rank : Nat} (output : List Token) {stack : List Token}
    (unnamed : Unnamed name stack) :
    release rank (replace name block.reverse output) stack =
      (release rank output stack).map (replaced name block) := by
  induction stack generalizing output with
  | nil => rfl
  | cons top stack ih =>
    obtain ⟨other, unnamed⟩ := List.forall_mem_cons.mp unnamed
    have next := ih (top :: output) unnamed
    rw [replace_cons_of_not _ other] at next
    unfold release
    split
    case isTrue => rfl
    case isFalse =>
      cases rank? top.text with
      | none => rfl
      | some waiting =>
        dsimp only
        split
        case isTrue => exact next
        case isFalse => rfl

theorem close_replaced (output : List Token) {stack : List Token} (unnamed : Unnamed name stack) :
    close (replace name block.reverse output) stack =
      (close output stack).map (replaced name block) := by
  induction stack generalizing output with
  | nil => rfl
  | cons top stack ih =>
    obtain ⟨other, unnamed⟩ := List.forall_mem_cons.mp unnamed
    have next := ih (top :: output) unnamed
    rw [replace_cons_of_not _ other] at next
    unfold close
    split
    case isTrue => rfl
    case isFalse => exact next

theorem drain_replaced (output : List Token) {stack : List Token} (unnamed : Unnamed name stack) :
    drain (replace name block.reverse output) stack =
      (drain output stack).map (replace name block) := by
  induction stack generalizing output with
  | nil => simp [drain, Except.map, replace_reverse]
  | cons top stack ih =>
    obtain ⟨other, unnamed⟩ := List.forall_mem_cons.mp unnamed
    have next := ih (top :: output) unnamed
    rw [replace_cons_of_not _ other] at next
    unfold drain
    split
    case isTrue => rfl
    case isFalse => exact next

theorem step_replaced {yard : Yard} (unnamed : Unnamed name yard.stack) {t : Token}
    (other : t.names name = false) :
    (yard.replaced name block).step t = (yard.step t).map (replaced name block) := by
  obtain ⟨output, stack⟩ := yard
  unfold step
  split
  case h_1 | h_2 => simp [replaced, Except.map, replace_cons_of_not _ other]
  case h_3 | h_4 => rfl
  case h_5 => exact close_replaced output unnamed
  case h_6 =>
    split
    case h_1 => rfl
    case h_2 o spelled =>
      simp only [replaced, release_replaced output unnamed]
      cases release o.rank output stack <;> rfl
  case h_7 => rfl

theorem Unnamed.of_moves {yard next : Yard} {t : Token} (unnamed : Unnamed name yard.stack)
    (moves : Moves yard t next) : Unnamed name next.stack := by
  cases moves with
  | place operand => exact unnamed
  | wait kind =>
    refine List.forall_mem_cons.mpr ⟨Token.names_eq_false ?_, unnamed⟩
    rcases kind with kind | kind <;> simp [kind]
  | close kind others opens =>
    exact fun t member => unnamed t (List.mem_append_right _ (List.mem_cons_of_mem _ member))
  | operate spells way holds =>
    refine List.forall_mem_cons.mpr ⟨Token.names_eq_false ?_, fun t member => ?_⟩
    · simp [Token.kind_of_operator? spells]
    · exact unnamed t (List.mem_append_right _ member)

/-- A group in place of the variable is a block in place of the variable. -/
theorem run_substitute {us : List Token} (ordered : toPostfix us = .ok block) {first last : Token}
    (opens : first.kind = .opening) (ends : last.kind = .closing) (ts : List Token) (yard : Yard)
    (unnamed : Unnamed name yard.stack) :
    (yard.replaced name block).run (substitute name first last us ts) =
      (yard.run ts).map (replaced name block) := by
  induction ts generalizing yard with
  | nil => rfl
  | cons t ts ih =>
    unfold substitute at ih ⊢
    rw [run_cons]
    cases named : t.names name with
    | true =>
      have kind := (Token.names_iff.mp named).1
      have placed : yard.step t = .ok ⟨t :: yard.output, yard.stack⟩ := by simp [step, kind]
      have next := ih ⟨t :: yard.output, yard.stack⟩ unnamed
      rw [replaced, replace_cons_of_names _ named] at next
      rw [replace_cons_of_names _ named, run_append, replaced, run_group ordered opens ends, placed]
      exact next
    | false =>
      rw [replace_cons_of_not _ named, run_cons, step_replaced unnamed named]
      cases stepped : yard.step t with
      | error e => rfl
      | ok next => exact ih next (unnamed.of_moves (step_eq_ok_iff.mp stepped))

end Yard

/-- The order of evaluation of the tokens with groups in them is their own with blocks in it. -/
theorem toPostfix_substitute (name : String) {us block : List Token}
    (ordered : toPostfix us = .ok block) {first last : Token} (opens : first.kind = .opening)
    (ends : last.kind = .closing) (ts : List Token) :
    toPostfix (substitute name first last us ts) = (toPostfix ts).map (replace name block) := by
  have start : Yard.Unnamed name [] := by simp [Yard.Unnamed]
  have ran := Yard.run_substitute ordered opens ends ts ⟨[], []⟩ start
  unfold toPostfix
  rw [show (⟨[], []⟩ : Yard) = Yard.replaced name block ⟨[], []⟩ from rfl, ran]
  cases same : Yard.run ⟨[], []⟩ ts with
  | error e => simp [Yard.replaced, same, Except.map]
  | ok yard =>
    simp only [Yard.replaced, replace_nil, same, Except.map]
    refine Yard.drain_replaced yard.output ?_
    refine Yard.run_induction (fun _ yard => Yard.Unnamed name yard.stack) ?_ [] ts start same
    intro front yard t next unnamed moves
    exact unnamed.of_moves moves

/-- A group is one operand: whatever is written around it, it has the errors that a name in its
place has, and its order of evaluation comes where that name would. -/
theorem toPostfix_group {pre mid post block : List Token} {x first last : Token}
    (ordered : toPostfix mid = .ok block) (opens : first.kind = .opening)
    (ends : last.kind = .closing) (kind : x.kind = .name)
    (before : ∀ t ∈ pre, t.names x.text = false) (behind : ∀ t ∈ post, t.names x.text = false) :
    toPostfix (pre ++ first :: (mid ++ last :: post)) =
      (toPostfix (pre ++ x :: post)).map (replace x.text block) := by
  have group : substitute x.text first last mid (pre ++ x :: post) =
      pre ++ first :: (mid ++ last :: post) := by
    rw [substitute, replace_of_only _ (Token.names_iff.mpr ⟨kind, rfl⟩) before behind]
    simp
  rw [← group]
  exact toPostfix_substitute x.text ordered opens ends (pre ++ x :: post)

/-- A sum in the exponent of a power, which waits below it, also behind a parenthesis that is not
closed. -/
theorem toPostfix_group_exponent :
    let sum : List Token := [⟨.name, "a", none⟩, ⟨.operator, "+", none⟩, ⟨.name, "b", none⟩]
    let power : List Token := [⟨.number, "2", none⟩, ⟨.operator, "^", none⟩]
    let group : List Token := ⟨.opening, "(", none⟩ :: (sum ++ [⟨.closing, ")", none⟩])
    toPostfix (power ++ group) = .ok [⟨.number, "2", none⟩, ⟨.name, "a", none⟩, ⟨.name, "b", none⟩,
        ⟨.operator, "+", none⟩, ⟨.operator, "^", none⟩] ∧
      toPostfix (⟨.opening, "(", none⟩ :: (power ++ group)) = .error .mismatchedParentheses := by
  intro sum power group
  have ordered : toPostfix sum =
      .ok [⟨.name, "a", none⟩, ⟨.name, "b", none⟩, ⟨.operator, "+", none⟩] := rfl
  have put (pre : List Token) (before : ∀ t ∈ pre, t.names "x" = false) :=
    @toPostfix_group pre sum [] _ ⟨.name, "x", none⟩ ⟨.opening, "(", none⟩ ⟨.closing, ")", none⟩
      ordered rfl rfl rfl before (by simp)
  exact ⟨put power (by decide), put (⟨.opening, "(", none⟩ :: power) (by decide)⟩

/-! ### The same outcome -/

inductive Error.Akin : Error → Error → Prop where
  | same (e : Error) : Akin e e
  | notProvided (name : String) (available available' : List String) :
      Akin (.notProvided name available) (.notProvided name available')

theorem Error.Akin.label_eq {e e' : Error} (akin : e.Akin e') : e.label = e'.label := by
  cases akin <;> rfl

/-- Both computations have the same result, or they fail alike. -/
inductive Alike {α : Type} : Except Error α → Except Error α → Prop where
  | ok (a : α) : Alike (.ok a) (.ok a)
  | error {e e' : Error} (akin : e.Akin e') : Alike (.error e) (.error e')

namespace Alike

variable {α β : Type} {first second : Except Error α}

theorem refl (result : Except Error α) : Alike result result := by
  cases result with
  | ok a => exact .ok a
  | error e => exact .error (.same e)

theorem bind (alike : Alike first second) {next next' : α → Except Error β}
    (follows : ∀ a, Alike (next a) (next' a)) : Alike (first.bind next) (second.bind next') := by
  cases alike with
  | ok a => exact follows a
  | error akin => exact .error akin

theorem push {first second : Except Error Float} (alike : Alike first second)
    (stack : List Float) : Alike (push stack first) (push stack second) := by
  cases alike with
  | ok a => exact .ok _
  | error akin => exact .error akin

theorem ok_iff (alike : Alike first second) (a : α) : first = .ok a ↔ second = .ok a := by
  cases alike <;> simp

theorem exists_error (alike : Alike first second) {e : Error} (failed : first = .error e) :
    ∃ e', second = .error e' ∧ e'.label = e.label := by
  cases alike with
  | ok a => cases failed
  | @error e' e'' akin =>
    cases failed
    exact ⟨e'', rfl, akin.label_eq.symm⟩

end Alike

section

variable {assignment other : Fields}

/-- Where a variable has the same value, or none, only the names that are bound beside it differ. -/
theorem alike_lookup {name : String} (agree : assignment.lookup name = other.lookup name) :
    Alike (lookup assignment name) (lookup other name) := by
  unfold lookup
  rw [agree]
  cases other.lookup name with
  | none => exact .error (.notProvided name _ _)
  | some value => apply Alike.refl

theorem alike_step (ops : Operations) {t : Token}
    (agree : t.kind = .name → assignment.lookup t.text = other.lookup t.text) (stack : List Float) :
    Alike (evaluationStep ops assignment stack t) (evaluationStep ops other stack t) := by
  unfold evaluationStep
  cases kind : t.kind with
  | name => exact (alike_lookup (agree kind)).push stack
  | _ => exact .refl _

end

section

variable {assignment : Fields} {name : String} {r : Float}

theorem lookup_updated (finite : r.isFinite = true) :
    lookup (Entries.set name (.float r) assignment) name = .ok r := by
  rw [lookup, Entries.lookup_set_self]
  exact if_pos finite

variable (ops : Operations)

/-- Where the variable pushes its value, the block pushes the same one. -/
theorem alike_stack {block : List Token} (finite : r.isFinite = true)
    (value : evaluatePostfix ops assignment block = .ok r) (ts : List Token) (stack : List Float) :
    Alike (evaluationStack ops assignment stack (replace name block ts))
      (evaluationStack ops (Entries.set name (.float r) assignment) stack ts) := by
  induction ts generalizing stack with
  | nil => exact .ok stack
  | cons t ts ih =>
    rw [evaluationStack_cons]
    cases named : t.names name with
    | true =>
      obtain ⟨kind, text⟩ := Token.names_iff.mp named
      have pushed : evaluationStep ops (Entries.set name (.float r) assignment) stack t =
          .ok (r :: stack) := by
        simp [evaluationStep, kind, text, lookup_updated finite, push, Except.map]
      rw [replace_cons_of_names _ named, evaluationStack_append,
        evaluationStack_of_evaluatePostfix value, pushed]
      exact ih (r :: stack)
    | false =>
      have agree (kind : t.kind = .name) :
          assignment.lookup t.text = (Entries.set name (.float r) assignment).lookup t.text := by
        have different : t.text ≠ name := by simpa [Token.names, kind] using named
        exact (Entries.lookup_set_of_ne different _ _).symm
      rw [replace_cons_of_not _ named, evaluationStack_cons]
      exact (alike_step ops agree stack).bind ih

theorem alike_evaluatePostfix {block : List Token} (finite : r.isFinite = true)
    (value : evaluatePostfix ops assignment block = .ok r) (ts : List Token) :
    Alike (evaluatePostfix ops assignment (replace name block ts))
      (evaluatePostfix ops (Entries.set name (.float r) assignment) ts) :=
  (alike_stack ops finite value ts []).bind fun _ => .refl _

end

theorem compute_of_tokenize (ops : Operations) (assignment : Fields) {formula : String}
    {ts : List Token} (read : tokenize formula = .ok ts) :
    compute ops formula assignment = (toPostfix ts).bind (evaluatePostfix ops assignment) := by
  rw [compute_eq, read]
  rfl

/-- A formula whose value is finite may stand in parentheses wherever a variable that is bound
to this value may: the outcome is the same float, or an error of the same kind. -/
theorem evaluate_substitute (ops : Operations) (assignment : Fields) (name : String)
    {formula inner : String} {ts us : List Token} (read : tokenize formula = .ok ts)
    (readInner : tokenize inner = .ok us) {r : Float}
    (value : compute ops inner assignment = .ok r) (finite : r.isFinite = true)
    {first last : Token} (opens : first.kind = .opening) (ends : last.kind = .closing) :
    let substituted :=
      (toPostfix (substitute name first last us ts)).bind (evaluatePostfix ops assignment)
    let updated := compute ops formula (Entries.set name (.float r) assignment)
    (∀ x, substituted = .ok x ↔ updated = .ok x) ∧
      ∀ e, substituted = .error e → ∃ e', updated = .error e' ∧ e'.label = e.label := by
  intro substituted updated
  rw [compute_of_tokenize ops assignment readInner] at value
  obtain ⟨block, ordered, value⟩ := bind_eq_ok_iff.mp value
  have alike : Alike substituted updated := by
    simp only [substituted, updated, compute_of_tokenize ops _ read,
      toPostfix_substitute name ordered opens ends]
    cases toPostfix ts with
    | error e => exact .error (.same e)
    | ok result => exact alike_evaluatePostfix ops finite value result
  exact ⟨alike.ok_iff, fun e failed => alike.exists_error failed⟩

/-- `6/(a+b)*(a+b)` with `a = 1` and `b = 2`, the group standing for `x` in `6/x*x`. -/
theorem evaluate_substitute_sum :
    ∃ ts us, tokenize "6/x*x" = .ok ts ∧ tokenize "a+b" = .ok us ∧
      (toPostfix (substitute "x" ⟨.opening, "(", none⟩ ⟨.closing, ")", none⟩ us ts)).bind
        (evaluatePostfix .machine [("a", .int 1), ("b", .int 2)]) = .ok 6 := by
  have read : tokenize "6/x*x" = .ok [⟨.number, "6", some 0⟩, ⟨.operator, "/", some 1⟩,
      ⟨.name, "x", some 2⟩, ⟨.operator, "*", some 3⟩, ⟨.name, "x", some 4⟩] :=
    tokenize_eq_ok (by decide +kernel)
  have readInner : tokenize "a+b" = .ok [⟨.name, "a", some 0⟩, ⟨.operator, "+", some 1⟩,
      ⟨.name, "b", some 2⟩] :=
    tokenize_eq_ok (by decide +kernel)
  have value : compute .machine "a+b" [("a", .int 1), ("b", .int 2)] = .ok 3 :=
    eq_ok_of_toOption (by decide +kernel)
  have updated : compute .machine "6/x*x" [("a", .int 1), ("b", .int 2), ("x", .float 3)] = .ok 6 :=
    eq_ok_of_toOption (by decide +kernel)
  refine ⟨_, _, read, readInner, ?_⟩
  have finite : (3 : Float).isFinite = true := by decide +kernel
  exact ((evaluate_substitute .machine _ "x" read readInner value finite rfl rfl).1 6).mpr updated

end Reckon.Formula
