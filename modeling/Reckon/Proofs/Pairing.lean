import Reckon.Formula.Validation
import Reckon.Proofs.Lexeme
import Reckon.Proofs.Order

/-!
Parentheses. Tokens are put into the order of evaluation exactly if their parentheses pair up, and
if they do not, then this is the only error. So a formula is told that its parentheses do not match
exactly if they do not.
-/

namespace Reckon.Formula

def Token.IsKnown (t : Token) : Prop :=
  match t.kind with
  | .root => t.text = rootName
  | .operator => ∃ o, Operator.ofText? t.text = some o
  | .foreign _ => False
  | _ => True

theorem Token.IsLexeme.isKnown {t : Token} (lexeme : t.IsLexeme) : t.IsKnown := by
  have terminal := lexeme.terminal
  have spelled := lexeme.spelled
  unfold Token.IsKnown
  cases kind : t.kind <;> simp_all [Token.IsTerminal, Token.Spelled]

def openings (ts : List Token) : Nat :=
  ts.countP fun t => t.kind == .opening

def closings (ts : List Token) : Nat :=
  ts.countP fun t => t.kind == .closing

theorem openings_cons (t : Token) (ts : List Token) :
    openings (t :: ts) = openings [t] + openings ts := by
  unfold openings
  rw [← List.singleton_append, List.countP_append]

theorem closings_cons (t : Token) (ts : List Token) :
    closings (t :: ts) = closings [t] + closings ts := by
  unfold closings
  rw [← List.singleton_append, List.countP_append]

/-- No parenthesis closes before it opens, and as many close as open, when `depth` of them are open
at the start. -/
structure Paired (depth : Nat) (ts : List Token) : Prop where
  opened : ∀ front, front <+: ts → closings front ≤ depth + openings front
  total : depth + openings ts = closings ts

theorem paired_cons {depth depth' : Nat} {t : Token}
    (counted : depth' + closings [t] = depth + openings [t]) (ts : List Token) :
    Paired depth (t :: ts) ↔ Paired depth' ts := by
  constructor
  · rintro ⟨opened, total⟩
    refine ⟨fun front before => ?_, ?_⟩
    · have longer := opened (t :: front) (List.cons_prefix_cons.mpr ⟨rfl, before⟩)
      rw [openings_cons, closings_cons] at longer
      omega
    · rw [openings_cons, closings_cons] at total
      omega
  · rintro ⟨opened, total⟩
    refine ⟨fun front before => ?_, ?_⟩
    · rcases List.prefix_cons_iff.mp before with rfl | ⟨front, rfl, shorter⟩
      · exact Nat.zero_le _
      · have later := opened front shorter
        rw [openings_cons, closings_cons]
        omega
    · rw [openings_cons, closings_cons]
      omega

theorem closes_iff_paired (depth : Nat) (ts : List Token) :
    closes depth ts = true ↔ Paired depth ts := by
  induction ts generalizing depth with
  | nil =>
    constructor
    · intro closed
      refine ⟨fun front before => ?_, by simpa [closes, openings, closings] using closed⟩
      simp [List.prefix_nil.mp before, closings]
    · intro paired
      simpa [closes, openings, closings] using paired.total
  | cons t ts ih =>
    have counts (depth' : Nat) (counted : depth' + closings [t] = depth + openings [t]) :
        closes depth' ts = true ↔ Paired depth (t :: ts) :=
      (ih depth').trans (paired_cons counted ts).symm
    cases kind : t.kind with
    | opening =>
      simp only [closes, kind]
      exact counts (depth + 1) (by simp [openings, closings, kind])
    | closing =>
      cases depth with
      | zero =>
        simp only [closes, kind, Bool.false_eq_true, false_iff]
        intro paired
        have first := paired.opened [t] ⟨ts, rfl⟩
        simp [openings, closings, kind] at first
      | succ depth =>
        simp only [closes, kind]
        exact counts depth (by simp [openings, closings, kind])
    | _ =>
      simp only [closes, kind]
      exact counts depth (by simp [openings, closings, kind])

instance (depth : Nat) (ts : List Token) : Decidable (Paired depth ts) :=
  decidable_of_iff _ (closes_iff_paired depth ts)

namespace Yard

/-- Whatever waits besides opening parentheses has a rank. -/
def Ranked (stack : List Token) : Prop :=
  ∀ t ∈ stack, t.kind ≠ .opening → ∃ rank, rank? t.text = some rank

theorem exists_release (rank : Nat) (output : List Token) {stack : List Token}
    (ranked : Ranked stack) : ∃ released, release rank output stack = .ok released := by
  induction stack generalizing output with
  | nil => exact ⟨_, rfl⟩
  | cons top stack ih =>
    obtain ⟨first, ranked⟩ := List.forall_mem_cons.mp ranked
    by_cases opens : top.kind = .opening
    · exact ⟨_, if_pos opens⟩
    · obtain ⟨waiting, known⟩ := first opens
      by_cases tight : rank ≤ waiting
      · obtain ⟨released, same⟩ := ih (top :: output) ranked
        exact ⟨released, by simp [release, opens, known, tight, same]⟩
      · exact ⟨_, by simp only [release, if_neg opens, known, if_neg tight]; rfl⟩

theorem close_cases (output stack : List Token) :
    (0 < depth stack ∧ ∃ closed, close output stack = .ok closed) ∨
      (depth stack = 0 ∧ close output stack = .error .mismatchedParentheses) := by
  induction stack generalizing output with
  | nil => exact .inr ⟨rfl, rfl⟩
  | cons top stack ih =>
    by_cases opens : top.kind = .opening
    · exact .inl ⟨by simp [depth_cons_opening opens], _, if_pos opens⟩
    · rw [close, if_neg opens, depth_cons_of_ne opens]
      exact ih (top :: output)

theorem drain_cases (output stack : List Token) :
    (depth stack = 0 ∧ ∃ result, drain output stack = .ok result) ∨
      (0 < depth stack ∧ drain output stack = .error .mismatchedParentheses) := by
  induction stack generalizing output with
  | nil => exact .inl ⟨rfl, _, rfl⟩
  | cons top stack ih =>
    by_cases opens : top.kind = .opening
    · exact .inr ⟨by simp [depth_cons_opening opens], if_pos opens⟩
    · rw [drain, if_neg opens, depth_cons_of_ne opens]
      exact ih (top :: output)

theorem Ranked.of_moves {yard next : Yard} {t : Token} (ranked : Ranked yard.stack)
    (known : t.IsKnown) (moves : Moves yard t next) : Ranked next.stack := by
  cases moves with
  | place operand => exact ranked
  | wait kind =>
    refine List.forall_mem_cons.mpr ⟨fun other => ?_, ranked⟩
    have root := kind.resolve_right other
    simp only [Token.IsKnown, root] at known
    exact ⟨4, by rw [known, rank?_rootName]⟩
  | close kind others opens =>
    exact fun t member => ranked t (List.mem_append_right _ (List.mem_cons_of_mem _ member))
  | @operate _ _ _ _ o spells way holds =>
    refine List.forall_mem_cons.mpr ⟨fun _ => ⟨o.rank, ?_⟩, fun t member => ?_⟩
    · exact rank?_eq_of_ofText (Token.operator?_eq_some.mp spells).2
    · exact ranked t (List.mem_append_right _ member)

/-- A step fails only at a parenthesis that closes though none is open. -/
theorem step_cases {yard : Yard} {t : Token} (ranked : Ranked yard.stack) (known : t.IsKnown) :
    (∃ next, yard.step t = .ok next) ∨
      (t.kind = .closing ∧ depth yard.stack = 0 ∧ yard.step t = .error .mismatchedParentheses) := by
  cases kind : t.kind with
  | number | name | root | opening => exact .inl ⟨_, by simp only [step, kind]; rfl⟩
  | closing =>
    simp only [step, kind, true_and]
    exact (close_cases yard.output yard.stack).imp (·.2) id
  | operator =>
    simp only [Token.IsKnown, kind] at known
    obtain ⟨o, spelled⟩ := known
    obtain ⟨released, same⟩ := exists_release o.rank yard.output ranked
    exact .inl ⟨_, by simp only [step, kind, spelled, same]; rfl⟩
  | foreign label => simp [Token.IsKnown, kind] at known

def finish (yard : Yard) (ts : List Token) : Except Error (List Token) :=
  (yard.run ts).bind fun last => drain last.output last.stack

theorem finish_cons (yard : Yard) (t : Token) (ts : List Token) :
    yard.finish (t :: ts) = (yard.step t).bind fun next => next.finish ts := by
  rw [finish, run_cons]
  cases yard.step t <;> rfl

/-- The tokens are ordered if the parentheses close, and there is no other reason to fail. -/
theorem finish_cases {ts : List Token} (known : ∀ t ∈ ts, t.IsKnown) {yard : Yard}
    (ranked : Ranked yard.stack) :
    (closes (depth yard.stack) ts = true ∧ ∃ result, yard.finish ts = .ok result) ∨
      (closes (depth yard.stack) ts = false ∧ yard.finish ts = .error .mismatchedParentheses) := by
  induction ts generalizing yard with
  | nil =>
    rcases drain_cases yard.output yard.stack with ⟨none, ordered⟩ | ⟨some, failed⟩
    · exact .inl ⟨by simp [closes, none], ordered⟩
    · exact .inr ⟨by simp [closes, Nat.ne_of_gt some], failed⟩
  | cons t ts ih =>
    obtain ⟨first, known⟩ := List.forall_mem_cons.mp known
    rw [finish_cons]
    rcases step_cases ranked first with ⟨next, stepped⟩ | ⟨kind, none, failed⟩
    · have moves := step_eq_ok_iff.mp stepped
      rw [stepped, closes_of_moves moves]
      exact ih known (ranked.of_moves first moves)
    · refine .inr ⟨?_, by rw [failed]; rfl⟩
      rw [none]
      simp only [closes, kind]

end Yard

theorem toPostfix_eq_finish (ts : List Token) : toPostfix ts = Yard.finish ⟨[], []⟩ ts := by
  unfold toPostfix Yard.finish
  cases Yard.run ⟨[], []⟩ ts <;> rfl

theorem toPostfix_cases {ts : List Token} (known : ∀ t ∈ ts, t.IsKnown) :
    (Paired 0 ts ∧ ∃ result, toPostfix ts = .ok result) ∨
      (¬Paired 0 ts ∧ toPostfix ts = .error .mismatchedParentheses) := by
  rw [← closes_iff_paired, Bool.not_eq_true, toPostfix_eq_finish]
  have ranked : Yard.Ranked (⟨[], []⟩ : Yard).stack := by simp [Yard.Ranked]
  exact Yard.finish_cases known ranked

namespace Fault

/-- The checks of neighbours find faults of their own only. -/
theorem ne_error_of_mem {before : Option Token} {ts : List Token} {fault : Fault}
    (member : fault ∈ neighbourFaults before ts) (e : Error) : fault ≠ .error e := by
  induction ts generalizing before with
  | nil => cases member
  | cons t ts ih =>
    simp only [neighbourFaults, List.mem_append] at member
    rcases member with here | later
    · rintro rfl
      rcases here with ((here | here) | here) | here
      all_goals
        simp only [operatorFaults, openingFaults, rootFaults, operandFaults] at here
        repeat' split at here
        all_goals simp at here
    · exact ih later

theorem message_ne {fault : Fault} (other : ∀ e, fault ≠ .error e) :
    fault.message ≠ "Mismatched parentheses" := by
  intro same
  delta message at same
  have first := congrArg (fun text : String => text.toList.head?) same
  cases fault with
  | error e => exact other e rfl
  | _ => simp [toString] at first

end Fault

theorem mismatch_mem_faults_iff {formula : String} {ts : List Token}
    (read : tokenize formula = .ok ts) :
    "Mismatched parentheses" ∈ (faults formula).map Fault.message ↔ ¬Paired 0 ts := by
  unfold faults
  split
  case isTrue blank =>
    have none : ts = [] := Except.ok.inj (read.symm.trans (Lexer.scan_of_blank blank 0))
    have paired : Paired 0 ts := none ▸ (closes_iff_paired 0 []).mp rfl
    have other : Fault.empty.message ≠ "Mismatched parentheses" := Fault.message_ne nofun
    simpa [paired] using other.symm
  case isFalse ink =>
    have unsaid : "Mismatched parentheses" ∉ (neighbourFaults none ts).map Fault.message := by
      rw [List.mem_map]
      rintro ⟨fault, member, same⟩
      exact Fault.message_ne (Fault.ne_error_of_mem member) same
    have known : ∀ t ∈ ts, t.IsKnown := fun t member => (tokenize_isLexeme read t member).isKnown
    simp only [read, List.map_append, List.mem_append, unsaid, false_or]
    rcases toPostfix_cases known with ⟨paired, result, ordered⟩ | ⟨unpaired, failed⟩
    · simp [ordered, paired]
    · simp only [failed, unpaired, List.map_cons, List.map_nil, List.mem_singleton, not_false_iff,
        iff_true]
      rfl

/-- The tokens of the language have an order of evaluation exactly if their parentheses pair up,
and otherwise this is the error. A formula is told so exactly if they do not. -/
theorem parentheses_checked :
    (∀ ts : List Token, (∀ t ∈ ts, t.IsKnown) →
      ((∃ result, toPostfix ts = .ok result) ↔ Paired 0 ts) ∧
      (¬Paired 0 ts → toPostfix ts = .error .mismatchedParentheses)) ∧
    ∀ (formula : String) (ts : List Token), tokenize formula = .ok ts →
      ("Mismatched parentheses" ∈ (faults formula).map Fault.message ↔ ¬Paired 0 ts) := by
  refine ⟨fun ts known => ?_, fun formula ts read => mismatch_mem_faults_iff read⟩
  rcases toPostfix_cases known with ⟨paired, ordered⟩ | ⟨unpaired, failed⟩
  · exact ⟨iff_of_true ordered paired, fun unpaired => absurd paired unpaired⟩
  · exact ⟨by simp [failed, unpaired], fun _ => failed⟩

theorem parentheses_checked_crossed :
    toPostfix [⟨.closing, ")", none⟩, ⟨.root, "sqrt", none⟩, ⟨.opening, "(", none⟩] =
      .error .mismatchedParentheses ∧
    "Mismatched parentheses" ∈ (faults "a)+(b").map Fault.message := by
  have tokens : tokenize "a)+(b" = .ok [⟨.name, "a", some 0⟩, ⟨.closing, ")", some 1⟩,
      ⟨.operator, "+", some 2⟩, ⟨.opening, "(", some 3⟩, ⟨.name, "b", some 4⟩] :=
    tokenize_eq_ok (by decide +kernel)
  constructor
  · exact (parentheses_checked.1 _ (by simp [Token.IsKnown, rootName])).2 (by decide)
  · exact (parentheses_checked.2 _ _ tokens).mpr (by decide)

end Reckon.Formula
