import Reckon.Proofs.Grammar

/-!
What the shunting yard does. `Moves` says what a step can do, and `run` follows it token by
token. Whatever waits above a derivation stays in place while its tokens are run, and at the
end the tokens of the derivation are in postorder, some of them still waiting.
-/

namespace Reckon.Formula

theorem bind_eq_ok_iff {ε α β : Type} {first : Except ε α} {next : α → Except ε β} {b : β} :
    first.bind next = .ok b ↔ ∃ a, first = .ok a ∧ next a = .ok b := by
  cases first <;> simp [Except.bind]

theorem bind_eq_error_iff {ε α β : Type} {first : Except ε α} {next : α → Except ε β} {e : ε} :
    first.bind next = .error e ↔ first = .error e ∨ ∃ a, first = .ok a ∧ next a = .error e := by
  cases first <;> simp [Except.bind]

theorem mapError_eq_ok_iff {ε ε' α : Type} {result : Except ε α} {f : ε → ε'} {a : α} :
    result.mapError f = .ok a ↔ result = .ok a := by
  cases result with
  | error e => exact ⟨nofun, nofun⟩
  | ok b =>
    constructor <;> intro same <;> cases same <;> rfl

theorem mapError_eq_error_iff {ε ε' α : Type} {result : Except ε α} {f : ε → ε'} {e' : ε'} :
    result.mapError f = .error e' ↔ ∃ e, result = .error e ∧ f e = e' := by
  cases result with
  | ok a => exact ⟨nofun, nofun⟩
  | error e =>
    constructor
    · intro same
      exact ⟨e, rfl, Except.error.inj same⟩
    · rintro ⟨_, ⟨⟩, rfl⟩
      rfl

theorem map_eq_ok_iff {ε α β : Type} {result : Except ε α} {f : α → β} {b : β} :
    result.map f = .ok b ↔ ∃ a, result = .ok a ∧ f a = b := by
  cases result <;> simp [Except.map]

theorem map_eq_error_iff {ε α β : Type} {result : Except ε α} {f : α → β} {e : ε} :
    result.map f = .error e ↔ result = .error e := by
  cases result <;> simp [Except.map]

theorem rank?_eq_of_ofText {text : String} {o : Operator} (spelled : Operator.ofText? text = some o) :
    rank? text = some o.rank := by
  have other : text ≠ rootName := by
    rintro rfl
    exact absurd spelled (by cases o <;> decide)
  simp only [rank?, if_neg other, spelled, Option.map_some]

theorem rank?_rootName : rank? rootName = some 4 := rfl

namespace Yard

def GivesWay (rank : Nat) (t : Token) : Prop :=
  t.kind ≠ .opening ∧ ∃ waiting, rank? t.text = some waiting ∧ rank ≤ waiting

/-- The stack stays as it is when an operator of the rank arrives. -/
def Holds (rank : Nat) : List Token → Prop
  | [] => True
  | top :: _ => top.kind = .opening ∨ ∃ waiting, rank? top.text = some waiting ∧ waiting < rank

theorem release_append {rank : Nat} {output waiting stack : List Token}
    (way : ∀ t ∈ waiting, GivesWay rank t) (holds : Holds rank stack) :
    release rank output (waiting ++ stack) = .ok ⟨waiting.reverse ++ output, stack⟩ := by
  induction waiting generalizing output with
  | nil =>
    cases stack with
    | nil => rfl
    | cons top stack =>
      by_cases opens : top.kind = .opening
      · simp [release, opens]
      · obtain ⟨w, ranked, less⟩ := holds.resolve_left opens
        simp [release, opens, ranked, Nat.not_le.mpr less]
  | cons top waiting ih =>
    obtain ⟨other, w, ranked, more⟩ := way top List.mem_cons_self
    have rest : release rank (top :: output) (waiting ++ stack) = _ :=
      ih fun t member => way t (List.mem_cons_of_mem top member)
    simp [release, other, ranked, more, rest]

theorem exists_of_release {rank : Nat} {output stack : List Token} {yard : Yard}
    (released : release rank output stack = .ok yard) :
    ∃ waiting rest, stack = waiting ++ rest ∧ (∀ t ∈ waiting, GivesWay rank t) ∧ Holds rank rest ∧
      yard = ⟨waiting.reverse ++ output, rest⟩ := by
  induction stack generalizing output with
  | nil =>
    cases released
    exact ⟨[], [], rfl, by simp, trivial, rfl⟩
  | cons top stack ih =>
    rw [release] at released
    split at released
    case isTrue opens =>
      cases released
      exact ⟨[], top :: stack, rfl, by simp, .inl opens, rfl⟩
    case isFalse other =>
      cases ranked : rank? top.text with
      | none => simp [ranked] at released
      | some w =>
        simp only [ranked] at released
        split at released
        case isTrue more =>
          obtain ⟨waiting, rest, rfl, way, holds, rfl⟩ := ih released
          refine ⟨top :: waiting, rest, rfl, ?_, holds, by simp⟩
          intro t member
          rcases List.mem_cons.mp member with rfl | later
          · exact ⟨other, w, ranked, more⟩
          · exact way t later
        case isFalse less =>
          cases released
          exact ⟨[], top :: stack, rfl, by simp, .inr ⟨w, ranked, Nat.not_le.mp less⟩, rfl⟩

theorem close_append {output waiting stack : List Token} {opening : Token}
    (others : ∀ t ∈ waiting, t.kind ≠ .opening) (opens : opening.kind = .opening) :
    close output (waiting ++ opening :: stack) = .ok ⟨waiting.reverse ++ output, stack⟩ := by
  induction waiting generalizing output with
  | nil => simp [close, opens]
  | cons top waiting ih =>
    have rest : close (top :: output) (waiting ++ opening :: stack) = _ :=
      ih fun t member => others t (List.mem_cons_of_mem top member)
    simp [close, others top List.mem_cons_self, rest]

theorem exists_of_close {output stack : List Token} {yard : Yard}
    (closed : close output stack = .ok yard) :
    ∃ waiting opening rest, stack = waiting ++ opening :: rest ∧
      (∀ t ∈ waiting, t.kind ≠ .opening) ∧ opening.kind = .opening ∧
      yard = ⟨waiting.reverse ++ output, rest⟩ := by
  induction stack generalizing output with
  | nil => simp [close] at closed
  | cons top stack ih =>
    rw [close] at closed
    split at closed
    case isTrue opens =>
      cases closed
      exact ⟨[], top, stack, rfl, by simp, opens, rfl⟩
    case isFalse other =>
      obtain ⟨waiting, opening, rest, rfl, others, opens, rfl⟩ := ih closed
      refine ⟨top :: waiting, opening, rest, rfl, ?_, opens, by simp⟩
      intro t member
      rcases List.mem_cons.mp member with rfl | later
      · exact other
      · exact others t later

/-- All that a step can do. -/
inductive Moves : Yard → Token → Yard → Prop where
  | place {output stack : List Token} {t : Token} (operand : t.isOperand = true) :
      Moves ⟨output, stack⟩ t ⟨t :: output, stack⟩
  | wait {output stack : List Token} {t : Token} (kind : t.kind = .root ∨ t.kind = .opening) :
      Moves ⟨output, stack⟩ t ⟨output, t :: stack⟩
  | close {output waiting stack : List Token} {opening t : Token} (kind : t.kind = .closing)
      (others : ∀ t ∈ waiting, t.kind ≠ .opening) (opens : opening.kind = .opening) :
      Moves ⟨output, waiting ++ opening :: stack⟩ t ⟨waiting.reverse ++ output, stack⟩
  | operate {output waiting stack : List Token} {t : Token} {o : Operator}
      (spells : t.operator? = some o) (way : ∀ t ∈ waiting, GivesWay o.rank t)
      (holds : Holds o.rank stack) :
      Moves ⟨output, waiting ++ stack⟩ t ⟨waiting.reverse ++ output, t :: stack⟩

theorem step_eq_ok_iff {yard next : Yard} {t : Token} : yard.step t = .ok next ↔ Moves yard t next := by
  constructor
  · intro stepped
    obtain ⟨output, stack⟩ := yard
    cases kind : t.kind with
    | number =>
      simp only [step, kind, Except.ok.injEq] at stepped
      exact stepped ▸ .place (by simp [Token.isOperand, kind])
    | name =>
      simp only [step, kind, Except.ok.injEq] at stepped
      exact stepped ▸ .place (by simp [Token.isOperand, kind])
    | root =>
      simp only [step, kind, Except.ok.injEq] at stepped
      exact stepped ▸ .wait (.inl kind)
    | opening =>
      simp only [step, kind, Except.ok.injEq] at stepped
      exact stepped ▸ .wait (.inr kind)
    | closing =>
      simp only [step, kind] at stepped
      obtain ⟨waiting, opening, rest, rfl, others, opens, rfl⟩ := exists_of_close stepped
      exact .close kind others opens
    | operator =>
      simp only [step, kind] at stepped
      split at stepped
      case h_1 => cases stepped
      case h_2 o spelled =>
        split at stepped
        case h_1 => cases stepped
        case h_2 released equal =>
          obtain ⟨waiting, rest, rfl, way, holds, rfl⟩ := exists_of_release equal
          cases stepped
          exact .operate (Token.operator?_eq_some.mpr ⟨kind, spelled⟩) way holds
    | foreign label => simp [step, kind] at stepped
  · intro moves
    cases moves with
    | place operand =>
      simp only [Token.isOperand, Bool.or_eq_true, beq_iff_eq] at operand
      rcases operand with kind | kind <;> simp [step, kind]
    | wait kind => rcases kind with kind | kind <;> simp [step, kind]
    | close kind others opens =>
      simp only [step, kind]
      exact close_append others opens
    | operate spells way holds =>
      obtain ⟨kind, spelled⟩ := Token.operator?_eq_some.mp spells
      simp only [step, kind, spelled, release_append way holds]

theorem run_cons (yard : Yard) (t : Token) (ts : List Token) :
    yard.run (t :: ts) = (yard.step t).bind fun next => next.run ts := by
  rw [run]
  cases yard.step t <;> rfl

theorem run_append (yard : Yard) (front back : List Token) :
    yard.run (front ++ back) = (yard.run front).bind fun next => next.run back := by
  induction front generalizing yard with
  | nil => rfl
  | cons t front ih =>
    rw [List.cons_append, run_cons, run_cons]
    cases yard.step t with
    | error e => rfl
    | ok next => exact ih next

theorem run_cons_of_moves {yard next : Yard} {t : Token} (moves : Moves yard t next)
    (ts : List Token) : yard.run (t :: ts) = next.run ts := by
  rw [run_cons, step_eq_ok_iff.mpr moves]
  rfl

/-- What holds of the tokens that were run and of the yard after them, if every step
preserves it. -/
theorem run_induction (Invariant : List Token → Yard → Prop)
    (preserved : ∀ {front yard t next}, Invariant front yard → Moves yard t next →
      Invariant (front ++ [t]) next)
    (front ts : List Token) {yard last : Yard} (start : Invariant front yard)
    (ran : yard.run ts = .ok last) : Invariant (front ++ ts) last := by
  induction ts generalizing front yard with
  | nil =>
    cases ran
    rwa [List.append_nil]
  | cons t ts ih =>
    rw [run_cons] at ran
    obtain ⟨next, stepped, ran⟩ := bind_eq_ok_iff.mp ran
    simpa using ih (front ++ [t]) (preserved start (step_eq_ok_iff.mp stepped)) ran

theorem drain_eq_ok_iff {output stack result : List Token} :
    drain output stack = .ok result ↔
      (∀ t ∈ stack, t.kind ≠ .opening) ∧ result = output.reverse ++ stack := by
  induction stack generalizing output with
  | nil => simp [drain, eq_comm]
  | cons top stack ih =>
    by_cases opens : top.kind = .opening
    · simp [drain, opens]
    · simp [drain, opens, ih]

/-- The tokens of a derivation go to the output in postorder, but for those that still wait:
operators and functions that an operator of the level would move. -/
theorem run_tokens {level : Level} (d : Derivation level) (output stack : List Token)
    (spelled : ∀ t ∈ d.tokens, t.Spelled)
    (holds : ∀ o : Operator, level.rank ≤ o.rank → Holds o.rank stack) :
    ∃ placed waiting, run ⟨output, stack⟩ d.tokens = .ok ⟨placed, waiting ++ stack⟩ ∧
      (∀ t ∈ waiting, GivesWay level.rank t) ∧
      waiting.reverse ++ placed = d.postorder.reverse ++ output := by
  induction d generalizing output stack with
  | @binary level o own left token spells right left_ih right_ih =>
    subst own
    have rank := Operator.rank_level o
    obtain ⟨kind, text⟩ := Token.operator?_eq_some.mp spells
    obtain ⟨before, behind⟩ := List.forall_mem_append.mp spelled
    obtain ⟨placed, waiting, ran, way, order⟩ := left_ih output stack before holds
    have operate : Moves ⟨placed, waiting ++ stack⟩ token ⟨waiting.reverse ++ placed, token :: stack⟩ :=
      .operate spells (rank ▸ way) (holds o (Nat.le_of_eq rank))
    obtain ⟨placed', waiting', ran', way', order'⟩ :=
      right_ih (waiting.reverse ++ placed) (token :: stack) (List.forall_mem_cons.mp behind).2
        fun next tighter =>
          .inr ⟨o.rank, rank?_eq_of_ofText text, Nat.lt_of_lt_of_le o.rank_lt_tighter tighter⟩
    refine ⟨placed', waiting' ++ [token], ?_, ?_, ?_⟩
    · rw [Derivation.tokens, run_append, ran]
      change run _ (token :: right.tokens) = _
      rw [run_cons_of_moves operate, ran', List.append_assoc, List.singleton_append]
    · intro t member
      rcases List.mem_append.mp member with inside | own
      · obtain ⟨other, w, ranked, more⟩ := way' t inside
        exact ⟨other, w, ranked, Nat.le_trans (Level.rank_le_tighter _) more⟩
      · rw [List.mem_singleton.mp own]
        exact ⟨by simp [kind], o.rank, rank?_eq_of_ofText text, Nat.le_of_eq rank⟩
    · simp [Derivation.postorder, order', order]
  | @tighter level inner ih =>
    obtain ⟨placed, waiting, ran, way, order⟩ := ih output stack spelled fun o tighter =>
      holds o (Nat.le_trans (Level.rank_le_tighter level) tighter)
    refine ⟨placed, waiting, ran, fun t member => ?_, order⟩
    obtain ⟨other, w, ranked, more⟩ := way t member
    exact ⟨other, w, ranked, Nat.le_trans (Level.rank_le_tighter level) more⟩
  | root token kind operand ih =>
    obtain ⟨named, spelled⟩ := List.forall_mem_cons.mp spelled
    have tight : ∀ o : Operator, Level.unit.rank ≤ o.rank → Holds o.rank (token :: stack) := by
      intro o more
      cases o <;> simp [Level.rank, Operator.rank] at more
    obtain ⟨placed, waiting, ran, way, order⟩ := ih output (token :: stack) spelled tight
    refine ⟨placed, waiting ++ [token], ?_, ?_, ?_⟩
    · rw [Derivation.tokens, run_cons_of_moves (.wait (.inl kind)), ran, List.append_assoc,
        List.singleton_append]
    · intro t member
      rcases List.mem_append.mp member with inside | own
      · exact way t inside
      · rw [List.mem_singleton.mp own]
        exact ⟨by simp [kind], 4, by rw [named kind, rank?_rootName], Nat.le_refl 4⟩
    · simp [Derivation.postorder, order]
  | number token kind value reads =>
    refine ⟨token :: output, [], ?_, by simp, by simp [Derivation.postorder]⟩
    exact run_cons_of_moves (.place (by simp [Token.isOperand, kind])) []
  | name token kind =>
    refine ⟨token :: output, [], ?_, by simp, by simp [Derivation.postorder]⟩
    exact run_cons_of_moves (.place (by simp [Token.isOperand, kind])) []
  | group first last opens ends inner ih =>
    obtain ⟨spelled, -⟩ := List.forall_mem_append.mp (List.forall_mem_cons.mp spelled).2
    obtain ⟨placed, waiting, ran, way, order⟩ :=
      ih output (first :: stack) spelled fun _ _ => .inl opens
    have close : Moves ⟨placed, waiting ++ first :: stack⟩ last ⟨waiting.reverse ++ placed, stack⟩ :=
      .close ends (fun t member => (way t member).1) opens
    refine ⟨waiting.reverse ++ placed, [], ?_, by simp, order⟩
    rw [Derivation.tokens, run_cons_of_moves (.wait (.inr opens)), run_append, ran]
    exact run_cons_of_moves close []

end Yard

theorem toPostfix_eq_ok_iff {ts result : List Token} :
    toPostfix ts = .ok result ↔ ∃ yard : Yard, Yard.run ⟨[], []⟩ ts = .ok yard ∧
      (∀ t ∈ yard.stack, t.kind ≠ .opening) ∧ result = yard.output.reverse ++ yard.stack := by
  unfold toPostfix
  cases ran : Yard.run ⟨[], []⟩ ts with
  | error e => simp
  | ok yard => simp [Yard.drain_eq_ok_iff]

theorem Derivation.toPostfix_tokens {level : Level} (d : Derivation level)
    (spelled : ∀ t ∈ d.tokens, t.Spelled) : toPostfix d.tokens = .ok d.postorder := by
  obtain ⟨placed, waiting, ran, way, order⟩ := Yard.run_tokens d [] [] spelled fun _ _ => trivial
  rw [List.append_nil] at ran order
  refine toPostfix_eq_ok_iff.mpr ⟨_, ran, fun t member => (way t member).1, ?_⟩
  rw [← List.reverse_inj, ← order, List.reverse_append, List.reverse_reverse]

end Reckon.Formula
