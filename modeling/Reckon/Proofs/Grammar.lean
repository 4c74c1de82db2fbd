import Reckon.Formula.Tree

/-!
The grammar of infix expressions. A derivation is data, so that its tokens, its tree and
its tokens in the order of evaluation are functions of it. Which lists of tokens have a
derivation can be told from left to right: operands and operators must alternate, and the
parentheses must close.
-/

namespace Reckon.Formula

inductive Level where
  | sum
  | product
  | power
  | unit
  deriving DecidableEq

namespace Level

def tighter : Level → Level
  | sum => product
  | product => power
  | power => unit
  | unit => unit

/-- How tightly the operators that stand open at a level bind, at least. -/
def rank : Level → Nat
  | sum => 1
  | product => 2
  | power => 3
  | unit => 4

theorem rank_le_tighter (level : Level) : level.rank ≤ level.tighter.rank := by
  cases level <;> decide

end Level

namespace Operator

def level : Operator → Level
  | add => .sum
  | sub => .sum
  | mul => .product
  | div => .product
  | pow => .power

theorem rank_level (o : Operator) : o.level.rank = o.rank := by
  cases o <;> rfl

theorem rank_lt_tighter (o : Operator) : o.rank < o.level.tighter.rank := by
  cases o <;> decide

theorem tighter_rank_le {o : Operator} {level : Level} (other : o.level ≠ level)
    (loose : level.rank ≤ o.rank) : level.tighter.rank ≤ o.rank := by
  revert other loose
  cases o <;> cases level <;> decide

end Operator

namespace Token

def IsTerminal (t : Token) : Prop :=
  match t.kind with
  | .number => ∃ x, literal t.text = .ok x
  | .operator => ∃ o, Operator.ofText? t.text = some o
  | .foreign _ => False
  | _ => True

def Spelled (t : Token) : Prop :=
  t.kind = .root → t.text = rootName

instance (t : Token) : Decidable t.Spelled :=
  inferInstanceAs (Decidable (t.kind = .root → t.text = rootName))

theorem operator?_eq_some {t : Token} {o : Operator} :
    t.operator? = some o ↔ t.kind = .operator ∧ Operator.ofText? t.text = some o := by
  unfold operator?
  split <;> simp [*]

theorem kind_of_operator? {t : Token} {o : Operator} (spells : t.operator? = some o) :
    t.kind = .operator :=
  (operator?_eq_some.mp spells).1

end Token

/-- The derivations of expressions.

    sum     ::= sum (+ | -) product | product
    product ::= product (* | /) power | power
    power   ::= power ^ unit | unit
    unit    ::= sqrt unit | number | name | ( sum )
-/
inductive Derivation : Level → Type where
  | binary {level : Level} (o : Operator) (own : o.level = level) (left : Derivation level)
      (token : Token) (spells : token.operator? = some o) (right : Derivation level.tighter) :
      Derivation level
  | tighter {level : Level} (inner : Derivation level.tighter) : Derivation level
  | root (token : Token) (kind : token.kind = .root) (operand : Derivation .unit) :
      Derivation .unit
  | number (token : Token) (kind : token.kind = .number) (value : Float)
      (reads : literal token.text = .ok value) : Derivation .unit
  | name (token : Token) (kind : token.kind = .name) : Derivation .unit
  | group (first last : Token) (opens : first.kind = .opening) (ends : last.kind = .closing)
      (inner : Derivation .sum) : Derivation .unit

namespace Derivation

def tokens {level : Level} : Derivation level → List Token
  | binary _ _ left token _ right => left.tokens ++ token :: right.tokens
  | tighter inner => inner.tokens
  | root token _ operand => token :: operand.tokens
  | number token _ _ _ => [token]
  | name token _ => [token]
  | group first last _ _ inner => first :: (inner.tokens ++ [last])

def tree {level : Level} : Derivation level → Tree
  | binary _ _ left token _ right => .binary token.text left.tree right.tree
  | tighter inner => inner.tree
  | root _ _ operand => .call rootName operand.tree
  | number _ _ value _ => .number value
  | name token _ => .name token.text
  | group _ _ _ _ inner => inner.tree

def postorder {level : Level} : Derivation level → List Token
  | binary _ _ left token _ right => left.postorder ++ right.postorder ++ [token]
  | tighter inner => inner.postorder
  | root token _ operand => operand.postorder ++ [token]
  | number token _ _ _ => [token]
  | name token _ => [token]
  | group _ _ _ _ inner => inner.postorder

theorem exists_of_unit (u : Derivation .unit) (level : Level) :
    ∃ d : Derivation level, d.tokens = u.tokens ∧ d.tree = u.tree ∧ d.postorder = u.postorder := by
  cases level with
  | sum => exact ⟨.tighter (.tighter (.tighter u)), rfl, rfl, rfl⟩
  | product => exact ⟨.tighter (.tighter u), rfl, rfl, rfl⟩
  | power => exact ⟨.tighter u, rfl, rfl, rfl⟩
  | unit => exact ⟨u, rfl, rfl, rfl⟩

theorem exists_joined {level : Level} (d : Derivation level) {o : Operator} {token : Token}
    (spells : token.operator? = some o) (u : Derivation .unit) (own : o.level = level) :
    ∃ e : Derivation level, e.tokens = d.tokens ++ token :: u.tokens := by
  obtain ⟨right, same, -, -⟩ := u.exists_of_unit level.tighter
  exact ⟨.binary o own d token spells right, by rw [tokens, same]⟩

/-- A further operation with a unit behind it. The operator takes the unit and as much of
the expression before it as binds at least as tightly. -/
theorem exists_extended {level : Level} (d : Derivation level) {o : Operator} {token : Token}
    (spells : token.operator? = some o) (u : Derivation .unit) (loose : level.rank ≤ o.rank) :
    ∃ e : Derivation level, e.tokens = d.tokens ++ token :: u.tokens := by
  induction d with
  | @binary level inner own left sign signs right _ ih =>
    by_cases here : o.level = level
    · exact exists_joined _ spells u here
    · obtain ⟨e, same⟩ := ih (Operator.tighter_rank_le here loose)
      refine ⟨.binary inner own left sign signs e, ?_⟩
      simp only [tokens, same, List.append_assoc, List.cons_append]
  | @tighter level inner ih =>
    by_cases here : o.level = level
    · exact exists_joined _ spells u here
    · obtain ⟨e, same⟩ := ih (Operator.tighter_rank_le here loose)
      exact ⟨.tighter e, same⟩
  | _ => cases o <;> simp [Level.rank, Operator.rank] at loose

theorem tokens_isTerminal {level : Level} (d : Derivation level) : ∀ t ∈ d.tokens, t.IsTerminal := by
  induction d with
  | binary o own left token spells right left_ih right_ih =>
    intro t member
    obtain ⟨kind, spelled⟩ := Token.operator?_eq_some.mp spells
    simp only [tokens, List.mem_append, List.mem_cons] at member
    rcases member with before | rfl | behind
    · exact left_ih t before
    · simp [Token.IsTerminal, kind, spelled]
    · exact right_ih t behind
  | tighter inner ih => exact ih
  | root token kind operand ih => simpa [tokens, Token.IsTerminal, kind] using ih
  | number token kind value reads => simp [tokens, Token.IsTerminal, kind, reads]
  | name token kind => simp [tokens, Token.IsTerminal, kind]
  | group first last opens ends inner ih =>
    intro t member
    simp only [tokens, List.mem_cons, List.mem_append, List.not_mem_nil, or_false] at member
    rcases member with rfl | inside | rfl
    · simp [Token.IsTerminal, opens]
    · exact ih t inside
    · simp [Token.IsTerminal, ends]

end Derivation

/-- Whether operands and operators alternate; `due` tells that an operand comes next.
Square roots and opening parentheses stand in front of operands, closing ones behind. -/
def alternates : Bool → List Token → Bool
  | due, [] => !due
  | true, t :: ts =>
    match t.kind with
    | .number | .name => alternates false ts
    | .root | .opening => alternates true ts
    | _ => false
  | false, t :: ts =>
    match t.kind with
    | .operator => alternates true ts
    | .closing => alternates false ts
    | _ => false

def closes (depth : Nat) : List Token → Bool
  | [] => depth == 0
  | t :: ts =>
    match t.kind with
    | .opening => closes (depth + 1) ts
    | .closing =>
      match depth with
      | 0 => false
      | depth + 1 => closes depth ts
    | _ => closes depth ts

namespace Derivation

theorem alternates_tokens {level : Level} (d : Derivation level) (rest : List Token) :
    alternates true (d.tokens ++ rest) = alternates false rest := by
  induction d generalizing rest with
  | binary o own left token spells right left_ih right_ih =>
    have kind := Token.kind_of_operator? spells
    rw [tokens, List.append_assoc, left_ih, List.cons_append]
    simp only [alternates, kind, right_ih]
  | tighter inner ih => exact ih rest
  | root token kind operand ih =>
    rw [tokens, List.cons_append]
    simp only [alternates, kind, ih]
  | number token kind value reads => simp [tokens, alternates, kind]
  | name token kind => simp [tokens, alternates, kind]
  | group first last opens ends inner ih =>
    rw [tokens, List.cons_append, List.append_assoc]
    simp only [alternates, opens, ih, List.cons_append, List.nil_append, ends]

theorem closes_tokens {level : Level} (d : Derivation level) (depth : Nat) (rest : List Token) :
    closes depth (d.tokens ++ rest) = closes depth rest := by
  induction d generalizing depth rest with
  | binary o own left token spells right left_ih right_ih =>
    have kind := Token.kind_of_operator? spells
    rw [tokens, List.append_assoc, left_ih, List.cons_append]
    simp only [closes, kind, right_ih]
  | tighter inner ih => exact ih depth rest
  | root token kind operand ih =>
    rw [tokens, List.cons_append]
    simp only [closes, kind, ih]
  | number token kind value reads => simp [tokens, closes, kind]
  | name token kind => simp [tokens, closes, kind]
  | group first last opens ends inner ih =>
    rw [tokens, List.cons_append, List.append_assoc]
    simp only [closes, opens, ih, List.cons_append, List.nil_append, ends]

end Derivation

/-- The rest of a formula, with `depth` parentheses open; `due` tells that an operand comes
next. -/
structure Suffix (due : Bool) (depth : Nat) (ts : List Token) : Prop where
  terminals : ∀ t ∈ ts, t.IsTerminal
  alternating : alternates due ts = true
  closing : closes depth ts = true

namespace Suffix

def Stops (ts : List Token) : Prop :=
  ∀ t ∈ ts.head?, t.kind ≠ .operator

theorem tail {t : Token} {due due' : Bool} {depth depth' : Nat} {ts : List Token}
    (suffix : Suffix due depth (t :: ts)) (alternating : alternates due' ts = true)
    (closing : closes depth' ts = true) : Suffix due' depth' ts :=
  ⟨fun other member => suffix.terminals other (List.mem_cons_of_mem t member), alternating, closing⟩

/-- Where an operand is due, a unit comes next; said of lists shorter than a bound. -/
def StartsWithUnit (bound : Nat) : Prop :=
  ∀ (depth : Nat) (ts : List Token), ts.length < bound → Suffix true depth ts →
    ∃ (u : Derivation .unit) (rest : List Token), ts = u.tokens ++ rest ∧ Suffix false depth rest

theorem exists_longer {bound : Nat} (units : StartsWithUnit bound) {depth : Nat} {ts : List Token}
    (short : ts.length < bound) (d : Derivation .sum) (suffix : Suffix false depth ts) :
    ∃ (e : Derivation .sum) (rest : List Token),
      d.tokens ++ ts = e.tokens ++ rest ∧ Suffix false depth rest ∧ Stops rest := by
  induction length : ts.length using Nat.strongRecOn generalizing ts d with
  | ind n ih =>
    by_cases stops : Stops ts
    · exact ⟨d, ts, rfl, suffix, stops⟩
    · cases ts with
      | nil => simp [Stops] at stops
      | cons token ts =>
        have kind : token.kind = .operator := by simpa [Stops] using stops
        obtain ⟨o, spelled⟩ : ∃ o, Operator.ofText? token.text = some o := by
          simpa [Token.IsTerminal, kind] using suffix.terminals token List.mem_cons_self
        have alternating := suffix.alternating
        have closing := suffix.closing
        simp only [alternates, closes, kind] at alternating closing
        rw [List.length_cons] at short length
        obtain ⟨u, rest, rfl, behind⟩ :=
          units depth ts (by omega) (suffix.tail alternating closing)
        obtain ⟨longer, same⟩ := d.exists_extended (Token.operator?_eq_some.mpr ⟨kind, spelled⟩) u
          (by cases o <;> decide)
        rw [List.length_append] at short length
        obtain ⟨e, rest', split, suffix', stops'⟩ :=
          ih rest.length (by omega) (by omega) longer behind rfl
        refine ⟨e, rest', ?_, suffix', stops'⟩
        rw [← split, same, List.append_assoc, List.cons_append]

theorem exists_sum {bound : Nat} (units : StartsWithUnit bound) {depth : Nat} {ts : List Token}
    (short : ts.length < bound) (suffix : Suffix true depth ts) :
    ∃ (e : Derivation .sum) (rest : List Token),
      ts = e.tokens ++ rest ∧ Suffix false depth rest ∧ Stops rest := by
  obtain ⟨u, rest, rfl, behind⟩ := units depth ts short suffix
  obtain ⟨d, same, -, -⟩ := u.exists_of_unit .sum
  rw [List.length_append] at short
  obtain ⟨e, rest', split, suffix', stops⟩ := exists_longer units (by omega) d behind
  exact ⟨e, rest', by rw [← split, same], suffix', stops⟩

theorem exists_closing {depth : Nat} {ts : List Token} (suffix : Suffix false (depth + 1) ts)
    (stops : Stops ts) :
    ∃ (last : Token) (rest : List Token),
      ts = last :: rest ∧ last.kind = .closing ∧ Suffix false depth rest := by
  cases ts with
  | nil => simpa [closes] using suffix.closing
  | cons last rest =>
    have alternating := suffix.alternating
    have closing := suffix.closing
    cases ends : last.kind with
    | closing =>
      simp only [alternates, closes, ends] at alternating closing
      exact ⟨last, rest, rfl, ends, suffix.tail alternating closing⟩
    | operator => exact absurd ends (stops last rfl)
    | _ => simp [alternates, ends] at alternating

theorem startsWithUnit (bound : Nat) : StartsWithUnit bound := by
  induction bound with
  | zero => exact fun _ _ short => absurd short (Nat.not_lt_zero _)
  | succ bound ih =>
    intro depth ts short suffix
    cases ts with
    | nil => simpa [alternates] using suffix.alternating
    | cons t ts =>
      have alternating := suffix.alternating
      have closing := suffix.closing
      have shorter : ts.length < bound := Nat.lt_of_succ_lt_succ short
      cases kind : t.kind with
      | number =>
        simp only [alternates, closes, kind] at alternating closing
        obtain ⟨x, reads⟩ : ∃ x, literal t.text = .ok x := by
          simpa [Token.IsTerminal, kind] using suffix.terminals t List.mem_cons_self
        exact ⟨.number t kind x reads, ts, rfl, suffix.tail alternating closing⟩
      | name =>
        simp only [alternates, closes, kind] at alternating closing
        exact ⟨.name t kind, ts, rfl, suffix.tail alternating closing⟩
      | root =>
        simp only [alternates, closes, kind] at alternating closing
        obtain ⟨u, rest, rfl, behind⟩ := ih depth ts shorter (suffix.tail alternating closing)
        exact ⟨.root t kind u, rest, rfl, behind⟩
      | opening =>
        simp only [alternates, closes, kind] at alternating closing
        obtain ⟨e, rest, rfl, behind, stops⟩ :=
          exists_sum ih shorter (suffix.tail alternating closing)
        obtain ⟨last, rest, rfl, ends, behind⟩ := exists_closing behind stops
        exact ⟨.group t last kind ends e, rest, by simp [Derivation.tokens], behind⟩
      | _ => simp [alternates, kind] at alternating

end Suffix

/-- Tokens have a derivation exactly if they are terminals, operands and operators alternate
and the parentheses close. -/
theorem exists_derivation_iff {ts : List Token} :
    (∃ d : Derivation .sum, d.tokens = ts) ↔ Suffix true 0 ts := by
  constructor
  · rintro ⟨d, rfl⟩
    have alternating := d.alternates_tokens []
    have closing := d.closes_tokens 0 []
    rw [List.append_nil] at alternating closing
    exact ⟨d.tokens_isTerminal, alternating, closing⟩
  · intro suffix
    obtain ⟨e, rest, rfl, behind, stops⟩ :=
      Suffix.exists_sum (Suffix.startsWithUnit _) (Nat.lt_succ_self _) suffix
    cases rest with
    | nil => exact ⟨e, (List.append_nil _).symm⟩
    | cons last rest =>
      have alternating := behind.alternating
      have closing := behind.closing
      cases kind : last.kind with
      | closing => simp [closes, kind] at closing
      | operator => exact absurd kind (stops last rfl)
      | _ => simp [alternates, kind] at alternating

end Reckon.Formula
