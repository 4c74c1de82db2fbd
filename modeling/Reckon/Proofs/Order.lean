import Reckon.Proofs.Yard

/-!
What the order of evaluation keeps of a list of tokens. The parentheses close and are left
out, every other token stays, and the operands keep their order. Each fact is an invariant of
the yard.
-/

namespace Reckon.Formula

namespace Token

def isParenthesis (t : Token) : Bool :=
  t.kind == .opening || t.kind == .closing

def IsNode (t : Token) : Prop :=
  t.isOperand = true ∨ t.kind = .root ∨ ∃ o, t.operator? = some o

theorem isOperand_iff {t : Token} : t.isOperand = true ↔ t.kind = .number ∨ t.kind = .name := by
  simp [isOperand]

theorem IsNode.isParenthesis {t : Token} (node : t.IsNode) : t.isParenthesis = false := by
  rcases node with operand | kind | ⟨o, spells⟩
  · rcases isOperand_iff.mp operand with kind | kind <;> simp [Token.isParenthesis, kind]
  · simp [Token.isParenthesis, kind]
  · simp [Token.isParenthesis, kind_of_operator? spells]

end Token

theorem zipIdx_concat {α : Type} (front : List α) (t : α) :
    (front ++ [t]).zipIdx = front.zipIdx ++ [(t, front.length)] := by
  rw [List.zipIdx_append, Nat.zero_add]
  rfl

theorem map_fst_filter_zipIdx {α : Type} (ts : List α) (p : α → Bool) :
    (ts.zipIdx.filter fun m => p m.1).map Prod.fst = ts.filter p := by
  have zipped := List.filter_map (f := Prod.fst) (p := p) (l := ts.zipIdx)
  rw [List.zipIdx_map_fst] at zipped
  exact zipped.symm

namespace Yard

def depth (stack : List Token) : Nat :=
  stack.countP fun t => t.kind == .opening

theorem depth_append (front back : List Token) : depth (front ++ back) = depth front + depth back :=
  List.countP_append

theorem depth_cons_of_ne {t : Token} (other : t.kind ≠ .opening) (stack : List Token) :
    depth (t :: stack) = depth stack := by
  simp [depth, other]

theorem depth_cons_opening {t : Token} (opens : t.kind = .opening) (stack : List Token) :
    depth (t :: stack) = depth stack + 1 := by
  simp [depth, opens]

theorem depth_eq_zero {stack : List Token} (others : ∀ t ∈ stack, t.kind ≠ .opening) :
    depth stack = 0 := by
  simpa [depth, List.countP_eq_zero] using others

theorem closes_of_moves {yard next : Yard} {t : Token} (moves : Moves yard t next)
    (rest : List Token) :
    closes (depth yard.stack) (t :: rest) = closes (depth next.stack) rest := by
  cases moves with
  | place operand =>
    rcases Token.isOperand_iff.mp operand with kind | kind <;> simp only [closes, kind]
  | wait kind =>
    rcases kind with root | opens
    · simp only [closes, root, depth_cons_of_ne (show t.kind ≠ .opening by simp [root])]
    · simp only [closes, opens, depth_cons_opening opens]
  | close kind others opens =>
    rw [depth_append, depth_eq_zero others, Nat.zero_add, depth_cons_opening opens]
    simp only [closes, kind]
  | operate spells way holds =>
    have kind := Token.kind_of_operator? spells
    rw [depth_append, depth_eq_zero fun t member => (way t member).1, Nat.zero_add,
      depth_cons_of_ne (by simp [kind])]
    simp only [closes, kind]

/-- As many parentheses are open in the tokens that were run as wait in the yard. -/
theorem closes_of_run {ts : List Token} {last : Yard} (ran : run ⟨[], []⟩ ts = .ok last)
    (rest : List Token) : closes 0 (ts ++ rest) = closes (depth last.stack) rest := by
  refine run_induction (fun front yard =>
    ∀ rest, closes 0 (front ++ rest) = closes (depth yard.stack) rest)
    ?_ [] ts (fun _ => rfl) ran rest
  intro front yard t next before moves rest
  rw [List.append_assoc, before, List.singleton_append, closes_of_moves moves]

/-- The output holds nodes, and beside them only opening parentheses wait. -/
theorem nodes_of_run {ts : List Token} {last : Yard} (ran : run ⟨[], []⟩ ts = .ok last) :
    (∀ t ∈ last.output, t.IsNode) ∧ ∀ t ∈ last.stack, t.kind ≠ .opening → t.IsNode := by
  refine run_induction (fun _ yard => (∀ t ∈ yard.output, t.IsNode) ∧
    ∀ t ∈ yard.stack, t.kind ≠ .opening → t.IsNode) ?_ [] ts (by simp) ran
  rintro front yard t next ⟨placed, waits⟩ moves
  cases moves with
  | place operand => exact ⟨List.forall_mem_cons.mpr ⟨.inl operand, placed⟩, waits⟩
  | wait kind =>
    refine ⟨placed, List.forall_mem_cons.mpr ⟨fun other => ?_, waits⟩⟩
    exact .inr (.inl (kind.resolve_right other))
  | @close output waiting stack opening _ kind others opens =>
    have moved : ∀ t ∈ waiting, t.IsNode := fun t member =>
      waits t (List.mem_append_left _ member) (others t member)
    refine ⟨?_, fun t member => waits t (List.mem_append_right _ (List.mem_cons_of_mem _ member))⟩
    intro t member
    rcases List.mem_append.mp member with waited | before
    · exact moved t (List.mem_reverse.mp waited)
    · exact placed t before
  | @operate output waiting stack _ o spells way holds =>
    have moved : ∀ t ∈ waiting, t.IsNode := fun t member =>
      waits t (List.mem_append_left _ member) (way t member).1
    refine ⟨?_, List.forall_mem_cons.mpr ⟨fun _ => .inr (.inr ⟨o, spells⟩), ?_⟩⟩
    · intro t member
      rcases List.mem_append.mp member with waited | before
      · exact moved t (List.mem_reverse.mp waited)
      · exact placed t before
    · exact fun t member => waits t (List.mem_append_right _ member)

/-- The yard holds the tokens that were run, each with the place at which it was run. Operands do
not wait, and what stands before an operand in the output was run before it. -/
structure Keeps (front : List Token) (yard : Yard) (placed waiting : List (Token × Nat)) :
    Prop where
  output : placed.map Prod.fst = yard.output
  stack : waiting.map Prod.fst = yard.stack
  once : ((placed ++ waiting).filter fun m => !m.1.isParenthesis).Perm
    (front.zipIdx.filter fun m => !m.1.isParenthesis)
  operands : placed.reverse.filter (fun m => m.1.isOperand) =
    front.zipIdx.filter fun m => m.1.isOperand
  others : ∀ m ∈ waiting, m.1.isOperand = false
  bounded : ∀ m ∈ placed ++ waiting, m.2 < front.length
  behind : placed.Pairwise fun later earlier => later.1.isOperand = true → earlier.2 < later.2

namespace Keeps

variable {front : List Token} {yard : Yard} {t : Token}
  {placed waiting moved rest : List (Token × Nat)}

theorem once_concat {all : List (Token × Nat)} (keeps : Keeps front yard placed waiting)
    (taken : all.Perm ((t, front.length) :: (placed ++ waiting))) :
    (all.filter fun m => !m.1.isParenthesis).Perm
      ((front ++ [t]).zipIdx.filter fun m => !m.1.isParenthesis) := by
  refine (taken.filter _).trans ?_
  rw [zipIdx_concat, List.filter_append, ← List.singleton_append, List.filter_append]
  exact List.perm_append_comm.trans (keeps.once.append_right _)

theorem bounded_concat {all : List (Token × Nat)} (keeps : Keeps front yard placed waiting)
    (taken : all.Perm ((t, front.length) :: (placed ++ waiting))) :
    ∀ m ∈ all, m.2 < (front ++ [t]).length := by
  intro m member
  rw [List.length_append, List.length_singleton]
  rcases List.mem_cons.mp (taken.mem_iff.mp member) with rfl | before
  · exact Nat.lt_succ_self _
  · exact Nat.lt_succ_of_lt (keeps.bounded m before)

theorem place (keeps : Keeps front yard placed waiting) :
    Keeps (front ++ [t]) ⟨t :: yard.output, yard.stack⟩ ((t, front.length) :: placed) waiting where
  output := by rw [List.map_cons, keeps.output]
  stack := keeps.stack
  once := keeps.once_concat (.refl _)
  operands := by
    rw [zipIdx_concat, List.reverse_cons, List.filter_append, List.filter_append, keeps.operands]
  others := keeps.others
  bounded := keeps.bounded_concat (.refl _)
  behind := by
    refine List.pairwise_cons.mpr ⟨fun m before _ => ?_, keeps.behind⟩
    exact keeps.bounded m (List.mem_append_left _ before)

theorem wait (keeps : Keeps front yard placed waiting) (other : t.isOperand = false) :
    Keeps (front ++ [t]) ⟨yard.output, t :: yard.stack⟩ placed ((t, front.length) :: waiting) where
  output := keeps.output
  stack := by rw [List.map_cons, keeps.stack]
  once := keeps.once_concat List.perm_middle
  operands := by
    rw [zipIdx_concat, List.filter_append, keeps.operands]
    simp [other]
  others := List.forall_mem_cons.mpr ⟨other, keeps.others⟩
  bounded := keeps.bounded_concat List.perm_middle
  behind := keeps.behind

theorem move (keeps : Keeps front yard placed (moved ++ rest)) :
    Keeps front ⟨(moved.map Prod.fst).reverse ++ yard.output, rest.map Prod.fst⟩
      (moved.reverse ++ placed) rest := by
  have same : (moved.reverse ++ placed ++ rest).Perm (placed ++ (moved ++ rest)) := by
    rw [List.append_assoc]
    exact ((List.reverse_perm moved).append_right _).trans (List.perm_append_comm_assoc _ _ _)
  have waits : ∀ m ∈ moved, m.1.isOperand = false := fun m member =>
    keeps.others m (List.mem_append_left rest member)
  refine ⟨?_, rfl, (same.filter _).trans keeps.once, ?_, ?_, ?_, ?_⟩
  · rw [List.map_append, List.map_reverse, keeps.output]
  · have none : moved.filter (fun m => m.1.isOperand) = [] := by
      simpa [List.filter_eq_nil_iff] using waits
    rw [List.reverse_append, List.reverse_reverse, List.filter_append, none, List.append_nil,
      keeps.operands]
  · exact fun m member => keeps.others m (List.mem_append_right moved member)
  · exact fun m member => keeps.bounded m (same.mem_iff.mp member)
  · refine List.pairwise_append.mpr ⟨?_, keeps.behind, fun m member _ _ operand => ?_⟩
    · refine List.pairwise_iff_forall_sublist.mpr fun taken operand => ?_
      simp [waits _ (List.mem_reverse.mp (taken.subset List.mem_cons_self))] at operand
    · simp [waits m (List.mem_reverse.mp member)] at operand

theorem drop {opening : Token × Nat} (keeps : Keeps front yard placed (opening :: rest))
    (opens : opening.1.kind = .opening) (ends : t.kind = .closing) :
    Keeps (front ++ [t]) ⟨yard.output, rest.map Prod.fst⟩ placed rest where
  output := keeps.output
  stack := rfl
  once := by
    have first : opening.1.isParenthesis = true := by simp [Token.isParenthesis, opens]
    have last : t.isParenthesis = true := by simp [Token.isParenthesis, ends]
    have kept := keeps.once
    rw [List.filter_append, List.filter_cons_of_neg (by simp [first])] at kept
    rw [zipIdx_concat, List.filter_append, List.filter_append,
      List.filter_cons_of_neg (by simp [last]), List.filter_nil, List.append_nil]
    exact kept
  operands := by
    have other : t.isOperand = false := by simp [Token.isOperand, ends]
    rw [zipIdx_concat, List.filter_append, keeps.operands]
    simp [other]
  others := fun m member => keeps.others m (List.mem_cons_of_mem opening member)
  bounded := by
    intro m member
    rw [List.length_append, List.length_singleton]
    refine Nat.lt_succ_of_lt (keeps.bounded m ?_)
    exact List.perm_middle.mem_iff.mpr (List.mem_cons_of_mem opening member)
  behind := keeps.behind

/-- Every step keeps the tokens and their places. -/
theorem moves {next : Yard} (keeps : Keeps front yard placed waiting) (moves : Moves yard t next) :
    ∃ placed' waiting', Keeps (front ++ [t]) next placed' waiting' := by
  cases moves with
  | place operand => exact ⟨_, _, keeps.place⟩
  | wait kind =>
    refine ⟨_, _, keeps.wait ?_⟩
    rcases kind with kind | kind <;> simp [Token.isOperand, kind]
  | @close output _ _ _ _ kind others opens =>
    obtain ⟨moved, rest, rfl, rfl, below⟩ := List.map_eq_append_iff.mp keeps.stack
    obtain ⟨opening, rest, rfl, rfl, rfl⟩ := List.map_eq_cons_iff.mp below
    exact ⟨_, _, keeps.move.drop opens kind⟩
  | operate spells way holds =>
    obtain ⟨moved, rest, rfl, rfl, rfl⟩ := List.map_eq_append_iff.mp keeps.stack
    refine ⟨_, _, keeps.move.wait ?_⟩
    simp [Token.isOperand, Token.kind_of_operator? spells]

end Keeps

theorem exists_keeps_of_run {ts : List Token} {last : Yard} (ran : run ⟨[], []⟩ ts = .ok last) :
    ∃ placed waiting, Keeps ts last placed waiting := by
  refine run_induction (fun front yard => ∃ placed waiting, Keeps front yard placed waiting)
    (fun ⟨_, _, keeps⟩ moves => keeps.moves moves) [] ts ⟨[], [], ?_⟩ ran
  exact ⟨rfl, rfl, .refl _, rfl, by simp, by simp, .nil⟩

end Yard

/-- `placed` is the result, each token with its place in the text: every token but the parentheses
is there just once, the operands stand as they stood, and an operator stands behind all operands
that stood before it. -/
structure Rearranges (ts result : List Token) (placed : List (Token × Nat)) : Prop where
  tokens : placed.map Prod.fst = result
  once : placed.Perm (ts.zipIdx.filter fun m => !m.1.isParenthesis)
  operands : placed.filter (fun m => m.1.isOperand) = ts.zipIdx.filter fun m => m.1.isOperand
  operators : ∀ operand ∈ ts.zipIdx, ∀ operator ∈ ts.zipIdx, operand.1.isOperand = true →
    operator.1.kind = .operator → operand.2 < operator.2 → [operand, operator].Sublist placed

theorem sublist_pair_or {α : Type} {l : List α} {a b : α} (first : a ∈ l) (second : b ∈ l)
    (different : a ≠ b) : [a, b].Sublist l ∨ [b, a].Sublist l := by
  induction l with
  | nil => cases first
  | cons c l ih =>
    rcases List.mem_cons.mp first with rfl | first'
    · have later := (List.mem_cons.mp second).resolve_left different.symm
      exact .inl ((List.singleton_sublist.mpr later).cons_cons a)
    · rcases List.mem_cons.mp second with rfl | second'
      · exact .inr ((List.singleton_sublist.mpr first').cons_cons b)
      · exact (ih first' second').imp (·.cons c) (·.cons c)

section

variable {ts result : List Token} (ordered : toPostfix ts = .ok result)
include ordered

theorem closes_of_toPostfix : closes 0 ts = true := by
  obtain ⟨yard, ran, others, rfl⟩ := toPostfix_eq_ok_iff.mp ordered
  have same := Yard.closes_of_run ran []
  rwa [List.append_nil, Yard.depth_eq_zero others] at same

theorem isNode_of_toPostfix : ∀ t ∈ result, t.IsNode := by
  obtain ⟨yard, ran, others, rfl⟩ := toPostfix_eq_ok_iff.mp ordered
  obtain ⟨placed, waits⟩ := Yard.nodes_of_run ran
  intro t member
  rcases List.mem_append.mp member with before | waited
  · exact placed t (List.mem_reverse.mp before)
  · exact waits t waited (others t waited)

/-- At the end every token that waits goes to the output. -/
theorem exists_keeps_of_toPostfix : ∃ placed, Yard.Keeps ts ⟨result.reverse, []⟩ placed [] := by
  obtain ⟨yard, ran, -, rfl⟩ := toPostfix_eq_ok_iff.mp ordered
  obtain ⟨placed, waiting, keeps⟩ := Yard.exists_keeps_of_run ran
  rw [List.reverse_append, List.reverse_reverse, ← keeps.stack]
  rw [← List.append_nil waiting] at keeps
  exact ⟨_, keeps.move⟩

theorem exists_rearranges : ∃ placed, Rearranges ts result placed := by
  obtain ⟨placed, keeps⟩ := exists_keeps_of_toPostfix ordered
  have tokens : placed.reverse.map Prod.fst = result := by
    rw [List.map_reverse, keeps.output, List.reverse_reverse]
  have once : placed.reverse.Perm (ts.zipIdx.filter fun m => !m.1.isParenthesis) := by
    have inside : ∀ m ∈ placed, (!m.1.isParenthesis) = true := by
      intro m member
      have node := isNode_of_toPostfix ordered m.1
        (tokens ▸ List.mem_map_of_mem (List.mem_reverse.mpr member))
      rw [node.isParenthesis, Bool.not_false]
    have kept := keeps.once
    rw [List.append_nil, List.filter_eq_self.mpr inside] at kept
    exact (List.reverse_perm placed).trans kept
  refine ⟨placed.reverse, tokens, once, keeps.operands, ?_⟩
  intro operand first operator second isOperand kind before
  have different : operand ≠ operator := by
    rintro rfl
    exact absurd before (Nat.lt_irrefl _)
  have inside : operand ∈ placed.reverse := by
    rw [once.mem_iff, List.mem_filter, Token.IsNode.isParenthesis (.inl isOperand)]
    exact ⟨first, rfl⟩
  have inside' : operator ∈ placed.reverse := by
    rw [once.mem_iff, List.mem_filter]
    exact ⟨second, by simp [Token.isParenthesis, kind]⟩
  refine (sublist_pair_or inside inside' different).resolve_right fun behind => ?_
  have ahead := List.pairwise_iff_forall_sublist.mp (List.pairwise_reverse.mpr keeps.behind)
    behind isOperand
  exact absurd before (Nat.lt_asymm ahead)

theorem perm_of_toPostfix : result.Perm (ts.filter fun t => !t.isParenthesis) := by
  obtain ⟨placed, rearranges⟩ := exists_rearranges ordered
  rw [← rearranges.tokens, ← map_fst_filter_zipIdx]
  exact rearranges.once.map Prod.fst

theorem operands_of_toPostfix : result.filter Token.isOperand = ts.filter Token.isOperand := by
  obtain ⟨placed, rearranges⟩ := exists_rearranges ordered
  rw [← map_fst_filter_zipIdx ts, ← rearranges.operands, ← rearranges.tokens, List.filter_map]
  rfl

/-- The order of evaluation keeps every token but the parentheses, which it leaves out, and it
keeps the order of the operands. An operator comes behind all operands that stand before it. -/
theorem toPostfix_rearranges :
    result.Perm (ts.filter fun t => !t.isParenthesis) ∧ (∀ t ∈ result, t.isParenthesis = false) ∧
      result.filter Token.isOperand = ts.filter Token.isOperand ∧
      ∃ placed, Rearranges ts result placed :=
  ⟨perm_of_toPostfix ordered, fun t member => (isNode_of_toPostfix ordered t member).isParenthesis,
    operands_of_toPostfix ordered, exists_rearranges ordered⟩

end

/-- In `a-(a-a)` each operator and each operand has a place of its own. -/
theorem toPostfix_rearranges_repeated :
    let a : Token := ⟨.name, "a", none⟩
    let minus : Token := ⟨.operator, "-", none⟩
    ∃ placed, Rearranges [a, minus, ⟨.opening, "(", none⟩, a, minus, a, ⟨.closing, ")", none⟩]
      [a, a, a, minus, minus] placed :=
  (toPostfix_rearranges rfl).2.2.2

end Reckon.Formula
