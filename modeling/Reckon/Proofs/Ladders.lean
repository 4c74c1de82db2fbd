import Reckon.Proofs.Pairing
import Reckon.Proofs.Stretches

/-!
What waits in the yard. Between parentheses the waiting tokens form a ladder: binary operators, each
of a higher rank than the one below it, and on top of them square roots. A step keeps the ladders,
so a run of tokens of the language has every rank that it looks up, and stops only at a parenthesis
that closes though none is open.
-/

namespace Reckon.Formula

theorem Operator.rank_mem (o : Operator) : o.rank ∈ [1, 2, 3] := by
  cases o <;> decide

/-- There are three ranks, so operators of rising ranks are no more than that. -/
theorem Operator.length_le_of_rising {operators : List Operator}
    (rising : operators.Pairwise fun lower upper => lower.rank < upper.rank) :
    operators.length ≤ 3 := by
  have distinct : (operators.map rank).Nodup :=
    List.pairwise_map.mpr (rising.imp Nat.ne_of_lt)
  have among : operators.map rank ⊆ [1, 2, 3] := by
    rintro rank member
    obtain ⟨o, -, rfl⟩ := List.mem_map.mp member
    exact o.rank_mem
  simpa using distinct.length_le_of_subset among

namespace Yard

/-- The tokens that wait between two parentheses, the last one first. From below there are binary
operators of rising ranks, and then square roots. -/
def IsLadder (segment : List Token) : Prop :=
  ∃ operators roots : List Token, segment.reverse = operators ++ roots ∧
    (∃ signs : List Operator, operators.map Token.operator? = signs.map some ∧
      signs.Pairwise (fun lower upper => lower.rank < upper.rank) ∧ signs.length ≤ 3) ∧
    ∀ t ∈ roots, t.kind = .root

/-- An operator waits only on what holds it, and beside operators there are square roots and opening
parentheses. -/
inductive Climbs : List Token → Prop where
  | nil : Climbs []
  | opening {t : Token} {stack : List Token} (opens : t.kind = .opening) (below : Climbs stack) :
      Climbs (t :: stack)
  | root {t : Token} {stack : List Token} (kind : t.kind = .root) (named : t.text = rootName)
      (below : Climbs stack) : Climbs (t :: stack)
  | operator {t : Token} {stack : List Token} {o : Operator} (spells : t.operator? = some o)
      (holds : Holds o.rank stack) (below : Climbs stack) : Climbs (t :: stack)

namespace Climbs

theorem of_append {above stack : List Token} (climbs : Climbs (above ++ stack)) : Climbs stack := by
  induction above with
  | nil => exact climbs
  | cons t above ih =>
    cases climbs with
    | opening _ below => exact ih below
    | root _ _ below => exact ih below
    | operator _ _ below => exact ih below

theorem kind_of_mem {stack : List Token} (climbs : Climbs stack) :
    ∀ t ∈ stack, t.kind = .opening ∨ t.kind = .operator ∨ t.kind = .root := by
  induction climbs with
  | nil => simp
  | opening opens _ ih => exact List.forall_mem_cons.mpr ⟨.inl opens, ih⟩
  | root kind _ _ ih => exact List.forall_mem_cons.mpr ⟨.inr (.inr kind), ih⟩
  | operator spells _ _ ih =>
    exact List.forall_mem_cons.mpr ⟨.inr (.inl (Token.kind_of_operator? spells)), ih⟩

theorem ranked {stack : List Token} (climbs : Climbs stack) : Ranked stack := by
  induction climbs with
  | nil => simp [Ranked]
  | opening opens _ ih => exact List.forall_mem_cons.mpr ⟨fun other => absurd opens other, ih⟩
  | root kind named _ ih =>
    exact List.forall_mem_cons.mpr ⟨fun _ => ⟨4, by rw [named, rank?_rootName]⟩, ih⟩
  | @operator t _ o spells _ _ ih =>
    refine List.forall_mem_cons.mpr ⟨fun _ => ⟨o.rank, ?_⟩, ih⟩
    exact rank?_eq_of_ofText (Token.operator?_eq_some.mp spells).2

/-- A step of a token of the language keeps the order of what waits. -/
theorem of_moves {yard next : Yard} {t : Token} (climbs : Climbs yard.stack) (known : t.IsKnown)
    (moves : Moves yard t next) : Climbs next.stack := by
  cases moves with
  | place operand => exact climbs
  | wait kind =>
    rcases kind with kind | opens
    · simp only [Token.IsKnown, kind] at known
      exact .root kind known climbs
    · exact .opening opens climbs
  | close kind others opens =>
    cases climbs.of_append with
    | opening _ below => exact below
    | root kind _ _ => simp [kind] at opens
    | operator spells _ _ => simp [Token.kind_of_operator? spells] at opens
  | operate spells way holds => exact .operator spells holds climbs.of_append

/-- Between parentheses, read from the top, there are square roots and then operators of falling
ranks. -/
theorem exists_roots {segment stack : List Token} (climbs : Climbs (segment ++ stack))
    (others : ∀ t ∈ segment, t.kind ≠ .opening) :
    ∃ (roots operators : List Token) (signs : List Operator), segment = roots ++ operators ∧
      (∀ t ∈ roots, t.kind = .root) ∧ operators.map Token.operator? = signs.map some ∧
      signs.Pairwise fun upper lower => lower.rank < upper.rank := by
  induction segment with
  | nil => exact ⟨[], [], [], rfl, by simp, rfl, .nil⟩
  | cons t segment ih =>
    obtain ⟨other, others⟩ := List.forall_mem_cons.mp others
    cases climbs with
    | opening opens _ => exact absurd opens other
    | root kind _ below =>
      obtain ⟨roots, operators, signs, rfl, all, spelled, falling⟩ := ih below others
      exact ⟨t :: roots, operators, signs, rfl, List.forall_mem_cons.mpr ⟨kind, all⟩, spelled,
        falling⟩
    | @operator _ _ o spells holds below =>
      obtain ⟨roots, operators, signs, rfl, all, spelled, falling⟩ := ih below others
      -- A square root has a higher rank than `o`, so `o` would not wait on it.
      cases roots with
      | cons root roots =>
        obtain ⟨waiting, ranked, less⟩ := holds.resolve_left (others root (by simp))
        have kind := all root List.mem_cons_self
        cases below with
        | opening opens _ => simp [kind] at opens
        | operator spells _ _ => simp [Token.kind_of_operator? spells] at kind
        | root _ named _ =>
          rw [named, rank?_rootName] at ranked
          cases ranked
          cases o <;> simp [Operator.rank] at less
      | nil =>
        refine ⟨[], t :: operators, o :: signs, rfl, by simp, by simp [spells, spelled], ?_⟩
        cases signs with
        | nil => exact List.pairwise_singleton _ _
        | cons next signs =>
          obtain ⟨top, operators, rfl, same, -⟩ := List.map_eq_cons_iff.mp spelled
          obtain ⟨waiting, ranked, less⟩ := holds.resolve_left (others top (by simp))
          rw [rank?_eq_of_ofText (Token.operator?_eq_some.mp same).2] at ranked
          cases ranked
          refine List.pairwise_cons.mpr ⟨List.forall_mem_cons.mpr ⟨less, fun lower member => ?_⟩, falling⟩
          exact Nat.lt_trans ((List.pairwise_cons.mp falling).1 lower member) less

theorem isLadder {segment stack : List Token} (climbs : Climbs (segment ++ stack))
    (others : ∀ t ∈ segment, t.kind ≠ .opening) : IsLadder segment := by
  obtain ⟨roots, operators, signs, rfl, all, spelled, falling⟩ := climbs.exists_roots others
  have rising := List.pairwise_reverse.mpr falling
  refine ⟨operators.reverse, roots.reverse, List.reverse_append, ⟨signs.reverse, ?_, rising,
    Operator.length_le_of_rising rising⟩, fun t member => all t (List.mem_reverse.mp member)⟩
  rw [List.map_reverse, spelled, List.map_reverse]

end Climbs

theorem IsLadder.pairwise {segment : List Token} (ladder : IsLadder segment) :
    segment.Pairwise fun upper lower => upper.kind = .operator → lower.kind ≠ .root := by
  obtain ⟨operators, roots, split, ⟨signs, spelled, -⟩, all⟩ := ladder
  have operator : ∀ t ∈ operators, t.kind = .operator := by
    intro t member
    obtain ⟨o, -, spells⟩ := List.mem_map.mp (spelled ▸ List.mem_map_of_mem member)
    exact Token.kind_of_operator? spells.symm
  rw [← List.pairwise_reverse, split]
  refine List.pairwise_append.mpr ⟨?_, ?_, ?_⟩
  · exact List.pairwise_of_forall_mem_list fun lower member _ _ _ => by simp [operator lower member]
  · exact List.pairwise_of_forall_mem_list fun _ _ upper member kind => by
      simp [all upper member] at kind
  · exact fun lower member _ _ _ => by simp [operator lower member]

/-! ### Runs -/

theorem openings_concat (front : List Token) (t : Token) :
    openings (front ++ [t]) = openings front + openings [t] :=
  List.countP_append

theorem closings_concat (front : List Token) (t : Token) :
    closings (front ++ [t]) = closings front + closings [t] :=
  List.countP_append

theorem depth_of_moves {yard next : Yard} {t : Token} (moves : Moves yard t next) :
    depth next.stack + closings [t] = depth yard.stack + openings [t] := by
  cases moves with
  | place operand =>
    rcases Token.isOperand_iff.mp operand with kind | kind <;> simp [openings, closings, kind]
  | wait kind => rcases kind with kind | kind <;> simp [openings, closings, depth, kind]
  | close kind others opens =>
    rw [depth_append, depth_eq_zero others, depth_cons_opening opens]
    simp [openings, closings, kind]
  | operate spells way holds =>
    have kind := Token.kind_of_operator? spells
    rw [depth_append, depth_eq_zero fun t member => (way t member).1,
      depth_cons_of_ne (by simp [kind])]
    simp [openings, closings, kind]

section

variable {ts : List Token} {last : Yard}

theorem depth_of_run (ran : run ⟨[], []⟩ ts = .ok last) :
    depth last.stack + closings ts = openings ts := by
  refine run_induction (fun front yard => depth yard.stack + closings front = openings front)
    ?_ [] ts rfl ran
  intro front yard t next before moves
  have counted := depth_of_moves moves
  rw [openings_concat, closings_concat]
  omega

theorem climbs_of_run (known : ∀ t ∈ ts, t.IsKnown) (ran : run ⟨[], []⟩ ts = .ok last) :
    Climbs last.stack := by
  refine run_induction (fun front yard => (∀ t ∈ front, t.IsKnown) → Climbs yard.stack)
    ?_ [] ts (fun _ => .nil) ran known
  intro front yard t next before moves known
  obtain ⟨earlier, latest⟩ := List.forall_mem_append.mp known
  exact (before earlier).of_moves (latest t List.mem_cons_self) moves

/-- A run stops only where a parenthesis closes though none is open. -/
theorem run_cases (known : ∀ t ∈ ts, t.IsKnown) {yard : Yard} (ranked : Ranked yard.stack) :
    (∃ last, yard.run ts = .ok last) ∨
      ∃ shorter, shorter <+: ts ∧ depth yard.stack + openings shorter < closings shorter := by
  induction ts generalizing yard with
  | nil => exact .inl ⟨yard, rfl⟩
  | cons t ts ih =>
    obtain ⟨first, known⟩ := List.forall_mem_cons.mp known
    rcases step_cases ranked first with ⟨next, stepped⟩ | ⟨kind, none, -⟩
    · have moves := step_eq_ok_iff.mp stepped
      have counted := depth_of_moves moves
      rw [run_cons_of_moves moves]
      refine (ih known (ranked.of_moves first moves)).imp id ?_
      rintro ⟨shorter, before, more⟩
      refine ⟨t :: shorter, List.cons_prefix_cons.mpr ⟨rfl, before⟩, ?_⟩
      rw [openings_cons, closings_cons]
      omega
    · exact .inr ⟨[t], ⟨ts, rfl⟩, by simp [none, openings, closings, kind]⟩

theorem exists_run_iff (known : ∀ t ∈ ts, t.IsKnown) :
    (∃ last, run ⟨[], []⟩ ts = .ok last) ↔
      ∀ shorter, shorter <+: ts → closings shorter ≤ openings shorter := by
  constructor
  · rintro ⟨last, ran⟩ shorter ⟨rest, rfl⟩
    rw [run_append] at ran
    obtain ⟨mid, ran, -⟩ := bind_eq_ok_iff.mp ran
    have counted := depth_of_run ran
    omega
  · intro opened
    refine (run_cases known (by simp [Ranked])).resolve_right ?_
    rintro ⟨shorter, before, more⟩
    have fits := opened shorter before
    simp only [depth, List.countP_nil] at more
    omega

end

/-- What waits after some tokens: square roots, operators and parentheses that are open, in ladders
between the parentheses, so that no operator waits on a square root and each rank can be looked
up. -/
structure Waits (front stack : List Token) : Prop where
  kinds : ∀ t ∈ stack, t.kind = .opening ∨ t.kind = .operator ∨ t.kind = .root
  opened : (depth stack : Int) = openings front - closings front
  ladders : ∀ segment, IsStretch (fun t => t.kind != .opening) stack segment →
    IsLadder segment ∧
      segment.Pairwise fun upper lower => upper.kind = .operator → lower.kind ≠ .root
  ranked : ∀ t ∈ stack, t.kind ≠ .opening → ∃ rank, rank? t.text = some rank

theorem waits_of_run {front : List Token} {yard : Yard} (known : ∀ t ∈ front, t.IsKnown)
    (ran : run ⟨[], []⟩ front = .ok yard) : Waits front yard.stack where
  kinds := (climbs_of_run known ran).kind_of_mem
  opened := by
    have counted := depth_of_run ran
    omega
  ladders := by
    rintro segment ⟨above, below, split, inside, -⟩
    have climbs := climbs_of_run known ran
    rw [split, List.append_assoc] at climbs
    have ladder := climbs.of_append.isLadder fun t member => by simpa using inside t member
    exact ⟨ladder, ladder.pairwise⟩
  ranked := (climbs_of_run known ran).ranked

end Yard

/-- Tokens of the language are run as long as no parenthesis closes though none is open. After each of
them what waits forms ladders, so the next one looks up no rank that there is not. -/
theorem waiting_forms_ladders {ts : List Token} (known : ∀ t ∈ ts, t.IsKnown) :
    ∀ front, front <+: ts →
      ((∃ yard, Yard.run ⟨[], []⟩ front = .ok yard) ↔
        ∀ shorter, shorter <+: front → closings shorter ≤ openings shorter) ∧
      ∀ yard, Yard.run ⟨[], []⟩ front = .ok yard →
        Yard.Waits front yard.stack ∧
          ∀ t, front ++ [t] <+: ts → ∀ text, yard.step t ≠ .error (.unranked text) := by
  intro front before
  have known' : ∀ t ∈ front, t.IsKnown := fun t member => known t (before.subset member)
  refine ⟨Yard.exists_run_iff known', fun yard ran => ?_⟩
  have waits := Yard.waits_of_run known' ran
  refine ⟨waits, fun t next text unranked => ?_⟩
  have isKnown : t.IsKnown := known t (next.subset (by simp))
  rcases Yard.step_cases waits.ranked isKnown with ⟨_, stepped⟩ | ⟨-, -, failed⟩
  · cases stepped.symm.trans unranked
  · cases failed.symm.trans unranked

/-- In `a+b*sqrt(c^` two ladders wait, one below the parenthesis and one above it. -/
theorem waiting_forms_ladders_in_group :
    let plus : Token := ⟨.operator, "+", none⟩
    let times : Token := ⟨.operator, "*", none⟩
    let power : Token := ⟨.operator, "^", none⟩
    let root : Token := ⟨.root, "sqrt", none⟩
    let opening : Token := ⟨.opening, "(", none⟩
    let a : Token := ⟨.name, "a", none⟩
    Yard.Waits [a, plus, a, times, root, opening, a, power] [power, opening, root, times, plus] := by
  intro plus times power root opening a
  have known : ∀ t ∈ [a, plus, a, times, root, opening, a, power], t.IsKnown := by
    simp [a, plus, times, root, opening, power, Token.IsKnown, rootName, Operator.ofText?,
      Operator.ofChar?]
  have ran : Yard.run ⟨[], []⟩ [a, plus, a, times, root, opening, a, power] =
      .ok ⟨[a, a, a], [power, opening, root, times, plus]⟩ := by cbv
  exact ((waiting_forms_ladders known _ (List.prefix_refl _)).2 _ ran).1

end Reckon.Formula
