import Reckon.Proofs.Cuts

/-!
Where the tokens of a formula stand. The lexer gives some tokens exactly if they cover the formula:
each is cut out of the text at its place and is the longest lexeme there, one stands behind the
other, and what no token spans is white space. So there is no other way to cover a formula.
-/

namespace Reckon.Formula

namespace Token

structure IsAt (t : Token) (text : List Char) (first finish : Nat) : Prop where
  start_eq : t.start = some first
  finish_eq : t.finish? = some finish
  column_eq : t.column? = some (first + 1)
  filled : first < finish
  text_eq : t.text.toList = text.extract first finish

def Spans (t : Token) (place : Nat) : Prop :=
  ∃ first ∈ t.start, ∃ finish ∈ t.finish?, first ≤ place ∧ place < finish

def Precedes (t u : Token) : Prop :=
  ∀ finish ∈ t.finish?, ∀ first ∈ u.start, finish ≤ first

end Token

/-- The text is a lexeme of the kind, and does not go on as one where `next` stands behind it. -/
inductive Longest : Kind → List Char → Option Char → Prop where
  | number {c : Char} {run : List Char} {x : Float} {next : Option Char} (digit : c.isDigit = true)
      (others : ∀ d ∈ run, d.isDigit = true ∨ d = '.') (points : (c :: run).count '.' ≤ 1)
      (value : Decimal.float? (String.ofList (c :: run)) = some x) (finite : x.isFinite = true)
      (behind : ∀ d ∈ next, d.isDigit = false ∧ d ≠ '.' ∧ d.isAlpha = false) :
      Longest .number (c :: run) next
  | word {c : Char} {run : List Char} {next : Option Char} (letter : c.isAlpha = true)
      (others : ∀ d ∈ run, d.isAlpha = true ∨ d = '_')
      (behind : ∀ d ∈ next, d.isAlpha = false ∧ d.isDigit = false ∧ d ≠ '_') :
      Longest (if String.ofList (c :: run) = "sqrt" then .root else .name) (c :: run) next
  | operator (o : Operator) (next : Option Char) : Longest .operator [o.symbol] next
  | opening (next : Option Char) : Longest .opening ['('] next
  | closing (next : Option Char) : Longest .closing [')'] next

/-- From the place `start` on, the tokens are all of the text but its white space. -/
structure Covers (text : List Char) (start : Nat) (ts : List Token) : Prop where
  placed : ∀ t ∈ ts, ∃ first finish, start ≤ first ∧ t.IsAt text first finish ∧
    Longest t.kind t.text.toList text[finish]?
  ordered : ts.Pairwise Token.Precedes
  blank : ∀ place, start ≤ place → (∀ t ∈ ts, ¬t.Spans place) →
    ∀ c ∈ text[place]?, Text.isBlank c = true

theorem Token.isAt_iff {t : Token} {text : List Char} {first finish : Nat} :
    t.IsAt text first finish ↔ t.start = some first ∧ first < finish ∧
      first + t.text.toList.length = finish ∧
        text.drop first = t.text.toList ++ text.drop finish := by
  constructor
  · rintro ⟨starts, ends, -, filled, cut⟩
    have split := List.take_append_drop (finish - first) (text.drop first)
    rw [List.drop_drop, Nat.add_sub_cancel' filled.le] at split
    rw [finish?, starts, Option.map_some, Option.some.injEq, ← String.length_toList] at ends
    exact ⟨starts, filled, ends, by rw [cut, List.extract, split]⟩
  · rintro ⟨starts, filled, ends, front⟩
    refine ⟨starts, ?_, by rw [column?, starts, Option.map_some], filled, ?_⟩
    · rw [finish?, starts, Option.map_some, ← String.length_toList, ends]
    · rw [List.extract, front, List.take_left' (by omega)]

theorem Token.IsAt.spans_iff {t : Token} {text : List Char} {first finish place : Nat}
    (here : t.IsAt text first finish) : t.Spans place ↔ first ≤ place ∧ place < finish := by
  simp [Spans, here.start_eq, here.finish_eq]

namespace Lexer

theorem joins_number_iff {d : Char} :
    joins .number d = false ↔ d.isDigit = false ∧ d ≠ '.' ∧ d.isAlpha = false := by
  simp [joins, isNumberChar, and_assoc]

theorem isWordChar_eq_false_iff {d : Char} :
    isWordChar d = false ↔ d.isAlpha = false ∧ d.isDigit = false ∧ d ≠ '_' := by
  simp [isWordChar, and_assoc]

theorem spells_of_longest {kind : Kind} {chars rest : List Char}
    (longest : Longest kind chars rest.head?) :
    ∃ c run, chars = c :: run ∧ Spells kind chars ∧ Stops kind rest := by
  cases longest with
  | number digit others points value finite behind =>
    refine ⟨_, _, rfl, .number digit (fun d member => ?_) points ?_, fun d head => ?_⟩
    · simpa [isNumberChar] using others d member
    · rw [value]
      exact (Machine.isFinite_iff.mp finite).2
    · exact joins_number_iff.mpr (behind d head)
  | @word c run _ letter others behind =>
    refine ⟨_, _, rfl, ?_⟩
    have stops : ∀ d ∈ rest.head?, isWordChar d = false := fun d head =>
      isWordChar_eq_false_iff.mpr (behind d head)
    by_cases root : String.ofList (c :: run) = "sqrt"
    · have same : rootName.toList = c :: run := by
        rw [← String.toList_ofList (l := c :: run), root]
        rfl
      rw [if_pos root, ← same]
      exact ⟨.root, stops⟩
    · rw [if_neg root]
      refine ⟨.name letter (fun d member => ?_) root, stops⟩
      simpa [isNameChar] using others d member
  | operator o => exact ⟨_, _, rfl, .operator o, fun _ _ => rfl⟩
  | opening => exact ⟨_, _, rfl, .opening, fun _ _ => rfl⟩
  | closing => exact ⟨_, _, rfl, .closing, fun _ _ => rfl⟩

theorem longest_of_spells {kind : Kind} {chars rest : List Char} (spells : Spells kind chars)
    (stops : Stops kind rest) : Longest kind chars rest.head? := by
  cases spells with
  | @number c run digit numbers points bounded =>
    obtain ⟨x, value⟩ := Decimal.exists_magnitude? digit numbers points
    rw [← Decimal.float?_eq_magnitude? digit numbers] at value
    have finite := isMagnitude_of_literal (.number digit numbers points bounded)
      (literal_eq_ok_iff.mpr value)
    refine .number digit (fun d member => ?_) points value finite.2 fun d head => ?_
    · simpa [isNumberChar] using numbers d member
    · exact joins_number_iff.mp (stops d head)
  | @name c run letter letters other =>
    have longest : Longest (if String.ofList (c :: run) = "sqrt" then .root else .name) (c :: run)
        rest.head? :=
      .word letter (fun d member => by simpa [isNameChar] using letters d member) fun d head =>
        isWordChar_eq_false_iff.mp (stops d head)
    have different : String.ofList (c :: run) ≠ "sqrt" := other
    rwa [if_neg different] at longest
  | root =>
    have letters : rootName.toList = 's' :: ['q', 'r', 't'] := by decide
    have longest : Longest (if String.ofList ('s' :: ['q', 'r', 't']) = "sqrt" then .root else .name)
        ('s' :: ['q', 'r', 't']) rest.head? :=
      .word rfl (by simp [Char.isAlpha, Char.isLower]) fun d head =>
        isWordChar_eq_false_iff.mp (stops d head)
    rwa [if_pos rfl, ← letters] at longest
  | operator o => exact .operator o _
  | opening => exact .opening _
  | closing => exact .closing _

variable {text chars : List Char} {start : Nat} {ts : List Token}

/-- The tokens of a cut cover the text from where the cut starts. -/
theorem covers_of_cuts (cuts : Cuts [] start chars ts) (behind : text.drop start = chars) :
    Covers text start ts := by
  induction cuts with
  | @nil start =>
    refine ⟨by simp, .nil, fun place after _ c here => ?_⟩
    have ended : text[place]? = none :=
      List.getElem?_eq_none ((List.drop_eq_nil_iff.mp behind).trans after)
    rw [ended] at here
    cases here
  | @blank start c chars ts blank cuts ih =>
    have next : text.drop (start + 1) = chars := by
      rw [← List.drop_drop, behind, List.drop_succ_cons, List.drop_zero]
    obtain ⟨placed, ordered, blanks⟩ := ih next
    refine ⟨fun t member => ?_, ordered, fun place after outside d here => ?_⟩
    · obtain ⟨first, finish, low, rest⟩ := placed t member
      exact ⟨first, finish, Nat.le_of_succ_le low, rest⟩
    · rcases Nat.eq_or_lt_of_le after with rfl | later
      · rw [← Nat.add_zero start, ← List.getElem?_drop, behind] at here
        cases here
        exact blank
      · exact blanks place later outside d here
  | @lexeme start kind c run chars ts spells stops cuts ih =>
    have next : text.drop (start + run.length + 1) = chars := by
      rw [Nat.add_assoc, ← List.drop_drop, behind, List.drop_succ_cons, List.drop_left]
    obtain ⟨placed, ordered, blanks⟩ := ih next
    have here : Token.IsAt ⟨kind, String.ofList (c :: run), some start⟩ text start
        (start + run.length + 1) := by
      refine Token.isAt_iff.mpr ⟨rfl, by omega, ?_, ?_⟩ <;> rw [String.toList_ofList]
      · rfl
      · rw [behind, next, List.cons_append]
    refine ⟨List.forall_mem_cons.mpr ⟨?_, fun t member => ?_⟩, .cons ?_ ordered, ?_⟩
    · refine ⟨start, start + run.length + 1, Nat.le_refl _, here, ?_⟩
      rw [← List.head?_drop, next, String.toList_ofList]
      exact longest_of_spells spells (by rwa [List.append_nil] at stops)
    · obtain ⟨first, finish, low, rest⟩ := placed t member
      exact ⟨first, finish, by omega, rest⟩
    · intro u member finish ends first starts
      obtain ⟨first', _, low, later, -⟩ := placed u member
      rw [here.finish_eq] at ends
      rw [later.start_eq] at starts
      cases ends
      cases starts
      exact low
    · intro place after outside d found
      obtain ⟨first, others⟩ := List.forall_mem_cons.mp outside
      refine blanks place (Nat.le_of_not_lt fun inside => first ?_) others d found
      exact here.spans_iff.mpr ⟨after, inside⟩

/-- In front of the first token that covers a text there are blanks, and the others cover what
stands behind it. -/
theorem Covers.exists_head {t : Token} (covers : Covers text start (t :: ts)) :
    ∃ first finish, start ≤ first ∧ t.IsAt text first finish ∧
      Longest t.kind t.text.toList text[finish]? ∧
      (∀ c ∈ (text.drop start).take (first - start), Text.isBlank c = true) ∧
      Covers text finish ts := by
  obtain ⟨placed, ordered, blanks⟩ := covers
  obtain ⟨first, finish, low, here, longest⟩ := placed t List.mem_cons_self
  obtain ⟨before, ordered⟩ := List.pairwise_cons.mp ordered
  have filled := here.filled
  have later : ∀ u ∈ ts, ∃ first' finish', finish ≤ first' ∧ u.IsAt text first' finish' ∧
      Longest u.kind u.text.toList text[finish']? := by
    intro u member
    obtain ⟨first', finish', -, here', longest⟩ := placed u (List.mem_cons_of_mem t member)
    exact ⟨first', finish', before u member finish here.finish_eq first' here'.start_eq, here', longest⟩
  refine ⟨first, finish, low, here, longest, fun c member => ?_, later, ordered, ?_⟩
  · obtain ⟨i, at_i⟩ := List.mem_iff_getElem?.mp member
    rw [List.getElem?_take, List.getElem?_drop] at at_i
    split at at_i
    case isFalse => cases at_i
    case isTrue less =>
      refine blanks (start + i) (Nat.le_add_right start i) (List.forall_mem_cons.mpr ⟨?_, ?_⟩) c at_i
      · intro spans
        have above := here.spans_iff.mp spans
        omega
      · intro u member spans
        obtain ⟨first', finish', low', here', -⟩ := later u member
        have above := here'.spans_iff.mp spans
        omega
  · intro place after outside
    refine blanks place (by omega) (List.forall_mem_cons.mpr ⟨fun spans => ?_, outside⟩)
    have below := here.spans_iff.mp spans
    omega

/-- What covers the text from a place on is a cut of all that stands behind it. -/
theorem cuts_of_covers (covers : Covers text start ts) : Cuts [] start (text.drop start) ts := by
  induction ts generalizing start with
  | nil =>
    have blank : ∀ c ∈ text.drop start, Text.isBlank c = true := by
      intro c member
      obtain ⟨i, here⟩ := List.mem_iff_getElem?.mp member
      rw [List.getElem?_drop] at here
      exact covers.blank (start + i) (Nat.le_add_right start i) (by simp) c here
    have cut : Cuts [] start (text.drop start ++ []) [] := .after_blanks blank .nil
    rwa [List.append_nil] at cut
  | cons t ts ih =>
    obtain ⟨first, finish, low, here, longest, gap, rest⟩ := Covers.exists_head covers
    rw [← List.head?_drop] at longest
    obtain ⟨c, run, same, spells, stops⟩ := spells_of_longest longest
    obtain ⟨starts, -, ends, behind⟩ := Token.isAt_iff.mp here
    rw [same] at ends behind
    have split := List.take_append_drop (first - start) (text.drop start)
    rw [List.drop_drop, Nat.add_sub_cancel' low, behind] at split
    have count : ((text.drop start).take (first - start)).length = first - start := by
      have filled := congrArg List.length behind
      rw [List.length_drop, List.cons_append, List.length_cons] at filled
      rw [List.length_take, List.length_drop]
      omega
    have token_eq : t = ⟨t.kind, String.ofList (c :: run), some first⟩ := by
      rw [← same, String.ofList_toList, ← starts]
    rw [← split, token_eq]
    refine .after_blanks gap ?_
    rw [count, Nat.add_sub_cancel' low]
    refine .lexeme (same ▸ spells) (by rwa [List.append_nil]) ?_
    rw [Nat.add_assoc, ← List.length_cons (a := c), ends]
    exact ih rest

end Lexer

/-- The tokens of a formula are just those that cover it. -/
theorem tokenize_iff_covers {formula : String} {ts : List Token} :
    tokenize formula = .ok ts ↔ Covers formula.toList 0 ts :=
  Lexer.scan_eq_ok_iff.trans
    ⟨fun cuts => Lexer.covers_of_cuts cuts rfl, fun covers => Lexer.cuts_of_covers covers⟩

end Reckon.Formula
