import Reckon.Proofs.Printing

/-!
Expressions as they are written. A phrase is an expression in which every square root has its
parentheses; its tokens may stand in a text with any white space around them. The lexer reads the
tokens of a phrase back from such a text, and a formula with the text of a phrase has no faults.
-/

namespace Reckon.Formula

/-- The kinds of the tokens of an expression, in the order of the text.

    phrase ::= phrase (+ | - | * | / | ^) phrase | number | name | ( phrase ) | sqrt ( phrase )
-/
inductive Phrase : List Token → Prop where
  | binary {front back : List Token} {sign : Token} (left : Phrase front)
      (kind : sign.kind = .operator) (right : Phrase back) : Phrase (front ++ sign :: back)
  | number {t : Token} (kind : t.kind = .number) : Phrase [t]
  | name {t : Token} (kind : t.kind = .name) : Phrase [t]
  | group {inner : List Token} {first last : Token} (opens : first.kind = .opening)
      (inside : Phrase inner) (ends : last.kind = .closing) : Phrase (first :: (inner ++ [last]))
  | root {inner : List Token} {function first last : Token} (kind : function.kind = .root)
      (opens : first.kind = .opening) (inside : Phrase inner) (ends : last.kind = .closing) :
      Phrase (function :: first :: (inner ++ [last]))

def Spelled (ts : List Token) : Prop :=
  ∀ t ∈ ts, Spells t.kind t.text.toList

/-- The tokens stand one after the other in a text whose first character is at `start`. Between
them, in front of them and behind them there is nothing but white space. -/
inductive Laid : Nat → List Token → List Char → Prop where
  | nil {start : Nat} {gap : List Char} (blank : ∀ c ∈ gap, Text.isBlank c = true) :
      Laid start [] gap
  | cons {start : Nat} {gap rest : List Char} {kind : Kind} {text : String} {ts : List Token}
      (blank : ∀ c ∈ gap, Text.isBlank c = true)
      (behind : Laid (start + gap.length + text.toList.length) ts rest) :
      Laid start (⟨kind, text, some (start + gap.length)⟩ :: ts) (gap ++ (text.toList ++ rest))

namespace Phrase

variable {ts : List Token}

theorem alternates_append (phrase : Phrase ts) (rest : List Token) :
    alternates true (ts ++ rest) = alternates false rest := by
  induction phrase generalizing rest with
  | binary left kind right left_ih right_ih =>
    rw [List.append_assoc, left_ih, List.cons_append]
    simp only [alternates, kind, right_ih]
  | number kind => simp [alternates, kind]
  | name kind => simp [alternates, kind]
  | group opens inside ends ih =>
    rw [List.cons_append, List.append_assoc]
    simp only [alternates, opens, ih, List.cons_append, List.nil_append, ends]
  | root kind opens inside ends ih =>
    rw [List.cons_append, List.cons_append, List.append_assoc]
    simp only [alternates, kind, opens, ih, List.cons_append, List.nil_append, ends]

theorem closes_append (phrase : Phrase ts) (depth : Nat) (rest : List Token) :
    closes depth (ts ++ rest) = closes depth rest := by
  induction phrase generalizing depth rest with
  | binary left kind right left_ih right_ih =>
    rw [List.append_assoc, left_ih, List.cons_append]
    simp only [closes, kind, right_ih]
  | number kind => simp [closes, kind]
  | name kind => simp [closes, kind]
  | group opens inside ends ih =>
    rw [List.cons_append, List.append_assoc]
    simp only [closes, opens, ih, List.cons_append, List.nil_append, ends]
  | root kind opens inside ends ih =>
    rw [List.cons_append, List.cons_append, List.append_assoc]
    simp only [closes, kind, opens, ih, List.cons_append, List.nil_append, ends]

theorem appliesRoots_append (phrase : Phrase ts) (rest : List Token) :
    appliesRoots (ts ++ rest) = appliesRoots rest := by
  induction phrase generalizing rest with
  | binary left kind right left_ih right_ih =>
    rw [List.append_assoc, left_ih, List.cons_append, appliesRoots_cons (by simp [kind]), right_ih]
  | number kind => exact appliesRoots_cons (by simp [kind]) rest
  | name kind => exact appliesRoots_cons (by simp [kind]) rest
  | group opens inside ends ih =>
    rw [List.cons_append, List.append_assoc, appliesRoots_cons (by simp [opens]), ih,
      List.singleton_append, appliesRoots_cons (by simp [ends])]
  | root kind opens inside ends ih =>
    rw [List.cons_append, List.cons_append, List.append_assoc, appliesRoots,
      appliesRoots_cons (by simp [opens]), ih, List.singleton_append,
      appliesRoots_cons (by simp [ends])]
    simp [opens]

end Phrase

/-! ### Reading -/

namespace Token

def isWord (t : Token) : Bool :=
  t.isOperand || t.kind == .root

end Token

def Apart (ts : List Token) : Prop :=
  ts.IsChain fun t next => t.isWord = true → next.isWord = false

theorem isWord_eq_false {t next : Token} (word : t.isWord = true) (suits : next.suits t.leads = true)
    (applied : t.kind = .root → next.kind = .opening) : next.isWord = false := by
  unfold Token.isWord Token.isOperand at *
  cases kind : t.kind <;> cases behind : next.kind <;>
    simp [Token.suits, Token.leads, kind, behind] at word suits applied ⊢

theorem apart_of_alternates {due : Bool} {ts : List Token} (alternating : alternates due ts = true)
    (applied : appliesRoots ts = true) : Apart ts := by
  induction ts generalizing due with
  | nil => exact .nil
  | cons t ts ih =>
    rw [alternates_cons, Bool.and_eq_true] at alternating
    rw [appliesRoots, Bool.and_eq_true] at applied
    have rest := ih alternating.2 applied.2
    cases ts with
    | nil => exact .singleton t
    | cons next ts =>
      have behind := alternating.2
      rw [alternates_cons, Bool.and_eq_true] at behind
      refine .cons_cons (fun word => isWord_eq_false word behind.1 fun kind => ?_) rest
      simpa [kind] using applied.1

namespace Lexer

theorem isWordChar_of_isBlank {c : Char} (blank : Text.isBlank c = true) :
    isWordChar c = false ∧ c ≠ '.' := by
  constructor
  · rw [Bool.eq_false_iff]
    intro word
    simp only [isWordChar, Bool.or_eq_true, beq_iff_eq] at word
    rcases word with (letter | digit) | rfl
    · rw [isBlank_of_isAlpha letter] at blank
      cases blank
    · rw [isBlank_of_isDigit digit] at blank
      cases blank
    · exact absurd blank (by decide)
  · rintro rfl
    exact absurd blank (by decide)

theorem exists_of_spells {t : Token} (spells : Spells t.kind t.text.toList)
    (other : t.isWord = false) :
    ∃ c, t.text.toList = [c] ∧ isWordChar c = false ∧ c ≠ '.' ∧
      ∀ rest start, token c rest start = .ok ⟨t.kind, t.text, some start⟩ := by
  obtain ⟨kind, text, place⟩ := t
  have same : text = String.ofList text.toList := String.ofList_toList.symm
  generalize text.toList = chars at spells same
  subst same
  cases spells with
  | operator o =>
    refine ⟨o.symbol, rfl, ?_⟩
    cases o <;> exact ⟨rfl, by decide, fun _ _ => rfl⟩
  | opening => exact ⟨'(', rfl, rfl, by decide, fun _ _ => rfl⟩
  | closing => exact ⟨')', rfl, rfl, by decide, fun _ _ => rfl⟩
  | _ => cases other

theorem Scans.blanks {start : Nat} {gap : List Char} (blank : ∀ c ∈ gap, Text.isBlank c = true)
    (rest : List Char) : Scans start (gap ++ rest) [] (start + gap.length) rest := by
  induction gap generalizing start with
  | nil =>
    simp only [Scans, List.nil_append, List.length_nil, Nat.add_zero]
    cases scan start rest <;> rfl
  | cons c gap ih =>
    obtain ⟨first, others⟩ := List.forall_mem_cons.mp blank
    have later := @ih (start + 1) others
    rw [Scans, List.cons_append, scan, if_pos first, later, List.length_cons, Nat.add_assoc,
      Nat.add_comm 1]

theorem ends_of_laid {start : Nat} {ts : List Token} {chars : List Char} (laid : Laid start ts chars)
    (spelled : Spelled ts) (other : ∀ t ∈ ts.head?, t.isWord = false) :
    Ends chars := by
  intro c head
  cases laid with
  | nil blank => exact isWordChar_of_isBlank (blank c (List.mem_of_mem_head? head))
  | @cons _ gap rest kind text ts blank behind =>
    cases gap with
    | cons space gap =>
      cases head
      exact isWordChar_of_isBlank (blank c List.mem_cons_self)
    | nil =>
      obtain ⟨symbol, single, noWord, noPoint, -⟩ :=
        exists_of_spells (spelled _ List.mem_cons_self) (other _ rfl)
      rw [List.nil_append, single] at head
      cases head
      exact ⟨noWord, noPoint⟩

/-- The lexer reads tokens back from a text in which they stand, if words are apart. -/
theorem scan_of_laid {start : Nat} {ts : List Token} {chars : List Char} (laid : Laid start ts chars)
    (spelled : Spelled ts) (apart : Apart ts) :
    scan start chars = .ok ts := by
  induction laid with
  | nil blank => exact scan_of_blank (List.all_eq_true.mpr blank) _
  | @cons start gap rest kind text ts blank behind ih =>
    obtain ⟨first, others⟩ := List.forall_mem_cons.mp spelled
    have next := ih others apart.tail
    have here : Scans (start + gap.length) (text.toList ++ rest)
        [⟨kind, text, some (start + gap.length)⟩] (start + gap.length + text.toList.length) rest := by
      cases word : Token.isWord ⟨kind, text, some (start + gap.length)⟩ with
      | true =>
        have stops : ∀ t ∈ ts.head?, t.isWord = false := by
          cases ts with
          | nil => simp
          | cons next ts => simpa using (List.isChain_cons_cons.mp apart).1 word
        have read : Scans (start + gap.length) _ _ _ rest :=
          .of_spells first (ends_of_laid behind others stops)
        rwa [String.ofList_toList] at read
      | false =>
        obtain ⟨c, single, -, -, read⟩ := exists_of_spells first word
        have text_eq : text = String.ofList [c] := by rw [← single, String.ofList_toList]
        have ink := isBlank_of_spells (single ▸ first)
        rw [single]
        rw [text_eq] at read ⊢
        exact .of_token ink (read _ _)
    have whole := (Scans.blanks blank (text.toList ++ rest)).trans here
    rw [whole, next]
    rfl

end Lexer

/-! ### Checking -/

namespace Phrase

variable {ts : List Token}

theorem alternating (phrase : Phrase ts) : alternates true ts = true := by
  have whole := phrase.alternates_append []
  rwa [List.append_nil] at whole

theorem applied (phrase : Phrase ts) : appliesRoots ts = true := by
  have whole := phrase.appliesRoots_append []
  rwa [List.append_nil] at whole

theorem closing (phrase : Phrase ts) : closes 0 ts = true := by
  have whole := phrase.closes_append 0 []
  rwa [List.append_nil] at whole

theorem ne_nil (phrase : Phrase ts) : ts ≠ [] := by
  rintro rfl
  exact absurd phrase.alternating (by decide)

theorem tokenize_eq (phrase : Phrase ts) (spelled : Spelled ts) {formula : String}
    (laid : Laid 0 ts formula.toList) : tokenize formula = .ok ts :=
  Lexer.scan_of_laid laid spelled (apart_of_alternates phrase.alternating phrase.applied)

theorem exists_toPostfix (phrase : Phrase ts) (lexemes : ∀ t ∈ ts, t.IsLexeme) :
    ∃ result, toPostfix ts = .ok result := by
  have suffix : Suffix true 0 ts :=
    ⟨fun t member => (lexemes t member).terminal, phrase.alternating, phrase.closing⟩
  obtain ⟨d, rfl⟩ := exists_derivation_iff.mpr suffix
  exact ⟨_, d.toPostfix_tokens fun t member => (lexemes t member).spelled⟩

end Phrase

/-- A formula with the text of a phrase is valid, whatever white space stands in it. -/
theorem isValid_of_phrase {formula : String} {ts : List Token} (phrase : Phrase ts)
    (spelled : Spelled ts) (laid : Laid 0 ts formula.toList) :
    tokenize formula = .ok ts ∧ faults formula = [] ∧ isValid formula = true := by
  have read := phrase.tokenize_eq spelled laid
  have ink : ¬formula.toList.all Text.isBlank = true := fun blank =>
    phrase.ne_nil (Except.ok.inj (read.symm.trans (Lexer.scan_of_blank blank 0)))
  obtain ⟨result, ordered⟩ := phrase.exists_toPostfix (tokenize_isLexeme read)
  have faultless : neighbourFaults none ts = [] :=
    neighbourFaults_eq_nil phrase.alternating phrase.applied
  have none : faults formula = [] := by
    rw [faults, if_neg ink, read]
    simp only [faultless, ordered, List.append_nil]
  exact ⟨read, none, by rw [isValid, none]; rfl⟩

/-- A root with white space around its parenthesis, over a number that ends with its point. -/
theorem isValid_of_phrase_quotient : isValid " sqrt (a_b\t)/5." = true := by
  have root : Phrase [⟨.root, "sqrt", some 1⟩, ⟨.opening, "(", some 6⟩, ⟨.name, "a_b", some 7⟩,
      ⟨.closing, ")", some 11⟩] :=
    .root rfl rfl (.name rfl) rfl
  have sign : Token.kind ⟨.operator, "/", some 12⟩ = .operator := rfl
  have five : Token.kind ⟨.number, "5.", some 13⟩ = .number := rfl
  have phrase := root.binary sign (.number five)
  refine (isValid_of_phrase phrase ?_ ?_).2.2
  · have name : Spells .name "a_b".toList := .name rfl (List.all_eq_true.mp rfl) (by decide)
    have number : Spells .number "5.".toList :=
      .number rfl (List.all_eq_true.mp rfl) (by decide) (by decide +kernel)
    simp only [Spelled, List.cons_append, List.nil_append, List.forall_mem_cons]
    exact ⟨.root, .opening, name, .closing, .operator .div, number, by simp⟩
  · refine @Laid.cons _ [' '] _ _ _ _ (List.all_eq_true.mp rfl) ?_
    refine @Laid.cons _ [' '] _ _ _ _ (List.all_eq_true.mp rfl) ?_
    refine @Laid.cons _ [] _ _ _ _ (List.all_eq_true.mp rfl) ?_
    refine @Laid.cons _ ['\t'] _ _ _ _ (List.all_eq_true.mp rfl) ?_
    refine @Laid.cons _ [] _ _ _ _ (List.all_eq_true.mp rfl) ?_
    refine @Laid.cons _ [] _ _ _ _ (List.all_eq_true.mp rfl) ?_
    exact .nil (by simp)

end Reckon.Formula
