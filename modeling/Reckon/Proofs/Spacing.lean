import Reckon.Proofs.Cuts

/-!
Texts with white space between them. No token, and no text that an error objects to, goes over
white space, and the place where a text starts moves the places of its tokens and nothing else. So
two texts with a gap between them have the tokens of the first one and then those of the second,
and fail as the first of the two that fails.
-/

namespace Reckon.Formula

structure Gap where
  text : String
  blank : ∀ c ∈ text.toList, Text.isBlank c = true
  filled : text ≠ ""

def Token.shift (places : Nat) (t : Token) : Token :=
  { t with start := t.start.map (· + places) }

def LexError.shift (places : Nat) (e : LexError) : LexError :=
  { e with start := e.start.map (· + places) }

def respaced (gap : Nat → Gap) : List Token → String
  | [] => ""
  | [t] => t.text
  | t :: u :: ts => t.text ++ (gap 0).text ++ respaced (fun place => gap (place + 1)) (u :: ts)

namespace Lexer

variable {c : Char} {run rest more chars : List Char} {start places : Nat}

/-! ### The place where a text starts -/

theorem number_shift : number run rest (start + places) =
    ((number run rest start).map (Token.shift places)).mapError (LexError.shift places) := by
  have spelled (text : String) : number.spelled run (start + places) text =
      ((number.spelled run start text).map (Token.shift places)).mapError
        (LexError.shift places) := by
    unfold number.spelled
    split_ifs <;> rfl
  cases rest with
  | nil => exact spelled _
  | cons d tail =>
    simp only [number]
    split
    case isTrue => rfl
    case isFalse => exact spelled _

theorem word_shift : word run (start + places) =
    ((word run start).map (Token.shift places)).mapError (LexError.shift places) := by
  unfold word
  split_ifs <;> rfl

theorem token_shift : token c rest (start + places) =
    ((token c rest start).map (Token.shift places)).mapError (LexError.shift places) := by
  unfold token
  rw [number_shift, word_shift]
  split_ifs <;> rfl

theorem token_shift_ok {t : Token} (read : token c rest start = .ok t) :
    token c rest (start + places) = .ok (t.shift places) := by
  rw [token_shift, read]
  rfl

theorem token_shift_error {e : LexError} (failed : token c rest start = .error e) :
    token c rest (start + places) = .error (e.shift places) := by
  rw [token_shift, failed]
  rfl

/-- The same text gives the same tokens further behind. -/
theorem scan_shift : scan (start + places) chars =
    ((scan start chars).map (List.map (Token.shift places))).mapError (LexError.shift places) := by
  fun_induction scan start chars with
  | case1 => rw [scan]; rfl
  | case2 start c rest blank ih => rw [scan, if_pos blank, Nat.add_right_comm, ih]
  | case3 start c rest ink e failed =>
    exact scan_of_error (Bool.eq_false_iff.mpr ink) (token_shift_error failed)
  | case4 start c rest ink t first e failed ih =>
    rw [failed, Nat.add_right_comm] at ih
    rw [scan_of_ok (Bool.eq_false_iff.mpr ink) (token_shift_ok first)]
    exact congrArg (Except.map (t.shift places :: ·)) ih
  | case5 start c rest ink t first others behind ih =>
    rw [behind, Nat.add_right_comm] at ih
    rw [scan_of_ok (Bool.eq_false_iff.mpr ink) (token_shift_ok first)]
    exact congrArg (Except.map (t.shift places :: ·)) ih

/-! ### The text behind -/

theorem number_append (ends : Ends more) : number run (rest ++ more) start = number run rest start := by
  cases rest with
  | nil =>
    cases more with
    | nil => rfl
    | cons d tail =>
      have other := (ends d rfl).1
      simp only [isWordChar, Bool.or_eq_false_iff] at other
      simp [number, other.1.1]
  | cons d tail =>
    obtain ⟨taken, -⟩ := @run_append isWordChar (d :: tail) _ fun c head => (ends c head).1
    rw [List.cons_append] at taken ⊢
    simp only [number, taken]

/-- What no token goes on with does not matter to the token in front of it, nor to the error. -/
theorem token_append (ends : Ends more) : token c (rest ++ more) start = token c rest start := by
  obtain ⟨numbers, behind⟩ := @run_append isNumberChar rest _ fun c head =>
    isNumberChar_eq_false (ends c head).1 (ends c head).2
  obtain ⟨words, -⟩ := @run_append isWordChar rest _ fun c head => (ends c head).1
  simp only [token, numbers, behind, words, number_append ends]

theorem scan_append_error {e : LexError} (ends : Ends more) (failed : scan start chars = .error e) :
    scan start (chars ++ more) = .error e := by
  obtain ⟨front, c, rest, ts, rfl, cuts, ink, refused⟩ := exists_of_scan_error failed
  rw [← token_append ends] at refused
  rw [List.append_assoc, List.cons_append]
  exact (cuts.before_same (rest ++ more)).scans.error (scan_of_error ink refused)

theorem scan_append_ok {ts : List Token} (ends : Ends more) (read : scan start chars = .ok ts) :
    Scans start (chars ++ more) ts (start + chars.length) more :=
  ((cuts_of_scan read).before_ends ends).scans

end Lexer

theorem Gap.ends (gap : Gap) (chars : List Char) : Lexer.Ends (gap.text.toList ++ chars) := by
  intro c head
  refine Lexer.isWordChar_of_isBlank (gap.blank c ?_)
  cases text : gap.text.toList with
  | nil => exact absurd (String.toList_eq_nil_iff.mp text) gap.filled
  | cons d rest =>
    rw [text] at head
    cases head
    exact List.mem_cons_self

/-- Over a gap the lexer reads one text and then the other. -/
theorem tokenize_append (f g : String) (gap : Gap) :
    tokenize (f ++ gap.text ++ g) = do
      let ts ← tokenize f
      let us ← (tokenize g).mapError (LexError.shift (f.length + gap.text.length))
      return ts ++ us.map (Token.shift (f.length + gap.text.length)) := by
  have ends := gap.ends g.toList
  have chars : (f ++ gap.text ++ g).toList = f.toList ++ (gap.text.toList ++ g.toList) := by simp
  rw [tokenize, chars]
  cases read : tokenize f with
  | error e => exact Lexer.scan_append_error ends read
  | ok ts =>
    have both := (Lexer.scan_append_ok ends read).trans (.blanks gap.blank g.toList)
    rw [both, Nat.add_assoc, Lexer.scan_shift, ← tokenize, List.append_nil]
    cases tokenize g <;> rfl

theorem tokenize_text {t : Token} (spells : Spells t.kind t.text.toList) :
    tokenize t.text = .ok [⟨t.kind, t.text, some 0⟩] := by
  have scans : Lexer.Scans 0 (t.text.toList ++ []) _ _ [] := .of_spells spells Lexer.ends_nil
  rw [List.append_nil, String.ofList_toList] at scans
  exact scans.ok

theorem tokenize_respaced (gap : Nat → Gap) {ts : List Token}
    (spelled : ∀ t ∈ ts, Spells t.kind t.text.toList) :
    ∃ us, tokenize (respaced gap ts) = .ok us ∧
      ts.Forall₂ (fun t u => u.kind = t.kind ∧ u.text = t.text) us := by
  fun_induction respaced gap ts with
  | case1 => exact ⟨[], Lexer.scan_of_blank rfl 0, .nil⟩
  | case2 gap t => exact ⟨_, tokenize_text (spelled t List.mem_cons_self), .cons ⟨rfl, rfl⟩ .nil⟩
  | case3 gap t u ts ih =>
    obtain ⟨first, others⟩ := List.forall_mem_cons.mp spelled
    obtain ⟨us, read, same⟩ := ih others
    rw [tokenize_append, tokenize_text first, read]
    refine ⟨_, rfl, .cons ⟨rfl, rfl⟩ ?_⟩
    exact List.forall₂_map_right_iff.mpr same

/-- Texts with a gap between them are read one after the other, and fail as the first of them that
fails. So the gaps between the tokens of a formula can be chosen at will. -/
theorem tokenize_over_gap (f g : String) (gap : Gap) :
    (tokenize (f ++ gap.text ++ g) = do
      let ts ← tokenize f
      let us ← (tokenize g).mapError (LexError.shift (f.length + gap.text.length))
      return ts ++ us.map (Token.shift (f.length + gap.text.length))) ∧
    ∀ (gaps : Nat → Gap) (ts : List Token), tokenize f = .ok ts →
      ∃ us, tokenize (respaced gaps ts) = .ok us ∧
        ts.Forall₂ (fun t u => u.kind = t.kind ∧ u.text = t.text) us :=
  ⟨tokenize_append f g gap, fun gaps _ read => tokenize_respaced gaps (spells_tokenize read)⟩

/-- A number with two points behind a product and a tab, and the product with tabs in it. -/
theorem tokenize_over_gap_tab :
    tokenize "2*a\t 1.2.3" = .error ⟨.number LexError.onePoint, "1.2.3", some 5⟩ ∧
      ∃ us, tokenize "2\t *\t a" = .ok us ∧ us.map Token.kind = [.number, .operator, .name] := by
  have product : tokenize "2*a" =
      .ok [⟨.number, "2", some 0⟩, ⟨.operator, "*", some 1⟩, ⟨.name, "a", some 2⟩] := by
    decide +kernel
  have number : tokenize "1.2.3" = .error ⟨.number LexError.onePoint, "1.2.3", some 0⟩ := by
    decide +kernel
  obtain ⟨gap, tab⟩ : ∃ gap : Gap, gap.text = "\t " :=
    ⟨⟨"\t ", List.all_eq_true.mp rfl, by decide⟩, rfl⟩
  obtain ⟨both, again⟩ := tokenize_over_gap "2*a" "1.2.3" gap
  obtain ⟨us, read, same⟩ := again (fun _ => gap) _ product
  rw [product, number, tab] at both
  simp only [respaced, tab] at read
  obtain _ | ⟨⟨left, -⟩, _ | ⟨⟨sign, -⟩, _ | ⟨⟨right, -⟩, ⟨⟩⟩⟩⟩ := same
  exact ⟨both, _, read, by simp [left, sign, right]⟩

end Reckon.Formula
