import Reckon.Proofs.Layout

/-!
The lexer reads a token back from its text, wherever the text behind it does not go on with the
same number or name. Texts that follow one another give their tokens one after the other, up to
the first that is no token.
-/

namespace Reckon.Formula

namespace Lexer

def Ends (rest : List Char) : Prop :=
  ∀ c ∈ rest.head?, isWordChar c = false ∧ c ≠ '.'

theorem ends_nil : Ends [] := by
  simp [Ends]

theorem ends_cons {c : Char} {rest : List Char} (other : isWordChar c = false) (point : c ≠ '.') :
    Ends (c :: rest) := by
  simpa [Ends] using ⟨other, point⟩

theorem ends_space {rest : List Char} : Ends (' ' :: rest) :=
  ends_cons rfl (by decide)

theorem ends_opening {rest : List Char} : Ends ('(' :: rest) :=
  ends_cons rfl (by decide)

theorem ends_closing {rest : List Char} : Ends (')' :: rest) :=
  ends_cons rfl (by decide)

/-- What starts with no character of a class does not change the runs of the class before it. -/
theorem run_append {p : Char → Bool} {front rest : List Char}
    (outside : ∀ c ∈ rest.head?, p c = false) :
    (front ++ rest).takeWhile p = front.takeWhile p ∧
      (front ++ rest).dropWhile p = front.dropWhile p ++ rest := by
  induction front with
  | nil =>
    cases rest with
    | nil => exact ⟨rfl, rfl⟩
    | cons c rest =>
      have other : p c = false := outside c rfl
      simp [other]
  | cons d front ih => cases inside : p d <;> simp [inside, ih]

/-- A longest run of characters of a class that is followed by such a text. -/
theorem longest_append {p : Char → Bool} {run rest : List Char} (inside : ∀ c ∈ run, p c = true)
    (outside : ∀ c ∈ rest.head?, p c = false) :
    (run ++ rest).takeWhile p = run ∧ (run ++ rest).dropWhile p = rest := by
  obtain ⟨taken, dropped⟩ := @run_append p run rest outside
  rw [taken, dropped, List.takeWhile_eq_self_iff.mpr inside, List.dropWhile_eq_nil_iff.mpr inside]
  exact ⟨rfl, rfl⟩

theorem isNumberChar_eq_false {c : Char} (other : isWordChar c = false) (point : c ≠ '.') :
    isNumberChar c = false := by
  simp [isWordChar] at other
  simp [isNumberChar, other, point]

def joins : Kind → Char → Bool
  | .number, c => isNumberChar c || c.isAlpha
  | .name, c | .root, c => isWordChar c
  | _, _ => false

def Stops (kind : Kind) (rest : List Char) : Prop :=
  ∀ c ∈ rest.head?, joins kind c = false

theorem stops_nil (kind : Kind) : Stops kind [] := by
  simp [Stops]

theorem joins_eq_false {kind : Kind} {c : Char} (other : isWordChar c = false) (point : c ≠ '.') :
    joins kind c = false := by
  have noNumber := isNumberChar_eq_false other point
  simp [isWordChar] at other
  cases kind <;> simp [joins, noNumber, isWordChar, other]

theorem Ends.stops {rest : List Char} (ends : Ends rest) (kind : Kind) : Stops kind rest :=
  fun c head => joins_eq_false (ends c head).1 (ends c head).2

theorem isBlank_eq_false {c : Char} (above : 32 < c.toNat) (below : c.toNat < 127) :
    Text.isBlank c = false := by
  simp [Text.isBlank, Text.inRanges, Text.blankRanges]
  omega

theorem isBlank_of_isDigit {c : Char} (digit : c.isDigit = true) : Text.isBlank c = false := by
  simp only [Char.isDigit, Bool.and_eq_true, decide_eq_true_eq, UInt32.le_iff_toNat_le] at digit
  simp at digit
  exact isBlank_eq_false (by omega) (by omega)

theorem isBlank_of_isAlpha {c : Char} (letter : c.isAlpha = true) : Text.isBlank c = false := by
  simp only [Char.isAlpha, Char.isUpper, Char.isLower, Bool.or_eq_true, Bool.and_eq_true,
    decide_eq_true_eq, UInt32.le_iff_toNat_le] at letter
  simp at letter
  exact isBlank_eq_false (by omega) (by omega)

theorem isBlank_of_spells {kind : Kind} {c : Char} {run : List Char}
    (spells : Spells kind (c :: run)) : Text.isBlank c = false := by
  cases spells with
  | number digit => exact isBlank_of_isDigit digit
  | name letter => exact isBlank_of_isAlpha letter
  | root => rfl
  | operator o => cases o <;> rfl
  | opening => rfl
  | closing => rfl

theorem number_of_spells {c : Char} {run rest : List Char} {start : Nat}
    (spells : Spells .number (c :: run)) (stops : Stops .number rest) :
    number (c :: run) rest start = .ok ⟨.number, String.ofList (c :: run), some start⟩ := by
  cases spells with
  | number digit numbers points bounded =>
    refine number_eq_ok_iff.mpr ⟨fun x head => ?_, points, bounded, rfl⟩
    exact (Bool.or_eq_false_iff.mp (stops x head)).2

theorem word_of_name {c : Char} {run : List Char} {start : Nat} (spells : Spells .name (c :: run)) :
    word (c :: run) start = .ok ⟨.name, String.ofList (c :: run), some start⟩ := by
  cases spells with
  | name letter letters other =>
    refine word_eq_ok_iff.mpr ⟨List.any_eq_false.mpr fun x member => ?_, by rw [if_neg other]⟩
    rcases List.mem_cons.mp member with rfl | later
    · simp [isDigit_eq_false_of_isAlpha letter]
    · have inside := letters x later
      simp only [isNameChar, Bool.or_eq_true, beq_iff_eq] at inside
      rcases inside with letter | rfl
      · simp [isDigit_eq_false_of_isAlpha letter]
      · decide

theorem token_of_spells {kind : Kind} {c : Char} {run rest : List Char} {start : Nat}
    (spells : Spells kind (c :: run)) (stops : Stops kind rest) :
    token c (run ++ rest) start = .ok ⟨kind, String.ofList (c :: run), some start⟩ := by
  cases kind with
  | number =>
    have numbers : ∀ x ∈ rest.head?, isNumberChar x = false := fun x head =>
      (Bool.or_eq_false_iff.mp (stops x head)).1
    have read : number (c :: run) rest start = _ := number_of_spells spells stops
    cases spells with
    | number digit inside =>
      obtain ⟨taken, dropped⟩ := longest_append inside numbers
      rw [token_of_isDigit digit, taken, dropped, read]
  | name =>
    have read : word (c :: run) start = _ := word_of_name spells
    cases spells with
    | name letter letters =>
      have inside : ∀ x ∈ run, isWordChar x = true := fun x member =>
        isWordChar_of_isNameChar (letters x member)
      obtain ⟨taken, -⟩ := longest_append inside stops
      rw [token_of_isAlpha letter, taken, read]
  | root =>
    obtain ⟨rfl, rfl⟩ : c = 's' ∧ run = ['q', 'r', 't'] := by
      generalize text : c :: run = chars at spells
      cases spells
      have letters : rootName.toList = ['s', 'q', 'r', 't'] := by decide
      exact List.cons.inj (text.trans letters)
    have inside : ∀ x ∈ ['q', 'r', 't'], isWordChar x = true := List.all_eq_true.mp rfl
    obtain ⟨taken, -⟩ := longest_append inside stops
    rw [token_of_isAlpha (by decide), taken]
    rfl
  | operator =>
    cases spells with
    | operator o => cases o <;> rfl
  | opening =>
    cases spells
    rfl
  | closing =>
    cases spells
    rfl
  | foreign label => cases spells

theorem scan_of_ok {c : Char} {rest : List Char} {start : Nat} {t : Token}
    (ink : Text.isBlank c = false) (read : token c rest start = .ok t) :
    scan start (c :: rest) =
      (scan (start + t.text.length) (rest.drop (t.text.length - 1))).map (t :: ·) := by
  rw [scan, ink, if_neg Bool.false_ne_true, read]
  simp only
  split
  case h_1 failed => rw [failed]; rfl
  case h_2 others => rw [others]; rfl

theorem scan_of_error {c : Char} {rest : List Char} {start : Nat} {e : LexError}
    (ink : Text.isBlank c = false) (failed : token c rest start = .error e) :
    scan start (c :: rest) = .error e := by
  rw [scan, ink, if_neg Bool.false_ne_true, failed]

/-- The text gives some tokens first, and then what the rest of it gives. -/
def Scans (start : Nat) (chars : List Char) (ts : List Token) (finish : Nat) (rest : List Char) :
    Prop :=
  scan start chars = (scan finish rest).map (ts ++ ·)

namespace Scans

variable {start middle finish : Nat} {chars between rest : List Char} {ts us : List Token}

theorem trans (first : Scans start chars ts middle between)
    (next : Scans middle between us finish rest) :
    Scans start chars (ts ++ us) finish rest := by
  unfold Scans at *
  rw [first, next]
  cases scan finish rest with
  | error e => rfl
  | ok others => simp [Except.map]

theorem ok (scans : Scans start chars ts finish []) : scan start chars = .ok ts := by
  rw [scans, scan]
  simp [Except.map]

theorem error (scans : Scans start chars ts finish rest) {e : LexError}
    (failed : scan finish rest = .error e) : scan start chars = .error e := by
  rw [scans, failed]
  rfl

theorem space : Scans start (' ' :: rest) [] (start + 1) rest := by
  have blank : Text.isBlank ' ' = true := rfl
  rw [Scans, scan, if_pos blank]
  cases scan (start + 1) rest <;> simp [Except.map]

theorem of_token {c : Char} {run : List Char} {kind : Kind} (ink : Text.isBlank c = false)
    (read : token c (run ++ rest) start = .ok ⟨kind, String.ofList (c :: run), some start⟩) :
    Scans start (c :: (run ++ rest)) [⟨kind, String.ofList (c :: run), some start⟩]
      (start + run.length + 1) rest := by
  have length : (String.ofList (c :: run)).length = run.length + 1 := by
    rw [String.length_ofList, List.length_cons]
  rw [Scans, scan_of_ok ink read]
  simp only [length, Nat.add_sub_cancel, List.drop_left, Nat.add_assoc, List.cons_append,
    List.nil_append]

theorem of_spells {kind : Kind} (spells : Spells kind chars) (ends : Ends rest) :
    Scans start (chars ++ rest) [⟨kind, String.ofList chars, some start⟩] (start + chars.length)
      rest := by
  cases chars with
  | nil => cases spells
  | cons c run => exact of_token (isBlank_of_spells spells) (token_of_spells spells (ends.stops kind))

theorem operator (o : Operator) (ends : Ends rest) :
    Scans start (o.symbol :: rest) [⟨.operator, o.text, some start⟩] (start + 1) rest := by
  have text : String.ofList [o.symbol] = o.text := by cases o <;> rfl
  rw [← text]
  exact of_spells (.operator o) ends

theorem closing (ends : Ends rest) :
    Scans start (')' :: rest) [⟨.closing, ")", some start⟩] (start + 1) rest :=
  of_spells .closing ends

theorem opening : Scans start ('(' :: rest) [⟨.opening, "(", some start⟩] (start + 1) rest := by
  have read : token '(' ([] ++ rest) start = .ok ⟨.opening, "(", some start⟩ := rfl
  exact of_token rfl read

/-- An operator between spaces, with its left operand before it. -/
theorem operate (o : Operator)
    (before : Scans start chars ts middle (' ' :: o.symbol :: ' ' :: rest)) :
    Scans start chars (ts ++ [⟨.operator, o.text, some (middle + 1)⟩]) (middle + 1 + 1 + 1) rest :=
  before.trans (space.trans ((operator o ends_space).trans space))

theorem group (inside : Scans (start + 1) (chars ++ ')' :: rest) ts finish (')' :: rest))
    (ends : Ends rest) :
    Scans start ('(' :: (chars ++ ')' :: rest))
      (⟨.opening, "(", some start⟩ :: (ts ++ [⟨.closing, ")", some finish⟩])) (finish + 1) rest :=
  opening.trans (inside.trans (closing ends))

end Scans

/-- A number with a letter behind it is no token. -/
theorem scan_of_runsOn {chars rest : List Char} (runsOn : RunsOn chars) (start : Nat) :
    ∃ e, scan start (chars ++ rest) = .error e ∧ e.flaw = .adjacency := by
  obtain ⟨c, run, tail, rfl, digit, numbers⟩ := runsOn
  have letter : ∀ x ∈ ('e' :: (tail ++ rest)).head?, isNumberChar x = false := by
    rintro x ⟨⟩
    rfl
  obtain ⟨taken, dropped⟩ := longest_append numbers letter
  have text : c :: (run ++ 'e' :: tail) ++ rest = c :: (run ++ 'e' :: (tail ++ rest)) := by simp
  rw [text, scan, isBlank_of_isDigit digit, if_neg Bool.false_ne_true, token, if_pos digit, taken,
    dropped, number, if_pos (by decide)]
  exact ⟨_, rfl, rfl⟩

end Lexer

end Reckon.Formula
