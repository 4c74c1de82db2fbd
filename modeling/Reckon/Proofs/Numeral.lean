import Reckon.Formula.Lexer

/-!
The numbers of formulas are numerals: a digit, and behind it digits and at most one point.
Nothing in them is changed before they are read.
-/

namespace Reckon.Decimal

open Reckon.Formula Reckon.Text

theorem isNumberChar_iff {c : Char} :
    isNumberChar c = true ↔ ('0'.toNat ≤ c.toNat ∧ c.toNat ≤ '9'.toNat) ∨ c = '.' := by
  simp only [isNumberChar, Bool.or_eq_true, Char.isDigit_iff_toNat, beq_iff_eq]

theorem isNumberChar_plain {c : Char} (number : isNumberChar c = true) :
    plainChar c = c ∧ isAsciiBlank c = false ∧ c ≠ '_' := by
  have small : c.toNat < 127 := by
    rcases isNumberChar_iff.mp number with ⟨-, upper⟩ | rfl
    · exact Nat.lt_of_le_of_lt upper (by decide)
    · decide
  refine ⟨by simp [plainChar, small], ?_, ?_⟩
  · rcases isNumberChar_iff.mp number with ⟨lower, -⟩ | rfl
    · have above : '\r'.toNat < c.toNat := Nat.lt_of_lt_of_le (by decide) lower
      have other : c ≠ ' ' := by
        rintro rfl
        exact absurd lower (by decide)
      simp [isAsciiBlank, other, Char.le_def, UInt32.le_iff_toNat_le]
      intro _
      exact above
    · decide
  · rintro rfl
    exact absurd number (by decide)

theorem trim_eq_self {blank : Char → Bool} {s : List Char} (none : ∀ c ∈ s, blank c = false) :
    trim blank s = s := by
  have keeps : ∀ s : List Char, (∀ c ∈ s, blank c = false) → s.dropWhile blank = s := by
    intro s none
    cases s with
    | nil => rfl
    | cons c s => rw [List.dropWhile_cons_of_neg (by simp [none c List.mem_cons_self])]
  have reversed : ∀ c ∈ s.reverse, blank c = false := fun c member =>
    none c (List.mem_reverse.mp member)
  rw [trim, keeps s none, keeps s.reverse reversed, List.reverse_reverse]

theorem joinDigits_eq_self {s : List Char} (none : ∀ c ∈ s, c ≠ '_') : joinDigits s = some s := by
  fun_induction joinDigits s with
  | case1 => rfl
  | case2 rest => simp at none
  | case3 c d rest digits ih => simp at none
  | case4 c d rest other => simp at none
  | case5 c rest first second ih =>
    rw [ih fun x member => none x (List.mem_cons_of_mem c member)]
    rfl

theorem plainChars?_ofList {s : List Char} (numbers : ∀ c ∈ s, isNumberChar c = true) :
    plainChars? (String.ofList s) = some s := by
  have same : s.map plainChar = s := by
    rw [List.map_congr_left fun c member => (isNumberChar_plain (numbers c member)).1, List.map_id']
  have blanks : ∀ c ∈ s, isAsciiBlank c = false := fun c member =>
    (isNumberChar_plain (numbers c member)).2.1
  have joined : ∀ c ∈ s, c ≠ '_' := fun c member => (isNumberChar_plain (numbers c member)).2.2
  rw [plainChars?, String.toList_ofList, same, trim_eq_self blanks, joinDigits_eq_self joined]

theorem toLower_of_isDigit {c : Char} (digit : c.isDigit = true) : c.toLower = c := by
  have upper : ¬(c.val ≥ 'A'.val ∧ c.val ≤ 'Z'.val) := by
    intro letter
    have small := (Char.isDigit_iff_toNat.mp digit).2
    have large : 'A'.toNat ≤ c.toNat := UInt32.le_iff_toNat_le.mp letter.1
    exact absurd (Nat.le_trans large small) (by decide)
  exact dif_neg upper

theorem splitSign_of_isDigit {c : Char} {rest : List Char} (digit : c.isDigit = true) :
    splitSign (c :: rest) = (false, c :: rest) := by
  unfold splitSign
  split
  case h_1 same =>
    rw [List.cons_eq_cons.mp same |>.1] at digit
    exact absurd digit (by decide)
  case h_2 same =>
    rw [List.cons_eq_cons.mp same |>.1] at digit
    exact absurd digit (by decide)
  case h_3 => rfl

theorem float?_eq_magnitude? {c : Char} {rest : List Char} (digit : c.isDigit = true)
    (numbers : ∀ x ∈ rest, isNumberChar x = true) :
    float? (String.ofList (c :: rest)) = magnitude? (c :: rest) := by
  have all : ∀ x ∈ c :: rest, isNumberChar x = true := by
    intro x member
    rcases List.mem_cons.mp member with rfl | later
    · simp [isNumberChar, digit]
    · exact numbers x later
  have noWord : ∀ (first : Char) (others : List Char), first.isDigit = false →
      String.ofList ((c :: rest).map Char.toLower) ≠ String.ofList (first :: others) := by
    intro first others letter same
    have heads := congrArg String.toList same
    rw [String.toList_ofList, String.toList_ofList, List.map_cons, toLower_of_isDigit digit] at heads
    rw [← (List.cons_eq_cons.mp heads).1, digit] at letter
    cases letter
  have noInf := noWord 'i' ['n', 'f'] rfl
  have noInfinity := noWord 'i' ['n', 'f', 'i', 'n', 'i', 't', 'y'] rfl
  have noNaN := noWord 'n' ['a', 'n'] rfl
  have neither := not_or.mpr ⟨noInf, noInfinity⟩
  unfold float?
  rw [plainChars?_ofList all]
  simp only [Option.bind_eq_bind, Option.bind_some, splitSign_of_isDigit digit]
  rw [if_neg neither, if_neg noNaN]
  cases magnitude? (c :: rest) <;> rfl

/-- Behind the digits at the head of a number stands its only point, and then digits again. -/
theorem digits_behind_point {run after : List Char} {point : Char}
    (numbers : ∀ x ∈ run, isNumberChar x = true) (points : run.count '.' ≤ 1)
    (behind : run.dropWhile Char.isDigit = point :: after) :
    point = '.' ∧ ∀ x ∈ after, x.isDigit = true := by
  have split := List.takeWhile_append_dropWhile (p := Char.isDigit) (l := run)
  rw [behind] at split
  have noDigit : point.isDigit = false := by
    have heads := List.head?_dropWhile_not Char.isDigit run
    simpa [behind] using heads
  have member : ∀ x ∈ point :: after, isNumberChar x = true := by
    intro x inside
    exact numbers x (split ▸ List.mem_append_right _ inside)
  have isPoint : point = '.' := by
    simpa [isNumberChar, noDigit] using member point List.mem_cons_self
  subst isPoint
  rw [← split, List.count_append, List.count_cons_self] at points
  have noPoint : '.' ∉ after := List.count_eq_zero.mp (by omega)
  refine ⟨rfl, fun x inside => ?_⟩
  have other : x ≠ '.' := fun same => noPoint (same ▸ inside)
  simpa [isNumberChar, other] using member x (List.mem_cons_of_mem _ inside)

theorem exists_magnitude? {c : Char} {rest : List Char} (digit : c.isDigit = true)
    (numbers : ∀ x ∈ rest, isNumberChar x = true) (points : (c :: rest).count '.' ≤ 1) :
    ∃ x, magnitude? (c :: rest) = some x := by
  have whole : ((c :: rest).takeWhile Char.isDigit).isEmpty = false := by simp [digit]
  have ended : ∃ fraction, splitFraction ((c :: rest).dropWhile Char.isDigit) = (fraction, []) := by
    cases behind : (c :: rest).dropWhile Char.isDigit with
    | nil => exact ⟨[], rfl⟩
    | cons point after =>
      have all : ∀ x ∈ c :: rest, isNumberChar x = true := by
        simpa [isNumberChar, digit] using numbers
      obtain ⟨rfl, digits⟩ := digits_behind_point all points behind
      have none : after.dropWhile Char.isDigit = [] := by
        rw [← List.append_nil after, List.dropWhile_append_of_pos digits]
        rfl
      exact ⟨after.takeWhile Char.isDigit, by rw [splitFraction, none]⟩
  obtain ⟨fraction, ended⟩ := ended
  simp [magnitude?, whole, ended, exponent?]

end Reckon.Decimal
