import Reckon.Formula.Views
import Reckon.Proofs.Shortest

/-!
Numbers as formulas spell them. Whole numbers and numbers with a point are read back as the float
they were printed from. A number with an exponent is not: its `e` is a letter directly behind
digits.
-/

namespace Reckon.Decimal

/-! ### Digits around a point -/

structure Digits (run : List Char) : Prop where
  filled : run ≠ []
  all : ∀ c ∈ run, c.isDigit = true

theorem digits_toDigits (n : Nat) : Digits (Nat.toDigits 10 n) :=
  ⟨Nat.toDigits_ne_nil, fun _ member => Nat.isDigit_of_mem_toDigits (by decide) (by decide) member⟩

theorem digitsValue_toDigits (n : Nat) : digitsValue (Nat.toDigits 10 n) = n :=
  Nat.ofDigitChars_ten_toDigits

theorem digitsValue_append (front back : List Char) :
    digitsValue (front ++ back) = digitsValue front * 10 ^ back.length + digitsValue back := by
  change Nat.ofDigitChars 10 (front ++ back) 0 = _
  rw [Nat.ofDigitChars_append, Nat.ofDigitChars_eq_ofDigitChars_zero, Nat.mul_comm]
  rfl

theorem digitsValue_zeros (count : Nat) : digitsValue (List.replicate count '0') = 0 := by
  change Nat.ofDigitChars 10 (List.replicate count '0') 0 = _
  rw [Nat.ofDigitChars_replicate_zero, Nat.mul_zero]

theorem magnitude?_whole {whole : List Char} (digits : Digits whole) :
    magnitude? whole = some (nearest (digitsValue whole) 0) := by
  have taken : whole.takeWhile Char.isDigit = whole := List.takeWhile_eq_self_iff.mpr digits.all
  have dropped : whole.dropWhile Char.isDigit = [] := List.dropWhile_eq_nil_iff.mpr digits.all
  have some : whole.isEmpty = false := List.isEmpty_eq_false_iff.mpr digits.filled
  simp only [magnitude?, taken, dropped, splitFraction, some, Bool.false_and, exponent?]
  simp

theorem magnitude?_point {whole fraction : List Char} (digits : Digits whole)
    (decimals : ∀ c ∈ fraction, c.isDigit = true) :
    magnitude? (whole ++ '.' :: fraction) =
      some (nearest (digitsValue (whole ++ fraction)) (-fraction.length)) := by
  have point : ('.' : Char).isDigit = false := rfl
  have taken : (whole ++ '.' :: fraction).takeWhile Char.isDigit = whole := by
    rw [List.takeWhile_append_of_pos digits.all, List.takeWhile_cons_of_neg (by simp [point]),
      List.append_nil]
  have dropped : (whole ++ '.' :: fraction).dropWhile Char.isDigit = '.' :: fraction := by
    rw [List.dropWhile_append_of_pos digits.all, List.dropWhile_cons_of_neg (by simp [point])]
  have taken' : fraction.takeWhile Char.isDigit = fraction :=
    List.takeWhile_eq_self_iff.mpr decimals
  have dropped' : fraction.dropWhile Char.isDigit = [] := List.dropWhile_eq_nil_iff.mpr decimals
  have some : whole.isEmpty = false := List.isEmpty_eq_false_iff.mpr digits.filled
  simp only [magnitude?, taken, dropped, splitFraction, taken', dropped', some, Bool.false_and,
    exponent?]
  simp

theorem positional_eq {run : List Char} (digits : Digits run) (place : Int) :
    ∃ whole fraction, plain.positional run place = whole ++ '.' :: fraction ∧ Digits whole ∧
      (∀ c ∈ fraction, c.isDigit = true) ∧
      (digitsValue (whole ++ fraction) : ℚ) * 10 ^ (-fraction.length : Int) =
        digitsValue run * 10 ^ (place - run.length) := by
  have zeros (count : Nat) : ∀ c ∈ List.replicate count '0', c.isDigit = true := by
    intro c member
    rw [List.eq_of_mem_replicate member]
    rfl
  have both {front back : List Char} (first : ∀ c ∈ front, c.isDigit = true)
      (second : ∀ c ∈ back, c.isDigit = true) : ∀ c ∈ front ++ back, c.isDigit = true := by
    intro c member
    exact (List.mem_append.mp member).elim (first c) (second c)
  unfold Style.positional
  split
  case isTrue small =>
    refine ⟨['0'], List.replicate (-place).toNat '0' ++ run, rfl, ⟨by simp, by simp⟩,
      both (zeros _) digits.all, ?_⟩
    rw [digitsValue_append, digitsValue_append, digitsValue_zeros, List.length_append,
      List.length_replicate, show digitsValue ['0'] = 0 from rfl, zero_mul, zero_mul, zero_add,
      zero_add]
    congr 2
    omega
  case isFalse large =>
    split
    case isTrue long =>
      refine ⟨run ++ List.replicate (place.toNat - run.length) '0', ['0'], rfl, ⟨?_, ?_⟩,
        by simp, ?_⟩
      · simp [digits.filled]
      · exact both digits.all (zeros _)
      · rw [digitsValue_append, digitsValue_append, digitsValue_zeros, List.length_replicate,
          show digitsValue ['0'] = 0 from rfl, add_zero, add_zero]
        obtain ⟨gap, length⟩ : ∃ gap : Nat, place = run.length + gap :=
          ⟨(place - run.length).toNat, by omega⟩
        have count : place.toNat - run.length = gap := by omega
        rw [count, length, add_sub_cancel_left, zpow_natCast, List.length_singleton, pow_one,
          Nat.cast_mul, Nat.cast_mul, Nat.cast_pow, Nat.cast_ofNat, Nat.cast_one, zpow_neg_one]
        exact mul_inv_cancel_right₀ (by norm_num) _
    case isFalse short =>
      refine ⟨run.take place.toNat, run.drop place.toNat, rfl, ⟨?_, ?_⟩, ?_, ?_⟩
      · simp [digits.filled]
        omega
      · exact fun c member => digits.all c (List.mem_of_mem_take member)
      · exact fun c member => digits.all c (List.mem_of_mem_drop member)
      · rw [List.take_append_drop, List.length_drop]
        congr 2
        omega

theorem isNumberChar_of_isDigit {c : Char} (digit : c.isDigit = true) :
    Formula.isNumberChar c = true := by
  simp [Formula.isNumberChar, digit]

theorem count_point {run : List Char} (digits : ∀ c ∈ run, c.isDigit = true) :
    run.count '.' = 0 := by
  rw [List.count_eq_zero]
  intro member
  exact absurd (digits '.' member) (by decide)

end Reckon.Decimal

namespace Reckon.Formula

open Reckon.Decimal

structure SpellsFloat (chars : List Char) (x : Float) : Prop where
  spells : Spells .number chars
  reads : literal (String.ofList chars) = .ok x

def RunsOn (chars : List Char) : Prop :=
  ∃ c run tail, chars = c :: (run ++ 'e' :: tail) ∧ c.isDigit = true ∧
    ∀ x ∈ run, isNumberChar x = true

theorem spellsFloat_of_magnitude? {c : Char} {run : List Char} {x : Float}
    (digit : c.isDigit = true) (numbers : ∀ x ∈ run, isNumberChar x = true)
    (points : (c :: run).count '.' ≤ 1)
    (value : magnitude? (c :: run) = some x) (finite : x.isFinite = true) :
    SpellsFloat (c :: run) x := by
  rw [← float?_eq_magnitude? digit numbers] at value
  refine ⟨.number digit numbers points ?_, by rw [literal, value]⟩
  rw [value]
  exact (Machine.isFinite_iff.mp finite).2

theorem spellsFloat_whole {run : List Char} {x : Float} (digits : Digits run)
    (value : nearest (digitsValue run) 0 = x) (finite : x.isFinite = true) : SpellsFloat run x := by
  obtain ⟨c, rest, rfl⟩ := List.exists_cons_of_ne_nil digits.filled
  obtain ⟨first, others⟩ := List.forall_mem_cons.mp digits.all
  refine spellsFloat_of_magnitude? first (fun x member => isNumberChar_of_isDigit (others x member))
    ?_ (by rw [magnitude?_whole digits, value]) finite
  rw [count_point digits.all]
  exact Nat.zero_le 1

theorem spellsFloat_point {whole fraction : List Char} {x : Float} (digits : Digits whole)
    (decimals : ∀ c ∈ fraction, c.isDigit = true)
    (value : nearest (digitsValue (whole ++ fraction)) (-fraction.length) = x)
    (finite : x.isFinite = true) : SpellsFloat (whole ++ '.' :: fraction) x := by
  have reads := magnitude?_point digits decimals
  have points : (whole ++ '.' :: fraction).count '.' ≤ 1 := by
    rw [List.count_append, count_point digits.all, List.count_cons_self, count_point decimals]
  obtain ⟨c, rest, rfl⟩ := List.exists_cons_of_ne_nil digits.filled
  obtain ⟨first, others⟩ := List.forall_mem_cons.mp digits.all
  rw [List.cons_append] at reads points ⊢
  refine spellsFloat_of_magnitude? first ?_ points (by rw [reads, value]) finite
  intro x member
  rcases List.mem_append.mp member with before | behind
  · exact isNumberChar_of_isDigit (others x before)
  · rcases List.mem_cons.mp behind with rfl | after
    · rfl
    · exact isNumberChar_of_isDigit (decimals x after)

theorem runsOn_scientific {digits : List Char} (run : Digits digits) (power : Int) :
    RunsOn (plain.scientific digits power) := by
  obtain ⟨filled, all⟩ := run
  unfold Style.scientific
  match digits, filled with
  | [first], _ => exact ⟨first, [], _, rfl, all first List.mem_cons_self, by simp⟩
  | first :: second :: rest, _ =>
    obtain ⟨head, tail⟩ := List.forall_mem_cons.mp all
    refine ⟨first, '.' :: second :: rest, _, rfl, head, ?_⟩
    intro x member
    rcases List.mem_cons.mp member with rfl | later
    · rfl
    · exact isNumberChar_of_isDigit (tail x later)

end Reckon.Formula
