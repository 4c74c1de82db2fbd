import Mathlib
import Reckon.Proofs.Escapes
import Reckon.Proofs.Exponent
import Reckon.Proofs.Scanning

/-!
Numbers in JSON. An integer is read back from its digits, and a float from the fewest digits that
identify it, with a point or with an exponent. What stands behind a number must not go on with it.
-/

namespace Reckon.Json

open Reckon.Decimal
open Formula.Lexer (Ends longest_append)

/-! ### Parts of a number -/

inductive IsWhole : List Char → Prop where
  | zero : IsWhole ['0']
  | digits {c : Char} {run : List Char} (digits : Digits (c :: run)) (first : c ≠ '0') :
      IsWhole (c :: run)

theorem wholeDigits_append {run rest : List Char} (whole : IsWhole run)
    (stops : ∀ c ∈ rest.head?, c.isDigit = false) :
    wholeDigits (run ++ rest) = some (run, rest) := by
  cases whole with
  | zero => rfl
  | @digits c run digits first =>
    obtain ⟨taken, dropped⟩ := longest_append digits.all stops
    rw [wholeDigits.eq_2 _ (by simp [first]), taken, dropped]
    simp

theorem fractionDigits_append {run rest : List Char} (digits : Digits run)
    (stops : ∀ c ∈ rest.head?, c.isDigit = false) :
    fractionDigits ('.' :: (run ++ rest)) = (run, rest) := by
  obtain ⟨taken, dropped⟩ := longest_append digits.all stops
  simp only [fractionDigits, taken, dropped]
  rw [if_neg (by simp [digits.filled])]

theorem fractionDigits_of_ne {rest : List Char} (other : ∀ c ∈ rest.head?, c ≠ '.') :
    fractionDigits rest = ([], rest) := by
  unfold fractionDigits
  split
  · exact absurd rfl (other '.' rfl)
  · rfl

theorem exponentPart_of_ne {rest : List Char} (other : ∀ c ∈ rest.head?, c ≠ 'e' ∧ c ≠ 'E') :
    exponentPart rest = (none, rest) := by
  cases rest with
  | nil => rfl
  | cons c rest =>
    obtain ⟨small, capital⟩ := other c rfl
    simp [exponentPart, small, capital]

def powerSign (power : Int) : Char :=
  if power < 0 then '-' else '+'

theorem exponentPart_append {power : Int} {run rest : List Char} (digits : Digits run)
    (value : digitsValue run = power.natAbs) (stops : ∀ c ∈ rest.head?, c.isDigit = false) :
    exponentPart ('e' :: powerSign power :: (run ++ rest)) = (some power, rest) := by
  obtain ⟨taken, dropped⟩ := longest_append digits.all stops
  have signed : (if decide (power < 0) = true then -(digitsValue run : Int) else digitsValue run) =
      power := by
    simp only [value, decide_eq_true_eq]
    split <;> omega
  have split : splitSign (powerSign power :: (run ++ rest)) =
      (decide (power < 0), run ++ rest) := by
    unfold powerSign
    by_cases negative : power < 0
    · rw [if_pos negative, decide_eq_true negative]
      rfl
    · rw [if_neg negative, decide_eq_false negative]
      rfl
  simp only [exponentPart, split, taken, dropped, signed]
  simp [digits.filled]

theorem isDigit_of_ends {rest : List Char} (ends : Ends rest) :
    ∀ c ∈ rest.head?, c.isDigit = false := by
  intro c head
  have word := (ends c head).1
  simp only [Formula.isWordChar, Bool.or_eq_false_iff] at word
  exact word.1.2

theorem ne_exponent_of_ends {rest : List Char} (ends : Ends rest) :
    ∀ c ∈ rest.head?, c ≠ 'e' ∧ c ≠ 'E' := by
  intro c head
  have word := (ends c head).1
  constructor <;> rintro rfl <;> exact absurd word (by decide)

theorem ne_point_of_ends {rest : List Char} (ends : Ends rest) : ∀ c ∈ rest.head?, c ≠ '.' :=
  fun c head => (ends c head).2

/-! ### Magnitudes -/

def signed (negative : Bool) (x : Float) : Float :=
  if negative then -x else x

theorem readMagnitude_whole {run rest : List Char} (whole : IsWhole run)
    (short : run.length ≤ maxDigits) (ends : Ends rest) (negative : Bool) :
    readMagnitude negative (run ++ rest) =
      .ok (.int (if negative then -(digitsValue run : Int) else digitsValue run), rest) := by
  simp only [readMagnitude, wholeDigits_append whole (isDigit_of_ends ends), found,
    fractionDigits_of_ne (ne_point_of_ends ends), exponentPart_of_ne (ne_exponent_of_ends ends),
    bind, Except.bind]
  rw [if_pos (by simp), if_neg (by omega)]
  rfl

theorem readMagnitude_point {run fraction rest : List Char} (whole : IsWhole run)
    (digits : Digits fraction) (ends : Ends rest) (negative : Bool) :
    readMagnitude negative (run ++ '.' :: (fraction ++ rest)) =
      .ok (.float (signed negative (nearest (digitsValue (run ++ fraction)) (-fraction.length))),
        rest) := by
  have point : ∀ c ∈ ('.' :: (fraction ++ rest)).head?, c.isDigit = false := by simp
  simp only [readMagnitude, wholeDigits_append whole point, found,
    fractionDigits_append digits (isDigit_of_ends ends),
    exponentPart_of_ne (ne_exponent_of_ends ends), bind, Except.bind]
  rw [if_neg (by simp [digits.filled])]
  simp [signed]
  rfl

theorem readMagnitude_power {mantissa run fraction exponent rest : List Char} {power : Int}
    (split : fractionDigits (mantissa ++ 'e' :: powerSign power :: (exponent ++ rest)) =
      (fraction, 'e' :: powerSign power :: (exponent ++ rest)))
    (whole : IsWhole run) (stops : ∀ c ∈ mantissa.head?, c.isDigit = false)
    (digits : Digits exponent) (value : digitsValue exponent = power.natAbs) (ends : Ends rest)
    (negative : Bool) :
    readMagnitude negative
        (run ++ (mantissa ++ 'e' :: powerSign power :: (exponent ++ rest))) =
      .ok (.float (signed negative
        (nearest (digitsValue (run ++ fraction)) (power - fraction.length))), rest) := by
  have behind : ∀ c ∈ (mantissa ++ 'e' :: powerSign power :: (exponent ++ rest)).head?,
      c.isDigit = false := by
    cases mantissa with
    | nil => simp
    | cons c mantissa => simpa using stops
  simp only [readMagnitude, wholeDigits_append whole behind, found, split,
    exponentPart_append digits value (isDigit_of_ends ends), bind, Except.bind]
  rw [if_neg (by simp)]
  simp [signed]
  rfl

/-! ### Words -/

def words : List String :=
  ["null", "true", "false", "NaN", "Infinity", "-Infinity"]

theorem afterWord_of_ne {c first : Char} (different : c ≠ first) {word : String} {others : List Char}
    (spelled : word.toList = first :: others) (rest : List Char) :
    afterWord word (c :: rest) = none := by
  rw [afterWord, spelled, if_neg]
  simp [List.isPrefixOf, Ne.symm different]

def readFigure (chars : List Char) : Except Error (Value × List Char) :=
  match chars with
  | '"' :: rest =>
    (found (readString (rest.length + 1) rest)).map fun (s, rest) => (.text (String.ofList s), rest)
  | '-' :: rest => readMagnitude true rest
  | _ => readMagnitude false chars

theorem readScalar_of_no_word {chars : List Char}
    (other : ∀ word ∈ words, afterWord word chars = none) : readScalar chars = readFigure chars := by
  simp only [words, List.forall_mem_cons] at other
  unfold readScalar
  simp only [List.findSome?_cons, List.findSome?_nil, other, Option.map_none]
  rfl

theorem no_word_of_apart {c : Char} {rest : List Char}
    (apart : ∀ first ∈ ['n', 't', 'f', 'N', 'I'], c ≠ first)
    (finite : afterWord "-Infinity" (c :: rest) = none) :
    ∀ word ∈ words, afterWord word (c :: rest) = none := by
  simp only [List.forall_mem_cons] at apart
  obtain ⟨n, t, f, N, I, -⟩ := apart
  simp only [words, List.forall_mem_cons]
  exact ⟨afterWord_of_ne n rfl rest, afterWord_of_ne t rfl rest, afterWord_of_ne f rfl rest,
    afterWord_of_ne N rfl rest, afterWord_of_ne I rfl rest, finite, by simp⟩

theorem readScalar_quote (rest : List Char) :
    readScalar ('"' :: rest) =
      (found (readString (rest.length + 1) rest)).map fun (s, rest) =>
        (.text (String.ofList s), rest) := by
  have minus : '"' ≠ '-' := by decide
  exact readScalar_of_no_word (no_word_of_apart (by simp) (afterWord_of_ne minus rfl rest))

theorem readScalar_digit {c : Char} (digit : c.isDigit = true) (rest : List Char) :
    readScalar (c :: rest) = readMagnitude false (c :: rest) := by
  have apart (first : Char) (other : first.isDigit = false) : c ≠ first := by
    rintro rfl
    rw [digit] at other
    cases other
  rw [readScalar_of_no_word]
  · unfold readFigure
    split
    case h_1 same => exact absurd (List.cons.inj same).1 (apart '"' rfl)
    case h_2 same => exact absurd (List.cons.inj same).1 (apart '-' rfl)
    case h_3 => rfl
  · refine no_word_of_apart ?_ (afterWord_of_ne (apart '-' rfl) rfl rest)
    simp only [List.forall_mem_cons]
    exact ⟨apart 'n' rfl, apart 't' rfl, apart 'f' rfl, apart 'N' rfl, apart 'I' rfl, by simp⟩

theorem readScalar_minus {c : Char} (digit : c.isDigit = true) (rest : List Char) :
    readScalar ('-' :: c :: rest) = readMagnitude true (c :: rest) := by
  have finite : afterWord "-Infinity" ('-' :: c :: rest) = none := by
    have other : c ≠ 'I' := by
      rintro rfl
      exact absurd digit (by decide)
    rw [afterWord, if_neg]
    simp [List.isPrefixOf, Ne.symm other]
  exact readScalar_of_no_word (no_word_of_apart (by simp) finite)

/-! ### Scalars -/

def isStart (c : Char) : Bool :=
  c.isDigit || ['-', '"', 'n', 't', 'f'].contains c

/-- The text of a scalar. It is read as the value, wherever what stands behind does not go on
with it. -/
structure Reads (value : Value) (chars : List Char) : Prop where
  starts : ∃ c run, chars = c :: run ∧ isStart c = true
  printed : ∀ c ∈ chars, IsPrinted c
  reads : ∀ rest, Ends rest → readScalar (chars ++ rest) = .ok (value, rest)

theorem isPrinted_of_all {chars : List Char}
    (all : chars.all (fun c => decide (IsPrinted c)) = true) : ∀ c ∈ chars, IsPrinted c := by
  simpa using all

theorem isStart_of_isDigit {c : Char} (digit : c.isDigit = true) : isStart c = true := by
  rw [isStart, digit, Bool.true_or]

theorem reads_null : Reads .null "null".toList where
  starts := ⟨'n', _, rfl, rfl⟩
  printed := isPrinted_of_all rfl
  reads _ _ := rfl

theorem reads_bool (b : Bool) : Reads (.bool b) (if b then "true" else "false").toList := by
  cases b with
  | false => exact ⟨⟨'f', _, rfl, rfl⟩, isPrinted_of_all rfl, fun _ _ => rfl⟩
  | true => exact ⟨⟨'t', _, rfl, rfl⟩, isPrinted_of_all rfl, fun _ _ => rfl⟩

theorem reads_text (s : String) : Reads (.text s) (stringText s).toList where
  starts := ⟨'"', _, toList_stringText s, rfl⟩
  printed := isPrinted_stringText s
  reads rest _ := by
    have long : s.toList.length < (s.toList.flatMap escapeChar ++ ['"'] ++ rest).length + 1 := by
      have bound := length_le_flatMap s.toList
      simp only [List.length_append]
      omega
    rw [toList_stringText, List.cons_append, readScalar_quote, List.append_assoc,
      List.singleton_append, readString_flatMap s.toList (by simpa using long)]
    simp [found, Except.map]

/-! ### Integers -/

theorem head?_toDigits_ne {n : Nat} (pos : 0 < n) : (Nat.toDigits 10 n).head? ≠ some '0' := by
  induction n using Nat.strong_induction_on with
  | h n ih =>
    rw [Nat.toDigits_eq_if (by decide)]
    split
    case isTrue small => simpa using pos.ne'
    case isFalse large =>
      have before := ih (n / 10) (by omega) (by omega)
      rwa [List.head?_append_of_ne_nil _ Nat.toDigits_ne_nil]

theorem IsWhole.of_head {run : List Char} (digits : Digits run) (first : run.head? ≠ some '0') :
    IsWhole run := by
  cases run with
  | nil => exact absurd rfl digits.filled
  | cons c run => exact .digits digits (by simpa using first)

theorem isWhole_toDigits (n : Nat) : IsWhole (Nat.toDigits 10 n) := by
  rcases Nat.eq_zero_or_pos n with rfl | pos
  · exact Nat.toDigits_zero 10 ▸ .zero
  · exact .of_head (digits_toDigits n) (head?_toDigits_ne pos)

theorem length_toDigits_le {n count : Nat} (some : 0 < count) (small : n < Nat.pow 10 count) :
    (Nat.toDigits 10 n).length ≤ count :=
  (Nat.length_toDigits_le_iff (by decide) some).mpr small

theorem toList_toString (n : Int) :
    (toString n).toList = (if n < 0 then ['-'] else []) ++ Nat.toDigits 10 n.natAbs := by
  rw [Int.toString_eq_repr, Int.repr_eq_if]
  by_cases negative : n < 0
  · have magnitude : (-n).toNat = n.natAbs := by omega
    rw [if_neg (by omega), if_pos negative, String.toList_append, magnitude, Nat.toList_repr]
    rfl
  · have magnitude : n.toNat = n.natAbs := by omega
    rw [if_pos (by omega), if_neg negative, magnitude, Nat.toList_repr, List.nil_append]

theorem reads_int {n : Int} (short : n.natAbs < Value.tooLong) :
    Reads (.int n) (toString n).toList := by
  have whole := isWhole_toDigits n.natAbs
  unfold Value.tooLong at short
  have length := @length_toDigits_le _ maxDigits (by decide) short
  have digits := digits_toDigits n.natAbs
  have printed : ∀ c ∈ Nat.toDigits 10 n.natAbs, IsPrinted c := fun c member =>
    isPrinted_of_isDigit (digits.all c member)
  obtain ⟨c, run, same⟩ := List.exists_cons_of_ne_nil digits.filled
  have digit : c.isDigit = true := digits.all c (by simp [same])
  have read {rest : List Char} (ends : Ends rest) := readMagnitude_whole whole length ends
  rw [digitsValue_toDigits] at read
  rw [toList_toString]
  by_cases negative : n < 0
  · have value : -(n.natAbs : Int) = n := by omega
    rw [if_pos negative]
    refine ⟨⟨'-', _, rfl, rfl⟩, ?_, fun rest ends => ?_⟩
    · simpa using ⟨(by decide : IsPrinted '-'), printed⟩
    · have read := read ends true
      rw [if_pos rfl, value, same] at read
      rw [same]
      exact (readScalar_minus digit _).trans read
  · have value : (n.natAbs : Int) = n := by omega
    rw [if_neg negative, List.nil_append]
    refine ⟨⟨c, run, same, isStart_of_isDigit digit⟩, printed, fun rest ends => ?_⟩
    have read := read ends false
    rw [if_neg (by decide), value, same] at read
    rw [same]
    exact (readScalar_digit digit _).trans read

end Reckon.Json
