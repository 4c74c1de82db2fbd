import Mathlib
import Reckon.Proofs.Figures

/-!
Floats in JSON. The fewest digits that identify a float are read back as this float, also with an
exponent and below zero. Both zeros keep their sign.
-/

namespace Reckon.Machine

open Float.Model

theorem neg_ofUnpacked {m : Nat} {e : Int} (canonical : Canonical m e) :
    -ofUnpacked (.finite .positive m e canonical.pos) =
      ofUnpacked (.finite .negative m e canonical.pos) := by
  change Float.ofModel (.pack (UnpackedFloat.neg _)) = Float.ofModel (.pack _)
  rw [unpack_ofUnpacked .positive canonical]
  rfl

end Reckon.Machine

namespace Reckon.Decimal

open Float.Model
open Float.Model.UnpackedFloat (Sign packComponents)

theorem isNegative_of_negative {x : Float} {m : Nat} {e : Int} {pos : 0 < m}
    (unpacked : x.toModel.unpack = .finite .negative m e pos) : isNegative x = true := by
  obtain ⟨exponent, mantissa, bits, -⟩ := Machine.components_of_unpack unpacked
  have sign : Sign.negative.toBitVec.toNat = 1 := rfl
  rw [isNegative, toBits_toNat x bits, sign]
  refine decide_eq_true ?_
  change 2 ^ 63 ≤ _
  omega

/-! ### Digits around a point -/

theorem split_unique {front front' back back' : List Char} (digits : ∀ c ∈ front, c.isDigit = true)
    (digits' : ∀ c ∈ front', c.isDigit = true)
    (same : front ++ '.' :: back = front' ++ '.' :: back') :
    front = front' ∧ back = back' := by
  have point (rest : List Char) : ∀ c ∈ ('.' :: rest).head?, c.isDigit = false := by simp
  obtain ⟨taken, dropped⟩ := Formula.Lexer.longest_append digits (point back)
  obtain ⟨taken', dropped'⟩ := Formula.Lexer.longest_append digits' (point back')
  rw [same] at taken dropped
  exact ⟨taken.symm.trans taken', (List.cons.inj (dropped.symm.trans dropped')).2⟩

/-- In front of the point stands a lone zero or the first digit, and behind it stands a digit. -/
theorem positional_shape {run : List Char} (digits : Digits run) (place : Int) :
    ∃ whole fraction, plain.positional run place = whole ++ '.' :: fraction ∧
      (∀ c ∈ whole, c.isDigit = true) ∧ (whole = ['0'] ∨ whole.head? = run.head?) ∧
      fraction ≠ [] := by
  unfold Style.positional
  split
  case isTrue =>
    exact ⟨['0'], _, rfl, by simp, .inl rfl, by simp [digits.filled]⟩
  case isFalse large =>
    split
    case isTrue =>
      refine ⟨run ++ List.replicate (place.toNat - run.length) '0', ['0'], rfl, ?_, .inr ?_, by simp⟩
      · intro c member
        rcases List.mem_append.mp member with inside | zero
        · exact digits.all c inside
        · rw [List.eq_of_mem_replicate zero]
          rfl
      · exact List.head?_append_of_ne_nil _ digits.filled
    case isFalse short =>
      refine ⟨run.take place.toNat, run.drop place.toNat, rfl,
        fun c member => digits.all c (List.mem_of_mem_take member), .inr ?_, ?_⟩
      · rw [List.head?_take, if_neg (by omega)]
      · simpa using short

theorem digitsValue_paddedDigits (width n : Nat) : digitsValue (paddedDigits width n) = n := by
  rw [paddedDigits, digitsValue_append, digitsValue_zeros, digitsValue_toDigits, Nat.zero_mul,
    Nat.zero_add]

theorem digits_paddedDigits (width n : Nat) : Digits (paddedDigits width n) := by
  constructor
  · simp [paddedDigits, Nat.toDigits_ne_nil]
  · intro c member
    rcases List.mem_append.mp member with zero | inside
    · rw [List.eq_of_mem_replicate zero]
      rfl
    · exact (digits_toDigits n).all c inside

end Reckon.Decimal

namespace Reckon.Json

open Reckon.Decimal
open Formula.Lexer (Ends)

/-! ### Magnitudes -/

def mantissaTail (others : List Char) : List Char :=
  if others = [] then [] else '.' :: others

theorem scientific_cons (c : Char) (others : List Char) (power : Int) :
    plain.scientific (c :: others) power = [c] ++ (mantissaTail others ++
      'e' :: powerSign power :: paddedDigits plain.exponentWidth power.natAbs) := by
  have sign : (if power < 0 then ['-'] else plain.plusSign.toList) = [powerSign power] := by
    unfold powerSign
    split <;> rfl
  unfold Style.scientific mantissaTail
  rw [sign]
  cases others <;> simp

theorem fractionDigits_mantissaTail {others rest : List Char}
    (digits : ∀ c ∈ others, c.isDigit = true) (stops : ∀ c ∈ rest.head?, c.isDigit = false ∧ c ≠ '.') :
    fractionDigits (mantissaTail others ++ rest) = (others, rest) := by
  unfold mantissaTail
  by_cases none : others = []
  · rw [if_pos none, none]
    exact fractionDigits_of_ne fun c head => (stops c head).2
  · rw [if_neg none]
    exact fractionDigits_append ⟨none, digits⟩ fun c head => (stops c head).1

section

variable {d : Scaled} {m : Nat} {e : Int} (filled : d.digits ≠ 0)
  (canonical : Machine.Canonical m e) (near : Machine.Near d.value m e)
include filled canonical near

theorem readMagnitude_positional {rest : List Char} (ends : Ends rest) (negative : Bool) :
    readMagnitude negative (plain.positional (Nat.toDigits 10 d.digits)
        (d.exponent + (Nat.toDigits 10 d.digits).length - 1 + 1) ++ rest) =
      .ok (.float (signed negative (Machine.ofUnpacked (.finite .positive m e canonical.pos))),
        rest) := by
  have digits := digits_toDigits d.digits
  have first := head?_toDigits_ne (Nat.pos_of_ne_zero filled)
  obtain ⟨whole, fraction, same, wholes, decimals, value⟩ := positional_eq digits
    (d.exponent + (Nat.toDigits 10 d.digits).length - 1 + 1)
  obtain ⟨whole', fraction', same', wholes', head, some⟩ := positional_shape digits
    (d.exponent + (Nat.toDigits 10 d.digits).length - 1 + 1)
  obtain ⟨rfl, rfl⟩ := split_unique wholes.all wholes' (same.symm.trans same')
  have isWhole : IsWhole whole := by
    rcases head with rfl | head
    · exact .zero
    · exact .of_head wholes (head ▸ first)
  have place : d.exponent + (Nat.toDigits 10 d.digits).length - 1 + 1 -
      (Nat.toDigits 10 d.digits).length = d.exponent := by omega
  rw [digitsValue_toDigits, place] at value
  rw [Scaled.value, ← value] at near
  rw [same, List.append_assoc, List.cons_append,
    readMagnitude_point isWhole ⟨some, decimals⟩ ends, nearest_of_near canonical near]

theorem readMagnitude_scientific {rest : List Char} (ends : Ends rest) (negative : Bool) :
    readMagnitude negative (plain.scientific (Nat.toDigits 10 d.digits)
        (d.exponent + (Nat.toDigits 10 d.digits).length - 1) ++ rest) =
      .ok (.float (signed negative (Machine.ofUnpacked (.finite .positive m e canonical.pos))),
        rest) := by
  have digits := digits_toDigits d.digits
  have first := head?_toDigits_ne (Nat.pos_of_ne_zero filled)
  have value := digitsValue_toDigits d.digits
  have nearest := nearest_of_near canonical near
  generalize Nat.toDigits 10 d.digits = run at digits first value ⊢
  generalize same : d.exponent + (run.length : Int) - 1 = power
  have exponent := digits_paddedDigits plain.exponentWidth power.natAbs
  have exponentValue := digitsValue_paddedDigits plain.exponentWidth power.natAbs
  obtain ⟨c, others, rfl⟩ := List.exists_cons_of_ne_nil digits.filled
  obtain ⟨digit, decimals⟩ := List.forall_mem_cons.mp digits.all
  have whole : IsWhole [c] := .of_head ⟨by simp, by simpa using digit⟩ (by simpa using first)
  have back : power - (others.length : Int) = d.exponent := by
    rw [List.length_cons] at same
    push_cast at same
    omega
  have point : ∀ x ∈ (mantissaTail others).head?, x.isDigit = false := by
    unfold mantissaTail
    split <;> simp
  have split : fractionDigits (mantissaTail others ++ 'e' :: powerSign power ::
      (paddedDigits plain.exponentWidth power.natAbs ++ rest)) = (others, _) :=
    fractionDigits_mantissaTail decimals (by simp)
  have read := readMagnitude_power split whole point exponent exponentValue ends negative
  simp only [List.singleton_append, value, back, nearest] at read
  rw [scientific_cons]
  simpa using read

theorem readMagnitude_magnitude {rest : List Char} (ends : Ends rest) (negative : Bool) :
    readMagnitude negative (plain.magnitude d ++ rest) =
      .ok (.float (signed negative (Machine.ofUnpacked (.finite .positive m e canonical.pos))),
        rest) := by
  unfold Style.magnitude
  dsimp only
  rw [if_neg filled]
  split
  · exact readMagnitude_positional filled canonical near ends negative
  · exact readMagnitude_scientific filled canonical near ends negative

omit canonical near in
theorem exists_cons_magnitude : ∃ c run, plain.magnitude d = c :: run ∧ c.isDigit = true := by
  have digits := digits_toDigits d.digits
  unfold Style.magnitude
  dsimp only
  rw [if_neg filled]
  split
  · obtain ⟨whole, fraction, same, wholes, -⟩ := positional_eq digits
      (d.exponent + (Nat.toDigits 10 d.digits).length - 1 + 1)
    obtain ⟨c, run, rfl⟩ := List.exists_cons_of_ne_nil wholes.filled
    exact ⟨c, _, same, wholes.all c List.mem_cons_self⟩
  · obtain ⟨c, run, same⟩ := List.exists_cons_of_ne_nil digits.filled
    rw [same, scientific_cons]
    exact ⟨c, _, rfl, digits.all c (same ▸ List.mem_cons_self)⟩

end

theorem isPrinted_digits {run : List Char} (digits : ∀ c ∈ run, c.isDigit = true) :
    ∀ c ∈ run, IsPrinted c :=
  fun c member => isPrinted_of_isDigit (digits c member)

theorem isPrinted_magnitude (d : Scaled) : ∀ c ∈ plain.magnitude d, IsPrinted c := by
  have digits := digits_toDigits d.digits
  have positional (place : Int) :
      ∀ c ∈ plain.positional (Nat.toDigits 10 d.digits) place, IsPrinted c := by
    obtain ⟨whole, fraction, same, wholes, decimals, -⟩ := positional_eq digits place
    rw [same, List.forall_mem_append, List.forall_mem_cons]
    exact ⟨isPrinted_digits wholes.all, by decide, isPrinted_digits decimals⟩
  unfold Style.magnitude
  dsimp only
  split
  · exact positional 1
  · split
    · exact positional _
    · obtain ⟨c, others, same⟩ := List.exists_cons_of_ne_nil digits.filled
      have all := isPrinted_digits digits.all
      rw [same] at all ⊢
      obtain ⟨first, behind⟩ := List.forall_mem_cons.mp all
      rw [scientific_cons]
      simp only [List.forall_mem_append, List.forall_mem_cons]
      refine ⟨⟨first, by simp⟩, ?_, by decide, ?_,
        isPrinted_digits (digits_paddedDigits _ _).all⟩
      · unfold mantissaTail
        split
        · simp
        · exact List.forall_mem_cons.mpr ⟨by decide, behind⟩
      · unfold powerSign
        split <;> decide

/-! ### Floats -/

section

variable {x : Float} {m : Nat} {e : Int} {pos : 0 < m}

theorem isFinite_of_unpack {s : Float.Model.UnpackedFloat.Sign}
    (unpacked : x.toModel.unpack = .finite s m e pos) : x.isFinite = true := by
  change x.toModel.unpack.isFinite = true
  rw [unpacked]
  rfl

theorem toList_text_negative (unpacked : x.toModel.unpack = .finite .negative m e pos) :
    (Decimal.text x).toList = '-' :: plain.magnitude (Binary.shortest ⟨m, e, narrow m e⟩) := by
  obtain ⟨number, bounded⟩ := Machine.isFinite_iff.mp (isFinite_of_unpack unpacked)
  simp only [Decimal.text, Style.text, number, bounded, Bool.false_eq_true, if_false,
    isNegative_of_negative unpacked, if_true, ofFloat_of_unpack unpacked, String.toList_append,
    String.toList_ofList]
  rfl

theorem reads_positive (unpacked : x.toModel.unpack = .finite .positive m e pos) :
    Reads (.float x) (Decimal.text x).toList := by
  have filled := digits_shortest_ne_zero unpacked
  have canonical := Machine.canonical_of_unpack unpacked
  have same : Machine.ofUnpacked (.finite .positive m e canonical.pos) = x := by
    rw [← unpacked, Machine.ofUnpacked_unpack]
  obtain ⟨c, run, text, digit⟩ := exists_cons_magnitude filled
  rw [toList_text unpacked (isFinite_of_unpack unpacked)]
  refine ⟨⟨c, run, text, isStart_of_isDigit digit⟩, isPrinted_magnitude _, fun rest ends => ?_⟩
  have read := readMagnitude_magnitude filled canonical (Binary.near_shortest pos) ends false
  rw [text, List.cons_append, same] at read
  rw [text, List.cons_append, readScalar_digit digit, read]
  rfl

theorem reads_negative (unpacked : x.toModel.unpack = .finite .negative m e pos) :
    Reads (.float x) (Decimal.text x).toList := by
  have canonical := Machine.canonical_of_unpack unpacked
  have filled := digits_shortest_ne_zero (Machine.unpack_ofUnpacked .positive canonical)
  have same : signed true (Machine.ofUnpacked (.finite .positive m e canonical.pos)) = x := by
    rw [signed, if_pos rfl, Machine.neg_ofUnpacked canonical, ← unpacked, Machine.ofUnpacked_unpack]
  obtain ⟨c, run, text, digit⟩ := exists_cons_magnitude filled
  rw [toList_text_negative unpacked]
  refine ⟨⟨'-', _, rfl, rfl⟩, ?_, fun rest ends => ?_⟩
  · exact List.forall_mem_cons.mpr ⟨by decide, isPrinted_magnitude _⟩
  · have read := readMagnitude_magnitude filled canonical (Binary.near_shortest pos) ends true
    rw [text, List.cons_append, same] at read
    rw [text, List.cons_append, List.cons_append, readScalar_minus digit, read]

theorem reads_zero (s : Float.Model.UnpackedFloat.Sign) :
    Reads (.float (Machine.ofUnpacked (.zero s)))
      (Decimal.text (Machine.ofUnpacked (.zero s))).toList := by
  have point {rest : List Char} (ends : Ends rest) :=
    readMagnitude_point .zero (⟨by simp, by simp⟩ : Digits ['0']) ends
  have zero : nearest (digitsValue (['0'] ++ ['0'])) (-(['0'].length : Nat)) =
      Machine.ofUnpacked (.zero .positive) := by decide +kernel
  rw [zero] at point
  cases s with
  | positive =>
    have text : (Decimal.text (Machine.ofUnpacked (.zero .positive))).toList = ['0', '.', '0'] := by
      decide +kernel
    rw [text]
    exact ⟨⟨'0', _, rfl, rfl⟩, isPrinted_of_all rfl, fun rest ends =>
      (readScalar_digit rfl _).trans (point ends false)⟩
  | negative =>
    have text : (Decimal.text (Machine.ofUnpacked (.zero .negative))).toList =
        ['-', '0', '.', '0'] := by decide +kernel
    have sign : signed true (Machine.ofUnpacked (.zero .positive)) =
        Machine.ofUnpacked (.zero .negative) := by decide +kernel
    rw [text, ← sign]
    exact ⟨⟨'-', _, rfl, rfl⟩, isPrinted_of_all rfl, fun rest ends =>
      (readScalar_minus rfl _).trans (point ends true)⟩

end

theorem reads_float {x : Float} (finite : x.isFinite = true) :
    Reads (.float x) (Decimal.text x).toList := by
  have whole := Machine.ofUnpacked_unpack x
  change x.toModel.unpack.isFinite = true at finite
  cases unpacked : x.toModel.unpack with
  | zero s =>
    rw [unpacked] at whole
    exact whole ▸ reads_zero s
  | finite s m e pos =>
    cases s with
    | positive => exact reads_positive unpacked
    | negative => exact reads_negative unpacked
  | infinity s => simp [unpacked, Float.Model.UnpackedFloat.isFinite] at finite
  | notANumber => simp [unpacked, Float.Model.UnpackedFloat.isFinite] at finite

end Reckon.Json
