import Reckon.Proofs.Layout

/-!
Which numbers have an exponent when they are printed. The digits of a float are on the same side
of a power of ten as the float itself, since rounding keeps the order. Numbers from a ten thousandth
on are printed without an exponent and read back; smaller ones have one, unless they are zero.
-/

namespace Reckon.Machine

open Float.Model
open Float.Model.UnpackedFloat (Sign)

theorem lt_iff_precedes {x y : Float} {m m' : Nat} {e e' : Int} {pos : 0 < m} {pos' : 0 < m'}
    (unpacked : x.toModel.unpack = .finite .positive m e pos)
    (unpacked' : y.toModel.unpack = .finite .positive m' e' pos') : x < y ↔ Precedes m e m' e' := by
  change decide (x.toModel.unpack.lt y.toModel.unpack = true) = true ↔ _
  rw [unpacked, unpacked', decide_eq_true_iff]
  change (some ((compare e e').then (compare m m')) == some Ordering.lt) = true ↔ _
  rw [beq_iff_eq, Option.some_inj, Ordering.then_eq_lt, compare_lt_iff_lt, compare_lt_iff_lt,
    compare_eq_iff_eq]
  rfl

theorem zero_lt {x : Float} {m : Nat} {e : Int} {pos : 0 < m}
    (unpacked : x.toModel.unpack = .finite .positive m e pos) : 0 < x := by
  change decide ((0 : Float).toModel.unpack.lt x.toModel.unpack = true) = true
  rw [unpacked, unpack_zero]
  rfl

theorem zero_or_finite_of_isMagnitude {x : Float} (magnitude : IsMagnitude x)
    (finite : x.isFinite = true) :
    x = ofUnpacked (.zero .positive) ∨
      ∃ m e pos, x.toModel.unpack = .finite .positive m e pos := by
  change x.toModel.unpack.isFinite = true at finite
  unfold IsMagnitude at magnitude
  cases unpacked : x.toModel.unpack with
  | notANumber => simp [unpacked, isNonnegative] at magnitude
  | infinity s => simp [unpacked, UnpackedFloat.isFinite] at finite
  | zero s =>
    cases s with
    | negative => simp [unpacked, isNonnegative] at magnitude
    | positive => exact .inl (unpacked ▸ (ofUnpacked_unpack x).symm)
  | finite s m e pos =>
    cases s with
    | negative => simp [unpacked, isNonnegative] at magnitude
    | positive => exact .inr ⟨m, e, pos, rfl⟩

theorem canonical_tenThousandth : Canonical 7378697629483821 (-66) :=
  ⟨by decide, by decide, by decide, by decide, by decide⟩

theorem unpack_tenThousandth : (0.0001 : Float).toModel.unpack =
    .finite .positive 7378697629483821 (-66) canonical_tenThousandth.pos := by
  have same : (0.0001 : Float) =
      ofUnpacked (.finite .positive 7378697629483821 (-66) canonical_tenThousandth.pos) := by
    decide +kernel
  rw [same]
  exact unpack_ofUnpacked .positive canonical_tenThousandth

theorem near_tenThousandth : Near (10 ^ (-4 : Int)) 7378697629483821 (-66) := by
  constructor
  · constructor <;> norm_num
  · norm_num

end Reckon.Machine

namespace Reckon.Decimal

/-- The number is not zero, and less than a ten thousandth. -/
def IsTiny (x : Float) : Prop :=
  0 < x ∧ x < 0.0001

instance (x : Float) : Decidable (IsTiny x) :=
  inferInstanceAs (Decidable (0 < x ∧ x < 0.0001))

/-- The place of the leading digit. -/
theorem le_place_iff {d : Scaled} (filled : d.digits ≠ 0) {k : Int} :
    k ≤ d.exponent + (Nat.toDigits 10 d.digits).length - 1 ↔ (10 : ℚ) ^ k ≤ d.value := by
  constructor
  · intro le
    calc
      (10 : ℚ) ^ k ≤ 10 ^ (d.exponent + (Nat.toDigits 10 d.digits).length - 1) :=
        zpow_le_zpow_right₀ (by norm_num) le
      _ ≤ d.value := ten_pow_le (Nat.pos_of_ne_zero filled) d.exponent
  · intro le
    have less := le.trans_lt (lt_ten_pow d.digits d.exponent)
    have less := (zpow_lt_zpow_iff_right₀ (by norm_num)).mp less
    omega

theorem magnitude_eq_positional {d : Scaled} (filled : d.digits ≠ 0)
    (large : (10 : ℚ) ^ (-4 : Int) ≤ d.value) (small : d.value < 10 ^ (16 : Int)) :
    plain.magnitude d = plain.positional (Nat.toDigits 10 d.digits)
      (d.exponent + (Nat.toDigits 10 d.digits).length - 1 + 1) := by
  have low := (le_place_iff filled).mpr large
  have high := mt (le_place_iff filled).mp small.not_ge
  exact (if_neg filled).trans (if_pos ⟨low, not_le.mp high⟩)

theorem magnitude_eq_scientific {d : Scaled} (filled : d.digits ≠ 0)
    (tiny : d.value < (10 : ℚ) ^ (-4 : Int)) :
    plain.magnitude d = plain.scientific (Nat.toDigits 10 d.digits)
      (d.exponent + (Nat.toDigits 10 d.digits).length - 1) := by
  have low := mt (le_place_iff filled).mp tiny.not_ge
  exact (if_neg filled).trans (if_neg fun both => low both.1)

section

variable {x : Float} {m : Nat} {e : Int} {pos : 0 < m}

theorem isTiny_iff (unpacked : x.toModel.unpack = .finite .positive m e pos) :
    IsTiny x ↔ Machine.Precedes m e 7378697629483821 (-66) := by
  rw [IsTiny, Machine.lt_iff_precedes unpacked Machine.unpack_tenThousandth]
  exact and_iff_right (Machine.zero_lt unpacked)

/-- The fewest digits of a float are less than a ten thousandth exactly if the float is. -/
theorem shortest_lt_iff (unpacked : x.toModel.unpack = .finite .positive m e pos) :
    (Binary.shortest ⟨m, e, narrow m e⟩).value < 10 ^ (-4 : Int) ↔ IsTiny x := by
  have canonical := Machine.canonical_of_unpack unpacked
  have near := Binary.near_shortest (e := e) pos
  rw [isTiny_iff unpacked]
  constructor
  · intro less
    rcases Machine.precedes_trichotomy m e 7378697629483821 (-66) with before | ⟨rfl, rfl⟩ | behind
    · exact before
    · have digits :
          Binary.shortest ⟨7378697629483821, -66, narrow 7378697629483821 (-66)⟩ = ⟨1, -4⟩ := by
        decide +kernel
      rw [digits, Scaled.value, Nat.cast_one, one_mul] at less
      exact absurd less (lt_irrefl _)
    · have more := Machine.lt_of_near Machine.canonical_tenThousandth canonical
        Machine.near_tenThousandth near behind
      exact absurd less more.not_gt
  · exact Machine.lt_of_near canonical Machine.canonical_tenThousandth near
      Machine.near_tenThousandth

theorem canonical_tenQuadrillion : Machine.Canonical 5000000000000000 1 :=
  ⟨by decide, by decide, by decide, by decide, by decide⟩

/-- The fewest digits of a float that is not whole are less than `10 ^ 16`. -/
theorem shortest_lt (unpacked : x.toModel.unpack = .finite .positive m e pos)
    (finite : x.isFinite = true) (fraction : wholeNumber? x = none) :
    (Binary.shortest ⟨m, e, narrow m e⟩).value < 10 ^ (16 : Int) := by
  have below : e < 0 := by
    by_contra whole
    have none : (-e).toNat = 0 := by omega
    simp [wholeNumber?, finite, ofFloat_of_unpack unpacked, Binary.quotient, none,
      Nat.mod_one] at fraction
  have near : Machine.Near (10 ^ (16 : Int)) 5000000000000000 1 := by
    have exact := Machine.Near.exact 5000000000000000 1
    norm_num at exact ⊢
    exact exact
  exact Machine.lt_of_near (Machine.canonical_of_unpack unpacked) canonical_tenQuadrillion
    (Binary.near_shortest pos) near (.inl (by omega))

theorem wholeNumber?_eq_some (unpacked : x.toModel.unpack = .finite .positive m e pos) {n : Int}
    (whole : wholeNumber? x = some n) : ∃ k : Nat, n = k ∧ (k : ℚ) = m * 2 ^ e := by
  have finite : x.isFinite = true := by
    change x.toModel.unpack.isFinite = true
    rw [unpacked]
    rfl
  simp only [wholeNumber?, finite, if_true, ofFloat_of_unpack unpacked,
    isNegative_of_unpack unpacked, Binary.quotient, Nat.pow_eq] at whole
  split at whole
  case isTrue none =>
    refine ⟨_, (Option.some.inj whole).symm, ?_⟩
    have dvd := Nat.dvd_of_mod_eq_zero none
    rw [Nat.cast_div dvd (by positivity), zpow_eq_div two_ne_zero]
    push_cast
    exact mul_div_assoc _ _ _
  case isFalse => cases whole

theorem not_isTiny_of_wholeNumber? (unpacked : x.toModel.unpack = .finite .positive m e pos)
    {n : Int} (whole : wholeNumber? x = some n) : ¬IsTiny x := by
  obtain ⟨k, -, value⟩ := wholeNumber?_eq_some unpacked whole
  intro tiny
  have less := Machine.lt_of_near (Machine.canonical_of_unpack unpacked)
    Machine.canonical_tenThousandth (.exact m e) Machine.near_tenThousandth
    ((isTiny_iff unpacked).mp tiny)
  have positive : 0 < (m : ℚ) * 2 ^ e := by positivity
  rw [← value] at less positive
  have some : 1 ≤ k := by exact_mod_cast positive
  have some : (1 : ℚ) ≤ k := by exact_mod_cast some
  norm_num at less
  linarith

theorem digits_shortest_ne_zero (unpacked : x.toModel.unpack = .finite .positive m e pos) :
    (Binary.shortest ⟨m, e, narrow m e⟩).digits ≠ 0 := by
  intro zero
  have positive := (Binary.near_shortest pos).pos (Machine.canonical_of_unpack unpacked)
  rw [Scaled.value, zero, Nat.cast_zero, zero_mul] at positive
  exact lt_irrefl _ positive

theorem toList_text (unpacked : x.toModel.unpack = .finite .positive m e pos)
    (finite : x.isFinite = true) :
    (text x).toList = plain.magnitude (Binary.shortest ⟨m, e, narrow m e⟩) := by
  obtain ⟨number, bounded⟩ := Machine.isFinite_iff.mp finite
  simp only [text, Style.text, number, bounded, Bool.false_eq_true, if_false,
    isNegative_of_unpack unpacked, ofFloat_of_unpack unpacked, String.toList_append,
    String.toList_ofList, String.toList_empty, List.nil_append]

end

end Reckon.Decimal

namespace Reckon.Formula

open Reckon.Decimal

section

variable {x : Float} {m : Nat} {e : Int} {pos : 0 < m}

theorem spellsFloat_of_wholeNumber? (unpacked : x.toModel.unpack = .finite .positive m e pos)
    (finite : x.isFinite = true) {n : Int} (whole : wholeNumber? x = some n) :
    SpellsFloat (toString n).toList x := by
  obtain ⟨k, rfl, value⟩ := wholeNumber?_eq_some unpacked whole
  have canonical := Machine.canonical_of_unpack unpacked
  have text : (toString (k : Int)).toList = Nat.toDigits 10 k := by
    change (Nat.repr k).toList = _
    exact Nat.toList_repr
  rw [text]
  refine spellsFloat_whole (digits_toDigits k) ?_ finite
  have near : Machine.Near (k * 10 ^ (0 : Int)) m e := by
    rw [zpow_zero, mul_one, value]
    exact .exact m e
  rw [digitsValue_toDigits, nearest_of_near canonical near, ← unpacked, Machine.ofUnpacked_unpack]

/-- The fewest digits of a float are read back as it, if they have no exponent. -/
theorem spellsFloat_text (unpacked : x.toModel.unpack = .finite .positive m e pos)
    (finite : x.isFinite = true) (fraction : wholeNumber? x = none) (large : ¬IsTiny x) :
    SpellsFloat (Decimal.text x).toList x := by
  have canonical := Machine.canonical_of_unpack unpacked
  have near := Binary.near_shortest (e := e) pos
  have filled := digits_shortest_ne_zero unpacked
  have low := not_lt.mp (mt (shortest_lt_iff unpacked).mp large)
  have high := shortest_lt unpacked finite fraction
  rw [toList_text unpacked finite]
  generalize Binary.shortest ⟨m, e, narrow m e⟩ = d at *
  obtain ⟨whole, decimals, same, wholes, digits, value⟩ :=
    positional_eq (digits_toDigits d.digits)
      (d.exponent + (Nat.toDigits 10 d.digits).length - 1 + 1)
  rw [magnitude_eq_positional filled low high, same]
  refine spellsFloat_point wholes digits ?_ finite
  have place : d.exponent + (Nat.toDigits 10 d.digits).length - 1 + 1 -
      (Nat.toDigits 10 d.digits).length = d.exponent := by omega
  rw [digitsValue_toDigits, place] at value
  rw [Scaled.value, ← value] at near
  rw [nearest_of_near canonical near, ← unpacked, Machine.ofUnpacked_unpack]

theorem runsOn_text (unpacked : x.toModel.unpack = .finite .positive m e pos)
    (finite : x.isFinite = true) (tiny : IsTiny x) : RunsOn (Decimal.text x).toList := by
  have below := (shortest_lt_iff unpacked).mpr tiny
  rw [toList_text unpacked finite,
    magnitude_eq_scientific (digits_shortest_ne_zero unpacked) below]
  exact runsOn_scientific (digits_toDigits _) _

end

theorem numberText_zero : numberText (Machine.ofUnpacked (.zero .positive)) = "0" := by
  decide +kernel

theorem spellsFloat_zero : SpellsFloat ['0'] (Machine.ofUnpacked (.zero .positive)) := by
  have zero : nearest (digitsValue ['0']) 0 = Machine.ofUnpacked (.zero .positive) := by
    decide +kernel
  exact spellsFloat_whole ⟨by simp, by simp⟩ zero rfl

/-- A number without a sign is read back from its text, unless it is tiny. -/
theorem spellsFloat_numberText {x : Float} (magnitude : Machine.IsMagnitude x)
    (finite : x.isFinite = true) (large : ¬IsTiny x) : SpellsFloat (numberText x).toList x := by
  rcases Machine.zero_or_finite_of_isMagnitude magnitude finite with rfl | ⟨m, e, pos, unpacked⟩
  · rw [numberText_zero]
    exact spellsFloat_zero
  · unfold numberText
    cases whole : wholeNumber? x with
    | some n => exact spellsFloat_of_wholeNumber? unpacked finite whole
    | none => exact spellsFloat_text unpacked finite whole large

/-- A tiny number is printed with an exponent. -/
theorem runsOn_numberText {x : Float} (magnitude : Machine.IsMagnitude x)
    (finite : x.isFinite = true) (tiny : IsTiny x) : RunsOn (numberText x).toList := by
  rcases Machine.zero_or_finite_of_isMagnitude magnitude finite with rfl | ⟨m, e, pos, unpacked⟩
  · exact absurd tiny (by decide +kernel)
  · unfold numberText
    cases whole : wholeNumber? x with
    | some n => exact absurd tiny (not_isTiny_of_wholeNumber? unpacked whole)
    | none => exact runsOn_text unpacked finite tiny

end Reckon.Formula
