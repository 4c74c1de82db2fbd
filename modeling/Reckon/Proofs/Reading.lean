import Reckon.Proofs.Nearest
import Reckon.Proofs.Nearness

/-!
A numeral is read as the float nearest to it. Whether the float is computed from its digits and
a power of ten that are exact, or from the quotient or product of large integers, it is rounded
once.
-/

namespace Reckon.Machine

open Float.Model
open Float.Model.UnpackedFloat (Accuracy ExtendedMantissa)

inductive Rounded (v : ℚ) : UnpackedFloat → Prop where
  | intro {M : Nat} {E : Int} {accuracy : Accuracy}
      (represents : Represents (ExtendedMantissa.ofMantissaAndAccuracy M accuracy) (v / 2 ^ E))
      (long : 2 ^ 52 ≤ M ∨ E ≤ -1074) :
      Rounded v (UnpackedFloat.roundWithAccuracy Format.binary64 .positive M E accuracy)

theorem Rounded.eq_of_near {v : ℚ} {u : UnpackedFloat} (rounded : Rounded v u) {m : Nat} {e : Int}
    (canonical : Canonical m e) (near : Near v m e) : u = .finite .positive m e canonical.pos := by
  cases rounded with
  | intro represents long => exact roundWithAccuracy_of_near represents long canonical near

/-- A product with enough digits is rounded once. -/
theorem rounded_mul {m₁ m₂ : Nat} {e₁ e₂ : Int} {pos₁ : 0 < m₁} {pos₂ : 0 < m₂}
    (long : 2 ^ 52 ≤ m₁ * m₂) :
    Rounded ((m₁ * 2 ^ e₁) * (m₂ * 2 ^ e₂))
      (UnpackedFloat.mul Format.binary64 (.finite .positive m₁ e₁ pos₁)
        (.finite .positive m₂ e₂ pos₂)) := by
  refine .intro ?_ (.inl long)
  have product : ((m₁ : ℚ) * 2 ^ e₁) * (m₂ * 2 ^ e₂) / 2 ^ (e₁ + e₂) = (m₁ * m₂ : Nat) := by
    have unit : (2 : ℚ) ^ e₁ * 2 ^ e₂ ≠ 0 := by positivity
    rw [zpow_add₀ two_ne_zero, div_eq_iff unit, Nat.cast_mul]
    ring
  rw [product]
  exact .exact _

/-- The quotient of naturals, and what its remainder tells. -/
theorem represents_quotient (n : Nat) {d : Nat} (pos : 0 < d) :
    Represents (ExtendedMantissa.ofMantissaAndAccuracy (n / d)
      (UnpackedFloat.accuracyOfFraction (n % d) d)) (n / d : ℚ) := by
  have unit : (0 : ℚ) < d := Nat.cast_pos.mpr pos
  have whole : (n : ℚ) / d = (n / d : Nat) + (n % d : Nat) / d := by
    rw [div_eq_iff unit.ne', add_mul, div_mul_cancel₀ _ unit.ne']
    exact_mod_cast (Nat.div_add_mod' n d).symm
  have less : (n % d : Nat) / (d : ℚ) < 1 := by
    rw [div_lt_one unit]
    exact_mod_cast Nat.mod_lt n pos
  rw [whole]
  unfold UnpackedFloat.accuracyOfFraction
  split
  case isTrue none =>
    rw [none, Nat.cast_zero, zero_div, add_zero]
    exact .exact _
  case isFalse some =>
    have more : 0 < (n % d : Nat) / (d : ℚ) :=
      div_pos (Nat.cast_pos.mpr (Nat.pos_of_ne_zero some)) unit
    cases half : compare (2 * (n % d)) d with
    | lt =>
      have order : 2 * ((n % d : Nat) : ℚ) < d := by exact_mod_cast compare_lt_iff_lt.mp half
      have bound : (n % d : Nat) / (d : ℚ) < 1 / 2 := by
        rw [div_lt_iff₀ unit]
        linarith
      exact ⟨lt_add_of_pos_right _ more, add_lt_add_right bound _⟩
    | eq =>
      have order : 2 * ((n % d : Nat) : ℚ) = d := by exact_mod_cast compare_eq_iff_eq.mp half
      have bound : (n % d : Nat) / (d : ℚ) = 1 / 2 := by
        rw [div_eq_iff unit.ne']
        linarith
      exact congrArg _ bound
    | gt =>
      have order : (d : ℚ) < 2 * ((n % d : Nat) : ℚ) := by exact_mod_cast compare_gt_iff_gt.mp half
      have bound : 1 / 2 < (n % d : Nat) / (d : ℚ) := by
        rw [lt_div_iff₀ unit]
        linarith
      exact ⟨add_lt_add_right bound _, add_lt_add_right less _⟩

/-- A quotient is computed to enough digits, and rounded once. -/
theorem rounded_div {m₁ m₂ : Nat} {e₁ e₂ : Int} {pos₁ : 0 < m₁} {pos₂ : 0 < m₂} :
    Rounded ((m₁ * 2 ^ e₁) / (m₂ * 2 ^ e₂))
      (UnpackedFloat.div Format.binary64 (.finite .positive m₁ e₁ pos₁)
        (.finite .positive m₂ e₂ pos₂)) := by
  have target : Format.binary64.targetExponent (totalExponent m₁ e₁ - totalExponent m₂ e₂) =
      max (m₁.log2 + e₁ - m₂.log2 - e₂ - 53) (-1074) := by
    simp only [Format.targetExponent, totalExponent, Format.mantissaBits, Format.minExponent]
    omega
  change Rounded _ (UnpackedFloat.roundWithAccuracy Format.binary64 .positive
    (m₁ <<< (e₁ - e₂ - min (e₁ - e₂) (Format.binary64.targetExponent _)).toNat / m₂)
    (min (e₁ - e₂) (Format.binary64.targetExponent _)) _)
  rw [target]
  generalize lowered : min (e₁ - e₂) (max (m₁.log2 + e₁ - m₂.log2 - e₂ - 53) (-1074)) = E
  obtain ⟨shift, below⟩ : ∃ shift : Nat, e₁ - e₂ = E + shift := ⟨(e₁ - e₂ - E).toNat, by omega⟩
  have count : (e₁ - e₂ - E).toNat = shift := by omega
  rw [count, Nat.shiftLeft_eq]
  refine .intro ?_ ?_
  · have quotient : (m₁ : ℚ) * 2 ^ e₁ / (m₂ * 2 ^ e₂) / 2 ^ E = (m₁ * 2 ^ shift : Nat) / m₂ := by
      have split : (2 : ℚ) ^ e₁ = 2 ^ e₂ * 2 ^ E * 2 ^ shift := by
        rw [← zpow_natCast, ← zpow_add₀ two_ne_zero, ← zpow_add₀ two_ne_zero]
        congr 1
        omega
      have filled : (m₂ : ℚ) ≠ 0 := by exact_mod_cast pos₂.ne'
      have unit : (2 : ℚ) ^ e₂ ≠ 0 := by positivity
      have unit' : (2 : ℚ) ^ E ≠ 0 := by positivity
      rw [split, Nat.cast_mul, Nat.cast_pow, Nat.cast_ofNat]
      field_simp
    rw [quotient]
    exact represents_quotient _ pos₂
  · by_cases short : E ≤ -1074
    · exact .inr short
    · -- the dividend has at least fifty-three bits more than the divisor
      have bits : m₂.log2 + 53 ≤ (m₁ * 2 ^ shift).log2 := by
        rw [log2_mul_two_pow pos₁]
        omega
      have filled : m₁ * 2 ^ shift ≠ 0 := (Nat.mul_pos pos₁ (Nat.two_pow_pos shift)).ne'
      refine .inl ((Nat.le_div_iff_mul_le pos₂).mpr ?_)
      calc
        2 ^ 52 * m₂ ≤ 2 ^ 52 * 2 ^ (m₂.log2 + 1) := Nat.mul_le_mul_left _ Nat.lt_log2_self.le
        _ = 2 ^ (m₂.log2 + 53) := by rw [← Nat.pow_add]; congr 1; omega
        _ ≤ m₁ * 2 ^ shift := (Nat.le_log2 filled).mp bits

/-! ### The numbers that floats stand for -/

section

variable {m : Nat} {e : Int}

theorem Near.lt {v : ℚ} (near : Near v m e) (canonical : Canonical m e) : v < 2 ^ (1024 : Int) := by
  have unit : (0 : ℚ) < 2 ^ e := by positivity
  have top : (m : ℚ) + 1 ≤ 2 ^ 53 := by exact_mod_cast canonical.lt
  have half := near.rounds.high
  calc
    v = v / 2 ^ e * 2 ^ e := (div_mul_cancel₀ v unit.ne').symm
    _ < 2 ^ 53 * 2 ^ e := mul_lt_mul_of_pos_right (by linarith) unit
    _ = 2 ^ (53 + e) := by rw [zpow_add₀ two_ne_zero]; rfl
    _ ≤ 2 ^ (1024 : Int) := zpow_le_zpow_right₀ one_le_two (by have := canonical.high; omega)

theorem Near.ge {v : ℚ} (near : Near v m e) (canonical : Canonical m e) :
    2 ^ (-1075 : Int) ≤ v := by
  have unit : (0 : ℚ) < 2 ^ e := by positivity
  have bottom : (1 : ℚ) ≤ m := by exact_mod_cast canonical.pos
  have half := near.rounds.low
  calc
    (2 : ℚ) ^ (-1075 : Int) ≤ 2 ^ (e - 1) :=
      zpow_le_zpow_right₀ one_le_two (by have := canonical.low; omega)
    _ = 1 / 2 * 2 ^ e := by rw [zpow_sub₀ two_ne_zero]; ring
    _ ≤ v / 2 ^ e * 2 ^ e := mul_le_mul_of_nonneg_right (by linarith) unit.le
    _ = v := div_mul_cancel₀ v unit.ne'

theorem Near.pos {v : ℚ} (near : Near v m e) (canonical : Canonical m e) : 0 < v :=
  lt_of_lt_of_le (by positivity) (near.ge canonical)

end

/-! ### Numerals -/

theorem unpack_toFloat {n : UInt64} (pos : 0 < n.toNat) (small : n.toNat < 2 ^ 53) :
    ∃ (m : Nat) (e : Int) (canonical : Canonical m e),
      n.toFloat.toModel.unpack = .finite .positive m e canonical.pos ∧
        (m : ℚ) * 2 ^ e = n.toNat ∧ 2 ^ 52 ≤ m := by
  have bits : n.toNat.log2 < 53 := (Nat.log2_lt pos.ne').mpr small
  have target : Format.binary64.targetExponent (totalExponent n.toNat 0) = n.toNat.log2 - 52 := by
    simp only [Format.targetExponent, totalExponent, Format.mantissaBits, Format.minExponent]
    omega
  obtain ⟨shift, room⟩ : ∃ shift, n.toNat.log2 + shift = 52 := ⟨52 - n.toNat.log2, by omega⟩
  have count : ((0 : Int) - (n.toNat.log2 - 52)).toNat = shift := by omega
  have thick : 2 ^ 52 ≤ n.toNat * 2 ^ shift := by
    rw [← room, Nat.pow_add]
    exact Nat.mul_le_mul_right _ (Nat.log2_self_le pos.ne')
  have canonical : Canonical (n.toNat * 2 ^ shift) (0 - shift) := by
    refine ⟨Nat.mul_pos pos (Nat.two_pow_pos shift), ?_, by omega, by omega, .inl thick⟩
    calc
      n.toNat * 2 ^ shift < 2 ^ (n.toNat.log2 + 1) * 2 ^ shift :=
        Nat.mul_lt_mul_of_pos_right Nat.lt_log2_self (Nat.two_pow_pos shift)
      _ = 2 ^ 53 := by rw [← Nat.pow_add]; congr 1; omega
  refine ⟨_, _, canonical, ?_, ?_, thick⟩
  · rw [← unpack_ofUnpacked .positive canonical]
    congr 2
    change ofUnpacked (UnpackedFloat.normalize Format.binary64 n.toNat 0 .positive) = _
    congr 1
    unfold UnpackedFloat.normalize
    rw [compare_gt_iff_gt.mpr (Int.natCast_pos.mpr pos), Int.toNat_natCast]
    change UnpackedFloat.roundWithAccuracy Format.binary64 .positive
      (n.toNat <<< (0 - Format.binary64.targetExponent (totalExponent n.toNat 0)).toNat)
      (0 - (0 - Format.binary64.targetExponent (totalExponent n.toNat 0)).toNat : Int) .exact = _
    rw [target, count, Nat.shiftLeft_eq]
    refine roundWithAccuracy_of_near ?_ (.inl thick) canonical (.exact _ _)
    rw [mul_div_cancel_right₀ _ (by positivity)]
    exact .exact _
  · rw [zero_sub, zpow_neg, zpow_natCast, Nat.cast_mul, Nat.cast_pow, Nat.cast_ofNat]
    exact mul_inv_cancel_right₀ (by positivity) _

theorem value_of_isNatural {u : UnpackedFloat} {n : Nat} (natural : isNatural u n = true) :
    ∃ (m : Nat) (e : Int) (pos : 0 < m), u = .finite .positive m e pos ∧ (m : ℚ) * 2 ^ e = n := by
  obtain ⟨m, e, pos, same, value⟩ := exists_of_isNatural natural
  refine ⟨m, e, pos, same, ?_⟩
  have value : (m : ℚ) * 2 ^ e.toNat = n * 2 ^ (-e).toNat := by exact_mod_cast value
  rcases Int.le_total 0 e with up | down
  · have none : (-e).toNat = 0 := by omega
    have some : ((e.toNat : Nat) : Int) = e := Int.toNat_of_nonneg up
    rw [none, pow_zero, mul_one, ← zpow_natCast, some] at value
    exact value
  · have none : e.toNat = 0 := by omega
    have some : ((-e).toNat : Int) = -e := Int.toNat_of_nonneg (by omega)
    rw [none, pow_zero, mul_one, ← zpow_natCast, some] at value
    rw [value, mul_assoc, ← zpow_add₀ two_ne_zero, neg_add_cancel, zpow_zero, mul_one]

section

variable {m digits : Nat} {e exponent : Int}

theorem exists_rounded_of_small (positive : 0 < digits) (small : digits < 2 ^ 53)
    (short : exponent.natAbs ≤ 22) :
    ∃ u, Rounded (digits * 10 ^ exponent) u ∧
      Float.ofScientific digits (exponent < 0) exponent.natAbs = ofUnpacked u := by
  have kept : digits.toUInt64.toNat = digits := Nat.mod_eq_of_lt (by omega)
  obtain ⟨m₁, e₁, canonical₁, first, value₁, thick⟩ :=
    unpack_toFloat (n := digits.toUInt64) (by omega) (by omega)
  rw [kept] at value₁
  have index : exponent.natAbs < Float.exactlyRepresentablePowersOfTen.size :=
    Nat.lt_succ_of_le short
  obtain ⟨m₂, e₂, pos₂, second, value₂⟩ := value_of_isNatural (isNatural_powersOfTen index)
  rw [Nat.cast_pow, Nat.cast_ofNat] at value₂
  rw [Float.ofScientific, dif_pos ⟨small, short⟩]
  by_cases sign : exponent < 0
  · rw [decide_eq_true sign, if_pos rfl]
    have power : (exponent.natAbs : Int) = -exponent := by omega
    have quotient : (m₁ * 2 ^ e₁ : ℚ) / (m₂ * 2 ^ e₂) = digits * 10 ^ exponent := by
      rw [value₁, value₂, ← zpow_natCast, power, zpow_neg, div_inv_eq_mul]
    refine ⟨UnpackedFloat.div Format.binary64 digits.toUInt64.toFloat.toModel.unpack
      Float.exactlyRepresentablePowersOfTen[exponent.natAbs].toModel.unpack, ?_, rfl⟩
    rw [first, second, ← quotient]
    exact rounded_div
  · rw [decide_eq_false sign, if_neg Bool.false_ne_true]
    have power : (exponent.natAbs : Int) = exponent := by omega
    have product : (m₁ * 2 ^ e₁ : ℚ) * (m₂ * 2 ^ e₂) = digits * 10 ^ exponent := by
      rw [value₁, value₂, ← zpow_natCast, power]
    refine ⟨UnpackedFloat.mul Format.binary64 digits.toUInt64.toFloat.toModel.unpack
      Float.exactlyRepresentablePowersOfTen[exponent.natAbs].toModel.unpack, ?_, rfl⟩
    rw [first, second, ← product]
    exact rounded_mul (thick.trans (Nat.le_mul_of_pos_right m₁ pos₂))

/-- A power of ten beyond this gives no float. -/
theorem exponent_le (positive : 0 < digits)
    (bound : (digits * 10 ^ exponent : ℚ) < 2 ^ (1024 : Int)) :
    exponent ≤ 1024 := by
  by_contra far
  have power : (2 : ℚ) ^ (1024 : Int) ≤ 10 ^ exponent := by
    calc
      (2 : ℚ) ^ (1024 : Int) ≤ 2 ^ exponent := zpow_le_zpow_right₀ one_le_two (by omega)
      _ ≤ 10 ^ exponent := zpow_le_zpow_left₀ (by omega) (by norm_num) (by norm_num)
  have whole : (1 : ℚ) ≤ digits := by exact_mod_cast positive
  have least : (10 : ℚ) ^ exponent ≤ digits * 10 ^ exponent :=
    le_mul_of_one_le_left (by positivity) whole
  linarith

theorem le_exponent (negative : exponent < 0)
    (bound : (2 : ℚ) ^ (-1075 : Int) ≤ digits * 10 ^ exponent) :
    -1076 < (digits.log2 : Int) + exponent := by
  have power : (10 : ℚ) ^ exponent ≤ 2 ^ exponent := by
    have inverse : (2 : ℚ) ^ (-exponent) ≤ 10 ^ (-exponent) :=
      zpow_le_zpow_left₀ (by omega) (by norm_num) (by norm_num)
    rw [zpow_neg, zpow_neg] at inverse
    exact (inv_le_inv₀ (by positivity) (by positivity)).mp inverse
  have bits : (2 : ℚ) ^ (-1075 : Int) < 2 ^ ((digits.log2 : Int) + 1 + exponent) := by
    calc
      (2 : ℚ) ^ (-1075 : Int) ≤ digits * 10 ^ exponent := bound
      _ ≤ digits * 2 ^ exponent := by gcongr
      _ < (2 ^ (digits.log2 + 1) : Nat) * 2 ^ exponent := by
        have self : digits < 2 ^ (digits.log2 + 1) := Nat.lt_log2_self
        gcongr
      _ = 2 ^ ((digits.log2 : Int) + 1 + exponent) := by
        rw [zpow_add₀ two_ne_zero, Nat.cast_pow, Nat.cast_ofNat, ← zpow_natCast]
        rfl
  have order := (zpow_lt_zpow_iff_right₀ one_lt_two).mp bits
  omega

/-- Any digits and power of ten within the range of exponents. -/
theorem rounded_ofScientific (positive : 0 < digits) (high : exponent ≤ 2048)
    (low : -(2048 + digits.log2 : Int) ≤ exponent) :
    Rounded (digits * 10 ^ exponent)
      (UnpackedFloat.ofScientific Format.binary64 digits exponent) := by
  rw [UnpackedFloat.ofScientific, dif_neg positive.ne', if_neg (by norm_num; omega),
    if_neg (by norm_num; omega)]
  by_cases negative : exponent < 0
  · rw [if_neg (by omega)]
    have power : ((10 ^ (-exponent).toNat : Nat) : ℚ) = 10 ^ (-exponent) := by
      rw [Nat.cast_pow, Nat.cast_ofNat, ← zpow_natCast, Int.toNat_of_nonneg (by omega)]
    have quotient : (digits * 2 ^ (0 : Int) : ℚ) / ((10 ^ (-exponent).toNat : Nat) * 2 ^ (0 : Int)) =
        digits * 10 ^ exponent := by
      rw [power, zpow_zero, mul_one, mul_one, zpow_neg, div_inv_eq_mul]
    rw [← quotient]
    exact rounded_div
  · rw [if_pos (by omega)]
    have shifted : ((digits <<< Format.binary64.mantissaBits : Nat) : ℚ) *
        2 ^ (-(Format.binary64.mantissaBits : Int)) = digits := by
      rw [Nat.shiftLeft_eq, Nat.cast_mul, Nat.cast_pow, Nat.cast_ofNat, zpow_neg, zpow_natCast]
      exact mul_inv_cancel_right₀ (by positivity) _
    have power : ((10 ^ exponent.toNat : Nat) : ℚ) * 2 ^ (0 : Int) = 10 ^ exponent := by
      rw [zpow_zero, mul_one, Nat.cast_pow, Nat.cast_ofNat, ← zpow_natCast,
        Int.toNat_of_nonneg (by omega)]
    rw [← shifted, ← power]
    refine rounded_mul ?_
    rw [Nat.shiftLeft_eq]
    calc
      2 ^ 52 ≤ 1 * 2 ^ 53 * 1 := by norm_num
      _ ≤ digits * 2 ^ 53 * 10 ^ exponent.toNat :=
        Nat.mul_le_mul (Nat.mul_le_mul_right _ positive) (Nat.pow_pos (by decide))

/-- Digits and a power of ten are read by rounding their product. -/
theorem exists_rounded (positive : 0 < digits) (high : exponent ≤ 2048)
    (low : -(2048 + digits.log2 : Int) ≤ exponent) :
    ∃ u, Rounded (digits * 10 ^ exponent) u ∧
      Float.ofScientific digits (exponent < 0) exponent.natAbs = ofUnpacked u := by
  by_cases small : digits < 2 ^ 53 ∧ exponent.natAbs ≤ 22
  · exact exists_rounded_of_small positive small.1 small.2
  · have signed : (if decide (exponent < 0) = true then Int.negOfNat exponent.natAbs
        else Int.ofNat exponent.natAbs) = exponent := by
      cases exponent with
      | ofNat n => rfl
      | negSucc n => exact if_pos (decide_eq_true (Int.negSucc_lt_zero n))
    refine ⟨_, rounded_ofScientific positive high low, ?_⟩
    rw [Float.ofScientific, dif_neg small, signed]
    rfl

/-- They are read as the float near which their product lies. -/
theorem ofScientific_of_near (canonical : Canonical m e)
    (near : Near (digits * 10 ^ exponent) m e) :
    Float.ofScientific digits (exponent < 0) exponent.natAbs =
      ofUnpacked (.finite .positive m e canonical.pos) := by
  have positive : 0 < digits := by
    have pos := near.pos canonical
    rw [mul_pos_iff_of_pos_right (by positivity)] at pos
    exact_mod_cast pos
  have high := exponent_le positive (near.lt canonical)
  have low : -(2048 + digits.log2 : Int) ≤ exponent := by
    by_cases negative : exponent < 0
    · have bound := le_exponent negative (near.ge canonical)
      omega
    · omega
  obtain ⟨u, rounded, read⟩ := exists_rounded positive (by omega) low
  rw [read, rounded.eq_of_near canonical near]

end

end Reckon.Machine

namespace Reckon.Decimal

theorem lt_pow_length (n : Nat) : n < 10 ^ (Nat.toDigits 10 n).length :=
  (Nat.length_toDigits_le_iff (by decide) Nat.length_toDigits_pos).mp (Nat.le_refl _)

theorem pow_length_le {n : Nat} (pos : 0 < n) : 10 ^ ((Nat.toDigits 10 n).length - 1) ≤ n := by
  by_cases single : (Nat.toDigits 10 n).length = 1
  · rw [single]
    exact pos
  · have some := Nat.length_toDigits_pos (b := 10) (n := n)
    by_contra less
    have shorter := (Nat.length_toDigits_le_iff (by decide) (by omega)).mpr (Nat.not_le.mp less)
    omega

theorem two_pow_le_ten_pow {n : Int} (nonnegative : 0 ≤ n) : (2 : ℚ) ^ (3 * n) ≤ 10 ^ n := by
  rw [zpow_mul]
  exact zpow_le_zpow_left₀ nonnegative (by norm_num) (by norm_num)

theorem ten_pow_le {digits : Nat} (pos : 0 < digits) (exponent : Int) :
    (10 : ℚ) ^ (exponent + (Nat.toDigits 10 digits).length - 1) ≤ digits * 10 ^ exponent := by
  have some := Nat.length_toDigits_pos (b := 10) (n := digits)
  have bound := pow_length_le pos
  calc
    (10 : ℚ) ^ (exponent + (Nat.toDigits 10 digits).length - 1) =
        (10 ^ ((Nat.toDigits 10 digits).length - 1) : Nat) * 10 ^ exponent := by
      rw [Nat.cast_pow, Nat.cast_ofNat, ← zpow_natCast, ← zpow_add₀ (by norm_num)]
      congr 1
      omega
    _ ≤ digits * 10 ^ exponent := by gcongr

theorem lt_ten_pow (digits : Nat) (exponent : Int) :
    digits * 10 ^ exponent < (10 : ℚ) ^ (exponent + (Nat.toDigits 10 digits).length) := by
  have bound := lt_pow_length digits
  calc
    digits * (10 : ℚ) ^ exponent <
        (10 ^ (Nat.toDigits 10 digits).length : Nat) * 10 ^ exponent := by
      gcongr
    _ = 10 ^ (exponent + (Nat.toDigits 10 digits).length) := by
      rw [Nat.cast_pow, Nat.cast_ofNat, ← zpow_natCast, ← zpow_add₀ (by norm_num), add_comm]

variable {m digits : Nat} {e exponent : Int}

/-- A numeral near a float is neither too large nor too small to be read. -/
theorem nearest_of_near (canonical : Machine.Canonical m e)
    (near : Machine.Near (digits * 10 ^ exponent) m e) :
    nearest digits exponent = Machine.ofUnpacked (.finite .positive m e canonical.pos) := by
  have unit : (0 : ℚ) < 10 ^ exponent := by positivity
  have positive : 0 < digits := by
    have pos := near.pos canonical
    rw [mul_pos_iff_of_pos_right unit] at pos
    exact_mod_cast pos
  have high : (10 : ℚ) ^ (exponent + (Nat.toDigits 10 digits).length - 1) < 10 ^ (342 : Int) := by
    calc
      (10 : ℚ) ^ (exponent + (Nat.toDigits 10 digits).length - 1) ≤ digits * 10 ^ exponent :=
        ten_pow_le positive exponent
      _ < 2 ^ (1024 : Int) := near.lt canonical
      _ ≤ 2 ^ (3 * 342 : Int) := zpow_le_zpow_right₀ one_le_two (by decide)
      _ ≤ 10 ^ (342 : Int) := two_pow_le_ten_pow (by decide)
  have low : (10 : ℚ) ^ (-359 : Int) < 10 ^ (exponent + (Nat.toDigits 10 digits).length) := by
    calc
      (10 : ℚ) ^ (-359 : Int) ≤ 2 ^ (-(3 * 359) : Int) := by
        rw [zpow_neg, zpow_neg]
        exact (inv_le_inv₀ (by positivity) (by positivity)).mpr (two_pow_le_ten_pow (by decide))
      _ ≤ 2 ^ (-1075 : Int) := zpow_le_zpow_right₀ one_le_two (by decide)
      _ ≤ digits * 10 ^ exponent := near.ge canonical
      _ < 10 ^ (exponent + (Nat.toDigits 10 digits).length) := lt_ten_pow digits exponent
  have high := (zpow_lt_zpow_iff_right₀ (by norm_num)).mp high
  have low := (zpow_lt_zpow_iff_right₀ (by norm_num)).mp low
  simp only [nearest]
  rw [if_neg (by omega), if_neg (by omega)]
  exact Machine.ofScientific_of_near canonical near

end Reckon.Decimal
