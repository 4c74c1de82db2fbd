import Reckon.Proofs.Layout

/-!
Numerals that are too large. A numeral is read as a finite float exactly if it stands for less than
`tooLarge`, which lies half a unit above the largest float. Digits and a point that are put behind
a numeral do not make it less, so that a numeral which is too large stays so however it goes on.
-/

namespace Reckon.Machine

open Float.Model
open Float.Model.UnpackedFloat (Sign Accuracy ExtendedMantissa)

theorem tooLarge_eq : (Decimal.tooLarge : ℚ) = (2 ^ 53 - 1 / 2) * 2 ^ (971 : Int) := by
  have general (k : Nat) : ((Nat.pow 2 (k + 54) - Nat.pow 2 k : Nat) : ℚ) =
      (2 ^ 53 - 1 / 2) * 2 ^ ((k + 1 : Nat) : Int) := by
    have order : Nat.pow 2 k ≤ Nat.pow 2 (k + 54) :=
      Nat.pow_le_pow_right (by decide) (Nat.le_add_right k 54)
    rw [Nat.cast_sub order, Nat.pow_eq, Nat.pow_eq, zpow_natCast, Nat.cast_pow, Nat.cast_pow,
      Nat.cast_ofNat, pow_add, pow_succ]
    ring
  obtain ⟨k, place, same⟩ :
      ∃ k : Nat, k = 970 ∧ Decimal.tooLarge = Nat.pow 2 (k + 54) - Nat.pow 2 k :=
    ⟨970, rfl, by decide +kernel⟩
  have last : (971 : Int) = (k + 1 : Nat) := by omega
  rw [same, last]
  exact general k

theorem two_pow_le_tooLarge : (2 : ℚ) ^ (1023 : Int) ≤ Decimal.tooLarge := by
  rw [tooLarge_eq, show (1023 : Int) = 52 + 971 from rfl, zpow_add₀ two_ne_zero]
  gcongr
  norm_num

theorem tooLarge_le_two_pow : (Decimal.tooLarge : ℚ) ≤ 2 ^ (1024 : Int) := by
  rw [tooLarge_eq, show (1024 : Int) = 53 + 971 from rfl, zpow_add₀ two_ne_zero]
  gcongr
  norm_num

/-- The nearest natural number is less than an even one exactly below the half before it. -/
theorem Rounds.lt_iff {u : ℚ} {r bound : Nat} (rounds : Rounds u r) (even : bound % 2 = 0) :
    r < bound ↔ u < bound - 1 / 2 := by
  obtain ⟨low, high, tie⟩ := rounds
  constructor
  · intro less
    have step : (r : ℚ) + 1 ≤ bound := by exact_mod_cast less
    refine lt_of_le_of_ne (by linarith) fun same => ?_
    have last : (r : ℚ) + 1 = bound := by linarith
    have last : r + 1 = bound := by exact_mod_cast last
    have paired := tie (.inr (by linarith))
    omega
  · intro less
    have order : (r : ℚ) < bound := by linarith
    exact_mod_cast order

theorem isFinite_datum_iff {s : Sign} {m : Nat} {e : Int} (pos : 0 < m) :
    (ofUnpacked (datum s m e)).isFinite = true ↔ e ≤ 971 := by
  rw [datum_of_pos pos]
  exact isFinite_ofUnpacked_iff pos

section

variable {v : ℚ} {M : Nat} {E : Int} {accuracy : Accuracy}

/-- At its place a number has at most fifty-three bits before the point. -/
theorem lt_two_pow_place
    (represents : Represents (ExtendedMantissa.ofMantissaAndAccuracy M accuracy) (v / 2 ^ E)) :
    v < 2 ^ (53 + place M E) := by
  have under := (represents_shifted represents).lt
  rw [shifted, mantissa_shiftRight, mantissa_ofMantissaAndAccuracy] at under
  have fits : ((M / 2 ^ excess M E : Nat) : ℚ) + 1 ≤ 2 ^ 53 := by exact_mod_cast shifted_lt M E
  rw [zpow_add₀ two_ne_zero, ← div_lt_iff₀ (by positivity)]
  exact lt_of_lt_of_le under fits

theorem two_pow_place_le
    (represents : Represents (ExtendedMantissa.ofMantissaAndAccuracy M accuracy) (v / 2 ^ E))
    (long : 2 ^ 52 ≤ M ∨ E ≤ -1074) (high : -1074 < place M E) : 2 ^ (52 + place M E) ≤ v := by
  by_contra less
  have room : 53 + (place M E - 1) = 52 + place M E := by omega
  have lower := place_le represents long (Int.le_sub_one_of_lt high) (room ▸ not_le.mp less)
  omega

end

/-- What is rounded is finite exactly below the half above the largest float. -/
theorem Rounded.isFinite_iff {v : ℚ} {u : UnpackedFloat} (rounded : Rounded v u) :
    (ofUnpacked u).isFinite = true ↔ v < Decimal.tooLarge := by
  cases rounded with
  | @intro M E accuracy represents long =>
    have rounds := (represents_shifted represents).rounds
    have below := lt_two_pow_place represents
    have above := two_pow_place_le represents long
    have placed : E + excess M E = place M E := rfl
    rw [roundWithAccuracy_eq, placed]
    generalize place M E = e at *
    generalize (shifted M E accuracy).roundedMantissa = r at *
    have unit : (0 : ℚ) < 2 ^ e := by positivity
    rcases Int.lt_trichotomy e 971 with low | rfl | high
    · -- not even the carry makes the exponent too large
      refine iff_of_true (by split <;> exact isFinite_datum (by omega)) ?_
      calc
        v < 2 ^ (53 + e) := below
        _ ≤ 2 ^ (1023 : Int) := zpow_le_zpow_right₀ one_le_two (by omega)
        _ ≤ Decimal.tooLarge := two_pow_le_tooLarge
    · -- only the carry makes the exponent too large
      have carried : r < 2 ^ 53 ↔ v / 2 ^ (971 : Int) < 2 ^ 53 - 1 / 2 := by
        have bound : r < 2 ^ 53 ↔ _ := rounds.lt_iff (by norm_num)
        exact_mod_cast bound
      rw [tooLarge_eq, ← div_lt_iff₀ unit, ← carried]
      split
      case isTrue fits => exact iff_of_true (isFinite_datum (Int.le_refl 971)) fits
      case isFalse full =>
        refine iff_of_false ?_ full
        rw [isFinite_datum_iff (by norm_num)]
        decide
    · have full := above (by omega)
      refine iff_of_false ?_ (not_lt.mpr ?_)
      · have filled : (2 : ℚ) ^ 52 ≤ v / 2 ^ e := by
          rw [zpow_add₀ two_ne_zero] at full
          exact (le_div_iff₀ unit).mpr full
        have pos : 0 < r := by
          have half := rounds.high
          have some : (0 : ℚ) < r := by linarith
          exact_mod_cast some
        split
        case isTrue => rw [isFinite_datum_iff pos]; omega
        case isFalse => rw [isFinite_datum_iff (by norm_num)]; omega
      · calc
          (Decimal.tooLarge : ℚ) ≤ 2 ^ (1024 : Int) := tooLarge_le_two_pow
          _ ≤ 2 ^ (52 + e) := zpow_le_zpow_right₀ one_le_two (by omega)
          _ ≤ v := full

end Reckon.Machine

namespace Reckon.Decimal

theorem length_toDigits_le_log2 {n : Nat} : (Nat.toDigits 10 n).length ≤ n.log2 + 1 := by
  rw [Nat.length_toDigits_le_iff (by decide) (Nat.succ_pos _)]
  exact Nat.lt_of_lt_of_le Nat.lt_log2_self (Nat.pow_le_pow_left (by decide) _)

/-- Digits and a power of ten are read as a finite float exactly if their product is not too
large. -/
theorem isFinite_nearest_iff (digits : Nat) (exponent : Int) :
    (nearest digits exponent).isFinite = true ↔ (digits * 10 ^ exponent : ℚ) < tooLarge := by
  have positive : (0 : ℚ) < tooLarge := lt_of_lt_of_le (by positivity) Machine.two_pow_le_tooLarge
  simp only [nearest]
  split
  case isTrue small =>
    refine iff_of_true (by decide +kernel) ?_
    rcases small with rfl | low
    · rw [Nat.cast_zero, zero_mul]
      exact positive
    · calc
        (digits * 10 ^ exponent : ℚ) < 10 ^ (exponent + (Nat.toDigits 10 digits).length) :=
          lt_ten_pow digits exponent
        _ ≤ 10 ^ (0 : Int) := zpow_le_zpow_right₀ (by norm_num) (by omega)
        _ ≤ 2 ^ (1023 : Int) := by
          rw [zpow_zero]
          exact one_le_zpow₀ one_le_two (by decide)
        _ ≤ tooLarge := Machine.two_pow_le_tooLarge
  case isFalse some =>
    obtain ⟨filled, low⟩ := not_or.mp some
    have pos := Nat.pos_of_ne_zero filled
    split
    case isTrue high =>
      refine iff_of_false (by decide +kernel) (not_lt.mpr ?_)
      calc
        (tooLarge : ℚ) ≤ 2 ^ (1024 : Int) := Machine.tooLarge_le_two_pow
        _ ≤ 2 ^ (3 * 342 : Int) := zpow_le_zpow_right₀ one_le_two (by decide)
        _ ≤ 10 ^ (342 : Int) := two_pow_le_ten_pow (by decide)
        _ ≤ 10 ^ (exponent + (Nat.toDigits 10 digits).length - 1) :=
          zpow_le_zpow_right₀ (by norm_num) (by omega)
        _ ≤ digits * 10 ^ exponent := ten_pow_le pos exponent
    case isFalse high =>
      have long := Nat.length_toDigits_pos (b := 10) (n := digits)
      have bits := @length_toDigits_le_log2 digits
      obtain ⟨u, rounded, read⟩ : ∃ u, Machine.Rounded (digits * 10 ^ exponent) u ∧ _ :=
        Machine.exists_rounded pos (by omega) (by omega)
      rw [read]
      exact rounded.isFinite_iff

/-! ### Numerals that go on -/

/-- What a numeral without an exponent stands for. -/
inductive StandsFor : List Char → ℚ → Prop where
  | whole {run : List Char} (digits : Digits run) : StandsFor run (digitsValue run)
  | point {whole fraction : List Char} (digits : Digits whole)
      (decimals : ∀ c ∈ fraction, c.isDigit = true) :
      StandsFor (whole ++ '.' :: fraction)
        (digitsValue (whole ++ fraction) * 10 ^ (-fraction.length : Int))

theorem isDigit_of_no_point {run : List Char} (numbers : ∀ c ∈ run, Formula.isNumberChar c = true)
    (none : run.count '.' = 0) : ∀ c ∈ run, c.isDigit = true := by
  intro c member
  have other : c ≠ '.' := fun same => List.count_eq_zero.mp none (same ▸ member)
  simpa [Formula.isNumberChar, other] using numbers c member

theorem exists_parts {run : List Char} (numbers : ∀ c ∈ run, Formula.isNumberChar c = true)
    (points : run.count '.' ≤ 1) :
    (∀ c ∈ run, c.isDigit = true) ∨ ∃ whole fraction, run = whole ++ '.' :: fraction ∧
      (∀ c ∈ whole, c.isDigit = true) ∧ ∀ c ∈ fraction, c.isDigit = true := by
  have split := List.takeWhile_append_dropWhile (p := Char.isDigit) (l := run)
  cases behind : run.dropWhile Char.isDigit with
  | nil => exact .inl (List.dropWhile_eq_nil_iff.mp behind)
  | cons point after =>
    obtain ⟨rfl, decimals⟩ := digits_behind_point numbers points behind
    rw [behind] at split
    exact .inr ⟨_, after, split.symm, List.all_eq_true.mp List.all_takeWhile, decimals⟩

theorem exists_standsFor {c : Char} {run : List Char} (digit : c.isDigit = true)
    (numbers : ∀ x ∈ run, Formula.isNumberChar x = true) (points : (c :: run).count '.' ≤ 1) :
    ∃ v, StandsFor (c :: run) v := by
  have all : ∀ x ∈ c :: run, Formula.isNumberChar x = true :=
    List.forall_mem_cons.mpr ⟨isNumberChar_of_isDigit digit, numbers⟩
  rcases exists_parts all points with digits | ⟨whole, fraction, same, digits, decimals⟩
  · exact ⟨_, .whole ⟨List.cons_ne_nil c run, digits⟩⟩
  · have filled : whole ≠ [] := by
      rintro rfl
      rw [(List.cons.inj same).1] at digit
      exact absurd digit (by decide)
    rw [same]
    exact ⟨_, .point ⟨filled, digits⟩ decimals⟩

/-- A numeral is read as infinity exactly if it stands for too much. -/
theorem StandsFor.exists_magnitude {chars : List Char} {v : ℚ} (stands : StandsFor chars v) :
    ∃ x, magnitude? chars = some x ∧ (x.isInf = true ↔ tooLarge ≤ v) := by
  have infinite (digits : Nat) (exponent : Int) :
      (nearest digits exponent).isInf = true ↔ (tooLarge : ℚ) ≤ digits * 10 ^ exponent := by
    have finite := isFinite_nearest_iff digits exponent
    have number := Machine.isNaN_of_isNonnegative (isMagnitude_nearest digits exponent)
    change Float.isNaN _ = false at number
    rw [Machine.isFinite_iff, number, eq_self, true_and, ← not_le] at finite
    rw [← Bool.not_eq_false, finite, not_not]
  cases stands with
  | whole digits =>
    have large := infinite (digitsValue chars) 0
    rw [zpow_zero, mul_one] at large
    exact ⟨_, magnitude?_whole digits, large⟩
  | point digits decimals =>
    exact ⟨_, magnitude?_point digits decimals, infinite _ _⟩

/-- More decimals make no number less. -/
theorem digitsValue_le_append (front back : List Char) (exponent : Int) :
    (digitsValue front * 10 ^ exponent : ℚ) ≤
      digitsValue (front ++ back) * 10 ^ (exponent - back.length) := by
  have shifted : (10 : ℚ) ^ exponent = 10 ^ back.length * 10 ^ (exponent - back.length) := by
    rw [← zpow_natCast, ← zpow_add₀ (by norm_num)]
    congr 1
    omega
  rw [shifted, ← mul_assoc, digitsValue_append]
  have more : (digitsValue front * 10 ^ back.length : ℚ) ≤
      (digitsValue front * 10 ^ back.length + digitsValue back : Nat) := by
    exact_mod_cast Nat.le_add_right _ _
  gcongr

/-- A numeral that goes on does not stand for less. -/
theorem StandsFor.exists_append {chars : List Char} {v : ℚ} (stands : StandsFor chars v)
    {more : List Char} (numbers : ∀ c ∈ more, Formula.isNumberChar c = true)
    (points : (chars ++ more).count '.' ≤ 1) : ∃ w, StandsFor (chars ++ more) w ∧ v ≤ w := by
  rw [List.count_append] at points
  cases stands with
  | @point whole fraction digits decimals =>
    have none : more.count '.' = 0 := by
      rw [List.count_append, List.count_cons_self] at points
      omega
    have behind := isDigit_of_no_point numbers none
    rw [List.append_assoc, List.cons_append]
    refine ⟨_, .point digits (List.forall_mem_append.mpr ⟨decimals, behind⟩), ?_⟩
    have bound := digitsValue_le_append (whole ++ fraction) more (-fraction.length)
    rw [List.length_append, Nat.cast_add, neg_add, ← List.append_assoc]
    exact bound
  | whole digits =>
    have bound (back : List Char) (decimals : Nat) (fits : decimals ≤ back.length) :
        (digitsValue chars : ℚ) ≤ digitsValue (chars ++ back) * 10 ^ (-decimals : Int) := by
      have least := digitsValue_le_append chars back 0
      rw [zpow_zero, mul_one] at least
      refine least.trans ?_
      have power : (10 : ℚ) ^ (0 - back.length : Int) ≤ 10 ^ (-decimals : Int) :=
        zpow_le_zpow_right₀ (by norm_num) (by omega)
      gcongr
    rcases exists_parts numbers (by omega) with all | ⟨whole, fraction, rfl, all, decimals⟩
    · refine ⟨_, .whole ⟨by simp [digits.filled], List.forall_mem_append.mpr ⟨digits.all, all⟩⟩, ?_⟩
      have least := bound more 0 (Nat.zero_le _)
      rwa [Nat.cast_zero, neg_zero, zpow_zero, mul_one] at least
    · rw [← List.append_assoc]
      refine ⟨_, .point ⟨by simp [digits.filled], List.forall_mem_append.mpr ⟨digits.all, all⟩⟩
        decimals, ?_⟩
      rw [List.append_assoc]
      exact bound (whole ++ fraction) fraction.length (by simp)

theorem isInf_append {c : Char} {run more : List Char} (digit : c.isDigit = true)
    (numbers : ∀ x ∈ run ++ more, Formula.isNumberChar x = true)
    (points : (c :: (run ++ more)).count '.' ≤ 1)
    (large : (float? (String.ofList (c :: run))).any Float.isInf = true) :
    (float? (String.ofList (c :: (run ++ more)))).any Float.isInf = true := by
  obtain ⟨inside, behind⟩ := List.forall_mem_append.mp numbers
  rw [← List.cons_append] at points
  have fewer : (c :: run).count '.' ≤ 1 := by
    rw [List.count_append] at points
    omega
  obtain ⟨v, stands⟩ := exists_standsFor digit inside fewer
  obtain ⟨w, stands', order⟩ := stands.exists_append behind points
  obtain ⟨x, value, infinite⟩ := stands.exists_magnitude
  obtain ⟨y, value', infinite'⟩ := stands'.exists_magnitude
  rw [float?_eq_magnitude? digit inside, value, Option.any_some] at large
  rw [float?_eq_magnitude? digit numbers, ← List.cons_append, value', Option.any_some]
  exact infinite'.mpr ((infinite.mp large).trans order)

end Reckon.Decimal
