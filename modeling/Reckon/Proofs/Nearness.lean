import Reckon.Proofs.Rounding

/-!
Rounding as seen from the rational numbers. The two extra bits of a shifted mantissa tell on which
side of the half the exact number lies, so that the rounded mantissa is the nearest one, and the
even one of two. A number between the halves below and above a float, measured in units of its
last place, is therefore rounded to this float.
-/

namespace Reckon.Machine

open Float.Model
open Float.Model.UnpackedFloat (Sign Accuracy ExtendedMantissa)

def Represents (em : ExtendedMantissa) (u : ℚ) : Prop :=
  match em.roundBit, em.stickyBit with
  | false, false => u = em.mantissa
  | false, true => em.mantissa < u ∧ u < em.mantissa + 1 / 2
  | true, false => u = em.mantissa + 1 / 2
  | true, true => em.mantissa + 1 / 2 < u ∧ u < em.mantissa + 1

namespace Represents

variable {em : ExtendedMantissa} {u : ℚ}

theorem exact (m : Nat) : Represents (ExtendedMantissa.ofMantissaAndAccuracy m .exact) m :=
  rfl

theorem le (represents : Represents em u) : em.mantissa ≤ u := by
  obtain ⟨m, round, sticky⟩ := em
  cases round <;> cases sticky <;> simp only [Represents] at represents ⊢ <;> linarith

theorem lt (represents : Represents em u) : u < em.mantissa + 1 := by
  obtain ⟨m, round, sticky⟩ := em
  cases round <;> cases sticky <;> simp only [Represents] at represents ⊢ <;> linarith

theorem shiftRightOne (represents : Represents em u) : Represents em.shiftRightOne (u / 2) := by
  obtain ⟨m, round, sticky⟩ := em
  have whole : (m : ℚ) = 2 * (m / 2 : Nat) + (m % 2 : Nat) := by
    exact_mod_cast (Nat.div_add_mod m 2).symm
  rcases Nat.mod_two_eq_zero_or_one m with even | odd
  · rw [even, Nat.cast_zero, add_zero] at whole
    cases round <;> cases sticky <;>
      simp [Represents, ExtendedMantissa.shiftRightOne, even] at represents ⊢ <;>
      (try constructor) <;> linarith
  · rw [odd, Nat.cast_one] at whole
    cases round <;> cases sticky <;>
      simp [Represents, ExtendedMantissa.shiftRightOne, odd] at represents ⊢ <;>
      (try constructor) <;> linarith

theorem shiftRight (represents : Represents em u) (count : Nat) :
    Represents (em >>> count) (u / 2 ^ count) := by
  induction count with
  | zero =>
    rw [pow_zero, div_one]
    exact represents
  | succ count ih =>
    rw [pow_succ, ← div_div]
    exact ih.shiftRightOne

end Represents

/-- The natural number `r` is the nearest to `u`, and the even one of two. -/
structure Rounds (u : ℚ) (r : Nat) : Prop where
  low : r - 1 / 2 ≤ u
  high : u ≤ r + 1 / 2
  even : u = r - 1 / 2 ∨ u = r + 1 / 2 → r % 2 = 0

theorem Rounds.eq {u : ℚ} {r r' : Nat} (rounds : Rounds u r) (rounds' : Rounds u r') : r = r' := by
  obtain ⟨low, high, even⟩ := rounds
  obtain ⟨low', high', even'⟩ := rounds'
  rcases Nat.lt_trichotomy r r' with less | same | more
  · have step : (r : ℚ) + 1 ≤ r' := by exact_mod_cast less
    have first := even (.inr (by linarith))
    have second := even' (.inl (by linarith))
    have next : (r' : ℚ) ≤ r + 1 := by linarith
    have next : r' ≤ r + 1 := by exact_mod_cast next
    omega
  · exact same
  · have step : (r' : ℚ) + 1 ≤ r := by exact_mod_cast more
    have first := even (.inl (by linarith))
    have second := even' (.inr (by linarith))
    have next : (r : ℚ) ≤ r' + 1 := by linarith
    have next : r ≤ r' + 1 := by exact_mod_cast next
    omega

theorem Represents.rounds {em : ExtendedMantissa} {u : ℚ} (represents : Represents em u) :
    Rounds u em.roundedMantissa := by
  obtain ⟨m, round, sticky⟩ := em
  cases round <;> cases sticky <;> simp only [Represents] at represents <;>
    simp only [ExtendedMantissa.roundedMantissa, ExtendedMantissa.accuracy,
      Accuracy.roundToNearestEven]
  case false.false => exact ⟨by linarith, by linarith, by rintro (h | h) <;> linarith⟩
  case false.true => exact ⟨by linarith, by linarith, by rintro (h | h) <;> linarith⟩
  case true.false =>
    rcases Nat.mod_two_eq_zero_or_one m with even | odd
    · rw [even, Nat.add_zero]
      exact ⟨by linarith, by linarith, fun _ => even⟩
    · rw [odd]
      exact ⟨by push_cast; linarith, by push_cast; linarith, fun _ => by omega⟩
  case true.true =>
    refine ⟨by push_cast; linarith, by push_cast; linarith, ?_⟩
    push_cast
    rintro (h | h) <;> linarith

/-- The number `v` lies among those that are rounded to the float of `m` and `e`. Below a power of
two the floats are twice as close. -/
structure Near (v : ℚ) (m : Nat) (e : Int) : Prop where
  rounds : Rounds (v / 2 ^ e) m
  narrow : m = 2 ^ 52 → -1074 < e → (m : ℚ) - 1 / 4 ≤ v / 2 ^ e

theorem Near.exact (m : Nat) (e : Int) : Near (m * 2 ^ e) m e := by
  have unit : (2 : ℚ) ^ e ≠ 0 := by positivity
  have same : (m : ℚ) * 2 ^ e / 2 ^ e = m := mul_div_cancel_right₀ _ unit
  refine ⟨?_, fun _ _ => ?_⟩
  · rw [same]
    exact ⟨by linarith, by linarith, by rintro (h | h) <;> linarith⟩
  · rw [same]
    linarith

section

variable {v : ℚ} {M : Nat} {E : Int} {accuracy : Accuracy}

def place (m : Nat) (e : Int) : Int :=
  e + excess m e

theorem low_le_place (m : Nat) (e : Int) : -1074 ≤ place m e := by
  unfold place excess
  omega

theorem represents_shifted
    (represents : Represents (ExtendedMantissa.ofMantissaAndAccuracy M accuracy) (v / 2 ^ E)) :
    Represents (shifted M E accuracy) (v / 2 ^ place M E) := by
  have moved := represents.shiftRight (excess M E)
  rw [div_div, ← zpow_natCast, ← zpow_add₀ two_ne_zero] at moved
  exact moved

/-- What is less than a power of two gets an exponent that leaves room for fifty-three bits. -/
theorem place_le
    (represents : Represents (ExtendedMantissa.ofMantissaAndAccuracy M accuracy) (v / 2 ^ E))
    (long : 2 ^ 52 ≤ M ∨ E ≤ -1074) {e : Int} (low : -1074 ≤ e) (less : v < 2 ^ (53 + e)) :
    place M E ≤ e := by
  have unit : (0 : ℚ) < 2 ^ E := by positivity
  have under := represents.le
  rw [mantissa_ofMantissaAndAccuracy, le_div_iff₀ unit] at under
  by_cases zero : M = 0
  · subst zero
    have short : E ≤ -1074 := long.resolve_left (by decide)
    unfold place excess
    rw [Nat.log2_zero]
    omega
  · have bits : (2 : ℚ) ^ ((M.log2 : Int) + E) < 2 ^ (53 + e) := by
      calc
        (2 : ℚ) ^ ((M.log2 : Int) + E) = (2 ^ M.log2 : Nat) * 2 ^ E := by
          rw [zpow_add₀ two_ne_zero, zpow_natCast, Nat.cast_pow, Nat.cast_ofNat]
        _ ≤ M * 2 ^ E := by
          have self := Nat.log2_self_le zero
          gcongr
        _ ≤ v := under
        _ < 2 ^ (53 + e) := less
    have order : (M.log2 : Int) + E < 53 + e := (zpow_lt_zpow_iff_right₀ one_lt_two).mp bits
    have full : 2 ^ 52 ≤ M → 52 ≤ M.log2 := (Nat.le_log2 zero).mpr
    unfold place excess
    omega

/-- What is not less than a power of two gets no lower exponent. -/
theorem le_place
    (represents : Represents (ExtendedMantissa.ofMantissaAndAccuracy M accuracy) (v / 2 ^ E))
    {e : Int} (more : 2 ^ (52 + e) ≤ v) : e ≤ place M E := by
  have unit : (0 : ℚ) < 2 ^ E := by positivity
  have upper := represents.lt
  rw [mantissa_ofMantissaAndAccuracy, div_lt_iff₀ unit] at upper
  have bits : (2 : ℚ) ^ (52 + e) < 2 ^ ((M.log2 : Int) + 1 + E) := by
    calc
      (2 : ℚ) ^ (52 + e) ≤ v := more
      _ < (M + 1) * 2 ^ E := upper
      _ ≤ (2 ^ (M.log2 + 1) : Nat) * 2 ^ E := by
        have self : M + 1 ≤ 2 ^ (M.log2 + 1) := Nat.lt_log2_self
        have self : (M : ℚ) + 1 ≤ (2 ^ (M.log2 + 1) : Nat) := by exact_mod_cast self
        gcongr
      _ = 2 ^ ((M.log2 : Int) + 1 + E) := by
        rw [zpow_add₀ two_ne_zero, Nat.cast_pow, Nat.cast_ofNat, ← zpow_natCast]
        rfl
  have order : 52 + e < (M.log2 : Int) + 1 + E := (zpow_lt_zpow_iff_right₀ one_lt_two).mp bits
  unfold place excess
  omega

theorem datum_of_pos {s : Sign} {m : Nat} {e : Int} (pos : 0 < m) :
    datum s m e = .finite s m e pos :=
  dif_neg (Nat.ne_of_gt pos)

/-- Rounding gives the float near which the number lies. -/
theorem roundWithAccuracy_of_near {s : Sign} {m : Nat} {e : Int}
    (represents : Represents (ExtendedMantissa.ofMantissaAndAccuracy M accuracy) (v / 2 ^ E))
    (long : 2 ^ 52 ≤ M ∨ E ≤ -1074) (canonical : Canonical m e) (near : Near v m e) :
    UnpackedFloat.roundWithAccuracy Format.binary64 s M E accuracy =
      .finite s m e canonical.pos := by
  obtain ⟨pos, lt, low, high, full⟩ := canonical
  have rounded := (represents_shifted represents).rounds
  have unit : (0 : ℚ) < 2 ^ e := by positivity
  have lt' : (m : ℚ) + 1 ≤ 2 ^ 53 := by exact_mod_cast lt
  have less : v < 2 ^ (53 + e) := by
    rw [zpow_add₀ two_ne_zero, ← div_lt_iff₀ unit]
    have half := near.rounds.high
    norm_num at lt' ⊢
    linarith
  have upper := place_le represents long low less
  rw [roundWithAccuracy_eq]
  change (if _ then datum s _ (place M E) else datum s (2 ^ 52) (place M E + 1)) = _
  by_cases usual : e = -1074 ∨ 2 ^ (52 + e) ≤ v
  · have same : place M E = e := by
      refine le_antisymm upper ?_
      rcases usual with rfl | more
      · exact low_le_place M E
      · exact le_place represents more
    rw [same] at rounded ⊢
    rw [rounded.eq near.rounds, if_pos lt, datum_of_pos pos]
  · -- just below a power of two, where the unit of the last place is half as large
    obtain ⟨above, below⟩ := not_or.mp usual
    have below := not_le.mp below
    have thick : 2 ^ 52 ≤ m := full.resolve_right above
    have top : v / 2 ^ e < 2 ^ 52 := by
      rw [zpow_add₀ two_ne_zero] at below
      exact (div_lt_iff₀ unit).mpr below
    have power : m = 2 ^ 52 := by
      have bound := near.rounds.low
      have small : (m : ℚ) < 2 ^ 52 + 1 := by linarith
      have small : m < 2 ^ 52 + 1 := by exact_mod_cast small
      omega
    have bottom := near.narrow power (by omega)
    rw [power] at bottom
    norm_num at bottom top
    have halved : v / 2 ^ (e - 1) = 2 * (v / 2 ^ e) := by
      rw [zpow_sub₀ two_ne_zero, zpow_one, div_div_eq_mul_div, mul_comm, mul_div_assoc]
    have same : place M E = e - 1 := by
      refine le_antisymm ?_ ?_
      · refine place_le represents long (by omega) ?_
        rw [show 53 + (e - 1) = 52 + e by omega]
        exact below
      · refine le_place represents ?_
        rw [show 52 + (e - 1) = 51 + e by omega, zpow_add₀ two_ne_zero, ← le_div_iff₀ unit]
        norm_num
        linarith
    have carried : Rounds (v / 2 ^ (e - 1)) (2 ^ 53) := by
      rw [halved]
      refine ⟨?_, ?_, fun _ => by norm_num⟩ <;> norm_num <;> linarith
    rw [same] at rounded ⊢
    rw [rounded.eq carried, if_neg (lt_irrefl _), datum_of_pos (by norm_num)]
    simp only [power, sub_add_cancel]

end

/-- The order of floats is that of their exponents, and of mantissas where exponents are equal. -/
def Precedes (m : Nat) (e : Int) (m' : Nat) (e' : Int) : Prop :=
  e < e' ∨ e = e' ∧ m < m'

theorem precedes_trichotomy (m : Nat) (e : Int) (m' : Nat) (e' : Int) :
    Precedes m e m' e' ∨ (m = m' ∧ e = e') ∨ Precedes m' e' m e := by
  unfold Precedes
  omega

/-- Rounding keeps the order: of two numbers the less one is not near the greater float. -/
theorem lt_of_near {v w : ℚ} {m m' : Nat} {e e' : Int} (canonical : Canonical m e)
    (canonical' : Canonical m' e') (near : Near v m e) (near' : Near w m' e')
    (precedes : Precedes m e m' e') : v < w := by
  by_contra more
  have more := not_lt.mp more
  rcases precedes with less | ⟨rfl, less⟩
  · have unit : (0 : ℚ) < 2 ^ e := by positivity
    have low := canonical.low
    have thick : 2 ^ 52 ≤ m' := canonical'.full.resolve_right (by omega)
    have ratio : (2 : ℚ) ≤ 2 ^ (e' - e) := by
      calc
        (2 : ℚ) = 2 ^ (1 : Int) := (zpow_one 2).symm
        _ ≤ 2 ^ (e' - e) := zpow_le_zpow_right₀ one_le_two (by omega)
    have scaled : w / 2 ^ e = w / 2 ^ e' * 2 ^ (e' - e) := by
      rw [zpow_sub₀ two_ne_zero, div_mul_div_cancel₀ (by positivity)]
    have bottom : (2 : ℚ) ^ 52 - 1 / 4 ≤ w / 2 ^ e' := by
      rcases Nat.eq_or_lt_of_le thick with power | above
      · have narrow := near'.narrow power.symm (by omega)
        rw [← power] at narrow
        exact_mod_cast narrow
      · have bound := near'.rounds.low
        have above : (2 : ℚ) ^ 52 + 1 ≤ m' := by exact_mod_cast above
        linarith
    have above : (2 : ℚ) ^ 53 - 1 / 2 ≤ v / 2 ^ e := by
      calc
        (2 : ℚ) ^ 53 - 1 / 2 = (2 ^ 52 - 1 / 4) * 2 := by norm_num
        _ ≤ w / 2 ^ e' * 2 ^ (e' - e) := by gcongr
        _ = w / 2 ^ e := scaled.symm
        _ ≤ v / 2 ^ e := by gcongr
    have under := near.rounds.high
    -- Only the end of the interval is left, and it belongs to the even neighbour.
    have small := canonical.lt
    have full : (2 : ℚ) ^ 53 ≤ m + 1 := by linarith
    have full : 2 ^ 53 ≤ m + 1 := by exact_mod_cast full
    have last : (m : ℚ) + 1 = 2 ^ 53 := by exact_mod_cast (show m + 1 = 2 ^ 53 by omega)
    have even := near.rounds.even (.inr (le_antisymm under (by linarith)))
    omega
  · have unit : (0 : ℚ) < 2 ^ e := by positivity
    have order : w / 2 ^ e ≤ v / 2 ^ e := by gcongr
    have high := near.rounds.high
    have low := near'.rounds.low
    have step : (m : ℚ) + 1 ≤ m' := by exact_mod_cast less
    have same : w / 2 ^ e = v / 2 ^ e := by linarith
    have equal := near.rounds.eq (same ▸ near'.rounds)
    omega

end Reckon.Machine
