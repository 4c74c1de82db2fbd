import Reckon.Proofs.Machine

/-!
How the machine rounds. A mantissa that is too long is shifted to the right until it fits, with
two bits that keep what is shifted out; then it is rounded by these bits, which can make it
one bit longer at most.
-/

namespace Reckon.Machine

open Float.Model
open Float.Model.UnpackedFloat (Sign Accuracy ExtendedMantissa)

/-- How far a mantissa must be shifted to have at most fifty-three bits and an exponent that is
not too low. -/
def excess (m : Nat) (e : Int) : Nat :=
  (max (m.log2 + e - 52) (-1074) - e).toNat

theorem shiftToTargetExponent_eq (m : Nat) (e : Int) (accuracy : Accuracy) :
    UnpackedFloat.shiftToTargetExponent Format.binary64 m e accuracy =
      (ExtendedMantissa.ofMantissaAndAccuracy m accuracy >>> excess m e, e + excess m e) := by
  have target : Format.binary64.targetExponent (totalExponent m e) =
      max (m.log2 + e - 52) (-1074) := by
    simp only [Format.targetExponent, totalExponent, Format.mantissaBits, Format.minExponent]
    omega
  rw [UnpackedFloat.shiftToTargetExponent, target]
  rfl

theorem mantissa_shiftRight (em : ExtendedMantissa) (count : Nat) :
    (em >>> count).mantissa = em.mantissa / 2 ^ count := by
  induction count with
  | zero => exact (Nat.div_one _).symm
  | succ count ih =>
    change (em >>> count).mantissa / 2 = _
    rw [ih, Nat.div_div_eq_div_mul, Nat.pow_succ]

theorem mantissa_ofMantissaAndAccuracy (m : Nat) (accuracy : Accuracy) :
    (ExtendedMantissa.ofMantissaAndAccuracy m accuracy).mantissa = m := by
  unfold ExtendedMantissa.ofMantissaAndAccuracy
  split <;> rfl

theorem roundedMantissa_le (em : ExtendedMantissa) : em.roundedMantissa ≤ em.mantissa + 1 := by
  obtain ⟨m, round, sticky⟩ := em
  cases round <;> cases sticky <;>
    simp [ExtendedMantissa.roundedMantissa, ExtendedMantissa.accuracy, Accuracy.roundToNearestEven]
  omega

theorem log2_le_excess (m : Nat) (e : Int) : m.log2 ≤ 52 + excess m e := by
  unfold excess
  omega

theorem shifted_lt (m : Nat) (e : Int) : m / 2 ^ excess m e < 2 ^ 53 := by
  rw [Nat.div_lt_iff_lt_mul (Nat.two_pow_pos _), ← Nat.pow_add]
  have long : 2 ^ (m.log2 + 1) ≤ 2 ^ (53 + excess m e) := by
    apply Nat.pow_le_pow_right (by decide)
    have bound := log2_le_excess m e
    omega
  exact Nat.lt_of_lt_of_le Nat.lt_log2_self long

theorem excess_eq_zero {m : Nat} {e : Int} (fits : m < 2 ^ 53) (low : -1074 ≤ e) :
    excess m e = 0 := by
  have short : m.log2 ≤ 52 := by
    by_cases zero : m = 0
    · subst zero
      decide
    · have bound := (Nat.log2_lt zero).mpr fits
      omega
  unfold excess
  omega

def shifted (m : Nat) (e : Int) (accuracy : Accuracy) : ExtendedMantissa :=
  ExtendedMantissa.ofMantissaAndAccuracy m accuracy >>> excess m e

theorem roundedMantissa_shifted_le (m : Nat) (e : Int) (accuracy : Accuracy) :
    (shifted m e accuracy).roundedMantissa ≤ 2 ^ 53 := by
  have rounded := roundedMantissa_le (shifted m e accuracy)
  have bound := shifted_lt m e
  rw [shifted, mantissa_shiftRight, mantissa_ofMantissaAndAccuracy] at rounded
  exact Nat.le_trans rounded bound

def datum (s : Sign) (m : Nat) (e : Int) : UnpackedFloat :=
  if zero : m = 0 then .zero s else .finite s m e (Nat.pos_of_ne_zero zero)

/-- Rounding gives the rounded mantissa, or the least one of the next exponent. -/
theorem roundWithAccuracy_eq (s : Sign) (m : Nat) (e : Int) (accuracy : Accuracy) :
    UnpackedFloat.roundWithAccuracy Format.binary64 s m e accuracy =
      if (shifted m e accuracy).roundedMantissa < 2 ^ 53 then
        datum s (shifted m e accuracy).roundedMantissa (e + excess m e)
      else datum s (2 ^ 52) (e + excess m e + 1) := by
  have low : -1074 ≤ e + excess m e := by
    unfold excess
    omega
  have top := roundedMantissa_shifted_le m e accuracy
  have second : UnpackedFloat.roundWithAccuracy Format.binary64 s m e accuracy =
      datum s
        ((shifted m e accuracy).roundedMantissa /
          2 ^ excess (shifted m e accuracy).roundedMantissa (e + excess m e))
        (e + excess m e + excess (shifted m e accuracy).roundedMantissa (e + excess m e)) := by
    rw [← mantissa_ofMantissaAndAccuracy (shifted m e accuracy).roundedMantissa .exact,
      ← mantissa_shiftRight, mantissa_ofMantissaAndAccuracy]
    unfold UnpackedFloat.roundWithAccuracy
    simp only [shiftToTargetExponent_eq]
    rfl
  rw [second]
  split
  case isTrue fits =>
    rw [excess_eq_zero fits low, Nat.pow_zero, Nat.div_one, Int.natCast_zero, Int.add_zero]
  case isFalse long =>
    have full : (shifted m e accuracy).roundedMantissa = 2 ^ 53 := by omega
    have once : excess (2 ^ 53) (e + excess m e) = 1 := by
      rw [excess, Nat.log2_two_pow]
      omega
    rw [full, once]
    rfl

/-! ### Operations on finite floats -/

section

variable {u v : UnpackedFloat}

theorem isNaN_datum (s : Sign) (m : Nat) (e : Int) : (datum s m e).isNaN = false := by
  unfold datum
  split <;> rfl

theorem isNaN_roundWithAccuracy (s : Sign) (m : Nat) (e : Int) (accuracy : Accuracy) :
    (UnpackedFloat.roundWithAccuracy Format.binary64 s m e accuracy).isNaN = false := by
  rw [roundWithAccuracy_eq]
  split <;> exact isNaN_datum _ _ _

theorem isNaN_normalize (m e : Int) (s : Sign) :
    (UnpackedFloat.normalize Format.binary64 m e s).isNaN = false := by
  unfold UnpackedFloat.normalize
  split
  case h_1 => exact isNaN_roundWithAccuracy _ _ _ _
  case h_2 => rfl
  case h_3 => exact isNaN_roundWithAccuracy _ _ _ _

theorem isNaN_add (left : u.isFinite = true) (right : v.isFinite = true) :
    (UnpackedFloat.add Format.binary64 u v).isNaN = false := by
  match u, v, left, right with
  | .zero s, .zero t, _, _ => cases s <;> cases t <;> rfl
  | .zero _, .finite _ _ _ _, _, _ => rfl
  | .finite _ _ _ _, .zero _, _, _ => rfl
  | .finite _ _ _ _, .finite _ _ _ _, _, _ => exact isNaN_normalize _ _ _

theorem isNaN_sub (left : u.isFinite = true) (right : v.isFinite = true) :
    (UnpackedFloat.sub Format.binary64 u v).isNaN = false := by
  match u, v, left, right with
  | .zero s, .zero t, _, _ => cases s <;> cases t <;> rfl
  | .zero _, .finite _ _ _ _, _, _ => rfl
  | .finite _ _ _ _, .zero _, _, _ => rfl
  | .finite _ _ _ _, .finite _ _ _ _, _, _ => exact isNaN_normalize _ _ _

theorem isNaN_mul (left : u.isFinite = true) (right : v.isFinite = true) :
    (UnpackedFloat.mul Format.binary64 u v).isNaN = false := by
  match u, v, left, right with
  | .zero _, .zero _, _, _ => rfl
  | .zero _, .finite _ _ _ _, _, _ => rfl
  | .finite _ _ _ _, .zero _, _, _ => rfl
  | .finite _ _ _ _, .finite _ _ _ _, _, _ => exact isNaN_roundWithAccuracy _ _ _ _

theorem isNaN_div (left : u.isNaN = false) (right : v.isFinite = true)
    (filled : ∀ s, v ≠ .zero s) : (UnpackedFloat.div Format.binary64 u v).isNaN = false := by
  match u, v, left, right with
  | _, .zero s, _, _ => exact absurd rfl (filled s)
  | .infinity _, .finite _ _ _ _, _, _ => rfl
  | .zero _, .finite _ _ _ _, _, _ => rfl
  | .finite _ _ _ _, .finite _ _ _ _, _, _ => exact isNaN_roundWithAccuracy _ _ _ _

end

theorem log2_mul_two_pow {m : Nat} (pos : 0 < m) (count : Nat) :
    (m * 2 ^ count).log2 = m.log2 + count := by
  induction count with
  | zero => rw [Nat.pow_zero, Nat.mul_one, Nat.add_zero]
  | succ count ih =>
    have filled : m * 2 ^ count ≠ 0 := Nat.ne_of_gt (Nat.mul_pos pos (Nat.two_pow_pos count))
    rw [Nat.pow_succ, ← Nat.mul_assoc, Nat.mul_comm, Nat.log2_two_mul filled, ih, Nat.add_assoc]

theorem log2_sqrt_le {m : Nat} (pos : 0 < m) : 2 * (Nat.sqrt m).log2 ≤ m.log2 := by
  have root : 0 < Nat.sqrt m := Nat.sqrt_pos.mpr pos
  rw [Nat.le_log2 (Nat.ne_of_gt pos), Nat.mul_comm, Nat.pow_mul, Nat.pow_two]
  have low := Nat.log2_self_le (Nat.ne_of_gt root)
  exact Nat.le_trans (Nat.mul_le_mul low low) (Nat.sqrt_le m)

theorem isFinite_datum {s : Sign} {m : Nat} {e : Int} (small : e ≤ 971) :
    (ofUnpacked (datum s m e)).isFinite = true := by
  unfold datum
  split
  case isTrue => cases s <;> rfl
  case isFalse filled => exact (isFinite_ofUnpacked_iff _).mpr small

/-- What is not too large before it is rounded is finite afterwards. -/
theorem isFinite_roundWithAccuracy {s : Sign} {m : Nat} {e : Int} {accuracy : Accuracy}
    (small : e ≤ 970) (bound : m.log2 + e ≤ 1022) :
    (ofUnpacked (UnpackedFloat.roundWithAccuracy Format.binary64 s m e accuracy)).isFinite =
      true := by
  have place : e + excess m e ≤ 970 := by
    unfold excess
    omega
  rw [roundWithAccuracy_eq]
  split <;> exact isFinite_datum (by omega)

theorem isFinite_sqrt {m : Nat} {e : Int} (canonical : Canonical m e) :
    (ofUnpacked (UnpackedFloat.sqrt Format.binary64
      (.finite .positive m e canonical.pos))).isFinite = true := by
  obtain ⟨pos, lt, low, high, -⟩ := canonical
  have length : m.log2 ≤ 52 := by
    have bound := (Nat.log2_lt (Nat.ne_of_gt pos)).mpr lt
    omega
  have rooted (e' : Int) (half : e' ≤ e / 2) (accuracy : Accuracy) :
      (ofUnpacked (UnpackedFloat.roundWithAccuracy Format.binary64 .positive
        (Nat.sqrt (m <<< (e - 2 * e').toNat)) e' accuracy)).isFinite = true := by
    have filled : 0 < m * 2 ^ (e - 2 * e').toNat := Nat.mul_pos pos (Nat.two_pow_pos _)
    have bits := log2_sqrt_le filled
    rw [log2_mul_two_pow pos] at bits
    rw [Nat.shiftLeft_eq]
    apply isFinite_roundWithAccuracy <;> omega
  exact rooted _ (Int.min_le_left _ _) _

end Reckon.Machine
