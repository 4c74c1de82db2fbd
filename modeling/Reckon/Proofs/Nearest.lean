import Reckon.Proofs.Rounding
import Reckon.Proofs.Spelling

/-!
The floats that numerals are read as. Small numbers are computed from floats that are exact,
others from their digits and their power of ten. Both ways give a number without a minus sign,
which can be infinite.
-/

namespace Reckon.Machine

open Float.Model
open Float.Model.UnpackedFloat (Sign Accuracy ExtendedMantissa)

theorem isFinite_iff {x : Float} : x.isFinite = true ↔ x.isNaN = false ∧ x.isInf = false := by
  change x.toModel.unpack.isFinite = true ↔
    x.toModel.unpack.isNaN = false ∧ x.toModel.unpack.isInf = false
  cases x.toModel.unpack <;> simp [UnpackedFloat.isFinite, UnpackedFloat.isNaN, UnpackedFloat.isInf]

def isNonnegative : UnpackedFloat → Bool
  | .zero .positive => true
  | .finite .positive _ _ _ => true
  | .infinity .positive => true
  | _ => false

theorem isNaN_of_isNonnegative {u : UnpackedFloat} (nonnegative : isNonnegative u = true) :
    u.isNaN = false := by
  cases u with
  | notANumber => cases nonnegative
  | _ => rfl

theorem isNonnegative_unpack_packComponents {exponent : BitVec 11} (short : exponent ≠ -1#11)
    (mantissa : BitVec 52) :
    isNonnegative (UnpackedFloat.unpack Format.binary64
      (UnpackedFloat.packComponents Format.binary64 .positive exponent mantissa)) = true := by
  by_cases filled : exponent = 0#11
  · subst filled
    rw [unpack_packComponents_zero]
    split <;> rfl
  · rw [unpack_packComponents_between _ mantissa short filled]
    rfl

theorem isNonnegative_ofUnpacked {u : UnpackedFloat} (nonnegative : isNonnegative u = true) :
    isNonnegative (ofUnpacked u).toModel.unpack = true := by
  match u, nonnegative with
  | .zero .positive, _ => rfl
  | .infinity .positive, _ => rfl
  | .finite .positive m e pos, _ =>
    change isNonnegative (UnpackedFloat.unpack _ (UnpackedFloat.pack _ _)) = true
    by_cases small : e ≤ 971
    · rw [pack_eq_packComponents pos small]
      refine isNonnegative_unpack_packComponents ?_ _
      split
      case isTrue => exact ofNat_biased_ne small
      case isFalse => decide
    · rw [pack_eq_infinity pos (Int.not_le.mp small)]
      rfl

theorem isNonnegative_roundWithAccuracy (m : Nat) (e : Int) (accuracy : Accuracy) :
    isNonnegative (UnpackedFloat.roundWithAccuracy Format.binary64 .positive m e accuracy) =
      true := by
  have packed (m : Nat) (e : Int) : isNonnegative (datum .positive m e) = true := by
    unfold datum
    split <;> rfl
  rw [roundWithAccuracy_eq]
  split <;> exact packed _ _

theorem isNonnegative_mul {u v : UnpackedFloat} (left : isNonnegative u = true)
    (finite : u.isFinite = true) (right : isNonnegative v = true) (finite' : v.isFinite = true) :
    isNonnegative (UnpackedFloat.mul Format.binary64 u v) = true := by
  match u, v, left, finite, right, finite' with
  | .zero .positive, .zero .positive, _, _, _, _ => rfl
  | .zero .positive, .finite .positive _ _ _, _, _, _, _ => rfl
  | .finite .positive _ _ _, .zero .positive, _, _, _, _ => rfl
  | .finite .positive _ _ _, .finite .positive _ _ _, _, _, _, _ =>
    exact isNonnegative_roundWithAccuracy _ _ _

theorem isNonnegative_div {u : UnpackedFloat} (left : isNonnegative u = true)
    (finite : u.isFinite = true) {m : Nat} {e : Int} (pos : 0 < m) :
    isNonnegative (UnpackedFloat.div Format.binary64 u (.finite .positive m e pos)) = true := by
  match u, left, finite with
  | .zero .positive, _, _ => rfl
  | .finite .positive _ _ _, _, _ => exact isNonnegative_roundWithAccuracy _ _ _

/-! ### Powers of ten -/

def isNatural (u : UnpackedFloat) (n : Nat) : Bool :=
  match u with
  | .finite .positive m e _ => m * 2 ^ e.toNat == n * 2 ^ (-e).toNat
  | _ => false

theorem exists_of_isNatural {u : UnpackedFloat} {n : Nat} (natural : isNatural u n = true) :
    ∃ (m : Nat) (e : Int) (pos : 0 < m),
      u = .finite .positive m e pos ∧ m * 2 ^ e.toNat = n * 2 ^ (-e).toNat := by
  unfold isNatural at natural
  split at natural
  case h_1 m e pos => exact ⟨m, e, pos, rfl, beq_iff_eq.mp natural⟩
  case h_2 => cases natural

theorem isNatural_powersOfTen {i : Nat} (small : i < Float.exactlyRepresentablePowersOfTen.size) :
    isNatural Float.exactlyRepresentablePowersOfTen[i].toModel.unpack (10 ^ i) = true := by
  have all : ∀ i : Fin 23,
      isNatural Float.exactlyRepresentablePowersOfTen[i].toModel.unpack (10 ^ i.val) = true := by
    decide +kernel
  exact all ⟨i, small⟩

/-! ### Numbers from digits -/

def IsMagnitude (x : Float) : Prop :=
  isNonnegative x.toModel.unpack = true

theorem isMagnitude_toFloat (n : UInt64) : IsMagnitude n.toFloat ∧ n.toFloat.isFinite = true := by
  change IsMagnitude (ofUnpacked (UnpackedFloat.normalize Format.binary64 n.toNat 0 .positive)) ∧
    (ofUnpacked (UnpackedFloat.normalize Format.binary64 n.toNat 0 .positive)).isFinite = true
  unfold UnpackedFloat.normalize
  split
  case h_1 less => exact absurd (compare_lt_iff_lt.mp less) (by omega)
  case h_2 => exact ⟨rfl, rfl⟩
  case h_3 more =>
    have pos : 0 < n.toNat := Int.natCast_pos.mp (compare_gt_iff_gt.mp more)
    have bits : n.toNat.log2 < 64 := (Nat.log2_lt (Nat.ne_of_gt pos)).mpr n.toNat_lt
    rw [Int.toNat_natCast]
    refine ⟨isNonnegative_ofUnpacked (isNonnegative_roundWithAccuracy _ _ _), ?_⟩
    apply isFinite_roundWithAccuracy
    · omega
    · rw [Nat.shiftLeft_eq, log2_mul_two_pow pos]
      omega

theorem isNonnegative_ofScientific (m : Nat) (e : Int) :
    isNonnegative (UnpackedFloat.ofScientific Format.binary64 m e) = true := by
  unfold UnpackedFloat.ofScientific
  by_cases zero : m = 0
  · rw [dif_pos zero]
    rfl
  · rw [dif_neg zero]
    split
    case isTrue => rfl
    case isFalse =>
      split
      case isTrue => rfl
      case isFalse =>
        split
        case isTrue => exact isNonnegative_roundWithAccuracy _ _ _
        case isFalse => exact isNonnegative_roundWithAccuracy _ _ _

theorem isMagnitude_ofScientific (m : Nat) (s : Bool) (e : Nat) :
    IsMagnitude (Float.ofScientific m s e) := by
  unfold Float.ofScientific
  split
  case isTrue small =>
    have index : e < Float.exactlyRepresentablePowersOfTen.size := Nat.lt_succ_of_le small.2
    obtain ⟨m', e', pos, power, -⟩ := exists_of_isNatural (isNatural_powersOfTen index)
    obtain ⟨magnitude, finite⟩ := isMagnitude_toFloat m.toUInt64
    cases s
    case false =>
      refine isNonnegative_ofUnpacked (u := UnpackedFloat.mul Format.binary64 _
        Float.exactlyRepresentablePowersOfTen[e].toModel.unpack) ?_
      rw [power]
      exact isNonnegative_mul magnitude finite rfl rfl
    case true =>
      refine isNonnegative_ofUnpacked (u := UnpackedFloat.div Format.binary64 _
        Float.exactlyRepresentablePowersOfTen[e].toModel.unpack) ?_
      rw [power]
      exact isNonnegative_div magnitude finite pos
  case isFalse => exact isNonnegative_ofUnpacked (isNonnegative_ofScientific m _)

end Reckon.Machine

namespace Reckon.Decimal

theorem isMagnitude_nearest (digits : Nat) (exponent : Int) :
    Machine.IsMagnitude (nearest digits exponent) := by
  simp only [nearest]
  split
  case isTrue => exact (by decide +kernel : Machine.isNonnegative (0 : Float).toModel.unpack = true)
  case isFalse =>
    split
    case isTrue =>
      exact (by decide +kernel : Machine.isNonnegative (1 / 0 : Float).toModel.unpack = true)
    case isFalse => exact Machine.isMagnitude_ofScientific _ _ _

theorem isMagnitude_of_magnitude? {chars : List Char} {x : Float}
    (reads : magnitude? chars = some x) : Machine.IsMagnitude x := by
  simp only [magnitude?] at reads
  split at reads
  case isTrue => cases reads
  case isFalse =>
    obtain ⟨exponent, -, rfl⟩ := Option.map_eq_some_iff.mp reads
    exact isMagnitude_nearest _ _

end Reckon.Decimal

namespace Reckon.Formula

theorem isMagnitude_of_literal {chars : List Char} {x : Float} (spells : Spells .number chars)
    (reads : literal (String.ofList chars) = .ok x) :
    Machine.IsMagnitude x ∧ x.isFinite = true := by
  cases spells with
  | number digit numbers points bounded =>
    have value := literal_eq_ok_iff.mp reads
    rw [value] at bounded
    rw [Decimal.float?_eq_magnitude? digit numbers] at value
    have magnitude := Decimal.isMagnitude_of_magnitude? value
    exact ⟨magnitude,
      Machine.isFinite_iff.mpr ⟨Machine.isNaN_of_isNonnegative magnitude, bounded⟩⟩

end Reckon.Formula
