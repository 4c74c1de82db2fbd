import Mathlib
import Reckon.Formula.Arithmetic

/-!
The floats of the machine. A float is packed into a sign, eleven bits of exponent and
fifty-two bits of mantissa; its arithmetic unpacks it into a sign, a mantissa and an exponent,
works on these exactly, rounds, and packs the result. Every finite float is the datum of just
one mantissa and exponent that are canonical.
-/

namespace Reckon.Machine

open Float.Model
open Float.Model.UnpackedFloat (Sign packComponents)

def ofUnpacked (u : UnpackedFloat) : Float :=
  .ofModel (.pack u)

theorem unpack_zero : (0 : Float).toModel.unpack = .zero .positive := rfl

theorem toNat_append_one (mantissa : BitVec 52) :
    (1#1 ++ mantissa).toNat = 2 ^ 52 + mantissa.toNat := by
  rw [BitVec.toNat_append, ← Nat.shiftLeft_add_eq_or_of_lt mantissa.isLt]
  rfl

theorem unpack_packComponents_full (s : Sign) (mantissa : BitVec 52) :
    UnpackedFloat.unpack Format.binary64 (packComponents Format.binary64 s (-1#11) mantissa) =
      if mantissa = 0#52 then .infinity s else .notANumber := by
  simp only [UnpackedFloat.unpack, UnpackedFloat.unpackExponent_packComponents, if_true,
    UnpackedFloat.unpackMantissa_packComponents, UnpackedFloat.unpackSign_packComponents,
    Sign.ofBitVec_toBitVec]

theorem unpack_packComponents_zero (s : Sign) (mantissa : BitVec 52) :
    UnpackedFloat.unpack Format.binary64 (packComponents Format.binary64 s 0#11 mantissa) =
      if h : mantissa = 0#52 then .zero s
      else .finite s mantissa.toNat (-1074)
        (by simpa [BitVec.toNat_pos, BitVec.pos_iff_ne_zero]) := by
  have short : ¬(0#11 : BitVec 11) = -1#11 := by decide
  simp only [UnpackedFloat.unpack, UnpackedFloat.unpackExponent_packComponents, if_true,
    UnpackedFloat.unpackMantissa_packComponents, UnpackedFloat.unpackSign_packComponents,
    Sign.ofBitVec_toBitVec, if_neg short]
  rfl

theorem unpack_packComponents_between (s : Sign) {exponent : BitVec 11} (mantissa : BitVec 52)
    (short : exponent ≠ -1#11) (filled : exponent ≠ 0#11) :
    UnpackedFloat.unpack Format.binary64 (packComponents Format.binary64 s exponent mantissa) =
      .finite s (2 ^ 52 + mantissa.toNat) (exponent.toNat - 1075) (by omega) := by
  simp only [UnpackedFloat.unpack, UnpackedFloat.unpackExponent_packComponents, if_neg short,
    if_neg filled, UnpackedFloat.unpackMantissa_packComponents,
    UnpackedFloat.unpackSign_packComponents, Sign.ofBitVec_toBitVec, toNat_append_one]
  rfl

theorem isFinite_of_exponent_ne (s : Sign) {exponent : BitVec 11} (short : exponent ≠ -1#11)
    (mantissa : BitVec 52) :
    (UnpackedFloat.unpack Format.binary64
      (packComponents Format.binary64 s exponent mantissa)).isFinite = true := by
  by_cases filled : exponent = 0#11
  · subst filled
    rw [unpack_packComponents_zero]
    split <;> rfl
  · rw [unpack_packComponents_between s mantissa short filled]
    rfl

def biased (e : Int) : Nat :=
  (e + (1023 : Nat) + (52 : Nat)).toNat

theorem ofNat_biased_ne {e : Int} (small : e ≤ 971) : BitVec.ofNat 11 (biased e) ≠ -1#11 := by
  intro same
  have numbers := congrArg BitVec.toNat same
  rw [BitVec.toNat_ofNat, Nat.mod_eq_of_lt (by unfold biased; omega)] at numbers
  change biased e = 2047 at numbers
  unfold biased at numbers
  omega

theorem pack_eq_infinity {s : Sign} {m : Nat} {e : Int} (pos : 0 < m) (large : 971 < e) :
    UnpackedFloat.pack Format.binary64 (.finite s m e pos) =
      UnpackedFloat.packedInfinity Format.binary64 s := by
  have beyond : 2 ^ 11 ≤ biased e + 1 := by
    unfold biased
    omega
  exact if_pos beyond

/-- A datum that is not too large keeps its exponent if its mantissa is full. -/
theorem pack_eq_packComponents {s : Sign} {m : Nat} {e : Int} (pos : 0 < m) (small : e ≤ 971) :
    UnpackedFloat.pack Format.binary64 (.finite s m e pos) =
      packComponents Format.binary64 s
        (if m.log2 = 52 then BitVec.ofNat 11 (biased e) else 0#11) (BitVec.ofNat 52 m) := by
  have within : ¬2 ^ 11 ≤ biased e + 1 := by
    unfold biased
    omega
  refine (if_neg within).trans ?_
  by_cases full : m.log2 = 52
  · rw [if_pos full]
    exact if_pos (by rw [full]; rfl)
  · rw [if_neg full]
    refine if_neg fun same => full ?_
    change m.log2 + 1 = 53 at same
    omega

theorem isFinite_ofUnpacked_iff {s : Sign} {m : Nat} {e : Int} (pos : 0 < m) :
    (ofUnpacked (.finite s m e pos)).isFinite = true ↔ e ≤ 971 := by
  change (UnpackedFloat.unpack _ (UnpackedFloat.pack _ _)).isFinite = true ↔ _
  by_cases small : e ≤ 971
  · rw [pack_eq_packComponents pos small]
    refine iff_of_true (isFinite_of_exponent_ne s ?_ _) small
    split
    case isTrue => exact ofNat_biased_ne small
    case isFalse => decide
  · rw [pack_eq_infinity pos (Int.not_le.mp small), UnpackedFloat.packedInfinity]
    rw [unpack_packComponents_full]
    simp [UnpackedFloat.isFinite, small]

theorem isNaN_ofUnpacked (u : UnpackedFloat) : (ofUnpacked u).isNaN = u.isNaN := by
  change (UnpackedFloat.unpack _ (UnpackedFloat.pack _ _)).isNaN = _
  cases u with
  | notANumber => rfl
  | infinity s => cases s <;> rfl
  | zero s => cases s <;> rfl
  | finite s m e pos =>
    by_cases small : e ≤ 971
    · have finite := (isFinite_ofUnpacked_iff (s := s) pos).mpr small
      change (UnpackedFloat.unpack _ (UnpackedFloat.pack _ _)).isFinite = true at finite
      revert finite
      cases UnpackedFloat.unpack _ (UnpackedFloat.pack _ (.finite s m e pos)) <;>
        simp [UnpackedFloat.isFinite, UnpackedFloat.isNaN]
    · rw [pack_eq_infinity pos (Int.not_le.mp small)]
      cases s <;> rfl

/-! ### Canonical data -/

/-- The mantissa and exponent of a finite float other than zero. -/
structure Canonical (m : Nat) (e : Int) : Prop where
  pos : 0 < m
  lt : m < 2 ^ 53
  low : -1074 ≤ e
  high : e ≤ 971
  full : 2 ^ 52 ≤ m ∨ e = -1074

theorem exists_components (f : Float.Model) :
    ∃ (s : Sign) (exponent : BitVec 11) (mantissa : BitVec 52),
      f.toBits.toBitVec = packComponents Format.binary64 s exponent mantissa := by
  have split := @UnpackedFloat.packComponents_unpackSign_unpackExponent_unpackMantissa
    Format.binary64 f.toBits.toBitVec
  exact ⟨_, _, _, split.symm⟩

theorem components_of_unpack {f : Float.Model} {s : Sign} {m : Nat} {e : Int} {pos : 0 < m}
    (unpacked : f.unpack = .finite s m e pos) :
    ∃ (exponent : BitVec 11) (mantissa : BitVec 52),
      f.toBits.toBitVec = packComponents Format.binary64 s exponent mantissa ∧
        (exponent.toNat = 0 ∧ m = mantissa.toNat ∧ e = -1074 ∨
          0 < exponent.toNat ∧ exponent.toNat < 2047 ∧ m = 2 ^ 52 + mantissa.toNat ∧
            e = exponent.toNat - 1075) := by
  obtain ⟨sign, exponent, mantissa, bits⟩ := exists_components f
  rw [Float.Model.unpack, bits] at unpacked
  by_cases short : exponent = -1#11
  · subst short
    rw [unpack_packComponents_full] at unpacked
    split at unpacked <;> cases unpacked
  · by_cases filled : exponent = 0#11
    · subst filled
      rw [unpack_packComponents_zero] at unpacked
      split at unpacked
      case isTrue => cases unpacked
      case isFalse =>
        cases unpacked
        exact ⟨_, mantissa, bits, .inl ⟨rfl, rfl, rfl⟩⟩
    · rw [unpack_packComponents_between sign mantissa short filled] at unpacked
      cases unpacked
      have low : exponent.toNat ≠ 0 := fun same => filled (BitVec.eq_of_toNat_eq same)
      have high : exponent.toNat ≠ 2047 := fun same => short (BitVec.eq_of_toNat_eq same)
      have bound : exponent.toNat < 2048 := exponent.isLt
      exact ⟨exponent, mantissa, bits, .inr ⟨by omega, by omega, rfl, rfl⟩⟩

theorem canonical_of_unpack {f : Float.Model} {s : Sign} {m : Nat} {e : Int} {pos : 0 < m}
    (unpacked : f.unpack = .finite s m e pos) : Canonical m e := by
  obtain ⟨exponent, mantissa, -, ⟨zero, rfl, rfl⟩ | ⟨some, short, rfl, rfl⟩⟩ :=
    components_of_unpack unpacked
  · have small := mantissa.isLt
    exact ⟨pos, by omega, by omega, by omega, .inr rfl⟩
  · have small := mantissa.isLt
    exact ⟨pos, by omega, by omega, by omega, .inl (by omega)⟩

theorem log2_eq_iff {m : Nat} (lt : m < 2 ^ 53) : m.log2 = 52 ↔ 2 ^ 52 ≤ m := by
  by_cases zero : m = 0
  · subst zero
    decide
  · rw [Nat.log2_eq_iff zero]
    exact ⟨And.left, fun full => ⟨full, lt⟩⟩

theorem toNat_ofNat_biased {e : Int} (low : -1074 ≤ e) (high : e ≤ 971) :
    ((BitVec.ofNat 11 (biased e)).toNat : Int) = e + 1075 := by
  rw [BitVec.toNat_ofNat, Nat.mod_eq_of_lt (by unfold biased; omega)]
  unfold biased
  omega

/-- Every float is what its datum is packed into. -/
theorem ofUnpacked_unpack (x : Float) : ofUnpacked x.toModel.unpack = x := by
  obtain ⟨f⟩ := x
  have same := UnpackedFloat.pack_unpack_of_valid f.valid
  unfold ofUnpacked Float.Model.pack
  obtain ⟨bits, valid⟩ := f
  congr 2
  exact UInt64.toBitVec_inj.mp same

/-- Packing loses nothing of a canonical datum. -/
theorem unpack_ofUnpacked (s : Sign) {m : Nat} {e : Int} (canonical : Canonical m e) :
    (ofUnpacked (.finite s m e canonical.pos)).toModel.unpack = .finite s m e canonical.pos := by
  change UnpackedFloat.unpack _ (UnpackedFloat.pack _ _) = _
  obtain ⟨pos, lt, low, high, full⟩ := canonical
  have field := toNat_ofNat_biased low high
  rw [pack_eq_packComponents pos high]
  by_cases thick : 2 ^ 52 ≤ m
  · have filled : BitVec.ofNat 11 (biased e) ≠ 0#11 := by
      intro same
      rw [same] at field
      simp only [BitVec.toNat_ofNat] at field
      omega
    have whole : 2 ^ 52 + (BitVec.ofNat 52 m).toNat = m := by
      rw [BitVec.toNat_ofNat]
      omega
    have place : ((BitVec.ofNat 11 (biased e)).toNat : Int) - 1075 = e := by omega
    rw [if_pos ((log2_eq_iff lt).mpr thick),
      unpack_packComponents_between s _ (ofNat_biased_ne high) filled]
    simp only [whole, place]
  · obtain rfl := full.resolve_left thick
    have same : (BitVec.ofNat 52 m).toNat = m := by
      rw [BitVec.toNat_ofNat]
      omega
    have some : BitVec.ofNat 52 m ≠ 0#52 := by
      intro none
      rw [none] at same
      simp only [BitVec.toNat_ofNat] at same
      omega
    rw [if_neg (mt (log2_eq_iff lt).mp thick), unpack_packComponents_zero, dif_neg some]
    simp only [same]

end Reckon.Machine
