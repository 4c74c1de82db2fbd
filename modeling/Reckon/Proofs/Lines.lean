import Mathlib
import Reckon.Log.Reading
import Reckon.Proofs.Documents

/-!
Lines of a log. A line is the text of one value in printed characters, with a line feed at its end,
so what has been written line by line is read line by line.
-/

namespace Reckon.Log

open Text (Bytes)
open Json (IsPrinted)

/-! ### Printed characters as bytes -/

def byteOf (c : Char) : UInt8 :=
  UInt8.ofNat c.toNat

section

variable {c : Char} (printed : IsPrinted c)
include printed

theorem toNat_byteOf : (byteOf c).toNat = c.toNat := by
  have small := printed.2
  exact UInt8.toNat_ofNat_of_lt' (small.trans (by decide))

theorem utf8EncodeChar_eq : String.utf8EncodeChar c = [byteOf c] := by
  have small : c.val.toNat < 0x7f := printed.2
  unfold String.utf8EncodeChar
  rw [if_pos (by omega)]
  rfl

theorem byteOf_ne {b : UInt8} (outside : b.toNat < 0x20 ∨ 0x7f ≤ b.toNat) : byteOf c ≠ b := by
  rintro rfl
  rw [toNat_byteOf printed] at outside
  have low := printed.1
  have high := printed.2
  omega

theorem charOf_toNat : Text.charOf c.toNat = c := by
  have high := printed.2
  rw [Text.charOf, if_neg (by omega), Char.ofNat_toNat]

theorem decodeChar_byteOf (surrogates : Bool) (position : Nat) (rest : Bytes) :
    Text.decodeChar surrogates position (byteOf c) rest = .ok ⟨c, 1, rest⟩ := by
  have announced : Text.announced? surrogates (byteOf c).toNat = some (c.toNat, 0, 0, 0) := by
    have high := printed.2
    rw [Text.announced?, toNat_byteOf printed, if_pos (by omega)]
  simp only [Text.decodeChar, announced, Text.continued, charOf_toNat printed]
  rfl

end

theorem encode_eq {s : String} (printed : ∀ c ∈ s.toList, IsPrinted c) :
    Text.encode s = s.toList.map byteOf := by
  rw [Text.encode]
  generalize s.toList = chars at printed
  induction chars with
  | nil => rfl
  | cons c chars ih =>
    obtain ⟨first, others⟩ := List.forall_mem_cons.mp printed
    rw [List.flatMap_cons, utf8EncodeChar_eq first, ih others, List.map_cons]
    rfl

theorem decodeFrom_map {chars : List Char} (printed : ∀ c ∈ chars, IsPrinted c)
    (surrogates : Bool) (position : Nat) (before : List Char) {fuel : Nat}
    (enough : chars.length ≤ fuel) :
    Text.decodeFrom surrogates position before fuel (chars.map byteOf) =
      .ok (before.reverse ++ chars) := by
  induction chars generalizing position before fuel with
  | nil =>
    rw [List.append_nil]
    cases fuel <;> rfl
  | cons c chars ih =>
    obtain ⟨first, others⟩ := List.forall_mem_cons.mp printed
    rw [List.length_cons] at enough
    obtain ⟨fuel, rfl⟩ : ∃ more, fuel = more + 1 := ⟨fuel - 1, by omega⟩
    rw [List.map_cons, Text.decodeFrom, decodeChar_byteOf first]
    dsimp only
    rw [ih others _ _ (by omega), List.reverse_cons, List.append_assoc, List.singleton_append]

theorem decodeChars_map {chars : List Char} (printed : ∀ c ∈ chars, IsPrinted c)
    (surrogates : Bool) : Text.decodeChars surrogates (chars.map byteOf) = .ok chars :=
  decodeFrom_map printed surrogates 0 [] (by simp)

theorem find?_marks {bytes : Bytes}
    (apart : ∀ b ∈ bytes, b ≠ 0x00 ∧ b ≠ 0xfe ∧ b ≠ 0xff ∧ b ≠ 0xef) :
    Text.Encoding.marks.find? (·.1.isPrefixOf bytes) = none := by
  cases bytes with
  | nil => rfl
  | cons b rest =>
    obtain ⟨zero, big, little, utf8⟩ := apart b List.mem_cons_self
    simp [Text.Encoding.marks, List.isPrefixOf, zero.symm, big.symm, little.symm, utf8.symm]

theorem ofZeros_eq {bytes : Bytes} (some : ∀ b ∈ bytes, b ≠ 0) :
    Text.Encoding.ofZeros bytes = .utf8 := by
  unfold Text.Encoding.ofZeros
  split
  all_goals simp_all

/-- No encoding but the usual one is told by printed characters. -/
theorem decodeDetected?_map {chars : List Char} (printed : ∀ c ∈ chars, IsPrinted c) :
    Text.decodeDetected? (chars.map byteOf) = some chars := by
  have apart : ∀ b ∈ chars.map byteOf, b ≠ 0x00 ∧ b ≠ 0xfe ∧ b ≠ 0xff ∧ b ≠ 0xef := by
    simp only [List.forall_mem_map]
    intro c member
    have one := printed c member
    exact ⟨byteOf_ne one (by decide), byteOf_ne one (by decide), byteOf_ne one (by decide),
      byteOf_ne one (by decide)⟩
  rw [Text.decodeDetected?, find?_marks apart]
  dsimp only
  rw [ofZeros_eq fun b member => (apart b member).1, Text.Encoding.chars?, decodeChars_map printed]
  rfl

/-! ### Lines -/

def IsInner (b : UInt8) : Prop :=
  b ≠ 10 ∧ b ≠ 13

theorem isInner_byteOf {c : Char} (printed : IsPrinted c) : IsInner (byteOf c) :=
  ⟨byteOf_ne printed (by decide), byteOf_ne printed (by decide)⟩

theorem foldr_pushByte {body : Bytes} (inner : ∀ b ∈ body, IsInner b) (next : Option UInt8)
    (line : Bytes) (lines : List Bytes) :
    (body.foldr pushByte (next, line :: lines)).2 = (body ++ line) :: lines := by
  -- bytes come from the end, so each one goes in front of the first line
  induction body with
  | nil => rfl
  | cons b body ih =>
    obtain ⟨⟨feed, carriage⟩, others⟩ := List.forall_mem_cons.mp inner
    have behind := ih others
    rw [List.foldr_cons]
    generalize body.foldr pushByte (next, line :: lines) = after at behind
    obtain ⟨byte, found⟩ := after
    obtain rfl : found = (body ++ line) :: lines := behind
    rw [pushByte, if_neg feed, if_neg carriage]
    rfl

theorem splitLines_cons {body : Bytes} (inner : ∀ b ∈ body, IsInner b) (rest : Bytes) :
    splitLines (body ++ 10 :: rest) = body :: splitLines rest := by
  have feed : (10 :: rest).foldr pushByte (none, []) = (some 10, [] :: splitLines rest) := rfl
  rw [splitLines, List.foldr_append, feed, foldr_pushByte inner, List.append_nil]

theorem splitLines_flatMap {bodies : List Bytes} (inner : ∀ body ∈ bodies, ∀ b ∈ body, IsInner b) :
    splitLines (bodies.flatMap (· ++ [10])) = bodies := by
  induction bodies with
  | nil => rfl
  | cons body bodies ih =>
    obtain ⟨first, others⟩ := List.forall_mem_cons.mp inner
    rw [List.flatMap_cons, List.append_assoc, List.singleton_append, splitLines_cons first,
      ih others]

theorem not_isBlankByte {c : Char} (printed : IsPrinted c) (space : c ≠ ' ') :
    isBlankByte (byteOf c) = false := by
  have low := printed.1
  have apart : c.toNat ≠ 32 := fun same => space (Char.toNat_inj.mp same)
  have value := toNat_byteOf printed
  have above : ¬ byteOf c ≤ 13 := by
    rw [UInt8.le_iff_toNat_le, value]
    exact fun small => absurd (low.trans small) (by decide)
  have other : byteOf c ≠ 32 := fun same => apart (by rw [← value, same]; rfl)
  simp [isBlankByte, above, other]

/-! ### Values on lines -/

def body (value : Value) : Bytes :=
  (Json.compact value).toList.map byteOf

section

variable {value : Value}

theorem isInner_body (lossless : Json.IsLossless value) : ∀ b ∈ body value, IsInner b := by
  simp only [body, List.forall_mem_map]
  exact fun c member => isInner_byteOf (Json.isPrinted_compact lossless c member)

theorem readLine_body [Limits] (legible : Json.IsLegible value) :
    readLine (body value) = .ok (some value) := by
  have printed := Json.isPrinted_compact legible.lossless
  have visible : (body value).all isBlankByte = false := by
    obtain ⟨c, run, same, space, -⟩ := (Json.rereads_compact legible.lossless).starts
    have one : IsPrinted c := printed c (by simp [same])
    rw [body, same, List.map_cons, List.all_cons, not_isBlankByte one, Bool.false_and]
    rintro rfl
    exact absurd space (by decide)
  rw [readLine, visible, if_neg Bool.false_ne_true, body, decodeDetected?_map printed]
  dsimp only
  rw [Json.read_compact legible]

theorem encode_line (lossless : Json.IsLossless value) :
    Text.encode (Json.compact value ++ "\n") = body value ++ [10] := by
  have text : Text.encode (Json.compact value ++ "\n") =
      Text.encode (Json.compact value) ++ Text.encode "\n" := by
    simp only [Text.encode, String.toList_append, List.flatMap_append]
  rw [text, encode_eq (Json.isPrinted_compact lossless)]
  rfl

end

/-- Values on lines, all of which a filter can judge: those that it accepts are found. -/
theorem collect_map [Limits] {α : Type} {f : Filter} {items : List α} {value : α → Value}
    {wanted : α → Bool} (legible : ∀ item ∈ items, Json.IsLegible (value item))
    (judged : ∀ item ∈ items, f.accepts (value item) = .ok (wanted item)) :
    collect f (items.map fun item => body (value item)) =
      .ok ((items.filter wanted).map value) := by
  induction items with
  | nil => rfl
  | cons item items ih =>
    obtain ⟨first, others⟩ := List.forall_mem_cons.mp legible
    obtain ⟨verdict, verdicts⟩ := List.forall_mem_cons.mp judged
    rw [List.map_cons, collect, readLine_body first, List.filter_cons]
    simp only [bind, Except.bind, verdict, ih others verdicts]
    cases wanted item <;> rfl

end Reckon.Log
