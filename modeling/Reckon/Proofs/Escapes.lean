import Mathlib
import Reckon.Json.Printer
import Reckon.Json.Reader

/-!
Texts in JSON. Each character is printed as a plain one or as an escape, with one 16-bit unit or
with a pair of them. The reader takes the same character from it, whatever stands behind.
-/

namespace Reckon.Json

open Reckon.Text

/-! ### Units -/

theorem hexValue?_digitChar {digit : Nat} (small : digit < 16) :
    hexValue? (Nat.digitChar digit) = some digit := by
  have all : ∀ digit : Fin 16, hexValue? (Nat.digitChar digit) = some digit.val := by decide +kernel
  exact all ⟨digit, small⟩

theorem hex_four (unit : Nat) :
    hex 4 unit = [Nat.digitChar (unit / 4096 % 16), Nat.digitChar (unit / 256 % 16),
      Nat.digitChar (unit / 16 % 16), Nat.digitChar (unit % 16)] := by
  simp only [hex, List.nil_append, List.cons_append, Nat.div_div_eq_div_mul]

theorem unit?_hex {unit : Nat} (small : unit < 65536) (rest : List Char) :
    unit? (hex 4 unit ++ rest) = some (unit, rest) := by
  rw [hex_four]
  have digits : ((unit / 4096 % 16 * 16 + unit / 256 % 16) * 256 + unit / 16 % 16 * 16 +
      unit % 16) = unit := by omega
  simp only [List.cons_append, List.nil_append, unit?, hexValue?_digitChar (Nat.mod_lt _ (by decide)),
    Option.bind_eq_bind, Option.bind_some, Option.pure_def, digits]

theorem not_surrogate (c : Char) : isHighUnit c.toNat = false ∧ isLowUnit c.toNat = false := by
  have valid := c.valid
  have number : c.toNat < 0xd800 ∨ 0xdfff < c.toNat ∧ c.toNat < 0x110000 := valid
  constructor
  · simp only [isHighUnit, Bool.and_eq_false_iff, decide_eq_false_iff_not]
    omega
  · simp only [isLowUnit, Bool.and_eq_false_iff, decide_eq_false_iff_not]
    omega

theorem unitsChar_toNat (c : Char) (rest : List Char) : unitsChar c.toNat rest = (c, rest) := by
  obtain ⟨high, low⟩ := not_surrogate c
  have char : unitChar c.toNat = c := by
    simp [unitChar, high, low]
  unfold unitsChar
  split
  · split
    · simp [high, char]
    · rw [char]
  · rw [char]

theorem unitsChar_pair {c : Char} (large : 0x10000 ≤ c.toNat) (rest : List Char) :
    unitsChar (0xd800 + (c.toNat - 0x10000) / 0x400)
      ('\\' :: 'u' :: (hex 4 (0xdc00 + (c.toNat - 0x10000) % 0x400) ++ rest)) = (c, rest) := by
  have bound : c.toNat < 0x110000 := by
    have valid : c.toNat < 0xd800 ∨ 0xdfff < c.toNat ∧ c.toNat < 0x110000 := c.valid
    omega
  have high : isHighUnit (0xd800 + (c.toNat - 0x10000) / 0x400) = true := by
    simp only [isHighUnit, Bool.and_eq_true, decide_eq_true_eq]
    omega
  have low : isLowUnit (0xdc00 + (c.toNat - 0x10000) % 0x400) = true := by
    simp only [isLowUnit, Bool.and_eq_true, decide_eq_true_eq]
    omega
  have number : 0x10000 + (0xd800 + (c.toNat - 0x10000) / 0x400 - 0xd800) * 0x400 +
      (0xdc00 + (c.toNat - 0x10000) % 0x400 - 0xdc00) = c.toNat := by omega
  simp only [unitsChar, unit?_hex (by omega : 0xdc00 + (c.toNat - 0x10000) % 0x400 < 65536), high,
    low, Bool.and_true, if_true, number, Char.ofNat_toNat]

/-! ### Characters -/

def IsPrinted (c : Char) : Prop :=
  0x20 ≤ c.toNat ∧ c.toNat < 0x7f

instance (c : Char) : Decidable (IsPrinted c) :=
  inferInstanceAs (Decidable (0x20 ≤ c.toNat ∧ c.toNat < 0x7f))

inductive Escapes (c : Char) : List Char → Prop where
  | letter {letter : Char} (other : letter ≠ 'u') (known : escaped? letter = some c)
      (printed : IsPrinted letter) : Escapes c ['\\', letter]
  | plain (printed : IsPrinted c) (quote : c ≠ '"') (slash : c ≠ '\\') : Escapes c [c]
  | units : Escapes c ((units c).flatMap fun unit => '\\' :: 'u' :: hex 4 unit)

theorem escapes (c : Char) : Escapes c (escapeChar c) := by
  have letter (letter : Char) (known : escaped? letter = some c) (other : letter ≠ 'u')
      (printed : IsPrinted letter) : Escapes c ['\\', letter] := .letter other known printed
  unfold escapeChar
  split_ifs with quote slash feed carriage tab back form plain
  · exact letter '"' (by rw [quote]; rfl) (by decide) (by decide)
  · exact letter '\\' (by rw [slash]; rfl) (by decide) (by decide)
  · exact letter 'n' (by rw [feed]; rfl) (by decide) (by decide)
  · exact letter 'r' (by rw [carriage]; rfl) (by decide) (by decide)
  · exact letter 't' (by rw [tab]; rfl) (by decide) (by decide)
  · exact letter 'b' (by rw [show c = Char.ofNat 8 from Char.ext back]; rfl) (by decide) (by decide)
  · exact letter 'f' (by rw [show c = Char.ofNat 12 from Char.ext form]; rfl) (by decide) (by decide)
  · exact .plain plain quote slash
  · exact .units

def IsReread (c : Char) : Prop :=
  ∀ (fuel : Nat) (rest : List Char), readString (fuel + 1) (escapeChar c ++ rest) =
    (readString fuel rest).map fun (chars, rest) => (c :: chars, rest)

theorem readString_plain {c : Char} (low : 0x20 ≤ c.val) (quote : c ≠ '"') (slash : c ≠ '\\')
    (fuel : Nat) (rest : List Char) : readString (fuel + 1) (c :: rest) =
      (readString fuel rest).map fun (chars, rest) => (c :: chars, rest) := by
  rw [readString]
  · rw [if_neg (by simp [slash, low])]
  all_goals simp_all

theorem readString_escaped {letter c : Char} (other : letter ≠ 'u') (known : escaped? letter = some c)
    (fuel : Nat) (rest : List Char) : readString (fuel + 1) ('\\' :: letter :: rest) =
      (readString fuel rest).map fun (chars, rest) => (c :: chars, rest) := by
  rw [readString]
  · simp only [known, Option.bind_eq_bind, Option.bind_some]
    cases readString fuel rest <;> rfl
  all_goals simp_all

theorem readString_unit {unit : Nat} (small : unit < 65536) {c : Char} {more rest : List Char}
    (taken : unitsChar unit more = (c, rest)) (fuel : Nat) :
    readString (fuel + 1) ('\\' :: 'u' :: (hex 4 unit ++ more)) =
      (readString fuel rest).map fun (chars, rest) => (c :: chars, rest) := by
  rw [readString]
  simp only [unit?_hex small, Option.bind_eq_bind, Option.bind_some, taken]
  cases readString fuel rest <;> rfl

theorem isReread_units (c : Char) (fuel : Nat) (rest : List Char) :
    readString (fuel + 1) (((units c).flatMap fun unit => '\\' :: 'u' :: hex 4 unit) ++ rest) =
      (readString fuel rest).map fun (chars, rest) => (c :: chars, rest) := by
  have bound : c.toNat < 0x110000 := by
    have valid : c.toNat < 0xd800 ∨ 0xdfff < c.toNat ∧ c.toNat < 0x110000 := c.valid
    omega
  unfold units
  split
  case isTrue small =>
    exact readString_unit small (unitsChar_toNat c rest) fuel
  case isFalse large =>
    simp only [List.flatMap_cons, List.flatMap_nil, List.append_nil, List.cons_append,
      List.append_assoc]
    exact readString_unit (by omega) (unitsChar_pair (not_lt.mp large) rest) fuel

theorem isReread (c : Char) : IsReread c := by
  intro fuel rest
  have escapes := escapes c
  generalize escapeChar c = printed at escapes
  cases escapes with
  | letter other known => exact readString_escaped other known fuel rest
  | plain printed quote slash => exact readString_plain printed.1 quote slash fuel rest
  | units => exact isReread_units c fuel rest

/-- The characters up to the closing quote are those that were printed. -/
theorem readString_flatMap (chars : List Char) {fuel : Nat} (long : chars.length < fuel)
    (rest : List Char) :
    readString fuel (chars.flatMap escapeChar ++ '"' :: rest) = some (chars, rest) := by
  obtain ⟨fuel, rfl⟩ := Nat.exists_eq_add_one_of_ne_zero (Nat.ne_zero_of_lt long)
  induction chars generalizing fuel with
  | nil => rfl
  | cons c chars ih =>
    have long : chars.length < fuel := by simpa using long
    obtain ⟨fuel, rfl⟩ := Nat.exists_eq_add_one_of_ne_zero (Nat.ne_zero_of_lt long)
    rw [List.flatMap_cons, List.append_assoc, isReread c, ih fuel long]
    rfl

/-! ### Printed characters -/

theorem isPrinted_of_isDigit {c : Char} (digit : c.isDigit = true) : IsPrinted c := by
  obtain ⟨low, high⟩ := Char.isDigit_iff_toNat.mp digit
  exact ⟨le_trans (by decide) low, lt_of_le_of_lt high (by decide)⟩

theorem isPrinted_hex (width n : Nat) : ∀ c ∈ hex width n, IsPrinted c := by
  have all : ∀ digit : Fin 16, IsPrinted (Nat.digitChar digit) := by decide +kernel
  induction width generalizing n with
  | zero => simp [hex]
  | succ width ih =>
    simp only [hex, List.mem_append, List.mem_singleton]
    rintro c (before | rfl)
    · exact ih _ c before
    · exact all ⟨n % 16, Nat.mod_lt _ (by decide)⟩

theorem isPrinted_units (c : Char) :
    ∀ x ∈ (units c).flatMap fun unit => '\\' :: 'u' :: hex 4 unit, IsPrinted x := by
  intro x member
  obtain ⟨unit, -, inside⟩ := List.mem_flatMap.mp member
  rcases List.mem_cons.mp inside with rfl | inside
  · decide
  · rcases List.mem_cons.mp inside with rfl | inside
    · decide
    · exact isPrinted_hex 4 unit x inside

theorem isPrinted_escapeChar (c : Char) : ∀ x ∈ escapeChar c, IsPrinted x := by
  have escapes := escapes c
  generalize escapeChar c = printed at escapes
  cases escapes with
  | letter other known printed => simpa using ⟨(by decide : IsPrinted '\\'), printed⟩
  | plain printed quote slash => simpa using printed
  | units => exact isPrinted_units c

theorem toList_stringText (s : String) :
    (stringText s).toList = '"' :: (s.toList.flatMap escapeChar ++ ['"']) := by
  rw [stringText, String.toList_ofList]
  rfl

theorem isPrinted_stringText (s : String) : ∀ c ∈ (stringText s).toList, IsPrinted c := by
  rw [toList_stringText]
  intro c member
  rcases List.mem_cons.mp member with rfl | inside
  · decide
  · rcases List.mem_append.mp inside with inside | last
    · obtain ⟨x, -, inside⟩ := List.mem_flatMap.mp inside
      exact isPrinted_escapeChar x c inside
    · rw [List.mem_singleton.mp last]
      decide

theorem length_le_flatMap (chars : List Char) : chars.length ≤ (chars.flatMap escapeChar).length := by
  induction chars with
  | nil => exact Nat.zero_le _
  | cons c chars ih =>
    have some : 0 < (escapeChar c).length := by
      have escapes := escapes c
      generalize escapeChar c = printed at escapes
      cases escapes with
      | units => unfold units; split <;> simp
      | _ => simp
    rw [List.flatMap_cons, List.length_append, List.length_cons]
    omega

end Reckon.Json
