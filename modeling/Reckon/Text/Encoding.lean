/-!
Text as bytes. Decoding tells where the bytes stop making sense. A reader may let halves
of surrogate pairs pass; they stand for no character and are replaced.
-/

namespace Reckon.Text

abbrev Bytes := List UInt8

def encode (s : String) : Bytes :=
  s.toList.flatMap String.utf8EncodeChar

inductive DecodeReason where
  | start
  | continuation
  | truncated
  deriving DecidableEq

structure DecodeError where
  lead : UInt8
  first : Nat
  count : Nat
  reason : DecodeReason
  deriving DecidableEq

namespace DecodeError

def reasonText (e : DecodeError) : String :=
  match e.reason with
  | .start => "invalid start byte"
  | .continuation => "invalid continuation byte"
  | .truncated => "unexpected end of data"

def message (e : DecodeError) : String :=
  if e.count = 1 then
    let digits := String.ofList (Nat.toDigits 16 e.lead.toNat)
    s!"'utf-8' codec can't decode byte 0x{digits} in position {e.first}: {e.reasonText}"
  else
    s!"'utf-8' codec can't decode bytes in position {e.first}-{e.first + e.count - 1}: " ++
      e.reasonText

end DecodeError

/-- What a first byte announces: its own bits, the number of further bytes, and the least
and greatest second byte. -/
def announced? (surrogates : Bool) (lead : Nat) : Option (Nat × Nat × Nat × Nat) :=
  if lead < 0x80 then some (lead, 0, 0, 0)
  else if lead < 0xc2 then none
  else if lead < 0xe0 then some (lead - 0xc0, 1, 0x80, 0xbf)
  else if lead < 0xf0 then
    some (lead - 0xe0, 2, if lead = 0xe0 then 0xa0 else 0x80,
      if lead = 0xed ∧ !surrogates then 0x9f else 0xbf)
  else if lead < 0xf5 then
    some (lead - 0xf0, 3, if lead = 0xf0 then 0x90 else 0x80, if lead = 0xf4 then 0x8f else 0xbf)
  else none

/-- The character of a code point; halves of surrogate pairs are replaced. -/
def charOf (code : Nat) : Char :=
  if 0xd800 ≤ code ∧ code < 0xe000 then '\ufffd' else Char.ofNat code

structure Decoded where
  char : Char
  count : Nat
  rest : Bytes

/-- Reads `more` further bytes of a character; `low` and `high` bound the next one. On
failure tells how many bytes were read before. -/
def continued (more value low high read : Nat) (bytes : Bytes) :
    Except (Nat × DecodeReason) Decoded :=
  match more, bytes with
  | 0, _ => .ok ⟨charOf value, read, bytes⟩
  | _ + 1, [] => .error (read, .truncated)
  | more + 1, b :: rest =>
    if low ≤ b.toNat ∧ b.toNat ≤ high then
      continued more (value * 64 + (b.toNat - 0x80)) 0x80 0xbf (read + 1) rest
    else .error (read, .continuation)

def decodeChar (surrogates : Bool) (position : Nat) (lead : UInt8) (rest : Bytes) :
    Except DecodeError Decoded :=
  match announced? surrogates lead.toNat with
  | none => .error ⟨lead, position, 1, .start⟩
  | some (value, more, low, high) =>
    (continued more value low high 1 rest).mapError fun (count, reason) =>
      ⟨lead, position, count, reason⟩

def decodeFrom (surrogates : Bool) (position : Nat) (before : List Char) :
    Nat → Bytes → Except DecodeError (List Char)
  | _, [] => .ok before.reverse
  | 0, _ => .ok before.reverse
  | fuel + 1, lead :: rest =>
    match decodeChar surrogates position lead rest with
    | .error e => .error e
    | .ok found =>
      decodeFrom surrogates (position + found.count) (found.char :: before) fuel found.rest

def decodeChars (surrogates : Bool) (bytes : Bytes) : Except DecodeError (List Char) :=
  decodeFrom surrogates 0 [] bytes.length bytes

def decode (bytes : Bytes) : Except DecodeError String :=
  (decodeChars false bytes).map String.ofList

def joinUnits : List Nat → List Char
  | high :: low :: rest =>
    if 0xd800 ≤ high ∧ high < 0xdc00 ∧ 0xdc00 ≤ low ∧ low < 0xe000 then
      Char.ofNat (0x10000 + (high - 0xd800) * 0x400 + (low - 0xdc00)) :: joinUnits rest
    else charOf high :: joinUnits (low :: rest)
  | [unit] => [charOf unit]
  | [] => []

def units16? (bigEndian : Bool) : Bytes → Option (List Nat)
  | a :: b :: rest =>
    let unit := if bigEndian then a.toNat * 256 + b.toNat else b.toNat * 256 + a.toNat
    (units16? bigEndian rest).map (unit :: ·)
  | [_] => none
  | [] => some []

def units32? (bigEndian : Bool) : Bytes → Option (List Nat)
  | a :: b :: c :: d :: rest =>
    let number (w x y z : UInt8) := ((w.toNat * 256 + x.toNat) * 256 + y.toNat) * 256 + z.toNat
    let code := if bigEndian then number a b c d else number d c b a
    if code < 0x110000 then (units32? bigEndian rest).map (code :: ·) else none
  | [] => some []
  | _ => none

inductive Encoding where
  | utf8
  | utf16 (bigEndian : Bool)
  | utf32 (bigEndian : Bool)

namespace Encoding

/-- The characters of some bytes. Halves of surrogate pairs pass. -/
def chars? : Encoding → Bytes → Option (List Char)
  | utf8, bytes => (decodeChars true bytes).toOption
  | utf16 bigEndian, bytes => (units16? bigEndian bytes).map joinUnits
  | utf32 bigEndian, bytes => (units32? bigEndian bytes).map (·.map charOf)

/-- The bytes with which a text can tell its encoding. A mark stands before those that it
starts with. -/
def marks : List (Bytes × Encoding) := [
  ([0x00, 0x00, 0xfe, 0xff], utf32 true),
  ([0xff, 0xfe, 0x00, 0x00], utf32 false),
  ([0xfe, 0xff], utf16 true),
  ([0xff, 0xfe], utf16 false),
  ([0xef, 0xbb, 0xbf], utf8)]

/-- The encoding of bytes without a mark. Text starts with ASCII, so zeros among the first
four bytes tell it. -/
def ofZeros : Bytes → Encoding
  | a :: b :: c :: d :: _ =>
    if a = 0 then (if b ≠ 0 then utf16 true else utf32 true)
    else if b = 0 then (if c ≠ 0 ∨ d ≠ 0 then utf16 false else utf32 false)
    else utf8
  | [a, b] => if a = 0 then utf16 true else if b = 0 then utf16 false else utf8
  | _ => utf8

end Encoding

/-- The characters of bytes whose encoding is told by a mark or by zeros among the first
four of them, or else is UTF-8. -/
def decodeDetected? (bytes : Bytes) : Option (List Char) :=
  match Encoding.marks.find? (·.1.isPrefixOf bytes) with
  | some (mark, encoding) => encoding.chars? (bytes.drop mark.length)
  | none => (Encoding.ofZeros bytes).chars? bytes

end Reckon.Text
