import PocketLisp.Error.Basic

/-!
Decoding UTF-8. The first byte of a character says how many follow it and which second bytes are
allowed, so that no character has two encodings and no code point is out of range.
-/
namespace PocketLisp.Text

/-- How a character goes on after its first byte: its bits, the range of the second byte, and the
number of bytes after the second one. -/
structure Utf8Lead where
  bits : Nat
  least : Nat
  greatest : Nat
  more : Nat

/-- The characters of several bytes, by their first byte. -/
def utf8Lead? (b : Nat) : Option Utf8Lead :=
  if b < 0xC2 then none
  else if b < 0xE0 then some ⟨b - 0xC0, 0x80, 0xBF, 0⟩
  else if b < 0xF0 then
    some ⟨b - 0xE0, if b = 0xE0 then 0xA0 else 0x80, if b = 0xED then 0x9F else 0xBF, 1⟩
  else if b < 0xF5 then
    some ⟨b - 0xF0, if b = 0xF0 then 0x90 else 0x80, if b = 0xF4 then 0x8F else 0xBF, 2⟩
  else none

inductive Utf8Break where
  | ended
  | wrongByte
  deriving DecidableEq

/-- The bytes after the second one: the bits so far with theirs, and the bytes left; or the fault
and the number of bytes that were right. -/
def utf8Tail (bits right : Nat) : Nat → List UInt8 → Except (Utf8Break × Nat) (Nat × List UInt8)
  | 0, bs => .ok (bits, bs)
  | _ + 1, [] => .error (.ended, right)
  | more + 1, b :: bs =>
    if 0x80 ≤ b.toNat ∧ b.toNat ≤ 0xBF then
      utf8Tail (bits * 64 + (b.toNat - 0x80)) (right + 1) more bs
    else .error (.wrongByte, right)

def utf8Rest (lead : Utf8Lead) : List UInt8 → Except (Utf8Break × Nat) (Nat × List UInt8)
  | [] => .error (.ended, 1)
  | b :: bs =>
    if lead.least ≤ b.toNat ∧ b.toNat ≤ lead.greatest then
      utf8Tail (lead.bits * 64 + (b.toNat - 0x80)) 2 lead.more bs
    else .error (.wrongByte, 1)

/-- The first character from a position on, and the bytes left. The bytes at fault are those that
were right so far; at the end of the bytes, all that are left. -/
def utf8Char (position : Nat) (b : UInt8) (bs : List UInt8) :
    Except Undecodable (Char × List UInt8) :=
  if b.toNat < 0x80 then .ok (Char.ofNat b.toNat, bs)
  else
    match utf8Lead? b.toNat with
    | none => .error ⟨b, position, position + 1, "invalid start byte"⟩
    | some lead =>
      match utf8Rest lead bs with
      | .ok (code, rest) => .ok (Char.ofNat code, rest)
      | .error (.ended, _) =>
        .error ⟨b, position, position + bs.length + 1, "unexpected end of data"⟩
      | .error (.wrongByte, right) =>
        .error ⟨b, position, position + right, "invalid continuation byte"⟩

/-- The characters of bytes, with a bound on their number. A character that was decoded has taken as
many bytes as it is encoded with. -/
def utf8CharsUpTo : (bound position : Nat) → List UInt8 → Except Undecodable (List Char)
  | _, _, [] => .ok []
  | 0, _, _ :: _ => .ok []
  | bound + 1, position, b :: bs =>
    match utf8Char position b bs with
    | .error fault => .error fault
    | .ok (c, rest) => (utf8CharsUpTo bound (position + c.utf8Size) rest).map (c :: ·)

/-- The text that bytes encode. There are no more characters than bytes. -/
def decodeUtf8 (bytes : List UInt8) : Except Undecodable String :=
  (utf8CharsUpTo bytes.length 0 bytes).map String.ofList

/-- Carriage returns, and those followed by a newline, as newlines. -/
def plainNewlines : List Char → List Char
  | [] => []
  | '\r' :: '\n' :: cs => '\n' :: plainNewlines cs
  | '\r' :: cs => '\n' :: plainNewlines cs
  | c :: cs => c :: plainNewlines cs

end PocketLisp.Text
