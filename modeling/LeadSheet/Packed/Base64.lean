import LeadSheet.Packed.Code
import LeadSheet.Text.Blank

/-!
Bytes in letters, digits, `-` and `_`, six bits in a character, without padding. The reader accepts
padding, the two signs `+` and `/` of the other alphabet, and passes over characters that are in
none.
-/
namespace LeadSheet.Packed

/-- The characters of the alphabet, by their values. -/
def alphabet : List Char :=
  "ABCDEFGHIJKLMNOPQRSTUVWXYZabcdefghijklmnopqrstuvwxyz0123456789-_".toList

/-- The character of a value. -/
def digitChar (n : Nat) : Char := alphabet.getD n 'A'

/-- The characters of bytes. -/
def writeBase64 : Bytes → List Char
  | [] => []
  | [a] => [digitChar (a.toNat / 4), digitChar (a.toNat % 4 * 16)]
  | [a, b] =>
    [digitChar (a.toNat / 4), digitChar (a.toNat % 4 * 16 + b.toNat / 16),
     digitChar (b.toNat % 16 * 4)]
  | a :: b :: c :: rest =>
    digitChar (a.toNat / 4) :: digitChar (a.toNat % 4 * 16 + b.toNat / 16)
      :: digitChar (b.toNat % 16 * 4 + c.toNat / 64) :: digitChar (c.toNat % 64)
      :: writeBase64 rest

/-- The value of a character in one of the alphabets. -/
def digitOf? (c : Char) : Option Nat :=
  if 'A' ≤ c && c ≤ 'Z' then some (c.toNat - 65)
  else if 'a' ≤ c && c ≤ 'z' then some (c.toNat - 71)
  else if '0' ≤ c && c ≤ '9' then some (c.toNat + 4)
  else if c = '-' || c = '+' then some 62
  else if c = '_' || c = '/' then some 63
  else none

/-- What has been read: the bytes, last first, and how far the last group of four has come. -/
structure Base64Reader where
  bytes : Bytes
  /-- characters of the group that have been read -/
  group : Nat
  /-- padding signs at the end of the group -/
  pads : Nat
  /-- the bits that have not made a byte yet -/
  held : Nat
  deriving DecidableEq, Repr

namespace Base64Reader

def start : Base64Reader := ⟨[], 0, 0, 0⟩

/-- Takes the value of a character. -/
def take (r : Base64Reader) (n : Nat) : Base64Reader :=
  let byte (bits : Nat) : Bytes := UInt8.ofNat bits :: r.bytes
  match r.group with
  | 0 => ⟨r.bytes, 1, 0, n⟩
  | 1 => ⟨byte (r.held * 4 + n / 16), 2, 0, n % 16⟩
  | 2 => ⟨byte (r.held * 16 + n / 4), 3, 0, n % 4⟩
  | _ => ⟨byte (r.held * 64 + n), 0, 0, 0⟩

/-- The bytes at the end of the text. A group must not be left open. -/
def finish (r : Base64Reader) : Except PackFault Bytes :=
  match r.group with
  | 0 => .ok r.bytes.reverse
  | 1 => .error (.loneBase64Character (r.bytes.length / 3 * 4 + 1))
  | _ => .error .base64Padding

/-- Reads characters. Padding that fills a group ends the text. -/
def read (r : Base64Reader) : List Char → Except PackFault Bytes
  | [] => r.finish
  | '=' :: rest =>
    if 2 ≤ r.group then
      if 4 ≤ r.group + (r.pads + 1) then .ok r.bytes.reverse
      else { r with pads := r.pads + 1 }.read rest
    else r.read rest
  | c :: rest =>
    match digitOf? c with
    | none => r.read rest
    | some n => (r.take n).read rest

end Base64Reader

/-- The text without blanks around it and without padding at its end. -/
def withoutPadding (cs : List Char) : List Char :=
  ((Text.trim cs).reverse.dropWhile (· = '=')).reverse

/-- The text padded to a multiple of four characters. -/
def padded (cs : List Char) : List Char :=
  cs ++ List.replicate ((4 - cs.length % 4) % 4) '='

/-- The bytes that characters stand for. -/
def readBase64 (cs : List Char) : Except PackFault Bytes :=
  let cs := withoutPadding cs
  if cs.all fun c => c.toNat < 0x80 then Base64Reader.start.read (padded cs)
  else .error .nonAsciiBase64

end LeadSheet.Packed
