/-!
UTF-8. Writing is total; reading stops at the first byte sequence that no character has, and says
where it lies and what is wrong with it.
-/
namespace LeadSheet.Text

/-- The bytes of a character. -/
def utf8Bytes (c : Char) : List UInt8 :=
  let n := c.toNat
  let tail (k : Nat) : UInt8 := UInt8.ofNat (0x80 + n / Nat.pow 64 k % 64)
  if n < 0x80 then [UInt8.ofNat n]
  else if n < 0x800 then [UInt8.ofNat (0xC0 + n / 64), tail 0]
  else if n < 0x10000 then [UInt8.ofNat (0xE0 + n / (64 * 64)), tail 1, tail 0]
  else [UInt8.ofNat (0xF0 + n / (64 * 64 * 64)), tail 2, tail 1, tail 0]

/-- The bytes of a text. -/
def utf8Encode (cs : List Char) : List UInt8 := cs.flatMap utf8Bytes

/-- What is wrong with a byte sequence. -/
inductive Utf8Problem where
  | startByte
  | continuationByte
  | endOfData
  deriving DecidableEq, Repr

/-- A byte sequence that is not UTF-8: the position of its first byte, that byte, and how many
bytes would begin a character. -/
structure Utf8Fault where
  position : Nat
  byte : UInt8
  length : Nat
  problem : Utf8Problem
  deriving DecidableEq, Repr

/-- Bytes that may follow the first byte of a character. -/
def isContinuation (b : UInt8) : Bool := 0x80 ≤ b && b < 0xC0

/-- Second bytes that fit the first byte: none that would spell a shorter character, a surrogate
or a code point above the last. -/
def fitsSecond (first second : UInt8) : Bool :=
  isContinuation second
    && (first != 0xE0 || 0xA0 ≤ second) && (first != 0xED || second < 0xA0)
    && (first != 0xF0 || 0x90 ≤ second) && (first != 0xF4 || second < 0x90)

/-- The character whose first byte holds `high` and whose other bytes follow. -/
def utf8Char (high : Nat) (tail : List UInt8) : Char :=
  Char.ofNat (tail.foldl (fun n b => n * 64 + (b.toNat - 0x80)) high)

/-- Reads the text of a byte sequence whose first byte stands at `position`. -/
def utf8DecodeFrom (position : Nat) : List UInt8 → Except Utf8Fault (List Char)
  | [] => .ok []
  | a :: rest =>
    if a < 0x80 then
      (utf8DecodeFrom (position + 1) rest).map (Char.ofNat a.toNat :: ·)
    else if a < 0xC2 || 0xF5 ≤ a then
      .error ⟨position, a, 1, .startByte⟩
    else match rest with
      | [] => .error ⟨position, a, 1, .endOfData⟩
      | b :: rest =>
        if !fitsSecond a b then .error ⟨position, a, 1, .continuationByte⟩
        else if a < 0xE0 then
          (utf8DecodeFrom (position + 2) rest).map (utf8Char (a.toNat - 0xC0) [b] :: ·)
        else match rest with
          | [] => .error ⟨position, a, 2, .endOfData⟩
          | c :: rest =>
            if !isContinuation c then .error ⟨position, a, 2, .continuationByte⟩
            else if a < 0xF0 then
              (utf8DecodeFrom (position + 3) rest).map (utf8Char (a.toNat - 0xE0) [b, c] :: ·)
            else match rest with
              | [] => .error ⟨position, a, 3, .endOfData⟩
              | d :: rest =>
                if !isContinuation d then .error ⟨position, a, 3, .continuationByte⟩
                else (utf8DecodeFrom (position + 4) rest).map
                  (utf8Char (a.toNat - 0xF0) [b, c, d] :: ·)

/-- Reads the text of a byte sequence. -/
def utf8Decode (bytes : List UInt8) : Except Utf8Fault (List Char) := utf8DecodeFrom 0 bytes

end LeadSheet.Text
