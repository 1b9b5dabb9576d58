import LeadSheet.Failure
import LeadSheet.Text.CodePage

/-!
Encodings of text files, and the names they are known by. Whatever ends a line in the file, a
carriage return, a line feed or both, a line of the text ends with a line feed.
-/
namespace LeadSheet.Text

inductive Encoding where
  | utf8
  /-- UTF-8 behind a byte order mark, which may be missing -/
  | utf8Marked
  | ascii
  | latin1
  | utf16 (lowFirst : Bool)
  /-- UTF-16 behind a byte order mark, which tells the order -/
  | utf16Marked
  | utf32 (lowFirst : Bool)
  /-- UTF-32 behind a byte order mark, which tells the order -/
  | utf32Marked
  | page (page : CodePage)
  deriving DecidableEq, Repr

namespace Encoding

/-! ### Names -/

/-- An encoding with its name and the other names it is known by. -/
structure Entry where
  name : String
  aliases : List String
  encoding : Encoding

/-- The encodings other than code pages. -/
def basic : List Entry :=
  [⟨"utf_8", ["cp65001", "u8", "utf", "utf8", "utf8_ucs2", "utf8_ucs4"], utf8⟩,
   ⟨"utf_8_sig", [], utf8Marked⟩,
   ⟨"ascii", ["646", "ansi_x3.4_1968", "ansi_x3.4_1986", "ansi_x3_4_1968", "cp367", "csascii",
     "ibm367", "iso646_us", "iso_646.irv_1991", "iso_ir_6", "us", "us_ascii"], ascii⟩,
   ⟨"latin_1", ["8859", "cp819", "csisolatin1", "ibm819", "iso8859", "iso8859_1", "iso_8859_1",
     "iso_8859_1_1987", "iso_ir_100", "l1", "latin", "latin1"], latin1⟩,
   ⟨"utf_16", ["u16", "utf16"], utf16Marked⟩,
   ⟨"utf_16_le", ["unicodelittleunmarked", "utf_16le"], utf16 true⟩,
   ⟨"utf_16_be", ["unicodebigunmarked", "utf_16be"], utf16 false⟩,
   ⟨"utf_32", ["u32", "utf32"], utf32Marked⟩,
   ⟨"utf_32_le", ["utf_32le"], utf32 true⟩,
   ⟨"utf_32_be", ["utf_32be"], utf32 false⟩]

/-- All known encodings. -/
def entries : List Entry :=
  basic ++ CodePage.all.map fun p => ⟨p.name, p.aliases, .page p⟩

/-- A name in small letters, with low lines for what stands between its letters, digits and
points. The low line that stands in front waits for a further letter. -/
def plainName (waiting : Bool) : List Char → List Char
  | [] => []
  | c :: rest =>
    if c.isAlphanum || c = '.' then
      (if waiting then ['_', c.toLower] else [c.toLower]) ++ plainName false rest
    else plainName true rest

/-- The name that a name stands for; what stands in front of it does not matter. -/
def normalName (name : String) : String :=
  String.ofList (plainName false (name.toList.dropWhile fun c => !(c.isAlphanum || c = '.')))

/-- The encoding with a name. In the other names points may stand for low lines. -/
def named (name : String) : Except Failure Encoding :=
  let plain := normalName name
  let pointless := plain.map fun c => if c = '.' then '_' else c
  let found := entries.find? fun e =>
    e.name = plain || e.aliases.contains plain || e.aliases.contains pointless
  match found with
  | some e => .ok e.encoding
  | none => .error .unknownEncoding

/-! ### Characters -/

/-- The characters of UTF-8 that may stand behind a byte order mark. The start of a mark alone is
no text yet. -/
def decodeMarked? : List UInt8 → Option (List Char)
  | [0xEF] | [0xEF, 0xBB] => some []
  | 0xEF :: 0xBB :: 0xBF :: rest => (utf8Decode rest).toOption
  | bytes => (utf8Decode bytes).toOption

/-- The 16-bit units of a text. An odd byte at the end is none. -/
def units16? (lowFirst : Bool) : List UInt8 → Option (List Nat)
  | [] => some []
  | [_] => none
  | a :: b :: rest =>
    let unit := if lowFirst then a.toNat + 256 * b.toNat else 256 * a.toNat + b.toNat
    (units16? lowFirst rest).map (unit :: ·)

/-- The characters of 16-bit units. Surrogates must come in pairs. -/
def ofUnits? : List Nat → Option (List Char)
  | [] => some []
  | u :: rest =>
    if u < 0xD800 || 0xE000 ≤ u then (ofUnits? rest).map (Char.ofNat u :: ·)
    else match rest with
      | v :: rest =>
        if u < 0xDC00 && 0xDC00 ≤ v && v < 0xE000 then
          let n := 0x10000 + (u - 0xD800) * 0x400 + (v - 0xDC00)
          (ofUnits? rest).map (Char.ofNat n :: ·)
        else none
      | [] => none

/-- The characters of UTF-16. -/
def decode16? (lowFirst : Bool) (bytes : List UInt8) : Option (List Char) :=
  units16? lowFirst bytes >>= ofUnits?

/-- The characters of UTF-32. -/
def decode32? (lowFirst : Bool) : List UInt8 → Option (List Char)
  | [] => some []
  | a :: b :: c :: d :: rest =>
    let number (a b c d : UInt8) : Nat :=
      a.toNat + 256 * (b.toNat + 256 * (c.toNat + 256 * d.toNat))
    let n := if lowFirst then number a b c d else number d c b a
    if n.isValidChar then (decode32? lowFirst rest).map (Char.ofNat n :: ·) else none
  | _ => none

/-- Bytes that do not make a text fail. -/
def orUndecodable (text : Option (List Char)) : Except Failure (List Char) :=
  text.elim (.error .undecodable) .ok

/-- A text without the mark that it needs. That it is no text in either case is noticed first. -/
def unmarked (text : Option (List Char)) : Except Failure (List Char) := do
  match ← orUndecodable text with
  | [] => return []
  | _ => throw .noByteOrderMark

/-- The characters that bytes stand for. -/
def decode (encoding : Encoding) (bytes : List UInt8) : Except Failure (List Char) :=
  match encoding with
  | utf8 => orUndecodable (utf8Decode bytes).toOption
  | utf8Marked => orUndecodable (decodeMarked? bytes)
  | ascii =>
    if bytes.all (· < 0x80) then .ok (bytes.map fun b => Char.ofNat b.toNat)
    else .error .undecodable
  | latin1 => .ok (bytes.map fun b => Char.ofNat b.toNat)
  | utf16 lowFirst => orUndecodable (decode16? lowFirst bytes)
  | utf16Marked =>
    match bytes with
    | 0xFF :: 0xFE :: rest => orUndecodable (decode16? true rest)
    | 0xFE :: 0xFF :: rest => orUndecodable (decode16? false rest)
    | bytes => unmarked (decode16? true bytes)
  | utf32 lowFirst => orUndecodable (decode32? lowFirst bytes)
  | utf32Marked =>
    match bytes with
    | 0xFF :: 0xFE :: 0x00 :: 0x00 :: rest => orUndecodable (decode32? true rest)
    | 0x00 :: 0x00 :: 0xFE :: 0xFF :: rest => orUndecodable (decode32? false rest)
    | bytes => unmarked (decode32? true bytes)
  | page p => orUndecodable (p.decode? bytes)

end Encoding

/-- The characters with a line feed at every end of a line. -/
def unifyLineEnds : List Char → List Char
  | [] => []
  | '\r' :: '\n' :: rest => '\n' :: unifyLineEnds rest
  | '\r' :: rest => '\n' :: unifyLineEnds rest
  | c :: rest => c :: unifyLineEnds rest

/-- The text of a file. -/
def ofFile (encoding : Encoding) (bytes : List UInt8) : Except Failure String := do
  return String.ofList (unifyLineEnds (← encoding.decode bytes))

end LeadSheet.Text
