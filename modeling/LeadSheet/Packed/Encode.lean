import LeadSheet.Number.Basic
import LeadSheet.Number.IntegerText
import LeadSheet.Packed.Token
import LeadSheet.Packed.Varint

/-!
Packing: the bytes of tokens. They start with two letters, and a byte with the version and whether
there are fields; the fields come first, then the other tokens one after the other.
-/
namespace LeadSheet.Packed

/-- The first two bytes. -/
def magic : Bytes := [0x4C, 0x4D]

/-- The version, which stands in the high half of its byte. -/
def version : Nat := 1

/-- A result that can only fail in packing. -/
def packed (r : Except PackFault α) : Except Failure α := r.mapError .packing

/-- The bytes of a number of any kind, of which only the whole ones have some. That a number must
not be negative is noticed first. -/
def writeNumber (n : Number) (signed : Bool) : Except Failure Bytes :=
  match n with
  | .whole n => packed (if signed then writeSigned n else writeUnsigned n)
  | n => .error (if n.lt 0 && !signed then .packing (.negativeNumber n.text) else .wrongType)

/-- A length in a number of bytes, the lowest first. -/
def writeLength (n : Nat) : Nat → Bytes
  | 0 => []
  | size + 1 => UInt8.ofNat n :: writeLength (n / 256) size

/-- The bytes of a text behind their number, which is written in `size` bytes. -/
def writeText (text : String) (size : Nat) : Except PackFault Bytes :=
  let bytes := Text.utf8Encode text.toList
  if Nat.pow 256 size ≤ bytes.length then
    .error (.textTooLong (String.ofList (text.toList.take 20)))
  else .ok (writeLength bytes.length size ++ bytes)

/-- The code of a name in a table. -/
def codeOf (codes : List (String × UInt8)) (name : String) : Except Failure UInt8 :=
  match codes.lookup name with
  | some code => .ok code
  | none => .error .missingKey

/-- The bytes of a multiplier: a code of its own, or that of its sign and a number. -/
def writeMultiplier (text : String) : Except Failure Bytes :=
  match modifierCodes.lookup text with
  | some code => .ok [code]
  | none => do
    let code ← codeOf modifierCodes (String.ofList (text.toList.take 1))
    let n ← IntegerText.read (text.toList.drop 1)
    return code :: (← packed (writeUnsigned n))

/-- The bytes of dots, in pairs as far as possible. -/
def writeDots (n : Int) : Bytes :=
  List.replicate (n / 2).toNat 0x8B ++ (if n % 2 = 1 then [0x8A] else [])

/-- The bytes of a timing. -/
def writeTiming (t : TokenTiming) : Except Failure Bytes := do
  let multiplier ← match t.multiplier with
    | none | some "" => pure []
    | some text => writeMultiplier text
  let start ← match t.start with
    | none => pure []
    | some n => do pure (0x8C :: (← packed (writeUnsigned n)))
  return multiplier ++ (t.dots.map writeDots).getD [] ++ start

/-- The bytes of a number that is written in a text. -/
def writeDigits (digits : List Char) : Except Failure Bytes := do
  packed (writeUnsigned (← IntegerText.read digits))

/-- The bytes of a count, which may be left out. -/
def writeCount (digits : List Char) : Except Failure Bytes :=
  if digits = [] then .ok [] else do return countCode :: (← writeDigits digits)

/-- The two numbers of a time signature. -/
def splitSignature (cs : List Char) : Except Failure (List Char × List Char) :=
  match cs.splitOn '/' with
  | [beats, unit] => .ok (beats, unit)
  | [_] => .error (.tooFewParts 2 1)
  | _ => .error (.tooManyParts 2)

/-- The bytes of a command. Words with numbers are known by how they start, others as a whole. -/
def writeCommand (text : String) : Except Failure Bytes :=
  match text.toList with
  | 'k' :: 's' :: digits => do
    return 0x09 :: (← packed (writeSigned (← IntegerText.read digits)))
  | 't' :: 's' :: tail => do
    let (beats, unit) ← splitSignature tail
    let beats ← writeDigits beats
    return 0x0A :: (beats ++ (← writeDigits unit))
  | 'd' :: 't' :: digits => do return 0x05 :: (← writeCount digits)
  | 'h' :: 't' :: digits => do return 0x06 :: (← writeCount digits)
  | 't' :: 't' :: digits => do return 0x07 :: (← writeCount digits)
  | 'm' :: digits => do return 0x01 :: (← writeCount digits)
  | 't' :: digits => do return 0x0B :: (← writeDigits digits)
  | cs =>
    match commandCodes.lookup (String.ofList (Text.lower cs)) with
    | some code => .ok [code]
    | none => .error (.packing (.unknownCommand text))

/-- The byte of a note. -/
def writeNoteByte (letter : String) : Option Int → Except Failure UInt8
  | none =>
    match letterIndex? letter with
    | some index => .ok (firstNote + UInt8.ofNat index)
    | none => .error .missingKey
  | some octave =>
    match octaveNoteCode? letter octave with
    | some code => .ok code
    | none => .error (.packing (.invalidNote (letter ++ toString octave)))

/-- The bytes of a token. Fields have none here: they stand in front of all others. -/
def writeToken : Token → Except Failure Bytes
  | .field _ _ => .ok []
  | .opening _ => .ok [0x02]
  | .closing _ => .ok [0x03]
  | .bar _ => .ok [0x04]
  | .note _ letter accidental octave timing => do
    let mark ← match accidental with
      | none | some "" => pure []
      | some sign => do pure [← codeOf modifierCodes sign]
    let note ← writeNoteByte letter octave
    return mark ++ note :: (← writeTiming timing)
  | .rest _ timing => do return 0x08 :: (← writeTiming timing)
  | .command text => writeCommand text
  | .chord text => do
    return 0x0F :: (← packed (writeText (String.ofList (text.toList.drop 1)) 1))
  | .string text => do return stringCode :: (← packed (writeText text 2))
  | .other kind _ => .error (.packing (.unknownKind kind))

/-- The fields among tokens. -/
def fieldsOf (tokens : List Token) : List (String × String) :=
  tokens.filterMap fun token => match token with
    | .field key value => some (key, value)
    | _ => none

/-- The bytes of a field. -/
def writeField (field : String × String) : Except PackFault Bytes := do
  let key ← writeText field.1 1
  return key ++ (← writeText field.2 1)

/-- The byte with the version and whether there are fields, and the fields. -/
def writeHead (fields : List (String × String)) : Except PackFault Bytes := do
  let mark := UInt8.ofNat (version * 16)
  if fields.isEmpty then return [mark]
  if 255 < fields.length then throw .tooManyFields
  return (mark + 1) :: UInt8.ofNat fields.length :: (← fields.mapM writeField).flatten

/-- The bytes of tokens. -/
def encode (tokens : List Token) : Except Failure Bytes := do
  let head ← packed (writeHead (fieldsOf tokens))
  return magic ++ head ++ (← tokens.mapM writeToken).flatten

end LeadSheet.Packed
