import LeadSheet.Text.Quoted
import LeadSheet.Text.Utf8

/-!
What can go wrong when a text is packed into bytes or unpacked again, with the message for each.
-/
namespace LeadSheet

/-- Causes of failure in packing and unpacking. Positions count bytes. -/
inductive PackFault where
  | negativeNumber (number : String)
  | numberReadsAsSign
  | textTooLong (start : String)
  | tooManyFields
  | unknownCommand (value : String)
  | unknownKind (kind : String)
  | invalidNote (note : String)
  | endOfData
  | invalidText (fault : Text.Utf8Fault)
  | badMagic
  | unsupportedVersion (version : Nat)
  | looseAccidental (position : Nat)
  | unexpectedByte (byte : UInt8) (position : Nat)
  | badReference (position : Nat)
  | endOfReferences
  | nonAsciiBase64
  | loneBase64Character (count : Nat)
  | base64Padding
  deriving DecidableEq, Repr

namespace PackFault

private def utf8Reason : Text.Utf8Problem → String
  | .startByte => "invalid start byte"
  | .continuationByte => "invalid continuation byte"
  | .endOfData => "unexpected end of data"

private def utf8Message (fault : Text.Utf8Fault) : String :=
  let what :=
    if fault.length = 1 then
      "byte 0x" ++ String.ofList (Text.hexPadded 2 fault.byte.toNat) ++ " in position "
        ++ toString fault.position
    else
      "bytes in position " ++ toString fault.position ++ "-"
        ++ toString (fault.position + fault.length - 1)
  "invalid text: 'utf-8' codec can't decode " ++ what ++ ": " ++ utf8Reason fault.problem

private def upperHex (b : UInt8) : String :=
  String.ofList ((Text.hexPadded 2 b.toNat).map Char.toUpper)

/-- The wording of each fault. -/
def message : PackFault → String
  | negativeNumber n => "negative number not allowed here: " ++ n
  | numberReadsAsSign => "number can't be encoded as a signed value"
  | textTooLong start => "text too long to encode: " ++ Text.quoted start
  | tooManyFields => "too many frontmatter fields"
  | unknownCommand value => "unknown command: " ++ value
  | unknownKind kind => "unknown token type: " ++ kind
  | invalidNote note => "invalid note: " ++ note
  | endOfData => "unexpected end of data"
  | invalidText fault => utf8Message fault
  | badMagic => "invalid LML compressed data: bad magic"
  | unsupportedVersion v => "unsupported compression version: " ++ toString v
  | looseAccidental p => "accidental not followed by a note at " ++ toString p
  | unexpectedByte b p => "unexpected byte 0x" ++ upperHex b ++ " at " ++ toString p
  | badReference p => "invalid LZ77 reference at " ++ toString p
  | endOfReferences => "unexpected end of LZ77 data"
  | nonAsciiBase64 =>
    "invalid base64 data: string argument should contain only ASCII characters"
  | loneBase64Character n =>
    "invalid base64 data: Invalid base64-encoded string: number of data characters ("
      ++ toString n ++ ") cannot be 1 more than a multiple of 4"
  | base64Padding => "invalid base64 data: Incorrect padding"

end PackFault
end LeadSheet
