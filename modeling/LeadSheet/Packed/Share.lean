import LeadSheet.Packed.BackReference
import LeadSheet.Packed.Base64
import LeadSheet.Packed.Decode

/-!
Texts as short strings that can be part of a link, and back. The text that comes back has the same
tokens.
-/
namespace LeadSheet

/-- The short string of a text, with or without back-references. -/
def compress (text : String) (references : Bool) : Except Failure String := do
  let bytes ← Packed.encode (tokens text)
  return String.ofList (Packed.writeBase64 (if references then Packed.shorten bytes else bytes))

/-- The short string of a text, unless it has a number with too many digits. -/
def checkedCompress (text : String) (references : Bool) : Except Failure String := do
  let _ ← checkedTokens text
  compress text references

/-- The text of a short string. Whether there are back-references must be known. -/
def decompress (text : String) (references : Bool) : Except PackFault String := do
  let bytes ← Packed.readBase64 text.toList
  let bytes ← if references then Packed.restore bytes else pure bytes
  return Token.write (← Packed.decode bytes)

end LeadSheet
