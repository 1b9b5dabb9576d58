import LeadSheet.Markup.SyntaxFault
import LeadSheet.Packed.Fault
import LeadSheet.Text.DecimalDigit

/-!
The causes for which an operation of the library gives no answer, and their wording.
-/
namespace LeadSheet

/-- Why there is no answer. -/
inductive Failure where
  /-- a note name without letter, accidental and octave in this order -/
  | noPitch (note : String)
  /-- a note name that does not start with a letter -/
  | noLetter (note : String)
  /-- a note name that is more than a letter with an accidental -/
  | notBareLetter (note : String)
  /-- a note name that no key signature can alter -/
  | noKeyLetter (note : String)
  | noRoot (root : String)
  | unknownShape (shape : String)
  | missingIntervals
  | notInScale (note root : String)
  | notDominant (shape : Option String)
  | noDominantTargets (noteCount : String)
  /-- no strategy has a name that is shown like this -/
  | unknownStrategy (shown : String)
  | missingBeats
  | noChordMarkers
  /-- the base of the strategies has no pattern of its own -/
  | noPattern
  | negativeDots
  | notANumber
  | notAnInteger (text : String)
  | notARatio (text : String)
  /-- a number with more digits than are read -/
  | tooManyDigits (count : Nat)
  | tooFewParts (expected found : Nat)
  | tooManyParts (expected : Nat)
  | invalidNoteCode (note : String)
  | notAByte
  | divisionByZero
  | overflow
  | outOfRange
  | missingKey
  | wrongType
  /-- data of a kind that has not got what it is asked for -/
  | noAttribute
  | undecodable
  /-- a text that has to tell the order of its bytes does not -/
  | noByteOrderMark
  | unknownEncoding
  | malformed (fault : SyntaxFault)
  | packing (fault : PackFault)
  deriving DecidableEq, Repr

namespace Failure

/-- The wording of a failure. Those that stand for a misuse of the interface have none. -/
def message : Failure → String
  | noPitch note => "parse_note: invalid note format '" ++ note ++ "'"
  | noLetter note => "invalid note format '" ++ note ++ "'"
  | notBareLetter note => "invalid note letter '" ++ note ++ "'"
  | noKeyLetter note => "can't unconvert note '" ++ note ++ "'"
  | noRoot root => "scale root not properly formed: " ++ root
  | unknownShape shape => "unknown chord shape: " ++ shape
  | missingIntervals => "missing intervals for chord"
  | notInScale note root => note ++ " is not in scale " ++ root
  | notDominant shape => "chord is not dominant to begin with: " ++ shape.getD "None"
  | noDominantTargets n =>
    "don't know how to get secondary dominant for note count: " ++ n
  | unknownStrategy shown => "unknown auto chords generator: " ++ shown
  | missingBeats => "missing beats per measure for auto chords"
  | noChordMarkers => "song has no chord markers"
  | negativeDots => "negative shift count"
  | notANumber => "cannot convert float NaN to integer"
  | notAnInteger text =>
    "invalid literal for int() with base 10: " ++ String.ofList ((Text.quoted text).toList.take 200)
  | notARatio text => "Invalid literal for Fraction: " ++ Text.quoted text
  | tooManyDigits count =>
    "Exceeds the limit (" ++ toString Text.digitLimit
      ++ " digits) for integer string conversion: value has " ++ toString count
      ++ " digits; use sys.set_int_max_str_digits() to increase the limit"
  | tooFewParts expected found =>
    "not enough values to unpack (expected " ++ toString expected ++ ", got " ++ toString found
      ++ ")"
  | tooManyParts expected =>
    "too many values to unpack (expected " ++ toString expected ++ ")"
  | invalidNoteCode note => "invalid note: " ++ note
  | notAByte => "bytes must be in range(0, 256)"
  | malformed fault => fault.message
  | packing fault => fault.message
  | noPattern | divisionByZero | overflow | outOfRange | missingKey | wrongType | noAttribute
  | undecodable | noByteOrderMark | unknownEncoding => ""

end Failure
end LeadSheet
