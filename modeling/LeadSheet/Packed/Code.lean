import LeadSheet.Failure
import LeadSheet.Text.LowerCase

/-!
The byte codes of packed lead sheets. Every kind of thing has a range of its own, so that the first
byte tells what follows.
-/
namespace LeadSheet

abbrev Bytes := List UInt8

namespace Packed

/-- The codes of commands. -/
def commandCodes : List (String × UInt8) :=
  [("m", 0x01), ("\x7b", 0x02), ("\x7d", 0x03), ("|", 0x04), ("dt", 0x05), ("ht", 0x06),
   ("tt", 0x07), ("r", 0x08), ("ks", 0x09), ("ts", 0x0A), ("t", 0x0B), ("/g", 0x0C), ("/c", 0x0D),
   ("/f", 0x0E), ("$", 0x0F)]

/-- The codes of accidentals and of what stands behind notes and rests. -/
def modifierCodes : List (String × UInt8) :=
  [("+", 0x80), ("-", 0x81), ("=", 0x82), ("*2", 0x83), ("*3", 0x84), ("*4", 0x85), ("*5", 0x86),
   ("*6", 0x87), ("/2", 0x88), ("/4", 0x89), (".", 0x8A), ("..", 0x8B), ("@", 0x8C), ("*", 0x8D),
   ("/", 0x8E)]

/-- The letters of notes, in the order of their codes. -/
def noteLetters : List Char := ['c', 'd', 'e', 'f', 'g', 'a', 'b']

/-- The code of the first letter without an octave. -/
def firstNote : UInt8 := 0x10

/-- The code of the first letter in octave zero. -/
def firstOctaveNote : UInt8 := 0x20

/-- Stands before a string. -/
def stringCode : UInt8 := 0x91

/-- Stands before the digits of a negative number. -/
def negativeCode : UInt8 := 0x94

/-- Stands before the count of a command that may have one. -/
def countCode : UInt8 := 0x95

/-- Stands before a byte that would be read as something else. -/
def escapeCode : UInt8 := 0xFF

/-- The name that a code has in a table. -/
def nameOf? (codes : List (String × UInt8)) (b : UInt8) : Option String :=
  (codes.find? fun entry => entry.2 = b).map Prod.fst

def isCommand (b : UInt8) : Bool := 0x01 ≤ b && b ≤ 0x0F

/-- Notes without an octave. -/
def isNote (b : UInt8) : Bool := firstNote ≤ b && b ≤ 0x16

/-- Notes with an octave from 0 to 9. -/
def isOctaveNote (b : UInt8) : Bool := firstOctaveNote ≤ b && b ≤ 0x65

def isModifier (b : UInt8) : Bool := 0x80 ≤ b && b ≤ 0x8E

def isAccidental (b : UInt8) : Bool := 0x80 ≤ b && b ≤ 0x82

/-- Two bytes that stand for a short stretch of bytes not far before. -/
def isShortReference (b : UInt8) : Bool := 0xA0 ≤ b && b ≤ 0xBF

/-- Three bytes that stand for a stretch of bytes before. -/
def isMediumReference (b : UInt8) : Bool := 0xC0 ≤ b && b ≤ 0xDF

def isReference (b : UInt8) : Bool := isShortReference b || isMediumReference b

/-- The place of a letter, small or capital, among the letters of notes. -/
def letterIndex? (letter : String) : Option Nat :=
  match letter.toList with
  | [c] =>
    match Text.lower [c] with
    | [small] => noteLetters.idxOf? small
    | _ => none
  | _ => none

/-- The code of a letter in an octave. -/
def octaveNoteCode? (letter : String) (octave : Int) : Option UInt8 := do
  let index ← letterIndex? letter
  if 0 ≤ octave && octave ≤ 9 then
    some (firstOctaveNote + UInt8.ofNat (octave.toNat * 7 + index))
  else none

/-- The letter and the octave of a code. -/
def octaveNoteOf? (b : UInt8) : Option (String × Nat) :=
  if isOctaveNote b then
    let n := (b - firstOctaveNote).toNat
    some (String.ofList (noteLetters[n % 7]?).toList, n / 7)
  else none

/-- The letter of the code of a note without an octave. -/
def noteOf? (b : UInt8) : Option String :=
  if isNote b then some (String.ofList (noteLetters[(b - firstNote).toNat]?).toList) else none

end Packed
end LeadSheet
