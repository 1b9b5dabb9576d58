import LeadSheet.Pitch.Letter
import LeadSheet.Text.Blank
import LeadSheet.Text.DecimalDigit

/-!
Words of the notation. A word is a run of characters that neither separate nor delimit; it is a
note, a rest or a command when it matches the form of one from its first to its last character.
-/
namespace LeadSheet

/-- The accidental a note is written with. -/
inductive Mark where
  | sharp | flat | natural
  deriving DecidableEq, Repr

namespace Mark

def toChar : Mark → Char
  | sharp => '+' | flat => '-' | natural => '='

def ofChar? : Char → Option Mark
  | '+' => some sharp | '-' => some flat | '=' => some natural
  | _ => none

end Mark

/-- Whether a length is multiplied or divided. -/
inductive Scaling where
  | multiplied | divided
  deriving DecidableEq, Repr

namespace Scaling

def toChar : Scaling → Char
  | multiplied => '*' | divided => '/'

def ofChar? : Char → Option Scaling
  | '*' => some multiplied | '/' => some divided
  | _ => none

end Scaling

/-- The timing behind a note or rest, as it is written: a scaling with its number, dots, and the
beat at which to start. -/
structure WrittenTiming where
  scaling : Option (Scaling × Nat)
  dots : Nat
  start : Option Nat
  deriving DecidableEq, Repr

/-- A note as it is written. -/
structure WrittenNote where
  letter : Letter
  mark : Option Mark
  octave : Option Nat
  timing : WrittenTiming
  deriving DecidableEq, Repr

/-- The change of tempo that a command asks for. -/
inductive Tempo where
  | half | double | triple
  deriving DecidableEq, Repr

namespace Tempo

def toChar : Tempo → Char
  | half => 'h' | double => 'd' | triple => 't'

end Tempo

/-- What a word can be. -/
inductive Word where
  | note (note : WrittenNote)
  | rest (timing : WrittenTiming)
  | keySignature (count : Int)
  | timeSignature (beats unit : Nat)
  | tempo (tempo : Tempo) (count : Option Nat)
  | measure (number : Option Nat)
  | track (number : Nat)
  | clef (letter : Char)
  deriving DecidableEq, Repr

namespace WrittenTiming

/-- Splits off the ASCII digits a text starts with. -/
def spanDigits (cs : List Char) : List Char × List Char := cs.span Text.isAsciiDigit

/-- A scaling of one to three digits, if the text starts with one, and the rest. -/
def readScaling : List Char → Option (Option (Scaling × Nat) × List Char)
  | [] => some (none, [])
  | c :: rest =>
    match Scaling.ofChar? c with
    | none => some (none, c :: rest)
    | some scaling =>
      let (digits, rest) := spanDigits rest
      if digits ≠ [] && digits.length ≤ 3 then
        some (some (scaling, Text.numberOfDigits digits), rest)
      else none

/-- The start behind an `@`, which ends the text. -/
def readStart : List Char → Option (Option Nat)
  | [] => some none
  | '@' :: digits =>
    if digits ≠ [] && digits.all Text.isAsciiDigit then
      some (some (Text.numberOfDigits digits))
    else none
  | _ => none

/-- The timing that a whole text writes. -/
def read? (cs : List Char) : Option WrittenTiming := do
  let (scaling, rest) ← readScaling cs
  let (dots, rest) := rest.span (· = '.')
  let start ← readStart rest
  return ⟨scaling, dots.length, start⟩

end WrittenTiming

namespace WrittenNote

/-- The accidental a text starts with, and the rest. -/
def readMark : List Char → Option Mark × List Char
  | [] => (none, [])
  | c :: rest =>
    match Mark.ofChar? c with
    | some mark => (some mark, rest)
    | none => (none, c :: rest)

/-- The octave, one ASCII digit, that a text starts with, and the rest. -/
def readOctave : List Char → Option Nat × List Char
  | [] => (none, [])
  | c :: rest =>
    if Text.isAsciiDigit c then (some (Text.numberOfDigits [c]), rest) else (none, c :: rest)

/-- The note that a whole text writes. Letters may be small or capital. -/
def read? : List Char → Option WrittenNote
  | [] => none
  | c :: rest => do
    let letter ← Letter.ofChar? c.toUpper
    let (mark, rest) := readMark rest
    let (octave, rest) := readOctave rest
    let timing ← WrittenTiming.read? rest
    return ⟨letter, mark, octave, timing⟩

end WrittenNote

namespace Word

/-- The number that a text of ASCII digits writes. A word may have one of any length. -/
def number? (cs : List Char) : Option Nat :=
  if cs ≠ [] && cs.all Text.isAsciiDigit then some (Text.numberOfDigits cs) else none

/-- A number that may be left out. -/
def optionalNumber? (cs : List Char) : Option (Option Nat) :=
  if cs = [] then some none else (number? cs).map some

/-- What a word means, by its form. -/
def read? : List Char → Option Word
  | 'k' :: 's' :: '-' :: tail => (number? tail).map fun n => keySignature (-(n : Int))
  | 'k' :: 's' :: tail => (number? tail).map fun n => keySignature n
  | 't' :: 's' :: tail =>
    match tail.span Text.isAsciiDigit with
    | (beats, '/' :: unit) => do return timeSignature (← number? beats) (← number? unit)
    | _ => none
  | 'h' :: 't' :: tail => (optionalNumber? tail).map (tempo .half)
  | 'd' :: 't' :: tail => (optionalNumber? tail).map (tempo .double)
  | 't' :: 't' :: tail => (optionalNumber? tail).map (tempo .triple)
  | 'm' :: tail => (optionalNumber? tail).map measure
  | 't' :: tail => (number? tail).map track
  | ['/', c] => if "gcfGCF".toList.contains c then some (clef c.toLower) else none
  | 'r' :: tail | 'R' :: tail | '_' :: tail => (WrittenTiming.read? tail).map Word.rest
  | cs => (WrittenNote.read? cs).map note

end Word
end LeadSheet
