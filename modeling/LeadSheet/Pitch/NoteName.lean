import LeadSheet.Number.Basic
import LeadSheet.Pitch.Letter
import LeadSheet.Text.DecimalDigit

/-!
Note names and pitches. A pitch counts semitones, with middle C at 60. A note name is a letter, an
optional `#` or `b`, and an octave number; without the octave it names a pitch class.

The readers differ in how much of a name they look at: `pitch` reads the whole name, the others its
start. A name may be followed by one line feed.
-/
namespace LeadSheet

/-- Semitones in an octave. -/
def octaveSize : Int := 12

/-- The pitch of middle C. -/
def middleC : Int := 60

namespace NoteName

/-- The letter and the alteration that a name starts with, and what follows them. -/
def head? : List Char → Option (Letter × Alteration × List Char)
  | [] => none
  | c :: rest =>
    (Letter.ofChar? c).map fun letter =>
      let (alteration, rest) := Alteration.read rest
      (letter, alteration, rest)

/-- Nothing but one final line feed may follow a name. -/
def atEnd (cs : List Char) : Bool := cs = [] || cs = ['\n']

/-- Splits off the digits a text starts with. -/
def spanDigits (cs : List Char) : List Char × List Char := cs.span Text.isDecimalDigit

/-- A letter and an alteration in semitones above C. -/
def offsetOf (letter : Letter) (alteration : Alteration) : Int :=
  letter.offset + alteration.semitones

/-- The pitch of a name with octave. -/
def pitch? (name : String) : Option Int := do
  let (letter, alteration, rest) ← head? name.toList
  let (octave, rest) := spanDigits rest
  guard (octave ≠ [] && atEnd rest)
  return offsetOf letter alteration + (Text.numberOfDigits octave + 1) * octaveSize

/-- The pitch of a name with octave, or the failure that names it. -/
def pitch (name : String) : Except Failure Int :=
  match pitch? name with
  | some p => .ok p
  | none => .error (.noPitch name)

/-- The letter and alteration at the start of a name, or the failure that names it. -/
def head (name : String) : Except Failure (Letter × Alteration × List Char) :=
  match head? name.toList with
  | some h => .ok h
  | none => .error (.noLetter name)

/-- The alteration of a name in semitones. -/
def alteration (name : String) : Except Failure Int := do
  let (_, alteration, _) ← head name
  return alteration.semitones

/-- The pitch class of a name, 0 to 11; an octave in the name does not matter. -/
def pitchClass (name : String) : Except Failure Int := do
  let (letter, alteration, _) ← head name
  return (offsetOf letter alteration) % octaveSize

/-- The place of a name on the staff: seven steps for an octave. -/
def staffPosition (name : String) : Except Failure Int := do
  let (letter, _, rest) ← head name
  match (spanDigits rest).1 with
  | [] => throw (.noLetter name)
  | octave => return (Text.numberOfDigits octave : Int) * 7 + letter.index

/-- The name of a black key's white neighbour with its sign, or of a white key. -/
def keyName (offset : Int) (sharpen : Bool) : List Char :=
  let white (k : Int) : Option Letter := Letter.all.find? fun letter => letter.offset = k
  match white offset with
  | some letter => [letter.toChar]
  | none =>
    let neighbour := white (if sharpen then offset - 1 else offset + 1)
    (neighbour.map Letter.toChar).toList ++ (if sharpen then ['#'] else ['b'])

/-- The name of a pitch. Black keys are spelled with a sharp, or with a flat. -/
def spell (p : Int) (sharpen : Bool) : String :=
  String.ofList (keyName (p.fmod octaveSize) sharpen ++ (toString (p.fdiv octaveSize - 1)).toList)

/-- The name of a pitch, black keys with a sharp. -/
def ofPitch (p : Int) : String := spell p true

/-- The name of a pitch that may be any kind of number. The octave is written as the number that it
is; between the keys there are no names. -/
def spellAny (p : Number) (sharpen : Bool) : Except Failure String := do
  match p with
  | .whole n => return spell n sharpen
  | p =>
    let octave ← (← p.floorDiv (.whole octaveSize)).sub 1
    match (← p.mod (.whole octaveSize)).whole? with
    | some offset => return String.ofList (keyName offset sharpen) ++ octave.text
    | none => throw .missingKey

/-- Whether two names have the same pitch class. -/
def sameClass (a b : String) : Except Failure Bool := do
  let x ← pitchClass a
  let y ← pitchClass b
  return x = y

/-- The name some semitones above another. -/
def transpose (name : String) (semitones : Int) : Except Failure String := do
  return ofPitch ((← pitch name) + semitones)

/-- The name above another by semitones that may be any kind of number. -/
def transposeAny (name : String) (semitones : Number) : Except Failure String := do
  spellAny (← (Number.whole (← pitch name)).add semitones) true

/-- How far one name lies above another. -/
def interval (a b : String) : Except Failure Int := do
  let x ← pitch a
  let y ← pitch b
  return x - y

/-- A letter, possibly altered, and nothing else. -/
def isBare (name : String) : Bool :=
  match head? name.toList with
  | some (_, _, rest) => atEnd rest
  | none => false

/-- A name with an octave put behind it. -/
def withOctave (name : String) (octave : Int) : String := name ++ toString octave

/-- The octave at which a pitch lies, not below the lowest. -/
def referenceOctave (reference : Int) : Int := max (reference.fdiv octaveSize - 1) 0

/-- Of the octave chosen so far and another one, the other only if it is strictly closer. -/
def closerOctave (name : String) (reference : Int) (best : Int × Int) (octave : Int) :
    Except Failure (Int × Int) := do
  if octave < 0 then return best
  let d := (Int.natAbs ((← pitch (withOctave name octave)) - reference) : Int)
  return if d < best.2 then (octave, d) else best

/-- The name with the octave in which it lies closest to a reference pitch. The octave of the
reference and its two neighbours are tried; a neighbour is chosen only when it is strictly
closer. -/
def closestOctave (name : String) (reference : Int) : Except Failure String := do
  if !isBare name then throw (.notBareLetter name)
  let octave := referenceOctave reference
  let d := (Int.natAbs ((← pitch (withOctave name octave)) - reference) : Int)
  let best ← [octave - 1, octave + 1].foldlM (closerOctave name reference) (octave, d)
  return withOctave name best.1

/-- The name without the digits at its end. A final line feed stays. -/
def stripOctave (name : String) : String :=
  match name.toList.reverse with
  | '\n' :: rest =>
    let kept := (rest.dropWhile Text.isDecimalDigit).reverse
    String.ofList (kept ++ ['\n'])
  | rest => String.ofList (rest.dropWhile Text.isDecimalDigit).reverse

end NoteName

/-- A note given by its name or by its pitch. -/
inductive Tone where
  | name (text : String)
  | pitch (value : Int)
  deriving DecidableEq, Repr

namespace Tone

def toName : Tone → String
  | name text => text
  | pitch value => NoteName.ofPitch value

def toPitch : Tone → Except Failure Int
  | name text => NoteName.pitch text
  | pitch value => .ok value

end Tone
end LeadSheet
