import LeadSheet.Data.Basic
import LeadSheet.Pitch.NoteName

/-!
Key signatures: a number of sharps (positive) or flats (negative), or the chromatic one, which is
drawn like C major. A key signature knows which letters it alters, and leads from written notes to
sounding ones and back.
-/
namespace LeadSheet

inductive KeySignature where
  | accidentals (count : Int)
  | chromatic
  deriving DecidableEq, Repr

/-- The major keys along the circle of fifths, from one flat upwards. -/
def fifths : List String :=
  ["F", "C", "G", "D", "A", "E", "B", "Gb", "Db", "Ab", "Eb", "Bb"]

namespace KeySignature

/-- The letters in the order in which they get sharps. From the other end they get flats. -/
def sharpOrder : List Letter := [.F, .C, .G, .D, .A, .E, .B]

/-- The number of accidentals, counted negative for flats. -/
def count : KeySignature → Int
  | accidentals n => n
  | chromatic => 0

def isChromatic : KeySignature → Bool
  | accidentals _ => false
  | chromatic => true

def isSharp (key : KeySignature) : Bool := 0 < key.count
def isFlat (key : KeySignature) : Bool := key.count < 0

/-- The name of the major key with a number of accidentals, around the circle of fifths. -/
def majorName (count : Int) : String := fifths.getD ((count + 1) % 12).toNat ""

def name : KeySignature → String
  | accidentals n => majorName n
  | chromatic => "Chromatic"

/-- The root of the scale that belongs to the key. -/
def scaleRoot : KeySignature → String
  | accidentals n => majorName n
  | chromatic => "C"

/-- The keys from six flats to five sharps, the sharp ones first. -/
def regularCounts : List Int := [0, 1, 2, 3, 4, 5, -1, -2, -3, -4, -5, -6]

def regular : List KeySignature := regularCounts.map accidentals

/-- The regular key with a number of accidentals, if there is one. -/
def ofCount? (n : Int) : Option KeySignature :=
  if regularCounts.contains n then some (accidentals n) else none

/-- The count of a key moved by semitones: each goes seven steps around the circle of fifths, and
the result lies between six flats and five sharps. Whole octaves change nothing. -/
def transposeCount (n semitones : Int) : Int :=
  if semitones % octaveSize = 0 then n else (n + semitones * 7 + 6) % 12 - 6

/-- The count of a key moved by a number of semitones of any kind. Whole octaves change nothing,
whatever the count is. -/
def transposed (count : Datum) (semitones : Number) : Except Failure Datum := do
  if (← semitones.mod (.whole octaveSize)).isZero then return count
  match ← count.toNumber, semitones with
  | .whole n, .whole k => return .whole (transposeCount n k)
  | n, k =>
    let sum ← (← n.add (← k.mul 7)).add 6
    return .number (← (← sum.mod 12).sub 6)

/-- Where the flats of a count start in the order of the sharps. A start that would lie before the
first letter is counted from behind the last. -/
def flatStart (n : Int) : Nat :=
  let start := 7 + n
  (if start < 0 then max (start + 7) 0 else start).toNat

/-- The letters that a key alters: sharps in the order of the key signature, flats from B down. -/
def alteredLetters (key : KeySignature) : List Letter :=
  let n := key.count
  if 0 < n then sharpOrder.take n.toNat
  else if n < 0 then (sharpOrder.drop (flatStart n)).reverse
  else []

/-- The sign a key puts on the letters it alters. -/
def alteration (key : KeySignature) : Alteration := if key.isSharp then .sharp else .flat

/-- The sounding name of a written one: a letter without sign gets the sign of the key, and then
only the octave behind it is kept. -/
def sounding (key : KeySignature) (written : String) : Except Failure String :=
  if key.count = 0 then .ok written
  else match written.toList with
    | [] => .error (.noKeyLetter written)
    | c :: rest =>
      match Letter.ofChar? c with
      | none => .error (.noKeyLetter written)
      | some letter =>
        let hasSign := rest.head? = some '#' || rest.head? = some 'b'
        if key.alteredLetters.contains letter && !hasSign then
          .ok (String.ofList
            (letter.toChar :: (key.alteration.sign ++ (NoteName.spanDigits rest).1)))
        else .ok written

/-- The sounding name of a written one under a count that may be no number. Names without a letter
are noticed first. -/
def soundingUnder (count : Datum) (written : String) : Except Failure String :=
  match count.toInt with
  | .ok n => (accidentals n).sounding written
  | .error e => do
    let _ ← (accidentals 1).sounding written
    throw e

/-- The accidental that has to be shown before a sounding note: none, a natural (0), a sharp (1)
or a flat (-1). -/
def shownAccidental (key : KeySignature) (name : String) : Except Failure (Option Int) := do
  let (letter, alteration, _) ← NoteName.head name
  let altered := key.alteredLetters.contains letter
  return match alteration with
    | .sharp => if key.isSharp && altered then none else some 1
    | .flat => if key.isFlat && altered then none else some (-1)
    | .natural => if altered then some 0 else none

/-- A note respelled with the kind of accidental the key has. -/
def respell (key : KeySignature) (name : String) : Except Failure String := do
  if key.isFlat && name.toList.contains '#' then return NoteName.spell (← NoteName.pitch name) false
  else if key.isSharp && name.toList.contains 'b' then
    return NoteName.spell (← NoteName.pitch name) true
  else return name

/-- A pitch moved by octaves: up until it lies above `low`, then down until it is at most
`high`. -/
def placeBetween (low high p : Int) : Int :=
  let raised := if p ≤ low then p + octaveSize * ((low - p) / octaveSize + 1) else p
  if high < raised then raised - octaveSize * ((raised - high - 1) / octaveSize + 1) else raised

/-- The lines and spaces that carry the accidentals of the key, as natural notes above `low` and
up to `high`, in the order of the key signature: sharps from F5 by fifths upwards, flats from B5
by fifths downwards. -/
def places (key : KeySignature) (low high : Int) : List String :=
  let (first, step) : Int × Int := if key.isSharp then (77, 7) else (83, -7)
  (List.range key.count.natAbs).map fun (i : Nat) =>
    NoteName.ofPitch (placeBetween low high (first + i * step))

/-- The places between two tones. A key without accidentals does not look at them. -/
def placesBetween (key : KeySignature) (low high : Tone) : Except Failure (List String) := do
  if key.count = 0 then return []
  return key.places (← low.toPitch) (← high.toPitch)

end KeySignature
end LeadSheet
