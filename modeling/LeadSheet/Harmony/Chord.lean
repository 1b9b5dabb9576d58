import LeadSheet.Data.Shown
import LeadSheet.Harmony.Scale

/-!
Chords: scales whose steps are the intervals between the chord notes and, last, the interval that
leads on to the root an octave higher. Repeating the steps gives inversions and doubled notes.
-/
namespace LeadSheet

/-- The known shapes, as intervals between the chord notes. -/
def chordShapes : List (String × List Int) :=
  [("M", [4, 3]), ("m", [3, 4]),
   ("dim", [3, 3]), ("dimM7", [3, 3, 5]), ("dim7", [3, 3, 3]),
   ("aug", [4, 4]), ("augM7", [4, 4, 3]),
   ("M6", [4, 3, 2]), ("m6", [3, 4, 2]),
   ("M7", [4, 3, 4]), ("7", [4, 3, 3]), ("m7", [3, 4, 3]), ("m7b5", [3, 3, 4]),
   ("mM7", [3, 4, 4]),
   ("Q", [5, 5]), ("Qb4", [4, 5])]

/-- The shape of a chord, by name or by its intervals. -/
inductive ChordShape where
  | named (name : String)
  | intervals (steps : List Int)
  /-- data that no chord can be made of -/
  | other (datum : Datum)
  deriving DecidableEq, Repr

namespace ChordShape

/-- The intervals of a shape. Nothing at all has none, and other data cannot be read. -/
def steps : ChordShape → Except Failure (List Int)
  | named name =>
    match chordShapes.lookup name with
    | some steps => .ok steps
    | none => .error (.unknownShape name)
  | intervals steps => .ok steps
  | other d => if d.holds then .error .wrongType else .ok []

/-- The shape that a datum stands for. -/
def ofDatum (d : Datum) : ChordShape :=
  match d with
  | .text name => named name
  | .list items | .tuple items =>
    match items.mapM Datum.toInt with
    | .ok steps => intervals steps
    | .error _ => other d
  | d => other d

/-- A shape as data. -/
def toDatum : ChordShape → Datum
  | named name => .text name
  | intervals steps => .tuple (steps.map Datum.whole)
  | other d => d

end ChordShape

/-- A root and the steps from each chord note to the next. -/
structure Chord where
  root : String
  steps : List Int
  deriving DecidableEq, Repr

namespace Chord

def toScale (chord : Chord) : Scale := ⟨chord.root, chord.steps, false, false⟩

/-- The chord of a shape on a root, closed by the step to the octave. -/
def onRoot (root : String) (shape : ChordShape) : Except Failure Chord := do
  Scale.checkRoot root
  let intervals ← shape.steps
  if intervals.isEmpty then throw .missingIntervals
  return ⟨root, intervals ++ [-Scale.width intervals % octaveSize]⟩

/-- The name of the shape, if it is a known one. -/
def shapeName? (chord : Chord) : Option String :=
  (chordShapes.find? fun shape => shape.2 = chord.steps.dropLast).map Prod.fst

/-- The root and the name of the shape; major chords and unknown ones show the root alone. -/
def label (chord : Chord) : String :=
  match chord.shapeName? with
  | some "M" | none => chord.root
  | some name => chord.root ++ name

/-- Splits a name with octave into what stands before the digits and the number. -/
def splitOctave? (note : String) : Option (String × Nat) :=
  let (root, rest) := note.toList.span fun c => !Text.isDecimalDigit c
  let (octave, rest) := NoteName.spanDigits rest
  if root ≠ [] && octave ≠ [] && NoteName.atEnd rest then
    some (String.ofList root, Text.numberOfDigits octave)
  else none

/-- The notes of a chord from a root with octave upwards. An inversion starts at another place;
without a count there are as many notes as the chord has. -/
def notes (note : String) (shape : ChordShape) (inversion : Int) (count : Option Nat) :
    Except Failure (List String) :=
  match splitOctave? note with
  | none => .error (.noLetter note)
  | some (root, octave) => do
    let chord ← onRoot root shape
    chord.toScale.range octave (count.getD chord.steps.length) inversion

/-- Chords that lead on to the chord a fourth above. -/
def isDominant (chord : Chord) : Bool :=
  chord.shapeName? = some "M" || chord.shapeName? = some "7"

/-- The chords a dominant one can lead to, as triads or with four notes. -/
def dominantTargets (chord : Chord) (noteCount : Datum) : Except Failure (List Chord) := do
  if !chord.isDominant then throw (.notDominant chord.shapeName?)
  let root := NoteName.stripOctave (← NoteName.transpose (chord.root ++ "5") 5)
  if noteCount = .whole 3 then ["M", "m"].mapM fun shape => onRoot root (.named shape)
  else if noteCount = .whole 4 then ["M7", "m7"].mapM fun shape => onRoot root (.named shape)
  else throw (.noDominantTargets noteCount.display)

/-- Whether at least one note is given and all of them fit in the chord. -/
def containsNotes (chord : Chord) (notes : List String) : Except Failure Bool :=
  if notes.isEmpty then .ok false else chord.toScale.containsAll notes

/-- How many of the names occur among `mine`, each counted once. -/
def countShared (mine : List String) : List String → Nat
  | [] => 0
  | name :: rest =>
    if mine.contains name then 1 + countShared (mine.filter (· ≠ name)) rest
    else countShared mine rest

/-- How many note names two chords share, octaves aside. As many notes of the other chord are
looked at as this one has. -/
def sharedNotes (chord other : Chord) : Except Failure Nat := do
  let count := chord.steps.length
  let mine ← chord.toScale.range 5 count 0
  let others ← other.toScale.range 5 count 0
  return countShared (mine.map NoteName.stripOctave) (others.map NoteName.stripOctave)

end Chord

/-- The chords of stacked thirds on every degree of a scale. -/
def Scale.chords (scale : Scale) (noteCount : Int) : Except Failure (List Chord) :=
  (List.range scale.steps.length).mapM fun (i : Nat) => do
    let root ← scale.degreeName (i + 1)
    Chord.onRoot root (.intervals (scale.thirds (i + 1) (noteCount - 1).toNat))

end LeadSheet
