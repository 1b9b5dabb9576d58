import LeadSheet.Harmony.KeySignature

/-!
Scales: a root without octave and the steps, in semitones, that lead from each note to the next.
The steps are repeated without end in both directions, so that a scale has a note at every integer
place, the root of an octave at place zero. Without steps there are no places to count.
-/
namespace LeadSheet

/-- The scales by name. -/
inductive ScaleKind where
  /-- what all scales have in common, without steps of its own -/
  | base
  | major
  | minor
  | harmonicMinor
  | ascendingMelodicMinor
  | majorBlues
  | minorBlues
  | chromatic
  deriving DecidableEq, Repr

/-- A root and the steps upwards from it. -/
structure Scale where
  root : String
  steps : List Int
  minor : Bool
  chromatic : Bool
  deriving DecidableEq, Repr

namespace ScaleKind

def steps : ScaleKind → List Int
  | base => []
  | major => [2, 2, 1, 2, 2, 2, 1]
  | minor => [2, 1, 2, 2, 1, 2, 2]
  | harmonicMinor => [2, 1, 2, 2, 1, 3, 1]
  | ascendingMelodicMinor => [2, 1, 2, 2, 2, 2, 1]
  | majorBlues => [2, 1, 1, 3, 2, 3]
  | minorBlues => [3, 2, 1, 1, 3, 2]
  | chromatic => List.replicate 12 1

def isMinor : ScaleKind → Bool
  | minor | harmonicMinor | ascendingMelodicMinor | minorBlues => true
  | base | major | majorBlues | chromatic => false

end ScaleKind

namespace Scale

/-- A root is a letter with at most one accidental; a final line feed is let pass. -/
def checkRoot (root : String) : Except Failure Unit :=
  if NoteName.isBare root then .ok () else .error (.noRoot root)

/-- The scale of a kind on a root. -/
def onRoot (kind : ScaleKind) (root : String) : Except Failure Scale := do
  checkRoot root
  return ⟨root, kind.steps, kind.isMinor, kind = .chromatic⟩

/-- The step that leads up from a place. -/
def stepAt (steps : List Int) (place : Int) : Int :=
  steps.getD (place % (steps.length : Int)).toNat 0

/-- How far some steps lead up together. -/
def width (steps : List Int) : Int := steps.foldr (· + ·) 0

/-- Goes down by a number of steps: the place and the pitch arrived at. -/
def descend (steps : List Int) : Nat → Int → Int → Int × Int
  | 0, place, p => (place, p)
  | count + 1, place, p => descend steps count (place - 1) (p - stepAt steps (place - 1))

/-- Goes up step by step: the pitches on the way, as many as are asked for. -/
def ascend (steps : List Int) : Nat → Int → Int → List Int
  | 0, _, _ => []
  | count + 1, place, p => p :: ascend steps count (place + 1) (p + stepAt steps place)

/-- Goes up step by step, and tells whether a target is met before it is passed. -/
def meets (steps : List Int) (target : Int) : Nat → Int → Int → Bool
  | 0, _, _ => false
  | count + 1, place, p =>
    if target < p then false
    else if p = target then true
    else meets steps target count (place + 1) (p + stepAt steps place)

/-- Whether the key of the scale is written with flats, by its place on the circle of fifths. -/
def isFlat (scale : Scale) : Except Failure Bool := do
  let root ← NoteName.pitchClass scale.root
  let classes ← fifths.mapM NoteName.pitchClass
  let index : Int := classes.idxOf root
  let index := if scale.minor then (index - 3) % 12 else index
  return index < 1 || 6 < index

/-- Steps must be there to go on from a place. -/
def checkSteps (scale : Scale) : Except Failure Unit :=
  if scale.steps.isEmpty then .error .divisionByZero else .ok ()

/-- The notes at `count` places from `offset` on, with a root of which the name with its octave is
given at place zero. Places below the root are walked down to, and those in front of a positive
offset are passed over. -/
def rangeFrom (scale : Scale) (root : String) (count : Nat) (offset : Int) :
    Except Failure (List String) := do
  let root ← NoteName.pitch root
  let sharpen := scale.chromatic || !(← scale.isFlat)
  scale.checkSteps
  let (place, lowest) := descend scale.steps (-offset).toNat 0 root
  let passed := offset.toNat
  let pitches := ascend scale.steps (count + passed) (place % (scale.steps.length : Int)) lowest
  return (pitches.drop passed).map fun p => NoteName.spell p sharpen

/-- The notes at `count` places from `offset` on, with the root of an octave at place zero. -/
def range (scale : Scale) (octave : Int) (count : Nat) (offset : Int) :
    Except Failure (List String) :=
  scale.rangeFrom (NoteName.withOctave scale.root octave) count offset

/-- The number of notes from a root to the root above, both counted. -/
def octaveCount (scale : Scale) : Nat := scale.steps.length + 1

/-- The notes from octave 0 upwards. -/
def fullRange (scale : Scale) : Except Failure (List String) :=
  scale.range 0 (scale.octaveCount * 8) 0

/-- The notes of the full range that lie between two notes, these included. -/
def looseRange (scale : Scale) (low high : String) : Except Failure (List String) := do
  let lowest ← NoteName.pitch low
  let highest ← NoteName.pitch high
  (← scale.fullRange).filterM fun name => do
    let p ← NoteName.pitch name
    return lowest ≤ p && p ≤ highest

/-- The pitch class of the root, and that of a note raised to lie in the octave above it. -/
def reach (scale : Scale) (note : String) : Except Failure (Int × Int) := do
  let root ← NoteName.pitchClass scale.root
  let p ← NoteName.pitchClass note
  return (root, if p < root then p + octaveSize else p)

/-- Whether a note, in any octave, is one that the steps land on before they pass it. Twelve rounds
of steps that lead upwards are an octave at least, and so they pass every target. -/
def contains (scale : Scale) (note : String) : Except Failure Bool := do
  let (root, target) ← scale.reach note
  if root = target then return true
  scale.checkSteps
  return meets scale.steps target (12 * scale.steps.length + 1) 0 root

/-- Whether all notes are in the scale; the first that is not ends the search. -/
def containsAll (scale : Scale) : List String → Except Failure Bool
  | [] => .ok true
  | note :: rest => do
    if ← scale.contains note then scale.containsAll rest else return false

/-- The name, without octave, of the note at a degree. Degrees count from one, and go on beyond
the octave in either direction. -/
def degreeName (scale : Scale) (degree : Int) : Except Failure String := do
  scale.checkSteps
  let degree := (degree - 1) % (scale.steps.length : Int) + 1
  let names ← scale.range 0 degree.toNat 0
  return NoteName.stripOctave (names.getLast?.getD "")

/-- The degree at which steps from `current`, which is `degree`, arrive at a target. -/
def climb (target : Int) : Int → Int → List Int → Option Int
  | _, _, [] => none
  | current, degree, step :: steps =>
    if current + step = target then some (degree + 1)
    else if target < current + step then none
    else climb target (current + step) (degree + 1) steps

/-- The degree of a note. -/
def degree (scale : Scale) (note : String) : Except Failure Int := do
  let (root, target) ← scale.reach note
  if root = target then return 1
  match climb target root 1 scale.steps with
  | some d => return d
  | none => throw (.notInScale note scale.root)

/-- The intervals of a number of stacked thirds on a degree. -/
def thirds (scale : Scale) (degree : Int) (count : Nat) : List Int :=
  (List.range count).map fun (j : Nat) =>
    stepAt scale.steps (degree - 1 + 2 * j) + stepAt scale.steps (degree + 2 * j)

/-- The intervals of stacked thirds, if there are steps to stack. -/
def stackedThirds (scale : Scale) (degree : Int) (count : Nat) : Except Failure (List Int) := do
  if 0 < count then scale.checkSteps
  return scale.thirds degree count

end Scale
end LeadSheet
