import LeadSheet.Harmony.Staff
import LeadSheet.Song.Basic
import LeadSheet.Timeline.Ticks

/-!
How far a sheet reaches: in time, in measures, in pitch, and in the text it comes from.
-/
namespace LeadSheet.Sheet
variable {α : Type}

/-- The locations of the notes, with the places of the notes. A location that is empty counts for
none. -/
def locations (s : Sheet α) : List (Location × Nat) :=
  s.notes.zipIdx.filterMap fun (note, i) =>
    (note.location.filter fun location => location.toDatum.holds).map fun location => (location, i)

/-- The places of the notes that touch a selection of the text. -/
def notesForSelection (s : Sheet α) (start stop : Number) : Except Failure (List Nat) := do
  let touched ← s.locations.filterM fun (location, _) => location.touches start stop
  return touched.map Prod.snd

/-- The names of the lowest and the highest note, if there are notes. -/
def noteRange (s : Sheet α) : Except Failure (Option (String × String)) := do
  match ← s.notes.mapM fun note => NoteName.pitch note.name with
  | [] => return none
  | p :: rest =>
    return some (NoteName.ofPitch (rest.foldl min p), NoteName.ofPitch (rest.foldl max p))

variable [Timebase α]

/-- The beat at which the last note ends; beat zero without notes. -/
def stop (s : Sheet α) : Except Failure α := do
  match ← s.notes.mapM Note.stop with
  | [] => return Timebase.ofInt 0
  | first :: rest => return rest.foldl Timebase.greatest first

/-- The beat at which the first note starts; beat zero without notes. -/
def start (s : Sheet α) : α :=
  match s.notes.map Note.start with
  | [] => Timebase.ofInt 0
  | first :: rest => rest.foldl Timebase.least first

/-- The notes that sound somewhere between two beats. -/
def notesBetween (s : Sheet α) (start stop : α) : Except Failure (List (Note α)) :=
  s.notes.filterM fun note => note.soundsBetween start stop

/-- The staff that the only clef asks for, if it stands before all notes. -/
def clefStaff (s : Sheet α) : Option String :=
  match s.clefs with
  | [(beat, sign)] =>
    if (s.notes.head?.map fun note => Timebase.le beat note.start).getD true then
      if sign = .text "f" then some "bass" else if sign = .text "g" then some "treble" else none
    else none
  | _ => none

/-- The staff that suits the notes: what the clef says, or else what the range of the notes needs.
Notes more than four semitones away from middle C ask for the staff on their side. -/
def fittingStaff (s : Sheet α) : Except Failure String := do
  if let some staff := s.clefStaff then return staff
  match ← s.noteRange with
  | none => return "treble"
  | some (low, high) =>
    let bass := (← NoteName.pitch low) < middleC - 4
    let treble := middleC + 4 < (← NoteName.pitch high)
    return if treble && bass then "grand" else if bass then "bass" else "treble"

/-- A measure: the beat it starts at and its number of beats. -/
structure Measure (α : Type) where
  start : α
  beats : α
  deriving DecidableEq, Repr

/-- The number of beats that a time signature gives. -/
def beatsOf (beats : Datum) : Except Failure α := do Timebase.ofNumber (← beats.toNumber)

/-- Takes the time signatures up to a position off the log, the beats of the last of them with
them. -/
def takeSignatures (position : α) : Datum → List (α × Datum) → Datum × List (α × Datum)
  | beats, [] => (beats, [])
  | beats, (beat, next) :: rest =>
    if Timebase.le beat position then takeSignatures position next rest
    else (beats, (beat, next) :: rest)

/-- The measures from a position to an end, at most `fuel` of them. -/
def measuresFrom (stop : α) :
    Nat → α → Datum → List (α × Datum) → Except Failure (List (Measure α))
  | 0, _, _, _ => .ok []
  | fuel + 1, position, beats, signatures => do
    if !Timebase.lt position stop then return []
    let (beats, signatures) := takeSignatures position beats signatures
    let count ← beatsOf beats
    let next ← Timebase.add position count
    return ⟨position, count⟩ :: (← measuresFrom stop fuel next beats signatures)

/-- How many measures there can be: as many as the shortest ones that fit, and one more to notice
beats that are no number. -/
def measureBound (stop : α) (signatures : List (α × Datum)) : Nat :=
  let bounds := signatures.map fun signature =>
    match beatsOf (α := α) signature.2 with
    | .ok beats => Timebase.stepBound (Timebase.exact stop) (Timebase.exact beats)
    | .error _ => 1
  bounds.foldl max 0

/-- The measures up to the end of the notes, by the time signatures. Before the first one its
beats hold already, and without any there are four. -/
def measures (s : Sheet α) : Except Failure (List (Measure α)) := do
  let stop ← s.stop
  let signatures := match s.timeSignatures with
    | [] => [(Timebase.ofInt 0, .whole Ticks.defaultBeats)]
    | signatures => signatures
  let beats := (signatures.head?.map Prod.snd).getD (.whole Ticks.defaultBeats)
  measuresFrom stop (measureBound stop signatures) (Timebase.ofInt 0) beats signatures

end LeadSheet.Sheet
