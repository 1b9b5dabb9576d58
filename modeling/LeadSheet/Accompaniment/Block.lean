import LeadSheet.Number.Timebase

/-!
Chord blocks: the stretches of time in which the chords of a song hold. A chord lasts until the
next one, or until the end of the measure it starts in. A chord that would not last at all is
rejected.
-/
namespace LeadSheet

/-- A stretch of time, and the chord that holds in it. -/
structure ChordBlock (α β : Type) where
  start : α
  stop : α
  chord : β
  deriving DecidableEq, Repr

/-- The blocks of a song and the rejected ones, both in the order of their chords. -/
structure ChordBlocks (α β : Type) where
  kept : List (ChordBlock α β)
  rejected : List (ChordBlock α β)
  deriving Repr

namespace ChordBlocks
variable {α β : Type}

def empty : ChordBlocks α β := ⟨[], []⟩

variable [Timebase α]

/-- The end of the measure that a beat lies in. -/
def measureEnd (beats start : α) : Except Failure α := do
  let number ← Timebase.add (← Timebase.floorDiv start beats) (Timebase.ofInt 1)
  Timebase.mul number beats

/-- Puts the block of a chord in front of the blocks behind it. -/
def place (beats : α) (start : α) (chord : β) (blocks : ChordBlocks α β) :
    Except Failure (ChordBlocks α β) := do
  let stop ← measureEnd beats start
  let stop := match blocks.kept with
    | [] => stop
    | next :: _ => Timebase.least stop next.start
  let block := ⟨start, stop, chord⟩
  return if Timebase.le stop start then { blocks with rejected := block :: blocks.rejected }
    else { blocks with kept := block :: blocks.kept }

/-- The blocks of chords that are given with the beats at which they start. A failure comes with
the blocks placed before it. -/
def ofChords (beats : α) : List (α × β) → ChordBlocks α β × Except Failure Unit
  | [] => (empty, .ok ())
  | (start, chord) :: rest =>
    match ofChords beats rest with
    | (blocks, .error e) => (blocks, .error e)
    | (blocks, .ok ()) =>
      match place beats start chord blocks with
      | .error e => (blocks, .error e)
      | .ok blocks => (blocks, .ok ())

/-- The blocks of chords in measures of a known length; there must be chords. -/
def inMeasures (beats : Option α) (chords : List (α × β)) :
    ChordBlocks α β × Except Failure Unit :=
  match beats with
  | none => (empty, .error .missingBeats)
  | some beats => if chords.isEmpty then (empty, .error .noChordMarkers) else ofChords beats chords

end ChordBlocks
end LeadSheet
