import LeadSheet.Harmony.KeySignature
import LeadSheet.Markup.Command
import LeadSheet.Timeline.Ticks

/-!
The cursor that walks through the commands of a lead sheet: where it stands, in ticks, and what
the commands before it have set. A block is walked with a cursor of its own; what the block sets
ends with it, but for the position, the last pitch and the length of a measure.
-/
namespace LeadSheet

structure Cursor where
  /-- where the block starts -/
  start : Rat
  position : Rat
  /-- the length of a note without a multiplier -/
  noteLength : Rat
  measureLength : Rat
  /-- by how much the tempo stretches notes and rests -/
  stretch : Rat
  /-- the count of the key signature, as it was given -/
  key : Datum
  track : Int
  /-- the number of the measure that was entered last -/
  measure : Int
  nextMeasure : Rat
  lastPitch : Option Int
  /-- the pitch that a first note without octave is close to -/
  defaultPitch : Int
  deriving DecidableEq, Repr

namespace Cursor

/-- The cursor at the start of a song. The first note without octave is sought around the C of
the default octave. -/
def initial (defaultOctave : Int) : Cursor where
  start := 0
  position := 0
  noteLength := Ticks.perBeat
  measureLength := Ticks.perBeat * Ticks.defaultBeats
  stretch := 1
  key := .whole 0
  track := 0
  measure := -1
  nextMeasure := 0
  lastPitch := none
  defaultPitch := (defaultOctave + 1) * octaveSize

/-- The cursor inside a block that starts here. -/
def enter (c : Cursor) : Cursor := { c with start := c.position }

/-- The cursor behind a block, given the one that walked through the block. The next measure
starts where it did, but for a new length of the measure before it. -/
def leave (c inner : Cursor) : Cursor :=
  { c with
    position := inner.position
    lastPitch := inner.lastPitch
    measureLength := inner.measureLength
    nextMeasure := c.nextMeasure - c.measureLength + inner.measureLength }

/-- Back to where the block starts. -/
def rewind (c : Cursor) : Cursor := { c with position := c.start }

/-- The length of a note or rest in ticks. A multiplier or a number of dots that is zero counts as
left out. -/
def length (c : Cursor) (timing : Timing) : Except Failure Int := do
  let plain := Number.ratio (c.noteLength * c.stretch)
  let multiplied ← match timing.multiplier with
    | some m => if m.isZero then pure plain else plain.mul m
    | none => pure plain
  let dotted ← match timing.dots with
    | some n => if n = 0 then pure multiplied else multiplied.mul (.ratio (← Ticks.dotted n))
    | none => pure multiplied
  Ticks.round dotted

/-- Stretches or shortens what follows. -/
def changeTempo (c : Cursor) (tempo : Tempo) (count : Int) : Cursor :=
  let factor : Rat := match tempo with
    | .half => 2
    | .double => 1 / 2
    | .triple => 1 / 3
  { c with stretch := c.stretch * factor ^ count }

/-- Goes to a measure by its number, or on to the next one: that starts where the last one ends,
but never before the position. -/
def toMeasure (c : Cursor) : Option Int → Cursor
  | some n =>
    { c with
      measure := n
      position := n * c.measureLength
      nextMeasure := (n + 1) * c.measureLength }
  | none =>
    let position := if c.nextMeasure < c.position then c.position else c.nextMeasure
    { c with
      measure := c.measure + 1
      position
      nextMeasure := position + c.measureLength }

/-- Measures of a number of beats, each a fraction of a whole note. -/
def changeMeter (c : Cursor) (beats : Datum) (unit : Int) : Except Failure Cursor := do
  if unit = 0 then throw .divisionByZero
  let noteLength := Ticks.perBeat * 4 / unit
  return { c with noteLength, measureLength := noteLength * (← beats.toInt) }

/-- The pitch that a note without octave is to be close to. -/
def reference (c : Cursor) : Int := c.lastPitch.getD c.defaultPitch

/-- A name with a sign put behind its first character. -/
def withSign (name : String) (sign : Char) : String :=
  String.ofList (name.toList.take 1 ++ sign :: name.toList.drop 1)

/-- The sounding name of a note: its own accidental goes before the key, and without an octave it
takes the one closest to the last pitch. -/
def soundingName (c : Cursor) (name : String) (mark : Option Mark) : Except Failure String := do
  let name ← match mark with
    | some .sharp => pure (withSign name '#')
    | some .flat => pure (withSign name 'b')
    | some .natural => pure name
    | none => KeySignature.soundingUnder c.key name
  match name.toList.getLast? with
  | none => throw .outOfRange
  | some last =>
    if Text.isDigitSign last then return name else NoteName.closestOctave name c.reference

end Cursor
end LeadSheet
