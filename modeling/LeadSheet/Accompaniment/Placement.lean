import LeadSheet.Harmony.Chord
import LeadSheet.Song.Extent

/-!
Where chord notes are placed: in the highest octave that keeps them below a ceiling, which lies
under the melody that sounds at the same time.
-/
namespace LeadSheet.Accompaniment

/-- The ceiling where no melody is lower. -/
def highestCeiling : Int := middleC + 5

/-- How an accompaniment is made, as it is asked for. What stands for no counts as left out. -/
structure Settings where
  /-- how many times a measure is halved, counted from one -/
  rate : Datum
  /-- semitones to keep between the chord notes and the melody -/
  spacing : Datum
  deriving DecidableEq, Repr

namespace Settings

/-- Settings that say nothing. -/
def plain : Settings := ⟨.none, .none⟩

/-- The settings that a record holds. -/
def ofDatum (d : Datum) : Except Failure Settings :=
  match d with
  | .record _ => .ok ⟨d.field "rate", d.field "chord_min_spacing"⟩
  | d => if d.holds then .error .wrongType else .ok plain

/-- The rate as a number, one where it is left out. -/
def rateNumber (settings : Settings) : Except Failure Number :=
  if settings.rate.holds then settings.rate.toNumber else .ok 1

/-- The spacing as a number, zero where it is left out. -/
def spacingNumber (settings : Settings) : Except Failure Number :=
  if settings.spacing.holds then settings.spacing.toNumber else .ok 0

end Settings

/-- The pitch that chord notes must stay below between two beats. -/
def ceiling {α : Type} [Timebase α] (sheet : Sheet α) (settings : Settings) (start stop : α) :
    Except Failure Number := do
  let pitches ← (← sheet.notesBetween start stop).mapM fun note => NoteName.pitch note.name
  (Number.whole (pitches.foldl min highestCeiling)).sub (← settings.spacingNumber)

/-- The name of the highest note of a pitch class below a ceiling. -/
def rootBelow (root : String) (ceiling : Number) : Except Failure String := do
  let lowest ← NoteName.pitch (NoteName.withOctave root 0)
  let reach ← (← ceiling.sub 1).sub (.whole lowest)
  let octaves ← reach.floorDiv (.whole octaveSize)
  NoteName.spellAny (← (← octaves.mul (.whole octaveSize)).add (.whole lowest)) true

/-- The highest pitch of some notes. -/
def highestPitch (notes : List String) : Except Failure Int := do
  match ← notes.mapM NoteName.pitch with
  | [] => throw .outOfRange
  | p :: rest => return rest.foldl max p

/-- How many octaves a pitch has to be moved down to lie below a ceiling. -/
def octavesAbove (p ceiling : Int) : Nat := ((p - ceiling) / octaveSize + 1).toNat

/-- Notes moved down an octave, a number of times. In between all of them must have pitches. -/
def lowered (notes : List String) : Nat → Except Failure (List String)
  | 0 => .ok notes
  | n + 1 => do
    let notes ← notes.mapM fun note => NoteName.transpose note (-octaveSize)
    let _ ← highestPitch notes
    lowered notes n

/-- The notes of a chord from its root upwards, all of them below a ceiling. -/
def chordBelow (root : String) (shape : ChordShape) (ceiling : Number) :
    Except Failure (List String) := do
  let notes ← Chord.notes (← rootBelow root ceiling) shape 0 none
  let highest ← highestPitch notes
  lowered notes (octavesAbove highest (← ceiling.ceil))

end LeadSheet.Accompaniment
