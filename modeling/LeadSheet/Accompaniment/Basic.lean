import LeadSheet.Accompaniment.Block
import LeadSheet.Accompaniment.Strategy

/-!
Accompaniments: the notes of all chord blocks of a song, added to it in a new track. When one of
them cannot be made, none is added.
-/
namespace LeadSheet.Accompaniment
variable {α : Type} [Timebase α]

/-- The name of the track that holds the accompaniment. -/
def trackName : String := "Autochords"

/-- The chord blocks of a sheet. There must be chords, and a measure of a known length. -/
def blocks (sheet : Sheet α) : ChordBlocks α ChordSymbol × Except Failure Unit :=
  ChordBlocks.inMeasures (knownBeats sheet) sheet.chords

/-- The notes for the chord blocks of a song, numbered as new ones. -/
def notes (song : Song α) (strategy : Strategy) (settings : Settings)
    (blocks : List (ChordBlock α ChordSymbol)) : Except Failure (List (Note α)) := do
  let played ← blocks.mapM fun b => strategy.play song.sheet settings b.chord b.start b.stop
  return played.flatten.mapIdx fun i p => ⟨song.fresh + i, p.name, p.start, p.duration, none⟩

/-- The song with notes added in a new track. -/
def addTrack (song : Song α) (notes : List (Note α)) : Song α :=
  let number := song.nextTrack
  { song with
    sheet := { song.sheet with notes := song.sheet.notes ++ notes }
    tracks := song.tracks ++ [(number, { Sheet.ofNotes notes with name := some trackName })]
    fresh := song.fresh + notes.length }

/-- An attempt to accompany a song: the song with a new track and the number of that track, or a
failure; and the chords that were rejected in either case. -/
structure Attempt (α : Type) where
  rejected : List (ChordBlock α ChordSymbol)
  result : Except Failure (Song α × Int)

/-- Adds an accompaniment to a song. -/
def accompany (song : Song α) (strategy : Strategy) (settings : Settings) : Attempt α :=
  let (blocks, outcome) := blocks song.sheet
  { rejected := blocks.rejected
    result := do
      outcome
      let notes ← notes song strategy settings blocks.kept
      return (addTrack song notes, song.nextTrack) }

end LeadSheet.Accompaniment
