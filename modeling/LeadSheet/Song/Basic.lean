import LeadSheet.Harmony.ChordSymbol
import LeadSheet.Song.Note

/-!
Songs. A sheet holds notes, what is known about the piece, and the logs of what changes over time.
A song is a sheet with all its notes together with its tracks, sheets of their own that hold the
same notes again.
-/
namespace LeadSheet

/-- A change of key, with the place in the text that it comes from. -/
structure KeyChange (α : Type) where
  beat : α
  count : Datum
  location : Option Location
  deriving DecidableEq, Repr

/-- What is known about a piece as a whole. -/
structure Metadata (α : Type) where
  keySignature : Option Datum
  beatsPerMeasure : Option α
  /-- the fields in front of the music -/
  fields : Option (List (Datum × Datum))
  deriving DecidableEq, Repr

def Metadata.empty {α : Type} : Metadata α := ⟨none, none, none⟩

/-- Notes and what belongs to them. -/
structure Sheet (α : Type) where
  notes : List (Note α)
  metadata : Metadata α
  chords : List (α × ChordSymbol)
  clefs : List (α × Datum)
  remarks : List (α × Datum)
  /-- the beats of a measure, from a beat on -/
  timeSignatures : List (α × Datum)
  keySignatures : List (KeyChange α)
  name : Option String
  deriving Repr

namespace Sheet
variable {α : Type}

def ofNotes (notes : List (Note α)) : Sheet α := ⟨notes, .empty, [], [], [], [], [], none⟩

def empty : Sheet α := ofNotes []

def push (s : Sheet α) (note : Note α) : Sheet α := { s with notes := s.notes ++ [note] }

/-- The last place where a note stands, if it stands there at all. -/
def lastPlace? (s : Sheet α) (note : Note α) : Option Nat :=
  (s.notes.zipIdx.reverse.find? fun entry => entry.1.id = note.id).map Prod.snd

end Sheet

/-- All notes of a song, and its tracks by number. Notes not yet made have numbers from `fresh`
on. -/
structure Song (α : Type) where
  sheet : Sheet α
  tracks : List (Int × Sheet α)
  fresh : Nat
  deriving Repr

namespace Song
variable {α : Type}

def empty : Song α := ⟨.empty, [], 0⟩

/-- The track with a number. A track not yet there is empty. -/
def track (s : Song α) (number : Int) : Sheet α := (s.tracks.lookup number).getD .empty

/-- Changes the track with a number, which is made if it is not there. -/
def modifyTrack (s : Song α) (number : Int) (f : Sheet α → Sheet α) : Song α :=
  if (s.tracks.lookup number).isSome then
    { s with tracks := s.tracks.map fun t => if t.1 = number then (t.1, f t.2) else t }
  else { s with tracks := s.tracks ++ [(number, f .empty)] }

/-- Adds a note to a track and to the notes of the song. -/
def push (s : Song α) (note : Note α) (number : Int) : Song α :=
  { s with sheet := s.sheet.push note }.modifyTrack number (·.push note)

/-- The number for a further track: two above the greatest in use. -/
def nextTrack (s : Song α) : Int :=
  match s.tracks.map Prod.fst with
  | [] => 1
  | n :: rest => rest.foldl max n + 2

/-- The tracks by ascending numbers. -/
def sortedTracks (s : Song α) : List (Int × Sheet α) := s.tracks.mergeSort fun a b => a.1 ≤ b.1

/-- Applies a change to every sheet. -/
def mapSheets (s : Song α) (f : Sheet α → Sheet α) : Song α :=
  { s with sheet := f s.sheet, tracks := s.tracks.map fun t => (t.1, f t.2) }

end Song
end LeadSheet
