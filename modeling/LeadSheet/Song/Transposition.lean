import LeadSheet.Song.Basic

/-!
Transposed songs. Every note becomes one new note, however many lists it stands in: the tracks of
the transposed song hold its notes where the tracks of the song hold the notes they come from.
Keys move with the notes; the other logs stay.
-/
namespace LeadSheet
variable {α : Type}

/-- What is known about a piece, with the key moved by semitones. -/
def Metadata.transposed (m : Metadata α) (semitones : Number) : Except Failure (Metadata α) := do
  let keySignature ← m.keySignature.mapM fun count => KeySignature.transposed count semitones
  return { m with keySignature }

def KeyChange.transposed (change : KeyChange α) (semitones : Number) :
    Except Failure (KeyChange α) := do
  return { change with count := ← KeySignature.transposed change.count semitones }

/-- The sheet with other notes and the keys moved. -/
def Sheet.transposedWith (s : Sheet α) (semitones : Number) (notes : List (Note α)) :
    Except Failure (Sheet α) := do
  let metadata ← s.metadata.transposed semitones
  let keySignatures ← s.keySignatures.mapM fun change => change.transposed semitones
  return { s with notes, metadata, keySignatures }

/-- Whether there is something in a sheet that transposition moves. -/
def Sheet.moves (s : Sheet α) : Bool :=
  !s.notes.isEmpty || s.metadata.keySignature.isSome || !s.keySignatures.isEmpty

/-- The notes made so far: the number of the next one, and for every note that has been
transposed its new note, the latest first. -/
structure Renewal (α : Type) where
  fresh : Nat
  made : List (Nat × Note α)

namespace Renewal

/-- A new note for a note. -/
def make (r : Renewal α) (semitones : Number) (note : Note α) :
    Except Failure (Renewal α × Note α) := do
  let new := { ← note.transposed semitones with id := r.fresh }
  return (⟨r.fresh + 1, (note.id, new) :: r.made⟩, new)

/-- The new note of a note, made only if there is none yet. -/
def find (r : Renewal α) (semitones : Number) (note : Note α) :
    Except Failure (Renewal α × Note α) :=
  match r.made.lookup note.id with
  | some new => .ok (r, new)
  | none => r.make semitones note

/-- New notes for notes in a row. -/
def each (next : Renewal α → Note α → Except Failure (Renewal α × Note α)) (r : Renewal α) :
    List (Note α) → Except Failure (Renewal α × List (Note α))
  | [] => .ok (r, [])
  | note :: rest => do
    let (r, new) ← next r note
    let (r, others) ← each next r rest
    return (r, new :: others)

/-- The transposed tracks. -/
def tracks (r : Renewal α) (semitones : Number) :
    List (Int × Sheet α) → Except Failure (Renewal α × List (Int × Sheet α))
  | [] => .ok (r, [])
  | (number, sheet) :: rest => do
    let (r, notes) ← each (find · semitones ·) r sheet.notes
    let sheet ← sheet.transposedWith semitones notes
    let (r, others) ← tracks r semitones rest
    return (r, (number, sheet) :: others)

end Renewal

/-- The song moved by semitones, and the notes made for it. -/
def Song.renewed (s : Song α) (semitones : Number) : Except Failure (Song α × Renewal α) := do
  let (r, notes) ← Renewal.each (Renewal.make · semitones ·) ⟨s.fresh, []⟩ s.sheet.notes
  let (r, tracks) ← r.tracks semitones s.tracks
  let sheet ← s.sheet.transposedWith semitones notes
  return (⟨sheet, tracks, r.fresh⟩, r)

/-- The song moved by semitones. -/
def Song.transposed (s : Song α) (semitones : Number) : Except Failure (Song α) := do
  return (← s.renewed semitones).1

/-- Copies of all notes of a sheet, with nothing else, numbered from `fresh` on. -/
def Sheet.copied (s : Sheet α) (fresh : Nat) : Sheet α :=
  .ofNotes (s.notes.mapIdx fun i note => { note with id := fresh + i })

end LeadSheet
