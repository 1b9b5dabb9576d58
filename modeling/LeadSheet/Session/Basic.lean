import LeadSheet.Session.Page
import LeadSheet.Song.Matching

/-!
Sessions: songs that are edited one after the other. One page, a song or a track of one, is at hand,
and any can be kept under a name. Notes, logs and pages have numbers: what has the same number is
the same, so that a note that is changed changes wherever it stands.
-/
namespace LeadSheet

structure Session where
  notes : Array NoteEntry
  logs : Array Datum
  pages : Array Page
  /-- the number of the page at hand -/
  atHand : Nat
  saved : List (Datum × Nat)

namespace Session

/-! ### Pages -/

def pageAt (s : Session) (number : Nat) : Page := (s.pages[number]?).getD default

/-- The page at hand. -/
def page (s : Session) : Page := s.pageAt s.atHand

def modifyPage (s : Session) (number : Nat) (f : Page → Page) : Session :=
  { s with pages := s.pages.modify number f }

/-- Changes the page at hand. -/
def modify (s : Session) (f : Page → Page) : Session := s.modifyPage s.atHand f

/-- Adds a page with logs of its own. Its number comes with it. -/
def addPage (s : Session) (notes : List Nat) (metadata : Datum) (logs : Logs Datum) (name : Datum)
    (tracks : Option (List (Datum × Nat))) : Session × Nat :=
  let page : Page :=
    { notes, metadata, name, tracks
      logs := .numbered s.logs.size
      bucketSize := .whole Matching.bucketSize
      spans := none }
  ({ s with logs := s.logs ++ logs.toList.toArray, pages := s.pages.push page }, s.pages.size)

/-- Adds a page that holds nothing but notes. -/
def addPlain (s : Session) (notes : List Nat) (tracks : Option (List (Datum × Nat))) :
    Session × Nat :=
  s.addPage notes (.record []) (.all (.list [])) .none tracks

/-- Takes a page. -/
def select (s : Session) (number : Nat) : Session := { s with atHand := number }

/-- Takes the page that was added. -/
def selectAdded (added : Session × Nat) : Session := added.1.select added.2

/-- A session with an empty song at hand. -/
def initial : Session := selectAdded (addPlain ⟨#[], #[], #[], 0, []⟩ [] (some []))

/-- Keeps the page at hand under a name. -/
def save (s : Session) (name : Datum) : Session := { s with saved := (name, s.atHand) :: s.saved }

/-- The number of the page that is kept under a name. -/
def savedPage (s : Session) (name : Datum) : Except Failure Nat :=
  match s.saved.find? fun entry => entry.1.same name with
  | some entry => .ok entry.2
  | none => .error (if name.isKey then .missingKey else .wrongType)

/-! ### Notes -/

def note (s : Session) (number : Nat) : NoteEntry := (s.notes[number]?).getD default

/-- The notes of a page, with their numbers. -/
def notesOf (s : Session) (page : Page) : List (Note Datum) :=
  page.notes.map fun number => (s.note number).toNote number

/-- Adds notes, which stand nowhere yet. Their numbers come with them. -/
def addNotes (s : Session) (notes : List NoteEntry) : Session × List Nat :=
  ({ s with notes := s.notes ++ notes.toArray },
    (List.range notes.length).map fun i => s.notes.size + i)

/-- Adds a page with some new notes, and takes it. -/
def openNotes (s : Session) (notes : List NoteEntry) (tracks : Option (List (Datum × Nat))) :
    Session :=
  let (s, numbers) := s.addNotes notes
  selectAdded (s.addPlain numbers tracks)

/-- The number of the note at a place; negative places count from the end. -/
def noteAt (s : Session) (place : Datum) : Except Failure Nat := do
  let notes := s.page.notes
  let i ← place.toInt
  let i := if i < 0 then i + notes.length else i
  match if i < 0 then none else notes[i.toNat]? with
  | some number => return number
  | none => throw .outOfRange

/-- Puts a note at the end of a page. -/
def putAt (s : Session) (page number : Nat) : Session :=
  s.modifyPage page fun p => { p with notes := p.notes ++ [number] }

/-- Adds a note to the page at hand. -/
def append (s : Session) (note : NoteEntry) : Session :=
  { s with notes := s.notes.push note }.putAt s.atHand s.notes.size

/-- Changes a note wherever it stands. -/
def setNote (s : Session) (number : Nat) (note : NoteEntry) : Session :=
  { s with notes := s.notes.modify number fun _ => note }

/-- Takes a plain copy of the notes at hand. -/
def copy (s : Session) : Session := s.openNotes (s.page.notes.map s.note) none

/-! ### Tracks -/

/-- The tracks of the page at hand. A plain page has none. -/
def tracks (s : Session) : Except Failure (List (Datum × Nat)) :=
  s.page.tracks.elim (.error .noAttribute) .ok

/-- The track with a key, which is made if it is not there. -/
def openTrack (s : Session) (key : Datum) : Except Failure (Session × Nat) := do
  let tracks ← s.tracks
  if !key.isKey then throw .wrongType
  match tracks.find? fun track => track.1.same key with
  | some track => return (s, track.2)
  | none =>
    let (added, number) := s.addPlain [] none
    return (added.modify fun p => { p with tracks := some (tracks ++ [(key, number)]) }, number)

/-- Adds a note to the song at hand and to one of its tracks. A key that makes no track is noticed
when the note stands in the song already. -/
def push (s : Session) (note : NoteEntry) (key : Datum) : Session × Except Failure Unit :=
  match s.tracks with
  | .error e => (s, .error e)
  | .ok _ =>
    let number := s.notes.size
    let s := s.append note
    match s.openTrack key with
    | .error e => (s, .error e)
    | .ok (s, track) => (s.putAt track number, .ok ())

/-- Adds a note that is there already to a track, and not to the song again. -/
def pushAgain (s : Session) (number : Nat) (key : Datum) : Except Failure Session := do
  let (s, track) ← s.openTrack key
  return s.putAt track number

/-- The key for a further track: two above the greatest in use. -/
def nextTrack (s : Session) : Except Failure Number := do
  match ← (← s.tracks).mapM fun track => track.1.toNumber with
  | [] => return 1
  | key :: keys => (keys.foldl (fun a b => if a.lt b then b else a) key).add 2

/-- Keys in their order. More than one must all be numbers or all be texts. -/
def inOrder (keys : List (Datum × Nat)) : Except Failure (List (Datum × Nat)) :=
  if keys.length < 2 then .ok keys
  else
    match keys.mapM fun key => do return (← key.1.toNumber, key) with
    | .ok keyed => .ok ((keyed.mergeSort fun a b => a.1.le b.1).map Prod.snd)
    | .error _ => do
      let keyed ← keys.mapM fun key => do return (← key.1.toText, key)
      return (keyed.mergeSort fun a b => a.1 ≤ b.1).map Prod.snd

/-- The tracks in the order of their keys. -/
def sortedTracks (s : Session) : Except Failure (List (Datum × Nat)) := do inOrder (← s.tracks)

/-! ### Logs -/

/-- A log of a page. -/
def logOf (s : Session) (page : Page) (kind : LogKind) : Datum :=
  (s.logs[page.logs.get kind]?).getD .none

/-- The entries of a log of the page at hand. -/
def entries (s : Session) (kind : LogKind) : Except Failure (List Datum) :=
  (s.logOf s.page kind).parts

/-- Adds an entry to a log, of the page at hand and of all pages that hold the same log. The new
length comes with it. -/
def log (s : Session) (kind : LogKind) (entry : Datum) : Except Failure (Session × Nat) :=
  match s.logOf s.page kind with
  | .list entries =>
    let logs := s.logs.modify (s.page.logs.get kind) fun _ => .list (entries ++ [entry])
    .ok ({ s with logs }, entries.length + 1)
  | _ => .error .noAttribute

/-- Gives the page at hand a new log. -/
def setLog (s : Session) (kind : LogKind) (log : Datum) : Session :=
  { s with logs := s.logs.push log }.modify fun p =>
    { p with logs := p.logs.set kind s.logs.size }

/-! ### Songs -/

/-- Adds a sheet of a song whose notes have been added, the first of them with a number. -/
def addSheet (s : Session) (first : Nat) (sheet : Sheet Number)
    (tracks : Option (List (Datum × Nat))) : Session × Nat :=
  let name := (sheet.name.map Datum.text).getD .none
  s.addPage (sheet.notes.map fun note => first + note.id) sheet.metadata.toDatum sheet.logs name
    tracks

/-- Adds tracks of a song. -/
def addTracks (s : Session) (first : Nat) :
    List (Int × Sheet Number) → Session × List (Datum × Nat)
  | [] => (s, [])
  | (key, sheet) :: rest =>
    let (s, number) := s.addSheet first sheet none
    let (s, others) := s.addTracks first rest
    (s, (.whole key, number) :: others)

/-- Adds a song in which every note has its place as its number, and takes it. -/
def openSong (s : Session) (song : Song Number) : Session :=
  let first := s.notes.size
  let (s, _) := s.addNotes (song.sheet.notes.map NoteEntry.ofNote)
  let (s, tracks) := s.addTracks first song.tracks
  selectAdded (s.addSheet first song.sheet (some tracks))

end Session
end LeadSheet
