import LeadSheet.Session.Basic
import LeadSheet.Song.Transposition

/-!
Transposition in a session. The new song has new notes and a new log of keys; it holds the other
logs of the song it comes from, so that what is added to one is added to the other, until one of
them gets a new log.
-/
namespace LeadSheet.Session

/-- What transposition changes of a page. All names must be texts. -/
def keyedSheet (s : Session) (page : Page) : Except Failure (Sheet Datum) := do
  let _ ← page.notes.mapM fun number => (s.note number).name.toText
  let keySignature :=
    if page.metadata.hasField "keySignature" then some (page.metadata.field "keySignature")
    else none
  let keySignatures ← (← (s.logOf page .keySignatures).parts).mapM KeyChange.ofDatum
  return { Sheet.ofNotes (s.notesOf page) with
    metadata := ⟨keySignature, none, none⟩
    keySignatures }

/-- What transposition changes of a song. The tracks are numbered by their places. -/
def keyedSong (s : Session) (page : Page) : Except Failure (Song Datum) := do
  let sheet ← s.keyedSheet page
  let tracks ← (page.tracks.getD []).zipIdx.mapM fun (track, i) => do
    return ((i : Int), ← s.keyedSheet (s.pageAt track.2))
  return ⟨sheet, tracks, s.notes.size⟩

/-- Adds a page that differs from another one in what transposition has changed. -/
def addKeyed (s : Session) (page : Page) (sheet : Sheet Datum)
    (tracks : Option (List (Datum × Nat))) : Session × Nat :=
  let keys := Datum.list (sheet.keySignatures.map KeyChange.toDatum)
  let metadata := match sheet.metadata.keySignature with
    | some count => (page.metadata.withField "keySignature" count).toOption.getD page.metadata
    | none => page.metadata
  let new : Page :=
    { page with
      notes := sheet.notes.map Note.id
      metadata
      logs := page.logs.set .keySignatures s.logs.size
      tracks
      bucketSize := .whole Matching.bucketSize
      spans := none }
  ({ s with logs := s.logs.push keys, pages := s.pages.push new }, s.pages.size)

/-- Adds the transposed tracks of a page. -/
def addKeyedTracks (s : Session) :
    List (Datum × Nat) → List (Sheet Datum) → Session × List (Datum × Nat)
  | (key, number) :: tracks, sheet :: sheets =>
    let (s, number) := s.addKeyed (s.pageAt number) sheet none
    let (s, others) := s.addKeyedTracks tracks sheets
    (s, (key, number) :: others)
  | _, _ => (s, [])

/-- Takes a transposed copy of the page at hand. No semitones leave the page as it is. -/
def transpose (s : Session) (semitones : Datum) : Except Failure Session := do
  if semitones.same (.whole 0) then return s
  let page := s.page
  let song ← s.keyedSong page
  let moves := song.sheet.moves || song.tracks.any fun track => track.2.moves
  let semitones ← if moves then semitones.toNumber else pure 0
  let (song, renewal) ← song.renewed semitones
  let (s, _) := s.addNotes (renewal.made.reverse.map fun (old, new) =>
    { s.note old with name := .text new.name })
  let (s, tracks) := s.addKeyedTracks (page.tracks.getD []) (song.tracks.map Prod.snd)
  return selectAdded (s.addKeyed page song.sheet (page.tracks.map fun _ => tracks))

end LeadSheet.Session
