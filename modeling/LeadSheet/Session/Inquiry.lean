import LeadSheet.Session.Basic
import LeadSheet.Song.Extent

/-!
What can be asked about the page at hand. Data that was entered is made into names, beats and
locations where an answer depends on it, and only then does it matter whether it makes sense.
-/
namespace LeadSheet.Session

/-- The notes at hand, with beats for their times. -/
def timedNotes (s : Session) : Except Failure (List (Note Number)) :=
  (s.notesOf s.page).mapM (Note.mapTimes Datum.toNumber)

/-- The notes at hand as a sheet. -/
def timedSheet (s : Session) : Except Failure (Sheet Number) := do
  return .ofNotes (← s.timedNotes)

/-- The names of all notes at hand must be texts. -/
def checkNames (s : Session) : Except Failure Unit := do
  let _ ← s.page.notes.mapM fun number => (s.note number).name.toText

/-- The notes at hand as a sheet on which notes can be sought by their pitches. -/
def namedSheet (s : Session) : Except Failure (Sheet Number) := do
  s.checkNames
  s.timedSheet

/-- The beat at which the last note ends. -/
def stop (s : Session) : Except Failure Number := do (← s.timedSheet).stop

/-- The beat at which the first note starts. -/
def start (s : Session) : Except Failure Number := do return (← s.timedSheet).start

/-- The numbers of the notes that sound somewhere between two beats. -/
def notesBetween (s : Session) (start stop : Datum) : Except Failure (List Nat) := do
  if s.page.notes.isEmpty then return []
  let sheet ← s.timedSheet
  return (← sheet.notesBetween (← start.toNumber) (← stop.toNumber)).map Note.id

/-- The places of the notes that touch a selection of the text. -/
def notesForSelection (s : Session) (start stop : Datum) : Except Failure (List Nat) := do
  let sheet := Sheet.ofNotes (s.notesOf s.page)
  if sheet.locations.isEmpty then return []
  sheet.notesForSelection (← start.toNumber) (← stop.toNumber)

/-- The changes of key that touch a selection of the text. -/
def keyChangesForSelection (s : Session) (start stop : Datum) : Except Failure (List Datum) := do
  (← s.entries .keySignatures).filterM fun entry => do
    let location := Location.ofDatum (← entry.part 2)
    location.touches (← start.toNumber) (← stop.toNumber)

/-- The entry of the log of time signatures that two data stand for. -/
def timeSignature (entry : Datum) : Except Failure (Number × Datum) := do
  return (← (← entry.part 0).toNumber, ← entry.part 1)

/-- The measures up to the end of the notes. Without a length there are none. -/
def measures (s : Session) : Except Failure (List (Sheet.Measure Number)) := do
  let sheet ← s.timedSheet
  if (← sheet.stop).isZero then return []
  let timeSignatures ← (← s.entries .timeSignatures).mapM timeSignature
  { sheet with timeSignatures }.measures

/-- The names of the lowest and the highest note, if there are notes. -/
def noteRange (s : Session) : Except Failure (Option (String × String)) := do
  s.checkNames
  (Sheet.ofNotes (s.notesOf s.page)).noteRange

/-- The clef that stands alone in the log, with its beat. -/
def onlyClef (s : Session) : Except Failure (List (Number × Datum)) := do
  match ← s.entries .clefs with
  | [entry] =>
    match ← entry.exactly 2 with
    | [beat, sign] =>
      let beat ← if s.page.notes.isEmpty then pure 0 else beat.toNumber
      return [(beat, sign)]
    | _ => throw .wrongType
  | _ => return []

/-- The staff that suits the notes. -/
def fittingStaff (s : Session) : Except Failure String := do
  let clefs ← s.onlyClef
  { ← s.namedSheet with clefs }.fittingStaff

/-- The place of the note of a pitch that starts closest to a beat. A note without a rival is found
whatever the beat is. -/
def closest (s : Session) (name beat : Datum) : Except Failure (Option Nat) := do
  let name ← name.toText
  let target ← NoteName.pitch name
  s.checkNames
  let rivals ← (s.notesOf s.page).zipIdx.filterM fun entry => do
    return (← NoteName.pitch entry.1.name) = target
  if rivals.length < 2 then return rivals.head?.map Prod.snd
  Matching.closest (← s.timedNotes) name (← beat.toNumber)

/-- The buckets of the notes at hand, which are reckoned if they have not been. -/
def spans (s : Session) : Except Failure (List (Int × Int)) := do
  match s.page.spans with
  | some spans => return spans
  | none => Matching.bucketSpans (← s.page.bucketSize.toNumber) (← s.timedNotes)

/-- The fast search. It leaves the buckets behind even when it fails. A loop needs both ends. -/
def fastClosest (s : Session) (name beat right left : Datum) :
    Session × Except Failure (Option Nat) :=
  match s.spans with
  | .error e => (s, .error e)
  | .ok spans =>
    (s.modify fun p => { p with spans := some spans }, do
      let name ← name.toText
      let _ ← NoteName.pitch name
      let loop ← match right.toOption, left.toOption with
        | some right, some left => do pure (some (← right.toNumber, ← left.toNumber))
        | _, _ => pure none
      let notes := (← s.namedSheet).notes
      Matching.fastClosest (← s.page.bucketSize.toNumber) notes spans name (← beat.toNumber) loop)

end LeadSheet.Session
