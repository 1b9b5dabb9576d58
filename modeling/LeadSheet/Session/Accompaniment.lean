import LeadSheet.Accompaniment.Basic
import LeadSheet.Session.Inquiry
import LeadSheet.Warning

/-!
Accompaniments in a session: they are made for the page at hand, from what has been entered in its
logs.
-/
namespace LeadSheet.Session
open Accompaniment (Strategy Settings)

/-- The beats of a measure as they were entered. -/
def enteredBeats (s : Session) : Datum := s.page.metadata.field "beatsPerMeasure"

/-- The beats of a measure, if they are known. -/
def beats (s : Session) : Except Failure (Option Number) :=
  if s.enteredBeats.holds then some <$> s.enteredBeats.toNumber else .ok none

/-- What an accompaniment depends on, but for the chords. -/
def melody (s : Session) : Except Failure (Sheet Number) := do
  let beatsPerMeasure ← s.beats
  return { ← s.namedSheet with metadata := ⟨none, beatsPerMeasure, none⟩ }

/-- What divisions depend on. -/
def rhythm (s : Session) : Except Failure (Sheet Number) := do
  return { (Sheet.empty : Sheet Number) with metadata := ⟨none, ← s.beats, none⟩ }

/-- A chord marker: a beat and a chord of any kind. -/
def marker (entry : Datum) : Except Failure (Number × Datum) := do
  match ← entry.exactly 2 with
  | [beat, chord] => return (← beat.toNumber, chord)
  | _ => throw .wrongType

/-- The chord markers of a log, from the last one back to the first that makes no sense. -/
def markers : List Datum → List (Number × Datum) × Except Failure Unit
  | [] => ([], .ok ())
  | entry :: rest =>
    match markers rest, marker entry with
    | (found, .error e), _ => (found, .error e)
    | (found, .ok ()), .ok new => (new :: found, .ok ())
    | (found, .ok ()), .error e => (found, .error e)

/-- The chord blocks of the log of chords. What comes before a failure comes with it. -/
def chordBlocks (s : Session) : ChordBlocks Number Datum × Except Failure Unit :=
  match s.beats, s.entries .chords with
  | .error e, _ | _, .error e => (.empty, .error e)
  | .ok none, _ => (.empty, .error .missingBeats)
  | .ok (some _), .ok [] => (.empty, .error .noChordMarkers)
  | .ok (some beats), .ok entries =>
    let (found, fault) := markers entries
    let (blocks, outcome) := ChordBlocks.ofChords beats found
    (blocks, do outcome; fault)

/-- The warnings about rejected chords, from the last one back. -/
def rejections (blocks : ChordBlocks Number Datum) : List Warning :=
  blocks.rejected.reverse.map fun b => .rejectedChord b.chord b.start b.stop

/-- The notes of an accompaniment. -/
def played (s : Session) (strategy : Strategy) (settings : Settings)
    (blocks : ChordBlocks Number Datum) : Except Failure (List NoteEntry) := do
  let sheet ← s.melody
  let played ← blocks.kept.mapM fun b => do
    strategy.play sheet settings (← ChordSymbol.ofDatum b.chord) b.start b.stop
  return played.flatten.map fun p =>
    ⟨.text p.name, .number p.start, .number p.duration, .none⟩

/-- Adds an accompaniment in a new track, whose key comes with it. -/
def accompany (s : Session) (strategy : Strategy) (settings : Settings)
    (blocks : ChordBlocks Number Datum) : Except Failure (Session × Number) := do
  let notes ← s.played strategy settings blocks
  let key ← s.nextTrack
  let pushed := notes.foldl (fun s note => (s.push note (.number key)).1) s
  let (s, track) ← pushed.openTrack (.number key)
  return (s.modifyPage track fun p => { p with name := .text Accompaniment.trackName }, key)

end LeadSheet.Session
