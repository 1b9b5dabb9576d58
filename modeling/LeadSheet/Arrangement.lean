import LeadSheet.Accompaniment.Basic
import LeadSheet.Markup.CommandData
import LeadSheet.Markup.DigitLimit
import LeadSheet.Timeline.Event
import LeadSheet.Warning

/-!
Arrangements: the songs that the commands of lead sheets stand for. The walk through the commands
gives events, the events give the notes and logs of the song, and the chords among them an
accompaniment.
-/
namespace LeadSheet
variable {α : Type}

namespace Event

/-- The track that an event belongs to, if it makes one. -/
def track? : Event α → Option Int
  | note track .. | clef track .. => some track
  | _ => none

def note? : Event α → Option (Int × (Nat → Note α))
  | note track name start duration location =>
    some (track, fun id => ⟨id, name, start, duration, location⟩)
  | _ => none

def clef? (number : Int) : Event α → Option (α × Datum)
  | clef track beat sign => if track = number then some (beat, sign) else none
  | _ => none

def remark? : Event α → Option (α × Datum)
  | .remark beat text => some (beat, text)
  | _ => none

def chord? : Event α → Option (α × ChordSymbol)
  | chord beat symbol => some (beat, symbol)
  | _ => none

def keyChange? : Event α → Option (KeyChange α)
  | keySignature beat count location => some ⟨beat, count, location⟩
  | _ => none

def timeSignature? : Event α → Option (α × Datum)
  | timeSignature beat beats => some (beat, beats)
  | _ => none

def unknown? : Event α → Option Datum
  | unknown node => some node
  | _ => none

end Event

namespace Song

/-- The notes of events with their tracks, numbered in their order. -/
def notesOf (events : List (Event α)) : List (Int × Note α) :=
  (events.filterMap Event.note?).mapIdx fun i (track, note) => (track, note i)

/-- The track with a number that events make. -/
def trackOf (events : List (Event α)) (notes : List (Int × Note α)) (number : Int) : Sheet α :=
  { Sheet.ofNotes ((notes.filter fun note => note.1 = number).map Prod.snd) with
    clefs := events.filterMap (Event.clef? number) }

/-- The song that events make. A track is made by the first note or clef in it. -/
def ofEvents (events : List (Event α)) : Song α :=
  let notes := notesOf events
  { sheet :=
      { Sheet.ofNotes (notes.map Prod.snd) with
        chords := events.filterMap Event.chord?
        remarks := events.filterMap Event.remark?
        timeSignatures := events.filterMap Event.timeSignature?
        keySignatures := events.filterMap Event.keyChange? }
    tracks := (events.filterMap Event.track?).eraseDups.map fun number =>
      (number, trackOf events notes number)
    fresh := notes.length }

end Song

/-- Which accompaniment is asked for. -/
inductive AccompanimentChoice where
  | standard
  | off
  | named (name : Datum)
  deriving DecidableEq, Repr

/-- How a song is arranged. The octave and the settings are looked at when they are needed. -/
structure ArrangementOptions where
  defaultOctave : Datum
  accompaniment : AccompanimentChoice
  settings : Datum
  deriving DecidableEq, Repr

/-- The options when nothing is asked for. -/
def ArrangementOptions.standard : ArrangementOptions := ⟨.whole 4, .standard, .none⟩

/-- A song, or why there is none, and what there is to say about it. -/
structure Arrangement (α : Type) where
  unknown : List Datum
  rejected : List (ChordBlock α ChordSymbol)
  result : Except Failure (Song α)

namespace Arrangement

/-- Fields by their keys. A key keeps its first form and place, and its last value. -/
def fieldsOf (commands : List Command) : List (Datum × Datum) :=
  commands.foldl
    (fun fields command => match command with
      | .field key value =>
        if fields.any fun f => f.1.same key then
          fields.map fun f => if f.1.same key then (f.1, value) else f
        else fields ++ [(key, value)]
      | _ => fields)
    []

/-- Whether a datum can be taken for a command: it has a tag, and if it is a field, a key and a
value. -/
def checkNode (node : Datum) : Except Failure Unit := do
  if (← node.part 0) = .text "frontmatter" then
    let key ← node.part 1
    let _ ← node.part 2
    if !key.isKey then throw .wrongType

variable [Timebase α]

/-- Beats as a whole number if they are one. -/
def wholeOrNearest (beats : Rat) : Except Failure α :=
  if beats.den = 1 then .ok (Timebase.ofInt beats.num) else Timebase.ofRat beats

/-- What is known about a piece when its end is reached. -/
def metadataAt (cursor : Cursor) (fields : List (Datum × Datum)) :
    Except Failure (Metadata α) := do
  let beats ← wholeOrNearest (cursor.measureLength / Ticks.perBeat)
  return ⟨some cursor.key, some beats, if fields.isEmpty then none else some fields⟩

/-- Puts the usual time signature at beat zero, unless there is one from there on. -/
def withFirstSignature (log : List (α × Datum)) : Except Failure (List (α × Datum)) := do
  let zero ← Timebase.ofRat 0
  let usual := (zero, Datum.whole Ticks.defaultBeats)
  return match log with
    | [] => [usual]
    | (beat, beats) :: rest =>
      if Timebase.lt zero beat then usual :: (beat, beats) :: rest else (beat, beats) :: rest

/-- The song of commands before it is accompanied, with the events that led to it. -/
def plainSong (commands : List Command) (defaultOctave : Int) :
    List (Event α) × Except Failure (Song α) :=
  let walk := Cursor.walkAll (Cursor.initial defaultOctave) commands
  (walk.events, do
    let cursor ← walk.outcome
    let song := Song.ofEvents walk.events
    let metadata ← metadataAt cursor (fieldsOf commands)
    let timeSignatures ← withFirstSignature song.sheet.timeSignatures
    return { song with sheet := { song.sheet with metadata, timeSignatures } })

/-- The strategy for a choice, if there is to be an accompaniment. -/
def strategyOf : AccompanimentChoice → Except Failure (Option Accompaniment.Strategy)
  | .off => .ok none
  | .standard => .ok (some .bossaNova)
  | .named name => do return some (← Accompaniment.Strategy.named name)

/-- The song with the accompaniment that is asked for, and the chords that were rejected. Only a
song with chords is accompanied. -/
def accompanied (song : Song α) (options : ArrangementOptions) :
    List (ChordBlock α ChordSymbol) × Except Failure (Song α) :=
  if song.sheet.chords.isEmpty then ([], .ok song)
  else
    match strategyOf options.accompaniment with
    | .error e => ([], .error e)
    | .ok none => ([], .ok song)
    | .ok (some strategy) =>
      match Accompaniment.Settings.ofDatum options.settings with
      | .error e => ([], .error e)
      | .ok settings =>
        let attempt := Accompaniment.accompany song strategy settings
        (attempt.rejected, attempt.result.map Prod.fst)

/-- An attempt that failed before there was anything to say. -/
def failed (e : Failure) : Arrangement α := ⟨[], [], .error e⟩

/-- The arrangement of commands. -/
def ofCommands (commands : List Command) (options : ArrangementOptions) : Arrangement α :=
  match options.defaultOctave.toInt with
  | .error e => failed e
  | .ok defaultOctave =>
    let (events, song) := plainSong commands defaultOctave
    let unknown := events.filterMap Event.unknown?
    match song with
    | .error e => ⟨unknown, [], .error e⟩
    | .ok song =>
      let (rejected, result) := accompanied song options
      ⟨unknown, rejected, result⟩

/-- The arrangement of a text. -/
def ofText (text : String) (options : ArrangementOptions) : Arrangement α :=
  match parse text with
  | .error fault => failed (.malformed fault)
  | .ok commands => ofCommands commands options

/-- The arrangement of a text, unless it has a number with too many digits. -/
def ofCheckedText (text : String) (options : ArrangementOptions) : Arrangement α :=
  match checkedParse text with
  | .error e => failed e
  | .ok commands => ofCommands commands options

/-- The arrangement of commands that are given as data. -/
def ofData (nodes : List Datum) (options : ArrangementOptions) : Arrangement α :=
  match nodes.forM checkNode with
  | .error e => failed e
  | .ok () => ofCommands (Command.ofAll nodes) options

end Arrangement

/-- The warning about a rejected chord. -/
def ChordBlock.warning (block : ChordBlock Number ChordSymbol) : Warning :=
  .rejectedChord block.chord.toDatum block.start block.stop

/-- The warnings of an arrangement: about commands first, then about chords, from the last one
back. -/
def Arrangement.warnings (a : Arrangement Number) : List Warning :=
  a.unknown.map .unknownCommand ++ a.rejected.reverse.map ChordBlock.warning

end LeadSheet
