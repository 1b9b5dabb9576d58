import LeadSheet.Data.Shown
import LeadSheet.Song.Basic

/-!
Pages: songs and tracks as they are edited. A page holds the numbers of its notes and of its logs,
so that several pages can hold the same ones. What is entered is kept as it is, also where it makes
no sense; a page is read as a sheet only for what is asked about it.
-/
namespace LeadSheet

/-- A note as it was entered. -/
structure NoteEntry where
  name : Datum
  start : Datum
  duration : Datum
  location : Datum
  deriving DecidableEq, Inhabited, Repr

namespace NoteEntry

/-- The note that data in a row stand for; the location may be left out. -/
def ofData : List Datum → Except Failure NoteEntry
  | [name, start, duration] => .ok ⟨name, start, duration, .none⟩
  | [name, start, duration, location] => .ok ⟨name, start, duration, location⟩
  | _ => .error .wrongType

def toDatum (e : NoteEntry) : Datum := .list [e.name, e.start, e.duration, e.location]

/-- The text of a note: name, start and duration. -/
def text (e : NoteEntry) : String :=
  e.name.display ++ "," ++ e.start.display ++ "," ++ e.duration.display

/-- The note with a number. A name that is no text is taken for an empty one. -/
def toNote (e : NoteEntry) (id : Nat) : Note Datum :=
  ⟨id, e.name.toText.toOption.getD "", e.start, e.duration,
    e.location.toOption.map Location.ofDatum⟩

/-- The note of a song as it is entered. -/
def ofNote (n : Note Number) : NoteEntry :=
  ⟨.text n.name, .number n.start, .number n.duration,
    (n.location.map Location.toDatum).getD .none⟩

/-- The beat at which a note ends. -/
def stop (e : NoteEntry) : Except Failure Number := do
  (← e.start.toNumber).add (← e.duration.toNumber)

/-- The note moved by semitones. The name is looked at first. -/
def transposed (e : NoteEntry) (semitones : Datum) : Except Failure NoteEntry := do
  let name ← e.name.toText
  let _ ← NoteName.pitch name
  return { e with name := .text (← NoteName.transposeAny name (← semitones.toNumber)) }

end NoteEntry

/-- The logs of a page. -/
inductive LogKind where
  | chords | clefs | remarks | timeSignatures | keySignatures
  deriving DecidableEq, Repr

/-- Something for each log. -/
structure Logs (β : Type) where
  chords : β
  clefs : β
  remarks : β
  timeSignatures : β
  keySignatures : β
  deriving DecidableEq, Inhabited, Repr

namespace Logs
variable {β γ : Type}

def get (logs : Logs β) : LogKind → β
  | .chords => logs.chords
  | .clefs => logs.clefs
  | .remarks => logs.remarks
  | .timeSignatures => logs.timeSignatures
  | .keySignatures => logs.keySignatures

def set (logs : Logs β) (kind : LogKind) (b : β) : Logs β :=
  match kind with
  | .chords => { logs with chords := b }
  | .clefs => { logs with clefs := b }
  | .remarks => { logs with remarks := b }
  | .timeSignatures => { logs with timeSignatures := b }
  | .keySignatures => { logs with keySignatures := b }

/-- The same for each log. -/
def all (b : β) : Logs β := ⟨b, b, b, b, b⟩

def toList (logs : Logs β) : List β :=
  [logs.chords, logs.clefs, logs.remarks, logs.timeSignatures, logs.keySignatures]

/-- Numbers for the logs, from a first one on. -/
def numbered (first : Nat) : Logs Nat := ⟨first, first + 1, first + 2, first + 3, first + 4⟩

end Logs

/-- A song or a track. -/
structure Page where
  /-- the numbers of the notes -/
  notes : List Nat
  /-- what is known about the piece -/
  metadata : Datum
  /-- the numbers of the logs -/
  logs : Logs Nat
  name : Datum
  /-- the numbers of the pages of the tracks, for a page that has tracks -/
  tracks : Option (List (Datum × Nat))
  bucketSize : Datum
  /-- the buckets of the notes, once they have been reckoned -/
  spans : Option (List (Int × Int))
  deriving Inhabited, Repr

namespace Metadata

/-- What is known about a piece as a record. -/
def toDatum (m : Metadata Number) : Datum :=
  let field (key : String) (value : Option Datum) : List (String × Datum) :=
    (value.map fun value => (key, value)).toList
  let pairs := m.fields.map fun fields => Datum.list (fields.map fun f => .list [f.1, f.2])
  .record (field "keySignature" m.keySignature
    ++ field "beatsPerMeasure" (m.beatsPerMeasure.map Datum.number) ++ field "frontmatter" pairs)

end Metadata

namespace KeyChange

def toDatum (change : KeyChange Datum) : Datum :=
  .tuple [change.beat, change.count, (change.location.map Location.toDatum).getD .none]

/-- The change of key that three data stand for. -/
def ofDatum (d : Datum) : Except Failure (KeyChange Datum) := do
  match ← d.exactly 3 with
  | [beat, count, location] => return ⟨beat, count, location.toOption.map Location.ofDatum⟩
  | _ => throw .wrongType

end KeyChange

namespace Sheet

/-- The logs of a sheet as data. -/
def logs (s : Sheet Number) : Logs Datum :=
  let entry (beat : Number) (value : Datum) : Datum := .tuple [.number beat, value]
  { chords := .list (s.chords.map fun c => entry c.1 c.2.toDatum)
    clefs := .list (s.clefs.map fun c => entry c.1 c.2)
    remarks := .list (s.remarks.map fun r => entry r.1 r.2)
    timeSignatures := .list (s.timeSignatures.map fun t => entry t.1 t.2)
    keySignatures := .list (s.keySignatures.map fun k =>
      KeyChange.toDatum ⟨.number k.beat, k.count, k.location⟩) }

end Sheet
end LeadSheet
