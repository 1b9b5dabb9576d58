import LeadSheet.Session.Basic
import Std.Data.HashMap

/-!
Records of pages: all that a page holds, as data. In the record of a song a note of a track is given
by its place in the song, if it has one there.
-/
namespace LeadSheet

/-- The name of a log in records. -/
def LogKind.key : LogKind → String
  | .chords => "auto_chords"
  | .clefs => "clefs"
  | .remarks => "strings"
  | .timeSignatures => "time_signatures"
  | .keySignatures => "key_signatures"

namespace LogKind

def kinds : List LogKind := [chords, clefs, remarks, timeSignatures, keySignatures]

/-- The log with a name. -/
def ofKey? (key : String) : Option LogKind := kinds.find? fun kind => kind.key = key

end LogKind

namespace Session

/-- The fields in front of the music are given in a row. -/
def recordedMetadata (metadata : Datum) : Datum :=
  match metadata with
  | .record entries =>
    .record (entries.map fun (key, value) =>
      match key, value with
      | "frontmatter", .record fields =>
        (key, .list (fields.map fun f => .list [.text f.1, f.2]))
      | _, _ => (key, value))
  | d => d

/-- The notes with some numbers. -/
def recordedNotes (s : Session) (numbers : List Nat) : Datum :=
  .list (numbers.map fun number => (s.note number).toDatum)

/-- The record of a page, given its notes. -/
def recordOf (s : Session) (page : Page) (notes : Datum) : List (String × Datum) :=
  [("notes", notes), ("metadata", recordedMetadata page.metadata), ("track_name", page.name)]
    ++ LogKind.kinds.map fun kind => (kind.key, s.logOf page kind)

/-- The last places of numbers. -/
def lastPlaces (numbers : List Nat) : Std.HashMap Nat Nat :=
  numbers.zipIdx.foldl (fun places entry => places.insert entry.1 entry.2) ∅

/-- The record of a track, given the places of the notes of the song. -/
def trackRecord (s : Session) (places : Std.HashMap Nat Nat) (track : Page) : Datum :=
  .record (s.recordOf track (.list (track.notes.map fun number =>
    match places.get? number with
    | some place => .whole (Int.ofNat place)
    | none => (s.note number).toDatum)))

/-- The record of the page at hand. -/
def record (s : Session) : Except Failure (List (String × Datum)) := do
  let page := s.page
  let fields := s.recordOf page (s.recordedNotes page.notes)
  match page.tracks with
  | none => return fields
  | some tracks =>
    let tracks ← inOrder tracks
    let places := lastPlaces page.notes
    let entry (track : Datum × Nat) : Datum :=
      .list [track.1, s.trackRecord places (s.pageAt track.2)]
    return ("tracks", .list (tracks.map entry)) :: fields

end Session
end LeadSheet
