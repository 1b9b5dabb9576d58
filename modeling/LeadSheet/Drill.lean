import LeadSheet.Pitch.NoteName

/-!
Drills: lists of notes to be played in order, as in sight-reading. An item is one note, or a column
of notes to be played together.
-/
namespace LeadSheet

inductive DrillItem where
  | single (note : String)
  | column (notes : List String)
  deriving DecidableEq, Repr

namespace DrillItem

def notes : DrillItem → List String
  | single note => [note]
  | column notes => notes

/-- Whether all notes of a list have pitches from `low` to `high`; the first that has not ends the
search. -/
def allBetween (low high : Int) : List String → Except Failure Bool
  | [] => .ok true
  | note :: rest => do
    let p ← NoteName.pitch note
    if low ≤ p && p ≤ high then allBetween low high rest else return false

/-- Whether all notes of a list have a pitch among the given ones; the first that has not ends the
search. -/
def allAmong (pitches : List Int) : List String → Except Failure Bool
  | [] => .ok true
  | note :: rest => do
    if pitches.contains (← NoteName.pitch note) then allAmong pitches rest else return false

/-- Whether played notes are those of the item. A column asks for as many notes as it has, and
for each of its notes among them. -/
def isPlayed (item : DrillItem) (played : List String) (anyOctave : Bool) :
    Except Failure Bool :=
  match item with
  | column notes =>
    if notes.length ≠ played.length then .ok false
    else if anyOctave then
      .ok (notes.all fun note =>
        (played.map NoteName.stripOctave).contains (NoteName.stripOctave note))
    else do allAmong (← played.mapM NoteName.pitch) notes
  | single note =>
    match played with
    | [one] =>
      if anyOctave then NoteName.sameClass one note
      else do
        let p ← NoteName.pitch one
        let q ← NoteName.pitch note
        return p = q
    | _ => .ok false

end DrillItem

/-- The items still to be played. -/
abbrev Drill := List DrillItem

namespace Drill

/-- The next item. -/
def head (drill : Drill) : Except Failure DrillItem :=
  match drill with
  | [] => .error .outOfRange
  | item :: _ => .ok item

/-- The items with all their notes between two notes, these included. -/
def between (drill : Drill) (low high : String) : Except Failure Drill := do
  let lowest ← NoteName.pitch low
  let highest ← NoteName.pitch high
  drill.filterM fun item => DrillItem.allBetween lowest highest item.notes

/-- Whether the notes are those of the next item. -/
def matchesHead (drill : Drill) (played : List String) (anyOctave : Bool) :
    Except Failure Bool := do
  (← drill.head).isPlayed played anyOctave

/-- The notes of the next item. -/
def column (drill : Drill) : Except Failure (List String) := do return (← drill.head).notes

def inHead (drill : Drill) (note : String) : Except Failure Bool := do
  return (← drill.column).contains note

/-- The names, columns with blanks between and items with commas. -/
def text (drill : Drill) : String :=
  ", ".intercalate (drill.map fun item => " ".intercalate item.notes)

/-- The pitches in place of the names, for quick comparisons. -/
def pitchText (drill : Drill) : Except Failure String := do
  let items ← drill.mapM fun item => do
    let pitches ← item.notes.mapM NoteName.pitch
    return " ".intercalate (pitches.map toString)
  return ", ".intercalate items

end Drill
end LeadSheet
