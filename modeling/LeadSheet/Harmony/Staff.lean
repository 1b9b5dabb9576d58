/-!
Staves, each with the notes of its lowest and highest line and the note its clef marks.
-/
namespace LeadSheet

structure Staff where
  name : String
  lowerNote : String
  upperNote : String
  clefNote : String
  deriving DecidableEq, Repr

namespace Staff

/-- The known staves. -/
def all : List Staff := [⟨"treble", "E5", "F6", "G5"⟩, ⟨"bass", "G3", "A4", "F4"⟩]

def named? (name : String) : Option Staff := all.find? fun staff => staff.name = name

/-- The letter of the clef. -/
def clefLetter (staff : Staff) : String := String.ofList (staff.clefNote.toList.take 1)

/-- A short form for people to read. -/
def summary (staff : Staff) : String :=
  "<Staff " ++ staff.name ++ " " ++ staff.lowerNote ++ "-" ++ staff.upperNote ++ ">"

end Staff
end LeadSheet
