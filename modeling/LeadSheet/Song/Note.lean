import LeadSheet.Markup.Command
import LeadSheet.Number.Timebase
import LeadSheet.Pitch.NoteName

/-!
Notes of a song. Two notes with the same name and times are still two notes, told apart by their
numbers; one note can stand in several lists.
-/
namespace LeadSheet

/-- A note that sounds for some beats, with the place in the text that it comes from. -/
structure Note (α : Type) where
  id : Nat
  name : String
  start : α
  duration : α
  location : Option Location
  deriving DecidableEq, Repr

namespace Note
variable {α : Type} [Timebase α]

/-- The beat at which a note ends. -/
def stop (n : Note α) : Except Failure α := Timebase.add n.start n.duration

/-- Whether a note sounds somewhere between two beats. -/
def soundsBetween (n : Note α) (start stop : α) : Except Failure Bool := do
  return Timebase.lt start (← n.stop) && Timebase.lt n.start stop

end Note

/-- A note with its times made into others. -/
def Note.mapTimes {α β : Type} (f : α → Except Failure β) (n : Note α) :
    Except Failure (Note β) := do
  return ⟨n.id, n.name, ← f n.start, ← f n.duration, n.location⟩

/-- A note moved by semitones. -/
def Note.transposed {α : Type} (n : Note α) (semitones : Number) : Except Failure (Note α) := do
  return { n with name := ← NoteName.transposeAny n.name semitones }

end LeadSheet
