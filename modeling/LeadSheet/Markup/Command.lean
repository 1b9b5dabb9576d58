import LeadSheet.Markup.Location
import LeadSheet.Markup.Word

/-!
The commands that a lead sheet consists of. Most of them are words of the text with their numbers
read; a block is a list of commands. What a command only hands on, such as the text of a remark, may
be any data; so may the count of a key, which nothing needs before the next note.
-/
namespace LeadSheet

/-- How long a note or rest is, as a multiplier and dots, and the beat at which it is to start if
it does not just follow: a number, or a text that writes one. -/
structure Timing where
  multiplier : Option Number
  dots : Option Int
  start : Option Datum
  deriving DecidableEq, Repr

namespace Timing

/-- The timing of a note or rest that says nothing about it. -/
def plain : Timing := ⟨none, none, none⟩

/-- The timing that a text writes. A division by zero has none. -/
def ofWritten? (written : WrittenTiming) : Option Timing :=
  let dots : Option Int := if written.dots = 0 then none else some written.dots
  let start := written.start.map fun n => Datum.whole n
  match written.scaling with
  | none => some ⟨none, dots, start⟩
  | some (.multiplied, n) => some ⟨some (.ratio n), dots, start⟩
  | some (.divided, n) => if n = 0 then none else some ⟨some (.ratio (1 / (n : Rat))), dots, start⟩

end Timing

/-- The accidental that a note asks for when it may ask for several at once: a sharp goes before a
flat, and a flat before a natural. -/
def Mark.ofFlags? (sharp flat natural : Bool) : Option Mark :=
  if sharp then some .sharp else if flat then some .flat else if natural then some .natural
  else none

/-- A command of a lead sheet. -/
inductive Command where
  /-- a field in front of the music -/
  | field (key value : Datum)
  | note (name : String) (mark : Option Mark) (timing : Timing) (location : Option Location)
  | rest (timing : Timing)
  | block (commands : List Command)
  /-- back to where the block starts -/
  | backToStart
  | tempo (tempo : Tempo) (count : Option Int)
  | measure (number : Option Int)
  | track (number : Datum)
  | clef (sign : Datum)
  | keySignature (count : Datum) (location : Option Location)
  | timeSignature (beats : Datum) (unit : Int)
  | chord (name : String)
  /-- text for people to read -/
  | remark (text : Datum)
  /-- a command of a kind that nothing is known about -/
  | unknown (node : Datum)
  /-- a command that has not got what its kind asks for -/
  | invalid (cause : Failure)
  deriving Inhabited, Repr

namespace Command

/-- The command that a word at a place in the text stands for. -/
def ofWord (start stop : Nat) (written : String) : Word → Except SyntaxFault Command
  | .note n =>
    match Timing.ofWritten? n.timing with
    | none => .error (.zeroDivisor start written)
    | some timing =>
      let octave := match n.octave with
        | none => []
        | some k => Nat.toDigits 10 k
      let name := String.ofList (n.letter.toChar :: octave)
      .ok (note name n.mark timing (some (.span ⟨start, stop⟩)))
  | .rest timing =>
    match Timing.ofWritten? timing with
    | none => .error (.zeroDivisor start written)
    | some timing => .ok (rest timing)
  | .keySignature count => .ok (keySignature (.whole count) (some (.span ⟨start, stop⟩)))
  | .timeSignature beats unit =>
    if unit = 0 then .error (.zeroDenominator start written)
    else .ok (timeSignature (.whole beats) unit)
  | .tempo change count => .ok (tempo change (count.map Int.ofNat))
  | .measure number => .ok (measure (number.map Int.ofNat))
  | .track number => .ok (track (.whole number))
  | .clef letter => .ok (clef (.character letter))

end Command
end LeadSheet
