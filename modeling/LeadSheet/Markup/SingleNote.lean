import LeadSheet.Data.Shown
import LeadSheet.Markup.DigitLimit
import LeadSheet.Text.LowerCase

/-!
Single notes, as an editor takes them out of a text to change them and puts them back.
-/
namespace LeadSheet

/-- The parts of a note. The accidental is the sign it is written with. An octave that stands for
no, such as an empty text or the number zero, counts as left out. -/
structure SingleNote where
  name : String
  accidental : Option String
  octave : Option Datum
  timing : Timing
  deriving DecidableEq, Repr

namespace SingleNote

/-- The parts of a written note. A division by zero has none. -/
def ofWritten? (n : WrittenNote) : Option SingleNote := do
  let timing ← Timing.ofWritten? n.timing
  return ⟨String.ofList [n.letter.toChar],
    n.mark.map fun mark => String.ofList [mark.toChar],
    n.octave.map fun octave => .text (toString octave), timing⟩

/-- A text without the line feed at its end. -/
def dropFinalNewline (cs : List Char) : List Char :=
  if cs.getLast? = some '\n' then cs.dropLast else cs

/-- The parts of the one note that a text consists of; a final line feed may follow it. -/
def ofText? (text : String) : Option SingleNote := do
  ofWritten? (← WrittenNote.read? (dropFinalNewline text.toList))

/-- The parts of the one note that a text consists of, unless its start has too many digits. -/
def ofCheckedText? (text : String) : Except Failure (Option SingleNote) :=
  match ofText? text with
  | none => .ok none
  | some note =>
    let count := Word.digitsIn ((dropFinalNewline text.toList).dropWhile (· ≠ '@'))
    if Text.digitLimit < count then .error (.tooManyDigits count) else .ok (some note)

/-- How a multiplier is written: whole ones from two on, and one divided by a whole number for
those between zero and one. Others are not written. -/
def multiplierText (m : Number) : Except Failure String := do
  if Number.le 2 m then
    let whole ← m.toInt fun q => if 0 ≤ q then q.floor else q.ceil
    return if m.same (.whole whole) then "*" ++ toString whole else ""
  else if Number.lt 0 m && Number.lt m 1 then
    return "/" ++ toString (← (← Number.div 1 m).nearestInt)
  else return ""

/-- The text of a note, with a small or a capital letter. -/
def text (n : SingleNote) (small : Bool) : Except Failure String := do
  let name := if small then String.ofList (Text.lower n.name.toList) else n.name
  let octave := match n.octave with
    | some d => if d.holds then d.display else ""
    | none => ""
  let multiplier ← match n.timing.multiplier with
    | none => pure ""
    | some m => multiplierText m
  let dots := String.ofList (List.replicate ((n.timing.dots.getD 0).toNat) '.')
  let start := match n.timing.start with
    | none => ""
    | some start => "@" ++ start.display
  return name ++ n.accidental.getD "" ++ octave ++ multiplier ++ dots ++ start

/-- The parts of a note as data, from the name on; those at the end may be left out. -/
def ofData (parts : List Datum) : Except Failure SingleNote := do
  if parts.isEmpty || 6 < parts.length then throw .wrongType
  let part (i : Nat) : Datum := parts.getD i .none
  let given (i : Nat) : Option Datum := if (part i).holds then some (part i) else none
  let .text name := part 0 | throw .noAttribute
  let multiplier ← (part 3).toOption.mapM Datum.toNumber
  let dots ← (given 4).mapM Datum.toInt
  let accidental ← (given 1).mapM Datum.toText
  return ⟨name, accidental, (part 2).toOption, ⟨multiplier, dots, (part 5).toOption⟩⟩

/-- All parts of a note as data. -/
def toData (n : SingleNote) : List Datum :=
  [.text n.name, (n.accidental.map Datum.text).getD .none, n.octave.getD .none,
   (n.timing.multiplier.map Datum.number).getD .none, (n.timing.dots.map Datum.whole).getD .none,
   n.timing.start.getD .none]

end SingleNote
end LeadSheet
