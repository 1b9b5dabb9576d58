import LeadSheet.Failure
import LeadSheet.Markup.Outline

/-!
The limit on the digits of a number. The forms of words have room for numbers of any length; their
digits are counted when a word is made a command or token of. A text with a number that has too many
has neither commands nor tokens, whatever else is in it.
-/
namespace LeadSheet

namespace Word

/-- How many digits a text has. -/
def digitsIn (cs : List Char) : Nat := cs.countP Text.isAsciiDigit

/-- How many digits the numbers of a word have, in the order in which they are read. Of those
behind a note or rest, only the start may have any number of them. -/
def digitCounts (written : List Char) : Word → List Nat
  | note _ | rest _ => [digitsIn (written.dropWhile (· ≠ '@'))]
  | timeSignature .. =>
    [digitsIn (written.takeWhile (· ≠ '/')), digitsIn (written.dropWhile (· ≠ '/'))]
  | keySignature _ | tempo .. | measure _ | track _ | clef _ => [digitsIn written]

/-- Whether a word is a note or rest that is divided by zero. -/
def dividesByZero : Word → Bool
  | note n => (Timing.ofWritten? n.timing).isNone
  | rest timing => (Timing.ofWritten? timing).isNone
  | _ => false

end Word

namespace Located

/-- How many digits the first number of a lexeme has that has too many. -/
def excess? (l : Located) : Option Nat :=
  match l.lexeme with
  | .word word => (word.digitCounts l.written).find? (Text.digitLimit < ·)
  | _ => none

/-- How many digits that number has when a command is to be made of the lexeme. The start behind a
division by zero is not read then. -/
def commandExcess? (l : Located) : Option Nat :=
  match l.lexeme with
  | .word word => if word.dividesByZero then none else l.excess?
  | _ => none

end Located

/-- How many digits the numbers have that have too many: those in the blocks that have ended, in
the innermost open block, and in the blocks around it. -/
structure Excess where
  ended : List Nat
  current : List Nat
  enclosing : List (List Nat)
  deriving DecidableEq, Repr

namespace Excess

def empty : Excess := ⟨[], [], []⟩

/-- Takes the next lexeme. The commands of a block are made when it ends. -/
def take (e : Excess) (l : Located) : Excess :=
  match l.lexeme with
  | .opening => { e with current := [], enclosing := e.current :: e.enclosing }
  | .closing =>
    match e.enclosing with
    | [] => e
    | outer :: enclosing => ⟨e.ended ++ e.current, outer, enclosing⟩
  | _ => { e with current := e.current ++ l.commandExcess?.toList }

/-- All counts in the order in which the numbers are met. The end of the text ends the open blocks
from the innermost on. -/
def counts (e : Excess) : List Nat := e.ended ++ e.current ++ e.enclosing.flatten

end Excess

/-- How many digits the number has that the commands of a document fail at. -/
def Document.commandExcess? (d : Document) : Option Nat :=
  (d.lexemes.foldl Excess.take .empty).counts.head?

/-- How many digits the number has that the tokens of a document fail at. -/
def Document.tokenExcess? (d : Document) : Option Nat := d.lexemes.findSome? Located.excess?

/-- The commands of a text, unless it has a number with too many digits. Such a number goes before
all faults. -/
def checkedParse (text : String) : Except Failure (List Command) :=
  match (Document.read text).commandExcess? with
  | some count => .error (.tooManyDigits count)
  | none => (parse text).mapError .malformed

end LeadSheet
