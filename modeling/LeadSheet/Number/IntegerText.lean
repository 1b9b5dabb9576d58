import LeadSheet.Failure
import LeadSheet.Text.Blank
import LeadSheet.Text.DecimalDigit

/-!
Integers written in text: blanks around, a sign, decimal digits of any script, and single low
lines between digits. The information separators do not count as blanks here.
-/
namespace LeadSheet.IntegerText

/-- The digits of a number in which a single low line may stand between two digits. -/
def digits? : List Char → Option (List Char)
  | [] => none
  | [c] => if Text.isDecimalDigit c then some [c] else none
  | c :: '_' :: rest => if Text.isDecimalDigit c then (digits? rest).map (c :: ·) else none
  | c :: rest => if Text.isDecimalDigit c then (digits? rest).map (c :: ·) else none

/-- The characters that may stand around a number in a text. -/
def isMargin (c : Char) : Bool := Text.isBlank c && !(0x1C ≤ c.toNat && c.toNat < 0x20)

/-- The text without its margins. -/
def core (cs : List Char) : List Char :=
  ((cs.dropWhile isMargin).reverse.dropWhile isMargin).reverse

/-- The integer that a text writes. -/
def read? (cs : List Char) : Option Int :=
  match core cs with
  | '-' :: rest => (digits? rest).map fun ds => -(Text.numberOfDigits ds : Int)
  | '+' :: rest => (digits? rest).map fun ds => (Text.numberOfDigits ds : Int)
  | rest => (digits? rest).map fun ds => (Text.numberOfDigits ds : Int)

/-- The integer that a text writes, or the failure that names the text. -/
def read (cs : List Char) : Except Failure Int :=
  match read? cs with
  | some n => .ok n
  | none => .error (.notAnInteger (String.ofList cs))

end LeadSheet.IntegerText
