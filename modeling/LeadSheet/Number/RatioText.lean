import LeadSheet.Number.IntegerText

/-!
Ratios written in text: blanks around, a sign, and then either two numbers with a slash between
them or a decimal number, with or without a point and an exponent. Digits are those of any script,
with single low lines between them.
-/
namespace LeadSheet.RatioText

/-- The digits and low lines that a text starts with, and the rest. -/
def spanDigits (cs : List Char) : List Char × List Char :=
  cs.span fun c => Text.isDecimalDigit c || c = '_'

/-- The digits of a number that may have none. -/
def optionalDigits? (cs : List Char) : Option (List Char) :=
  if cs = [] then some [] else IntegerText.digits? cs

/-- The number that a whole text of digits writes. -/
def number? (cs : List Char) : Option Nat := (IntegerText.digits? cs).map Text.numberOfDigits

/-- The exponent that stands behind its letter, if there is one. -/
def exponent? : List Char → Option Int
  | [] => some 0
  | letter :: cs =>
    if letter = 'e' || letter = 'E' then
      match cs with
      | '-' :: digits => (number? digits).map fun n => -(n : Int)
      | '+' :: digits => (number? digits).map Int.ofNat
      | digits => (number? digits).map Int.ofNat
    else none

/-- The decimal number that digits in front of a point and behind it write, with an exponent. There
must be a digit somewhere. -/
def decimal? (whole fraction : List Char) (exponent : List Char) : Option Rat := do
  let whole ← optionalDigits? whole
  let fraction ← optionalDigits? fraction
  let exponent ← exponent? exponent
  guard (whole ++ fraction ≠ [])
  let digits := Text.numberOfDigits (whole ++ fraction)
  return (digits : Rat) * (10 : Rat) ^ (exponent - fraction.length)

/-- The ratio that a text without sign writes. A denominator of zero fails. -/
def unsigned? (cs : List Char) : Option (Except Failure Rat) := do
  let (whole, rest) := spanDigits cs
  match rest with
  | '/' :: rest =>
    let numerator ← number? whole
    let denominator ← number? rest
    return if denominator = 0 then .error .divisionByZero
      else .ok (mkRat numerator denominator)
  | '.' :: rest =>
    let (fraction, rest) := spanDigits rest
    return .ok (← decimal? whole fraction rest)
  | rest => return .ok (← decimal? whole [] rest)

/-- The ratio that a text writes, or the failure that names the text. -/
def read (text : String) : Except Failure Rat :=
  let ratio? := match Text.trim text.toList with
    | '-' :: cs => (unsigned? cs).map (Except.map fun q => -q)
    | '+' :: cs => unsigned? cs
    | cs => unsigned? cs
  ratio?.getD (.error (.notARatio text))

end LeadSheet.RatioText
