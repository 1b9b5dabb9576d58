import LeadSheet.Number.Binary64

/-!
The decimal form of binary64 numbers: the fewest digits that read back to the number and, of
these, the nearest. From 0.0001 up to below 10^16 the digits stand around a point; outside that
range they have an exponent with a sign and at least two digits.
-/
namespace LeadSheet.Binary64

/-- The exponent of the leading decimal digit of a positive rational. The binary magnitude tells
it up to one. -/
def decimalMagnitude (q : Rat) : Int :=
  let guess := magnitude q * 1233 / 4096
  if (10 : Rat) ^ (guess + 1) ≤ q then guess + 1
  else if (10 : Rat) ^ guess ≤ q then guess else guess - 1

/-- The points of the decimal grid around `q` that read back to the same number, the nearer
first; of two equally near, the one with the even digit. -/
def readBackPoints (q grid : Rat) : List Int :=
  let low := (q / grid).floor
  let nearest := nearestEven (q / grid)
  let other := if nearest = low then low + 1 else low
  [nearest, other].filter fun point => round (point * grid) = round q

/-- The first of up to `fuel` grids, each ten times finer than the one before, that has a point
reading back to the number; the last grid gives its nearest point in any case. -/
def shortestPoint (q : Rat) (exponent : Int) : Nat → Int × Int
  | 0 => (nearestEven (q / (10 : Rat) ^ exponent), exponent)
  | fuel + 1 =>
    match readBackPoints q ((10 : Rat) ^ exponent) with
    | point :: _ => (point, exponent)
    | [] => shortestPoint q (exponent - 1) fuel

/-- The digits of a positive rational and the exponent of their leading digit. -/
def shortestDigits (q : Rat) : List Char × Int :=
  let (point, exponent) := shortestPoint q (decimalMagnitude q) 16
  let digits := Nat.toDigits 10 point.toNat
  let kept := (digits.reverse.dropWhile (· = '0')).reverse
  (kept, exponent + digits.length - 1)

/-- The exponents of the leading digit that are written with a point alone. -/
def isPositional (exponent : Int) : Bool := -4 ≤ exponent && exponent < 16

/-- Digits around a decimal point, with at least one digit on either side. -/
def positional (digits : List Char) (exponent : Int) : List Char :=
  if exponent < 0 then
    '0' :: '.' :: (List.replicate (-exponent - 1).toNat '0' ++ digits)
  else
    let places := exponent.toNat + 1
    let whole := digits.take places
    let fraction := digits.drop places
    whole ++ List.replicate (places - whole.length) '0'
      ++ '.' :: (if fraction = [] then ['0'] else fraction)

/-- Digits with a point after the first and a decimal exponent. -/
def scientific (digits : List Char) (exponent : Int) : List Char :=
  let shown := Nat.toDigits 10 exponent.natAbs
  let mantissa := match digits with
    | first :: second :: rest => first :: '.' :: second :: rest
    | digits => digits
  mantissa ++ 'e' :: (if exponent < 0 then '-' else '+')
    :: (List.replicate (2 - shown.length) '0' ++ shown)

/-- The text of a number. -/
def text : Binary64 → String
  | nan => "nan"
  | infinite negative => if negative then "-inf" else "inf"
  | negZero => "-0.0"
  | finite q =>
    if q = 0 then "0.0"
    else
      let (digits, exponent) := shortestDigits q.abs
      let body :=
        if isPositional exponent then positional digits exponent else scientific digits exponent
      String.ofList (if q < 0 then '-' :: body else body)

example : (round (1 / 10)).text = "0.1" := by decide +kernel
example : (round (3 / 10) |>.add (round (1 / 10))).text = "0.4" := by decide +kernel
example : (round (10 ^ 16)).text = "1e+16" := by decide +kernel

end LeadSheet.Binary64
