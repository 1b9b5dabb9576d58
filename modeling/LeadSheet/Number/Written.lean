import LeadSheet.Number.Basic

/-!
Numbers as they are written in data: ratios such as `3/2`, and decimal fractions such as `1.5` or
`1.5e-07`, which stand for the nearest binary64 number.
-/
namespace LeadSheet.Written

/-- The number that ASCII digits at the start of a text write, how many they are, and the rest.
There must be at least one. -/
def spanNumber? (cs : List Char) : Option (Nat × Nat × List Char) :=
  let (digits, rest) := cs.span Char.isDigit
  if digits.isEmpty then none
  else some (digits.foldl (fun n d => 10 * n + (d.toNat - 48)) 0, digits.length, rest)

/-- The number that a whole text of digits writes. -/
def number? (cs : List Char) : Option Nat :=
  match spanNumber? cs with
  | some (n, _, []) => some n
  | _ => none

/-- The exponent at the end of a decimal fraction. -/
def exponent? : List Char → Option Int
  | [] => some 0
  | 'e' :: '-' :: rest => (number? rest).map fun n => -(n : Int)
  | 'e' :: '+' :: rest => (number? rest).map Int.ofNat
  | 'e' :: rest => (number? rest).map Int.ofNat
  | _ => none

/-- The binary64 number nearest to a decimal one. Outside a wide range of exponents nothing but
zero and infinity is near. -/
def nearestDecimal (negative : Bool) (digits : Nat) (exponent : Int) : Binary64 :=
  if digits = 0 || exponent < -5000 then .zero negative
  else if 5000 < exponent then .infinite negative
  else
    let q := (digits : Rat) * (10 : Rat) ^ exponent
    match Binary64.round (if negative then -q else q) with
    | .infinite _ => .infinite negative
    | x => x

/-- The number that a text without sign writes. A ratio with the denominator zero fails. -/
def unsigned? (negative : Bool) (cs : List Char) : Option (Except Failure Number) := do
  let (whole, _, rest) ← spanNumber? cs
  match rest with
  | '/' :: rest =>
    let den ← number? rest
    return if den = 0 then .error .divisionByZero
      else .ok (.ratio (mkRat (if negative then -whole else whole) den))
  | '.' :: rest =>
    let (fraction, places, rest) ← spanNumber? rest
    let exponent ← exponent? rest
    return .ok (.approx
      (nearestDecimal negative (whole * Nat.pow 10 places + fraction) (exponent - places)))
  | _ => none

/-- The number that a text writes, if it writes one. -/
def read? (text : String) : Option (Except Failure Number) :=
  match text.toList with
  | '-' :: rest => unsigned? true rest
  | cs => unsigned? false cs

end LeadSheet.Written
