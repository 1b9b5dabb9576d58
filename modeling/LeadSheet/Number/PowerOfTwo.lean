import LeadSheet.Number.Basic

/-!
Powers of two with exponents of any kind. An exponent that is a natural number, of whatever kind,
gives a whole number or, as an approximation, an exact one. Other exponents give the binary64 number
nearest to the power: a power with a fraction in its exponent is the product of those roots of
two that the binary digits of the fraction ask for.
-/
namespace LeadSheet

namespace PowerOfTwo

/-- The binary digits behind the point with which roots are reckoned. -/
def places : Nat := 128

/-- One, in units of the last place. -/
def unit : Nat := Nat.pow 2 places

/-- The greatest number with a square of at most `n` among `root` and what `bits` more digits can
add to it. -/
def squareRoot (n : Nat) : Nat → Nat → Nat
  | 0, root => root
  | bits + 1, root =>
    let next := root + Nat.pow 2 bits
    squareRoot n bits (if next * next ≤ n then next else root)

/-- The product of roots of two: each root is that of the one before, and it is a factor if the
next binary digit of the fraction is one. Numbers are in units of the last place. -/
def productOfRoots : Nat → Nat → Rat → Nat → Nat
  | 0, _, _, product => product
  | digits + 1, root, fraction, product =>
    let root := squareRoot (root * unit) (places + 1) 0
    if 1 ≤ 2 * fraction then
      productOfRoots digits root (2 * fraction - 1) (product * root / unit)
    else productOfRoots digits root (2 * fraction) product

/-- Two to a fraction between zero and one, exact for zero. -/
def ofFraction (fraction : Rat) : Rat :=
  if fraction = 0 then 1 else mkRat (productOfRoots places (2 * unit) fraction unit) unit

end PowerOfTwo

namespace Binary64

/-- The binary64 number nearest to two to a rational power. Very small powers are zero. -/
def twoPow (exponent : Rat) : Binary64 :=
  let whole := exponent.floor
  if whole < -1200 then finite 0
  else if 1024 ≤ whole then infinite false
  else round (PowerOfTwo.ofFraction (exponent - whole) * (2 : Rat) ^ whole)

end Binary64

namespace Number

/-- The binary64 number nearest to two to a rational power, if it is not too large for one. -/
def approxTwoPow (exponent : Rat) : Except Failure Number :=
  match Binary64.twoPow exponent with
  | .infinite _ => .error .overflow
  | x => .ok (approx x)

/-- Two to a power. -/
def twoPow : Number → Except Failure Number
  | whole n => if 0 ≤ n then .ok (whole (Nat.pow 2 n.toNat)) else approxTwoPow n
  | ratio q =>
    if q.den = 1 then
      .ok (if 0 ≤ q.num then whole (Nat.pow 2 q.num.toNat) else ratio ((2 : Rat) ^ q.num))
    else do approxTwoPow (← nearest q).exact
  | approx .nan => .ok (approx .nan)
  | approx (.infinite negative) => .ok (approx (if negative then .finite 0 else .infinite false))
  | approx x => approxTwoPow x.exact

end Number
end LeadSheet
