/-!
Binary64 numbers as exact rationals. An operation is the exact operation on rationals followed by
one rounding, to the nearest number with 53 significant bits and, of two, to the even one.
-/
namespace LeadSheet

/-- A binary64 number. There are two zeros, `finite 0` and `negZero`. -/
inductive Binary64 where
  | finite (value : Rat)
  | negZero
  | infinite (negative : Bool)
  | nan
  deriving DecidableEq, Repr

namespace Binary64

/-- The integer nearest to a rational; of two, the even one. -/
def nearestEven (q : Rat) : Int :=
  let low := q.floor
  let gap := q - low
  if gap < 1 / 2 then low else if 1 / 2 < gap then low + 1 else low + low % 2

/-- The exponent of the greatest power of two that is at most a positive rational. -/
def magnitude (q : Rat) : Int :=
  let guess := (Nat.log2 q.num.natAbs : Int) - Nat.log2 q.den
  if (2 : Rat) ^ guess ≤ q then guess else guess - 1

/-- The distance between neighbouring binary64 numbers around a rational. -/
def spacing (q : Rat) : Rat := (2 : Rat) ^ (max (magnitude q.abs - 52) (-1074))

/-- The least power of two that is no finite number any more. -/
def limit : Rat := (2 : Rat) ^ (1024 : Nat)

/-- A zero with a sign. -/
def zero (negative : Bool) : Binary64 := if negative then negZero else finite 0

/-- The binary64 number nearest to a rational. What rounds to zero keeps its sign. -/
def round (q : Rat) : Binary64 :=
  if q = 0 then finite 0
  else
    let r := nearestEven (q / spacing q) * spacing q
    if r = 0 then zero (q < 0) else if limit ≤ r.abs then infinite (q < 0) else finite r

/-- The rational that a number stands for. The infinities and NaN stand for none and give zero. -/
def exact : Binary64 → Rat
  | finite q => q
  | negZero | infinite _ | nan => 0

/-- The sign of a number; NaN counts as positive. -/
def isNegative : Binary64 → Bool
  | finite q => q < 0
  | negZero => true
  | infinite negative => negative
  | nan => false

def isZero : Binary64 → Bool
  | finite q => q = 0
  | negZero => true
  | infinite _ | nan => false

def neg : Binary64 → Binary64
  | finite q => if q = 0 then negZero else finite (-q)
  | negZero => finite 0
  | infinite negative => infinite !negative
  | nan => nan

def add : Binary64 → Binary64 → Binary64
  | nan, _ | _, nan => nan
  | infinite s, infinite t => if s = t then infinite s else nan
  | infinite s, _ | _, infinite s => infinite s
  | negZero, negZero => negZero
  | x, y => round (x.exact + y.exact)

def sub (x y : Binary64) : Binary64 := add x (neg y)

def mul (x y : Binary64) : Binary64 :=
  let negative := x.isNegative != y.isNegative
  match x, y with
  | nan, _ | _, nan => nan
  | infinite _, y => if y.isZero then nan else infinite negative
  | x, infinite _ => if x.isZero then nan else infinite negative
  | x, y => if x.isZero || y.isZero then zero negative else round (x.exact * y.exact)

def div (x y : Binary64) : Binary64 :=
  let negative := x.isNegative != y.isNegative
  match x, y with
  | nan, _ | _, nan => nan
  | infinite _, infinite _ => nan
  | infinite _, _ => infinite negative
  | _, infinite _ => zero negative
  | x, y =>
    if y.isZero then (if x.isZero then nan else infinite negative)
    else if x.isZero then zero negative
    else round (x.exact / y.exact)

/-- What is left of `x` after taking `y` away as often as it fits whole, with the sign of `x`. -/
def remainder (x y : Binary64) : Binary64 :=
  match x, y with
  | nan, _ | _, nan | infinite _, _ => nan
  | x, infinite _ => x
  | x, y =>
    if y.isZero then nan
    else
      let quotient := x.exact / y.exact
      let times := if quotient < 0 then quotient.ceil else quotient.floor
      let rest := x.exact - times * y.exact
      if rest = 0 then zero x.isNegative else finite rest

/-- What is left of `x` after taking away the floor of the quotient times `y`: it has the sign of
`y`. -/
def mod (x y : Binary64) : Binary64 :=
  let rest := remainder x y
  if rest = nan then nan
  else if rest.isZero then zero y.isNegative
  else if rest.isNegative != y.isNegative then add rest y
  else rest

/-- The greatest integer that is at most a finite number. -/
def roundDown : Binary64 → Binary64
  | finite q => finite q.floor
  | x => x

/-- The floor of the quotient for a divisor other than zero, reckoned in three rounded steps: the
remainder is taken off first, what is left is divided, and the result is set to the nearer
integer. -/
def floorDiv (x y : Binary64) : Binary64 :=
  let rest := remainder x y
  let quotient := div (sub x rest) y
  let quotient :=
    if !rest.isZero && rest != nan && rest.isNegative != y.isNegative then sub quotient (finite 1)
    else quotient
  if quotient.isZero then zero (div x y).isNegative
  else
    let down := roundDown quotient
    if 1 / 2 < (sub quotient down).exact then add down (finite 1) else down

end Binary64
end LeadSheet
