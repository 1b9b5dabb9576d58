import LeadSheet.Failure
import LeadSheet.Number.ShortestDecimal

/-!
The numbers of a lead sheet: whole numbers, ratios and binary64 approximations. An operation on
two kinds is done in the wider one, in this order; only the division of two whole numbers leaves
its kind and gives an approximation. Comparisons are exact across the kinds.
-/
namespace LeadSheet

/-- A number of one of three kinds. -/
inductive Number where
  | whole (value : Int)
  | ratio (value : Rat)
  | approx (value : Binary64)
  deriving DecidableEq, Repr

namespace Number

instance : OfNat Number n := ⟨whole n⟩

/-- The binary64 number nearest to a rational, if it is not too large for one. -/
def nearest (q : Rat) : Except Failure Binary64 :=
  match Binary64.round q with
  | .infinite _ => .error .overflow
  | x => .ok x

def toBinary64 : Number → Except Failure Binary64
  | whole n => nearest n
  | ratio q => nearest q
  | approx x => .ok x

/-- The rational that a number stands for; zero for the infinities and NaN. -/
def exact : Number → Rat
  | whole n => n
  | ratio q => q
  | approx x => x.exact

def isZero : Number → Bool
  | whole n => n = 0
  | ratio q => q = 0
  | approx x => x.isZero

/-- An operation done in the wider of two kinds. -/
def lift (onWhole : Int → Int → Int) (onRatio : Rat → Rat → Rat)
    (onApprox : Binary64 → Binary64 → Binary64) : Number → Number → Except Failure Number
  | whole m, whole n => .ok (whole (onWhole m n))
  | approx x, b => return approx (onApprox x (← b.toBinary64))
  | a, approx y => return approx (onApprox (← a.toBinary64) y)
  | a, b => .ok (ratio (onRatio a.exact b.exact))

def add : Number → Number → Except Failure Number := lift (· + ·) (· + ·) Binary64.add
def sub : Number → Number → Except Failure Number := lift (· - ·) (· - ·) Binary64.sub
def mul : Number → Number → Except Failure Number := lift (· * ·) (· * ·) Binary64.mul

/-- The quotient of two whole numbers, rounded once. A zero quotient is negative when exactly one
of the numbers is. -/
def wholeQuotient (m n : Int) : Except Failure Number :=
  if m = 0 then .ok (approx (Binary64.zero (n < 0)))
  else return approx (← nearest ((m : Rat) / n))

def div (a b : Number) : Except Failure Number :=
  match a, b with
  | whole m, whole n => if n = 0 then .error .divisionByZero else wholeQuotient m n
  | a, b => do
    -- the operands are brought to one kind before the divisor is looked at
    match a, b with
    | approx x, b =>
      let y ← b.toBinary64
      if y.isZero then .error .divisionByZero else return approx (x.div y)
    | a, approx y =>
      let x ← a.toBinary64
      if y.isZero then .error .divisionByZero else return approx (x.div y)
    | a, b =>
      if b.isZero then .error .divisionByZero else return ratio (a.exact / b.exact)

/-- The floor of a quotient: whole, unless one of the numbers is an approximation. -/
def floorDiv (a b : Number) : Except Failure Number := do
  match a, b with
  | approx x, b =>
    let y ← b.toBinary64
    if y.isZero then .error .divisionByZero else return approx (x.floorDiv y)
  | a, approx y =>
    let x ← a.toBinary64
    if y.isZero then .error .divisionByZero else return approx (x.floorDiv y)
  | a, b =>
    if b.isZero then .error .divisionByZero else return whole (a.exact / b.exact).floor

/-- What the floor of a quotient leaves over, of the kind that an operation on the two has. -/
def mod (a b : Number) : Except Failure Number := do
  match a, b with
  | approx x, b =>
    let y ← b.toBinary64
    if y.isZero then .error .divisionByZero else return approx (x.mod y)
  | a, approx y =>
    let x ← a.toBinary64
    if y.isZero then .error .divisionByZero else return approx (x.mod y)
  | whole m, whole n => if n = 0 then .error .divisionByZero else return whole (m.fmod n)
  | a, b =>
    if b.isZero then .error .divisionByZero
    else return ratio (a.exact - (a.exact / b.exact).floor * b.exact)

/-- Where a number stands in the order: the infinities lie outside all others, and NaN has no
place. -/
def place : Number → Option (Int × Rat)
  | approx .nan => none
  | approx (.infinite negative) => some (if negative then -1 else 1, 0)
  | a => some (0, a.exact)

def lt (a b : Number) : Bool :=
  match a.place, b.place with
  | some (i, p), some (j, q) => i < j || (i == j && p < q)
  | _, _ => false

def le (a b : Number) : Bool :=
  match a.place, b.place with
  | some (i, p), some (j, q) => i < j || (i == j && p ≤ q)
  | _, _ => false

/-- Numbers of different kinds are the same when they stand in the same place. -/
def same (a b : Number) : Bool := a.le b && b.le a

/-- The integer that a number is equal to. -/
def whole? : Number → Option Int
  | whole n => some n
  | ratio q => if q.den = 1 then some q.num else none
  | approx .negZero => some 0
  | approx (.finite q) => if q.den = 1 then some q.num else none
  | approx (.infinite _) | approx .nan => none

/-- An integer made of a number by a rule for rationals. NaN and the infinities have none. -/
def toInt (rule : Rat → Int) : Number → Except Failure Int
  | approx .nan => .error .notANumber
  | approx (.infinite _) => .error .overflow
  | a => .ok (rule a.exact)

def floor : Number → Except Failure Int := toInt Rat.floor
def ceil : Number → Except Failure Int := toInt Rat.ceil

/-- The integer nearest to a number; of two, the even one. -/
def nearestInt : Number → Except Failure Int := toInt Binary64.nearestEven

/-- The exact rational, for the numbers that have one. -/
def toRat : Number → Except Failure Rat
  | approx .nan => .error .notANumber
  | approx (.infinite _) => .error .overflow
  | a => .ok a.exact

/-- The text of a number. A ratio that is whole is written like a whole number. -/
def text : Number → String
  | whole n => toString n
  | ratio q => if q.den = 1 then toString q.num else toString q.num ++ "/" ++ toString q.den
  | approx x => x.text

end Number
end LeadSheet
