import LeadSheet.Number.PowerOfTwo

/-!
The arithmetic in which positions and lengths in time are reckoned. A song is written over any
such arithmetic: over `Number` it computes what a player hears, over `Rat` it obeys the laws of
exact time.
-/
namespace LeadSheet

/-- The operations on beats that songs and accompaniments need. They fail where a number is too
large for its kind or a divisor is zero. -/
class Timebase (α : Type) where
  ofInt : Int → α
  /-- the value of a number -/
  ofNumber : Number → Except Failure α
  /-- the value nearest to a rational -/
  ofRat : Rat → Except Failure α
  /-- two to a power -/
  twoPow : Number → Except Failure α
  add : α → α → Except Failure α
  sub : α → α → Except Failure α
  mul : α → α → Except Failure α
  div : α → α → Except Failure α
  /-- the floor of a quotient -/
  floorDiv : α → α → Except Failure α
  lt : α → α → Bool
  le : α → α → Bool
  isZero : α → Bool
  floor : α → Except Failure Int
  ceil : α → Except Failure Int
  /-- the rational that a value stands for -/
  exact : α → Rat

namespace Timebase
variable {α : Type} [Timebase α]

/-- The distance of two positions. -/
def distance (a b : α) : Except Failure α := do
  let d ← sub a b
  if lt d (ofInt 0) then sub (ofInt 0) d else return d

/-- The smaller of two values, the first when neither is. -/
def least (a b : α) : α := if lt b a then b else a

/-- The greater of two values, the first when neither is. -/
def greatest (a b : α) : α := if lt a b then b else a

/-- How many steps of a length fit into a span, with room for steps that rounding shortens. -/
def stepBound (span step : Rat) : Nat :=
  if step ≤ 0 then 0 else 2 * (span / step).ceil.toNat + 2

end Timebase

instance : Timebase Number where
  ofInt := .whole
  ofNumber := .ok
  ofRat q := return .approx (← Number.nearest q)
  twoPow := Number.twoPow
  add := Number.add
  sub := Number.sub
  mul := Number.mul
  div := Number.div
  floorDiv := Number.floorDiv
  lt := Number.lt
  le := Number.le
  isZero := Number.isZero
  floor := Number.floor
  ceil := Number.ceil
  exact := Number.exact

instance : Timebase Rat where
  ofInt n := n
  ofNumber := Number.toRat
  ofRat := .ok
  twoPow
    | .whole n => .ok (2 ^ n)
    | x => do (← x.twoPow).toRat
  add a b := .ok (a + b)
  sub a b := .ok (a - b)
  mul a b := .ok (a * b)
  div a b := if b = 0 then .error .divisionByZero else .ok (a / b)
  floorDiv a b := if b = 0 then .error .divisionByZero else .ok (a / b).floor
  lt a b := a < b
  le a b := a ≤ b
  isZero a := a = 0
  floor a := .ok a.floor
  ceil a := .ok a.ceil
  exact a := a

end LeadSheet
