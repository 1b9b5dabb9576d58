import LeadSheet.Data.Basic
import LeadSheet.Number.Timebase

/-!
Ticks and note lengths. Positions are reckoned in ticks, 48 to the beat, exactly; what a listener
sees are beats, rounded once. A length multiplier is a whole number or a ratio, one being the
default length.
-/
namespace LeadSheet.Ticks

/-- Ticks in a beat. -/
def perBeat : Rat := 48

/-- Beats in a measure when no time signature is given. -/
def defaultBeats : Int := 4

/-- The multiplier of dots: each adds half of what the one before it added. -/
def dotted (dots : Int) : Except Failure Rat :=
  if dots < 0 then .error .negativeDots
  else
    let parts : Nat := Nat.pow 2 dots.toNat
    .ok (mkRat (2 * parts - 1) parts)

/-- The integer nearest to a number of ticks; halves are rounded up. -/
def round (ticks : Number) : Except Failure Int := do (← ticks.add (.ratio (1 / 2))).floor

/-- The ticks in a number of beats, which may be written in a text. -/
def ofBeats (beats : Datum) : Except Failure Rat := do return (← beats.readRat) * perBeat

/-- The beats in a number of ticks. -/
def toBeats {α : Type} [Timebase α] (ticks : Rat) : Except Failure α :=
  Timebase.ofRat (ticks / perBeat)

/-- One step up from a multiplier. With `doubling` only powers of two are used. -/
def stepUp (doubling : Bool) (n : Number) : Except Failure Number :=
  if doubling then n.mul 2 else n.add 1

/-- One step down from a multiplier. -/
def stepDown (doubling : Bool) (n : Number) : Except Failure Number :=
  if doubling then n.floorDiv 2 else n.sub 1

/-- One divided by an integer. -/
def unitFraction (n : Number) : Except Failure Number := do
  if n.isZero then throw .divisionByZero else return .ratio (1 / (← n.toRat))

/-- The multiplier one step longer or shorter; none is the default length. The steps go through
1/3, 1/2, the default, 2, 3 and so on, or through the powers of two among these. -/
def step (current : Option Number) (longer doubling : Bool) : Except Failure (Option Number) := do
  let n := current.getD 1
  if n.same 1 then return some (if longer then 2 else .ratio (1 / 2))
  else if Number.le 2 n then
    if longer then return some (← stepUp doubling n)
    let down ← stepDown doubling n
    return if Number.lt 1 down then some down else none
  else
    let q ← n.toRat
    if q = 0 then throw .divisionByZero
    let divisor : Number := .whole (Binary64.nearestEven (1 / q))
    if longer then
      let down ← stepDown doubling divisor
      if Number.lt 1 down then return some (← unitFraction down) else return none
    else return some (← unitFraction (← stepUp doubling divisor))

/-- The multiplier after a step by a number: longer if the number is positive, else shorter. -/
def stepBy (current : Option Number) (delta : Number) (doubling : Bool) :
    Except Failure (Option Number) :=
  step current (Number.lt 0 delta) doubling

end LeadSheet.Ticks
